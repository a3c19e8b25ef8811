import Swarmy.Disk.Format

/-!
# What a format leaves alone

A format runs `mkfs` on nothing but what the gate and the script saw to be blank.  Disks
that are formatted one after the other keep their mounts and their fstab lines as long as
no later one has the mountpoint of an earlier one, or one whose pattern matches its line.
-/

namespace Swarmy.Disk

open Machine

/-! ## What a format promises -/

/-- What the fresh probe shows of the disk that is formatted. -/
structure ShownBlank (deps : Deps) (m : FormatMove) : Prop where
  disk : ∃ d ∈ (parseDiskProbe deps.parseLsblk m.out).devices, IsBlank d ∧
    d.devPath = m.payload.path ∧ d.trimmedSerial = some m.payload.serial ∧
    d.columns.size = m.payload.sizeBytes
  wipefs : ∃ text, sectionOf m.out "__SWARMY_WIPEFS__" ["__SWARMY_BLKID__"] = some text ∧
    Js.trim text = ""
  blkid : blkidStatus m.out = some "2"
  typed : deps.toUpperCase (Js.trim m.payload.typedConfirmation) =
    deps.toUpperCase (lastFour m.payload.serial)

/-- What the script sees of it right before `mkfs`. -/
def BlankNow (h : Host) (p : FormatDiskPayload) : Prop :=
  ∃ d, h.devices.lookup p.path = some d ∧ d.serial = Js.trim p.serial ∧ d.size = p.sizeBytes ∧
    h.isMounted p.path d = false ∧ d.children = [] ∧ d.wipefs = "" ∧ d.blkid = false

/-- A formatted disk is seen at its mountpoint, and has its line in the fstab. -/
def Kept (h : Host) (f : FormatDiskResult) : Prop :=
  h.mountedAt f.mountpoint = some f.path ∧ fstabLine f.uuid f.mountpoint ∈ h.fstab

/-- `mkfs` runs on a blank disk that was confirmed, and in every run of allowed formats every
disk is kept. -/
structure FormatsSafely (deps : Deps) (ok : World → FormatMove → Prop) : Prop where
  made : ∀ (w : World) (m : FormatMove), (w.formatDisk deps m).made = w.made ∨
    (w.formatDisk deps m).made = m.payload.path :: w.made ∧ ShownBlank deps m ∧
      BlankNow w.host m.payload
  kept : ∀ host w, Reach (World.step deps) ok (World.fresh host) w →
    ∀ f ∈ w.formatted, Kept w.host f

/-! ## When it holds -/

/-- The mountpoint of the disk is not that of an earlier one, and its pattern, where `sed`
runs, matches no line of an earlier one. -/
def Apart (w : World) (m : FormatMove) : Prop :=
  ∀ f ∈ w.formatted, ∀ mnt, diskMountpoint m.payload.serial = .ok mnt →
    f.mountpoint ≠ mnt ∧ (m.run.sed = true → deletes mnt (fstabLine f.uuid f.mountpoint) = false)

/-- After any run of such formats, a completed format that is no such one costs an earlier
disk its mount or its line. -/
def LosesOtherwise (deps : Deps) : Prop :=
  ∀ host w, Reach (World.step deps) Apart (World.fresh host) w → ∀ m, ¬ Apart w m →
    (w.formatDisk deps m).formatted ≠ w.formatted →
      ∃ f ∈ w.formatted, ¬ Kept (w.formatDisk deps m).host f

/-! ## The gate -/

section

variable {deps : Deps} {h : Host} {w : World} {m : FormatMove} {mnt : String} {f : FormatDiskResult}
  {input : FormatInput} {r : FormatRun}

theorem trim_eq_empty {s : String} (hs : ∀ c ∈ (Js.trim s).toList, Js.isSpace c = true) :
    Js.trim s = "" := by
  unfold Js.trim at hs ⊢
  rw [String.toList_ofList] at hs
  generalize hrest : (s.toList.dropWhile Js.isSpace).reverse.dropWhile Js.isSpace = rest at hs
  cases rest with
  | nil => rfl
  | cons c rest =>
    have hc := List.head?_dropWhile_not Js.isSpace (s.toList.dropWhile Js.isSpace).reverse
    rw [hrest] at hc
    have hspace := hs c (by simp)
    simp [hspace] at hc

/-- What is not blank has a character to show for it. -/
theorem exists_of_trim {s : String} (hs : Js.trim s ≠ "") :
    ∃ c ∈ (Js.trim s).toList, Js.isSpace c = false := by
  by_contra hall
  refine hs (trim_eq_empty fun c hc => ?_)
  by_contra hspace
  exact hall ⟨c, hc, Bool.eq_false_iff.mpr hspace⟩

theorem all_of_dropWhile {p : Char → Bool} {l : List Char} (h : l.dropWhile p = []) :
    ∀ c ∈ l, p c = true := by
  induction l with
  | nil => exact fun c hc => by cases hc
  | cons c l ih =>
    rw [List.dropWhile_cons] at h
    split at h
    next hp =>
      intro c' hc'
      rcases List.mem_cons.mp hc' with rfl | hc'
      · exact hp
      · exact ih h c' hc'
    · cases h

theorem not_blank {s : String} {c : Char} (hc : c ∈ s.toList) (hspace : Js.isSpace c = false) :
    Js.trim s ≠ "" := by
  intro hs
  have hnil := congrArg String.toList hs
  rw [Js.trim, String.toList_ofList] at hnil
  have hrest := all_of_dropWhile (List.reverse_eq_nil_iff.mp hnil)
  rw [← List.takeWhile_append_dropWhile (p := Js.isSpace) (l := s.toList)] at hc
  rcases List.mem_append.mp hc with hc | hc
  · have hall := List.all_eq_true.mp (List.all_takeWhile (p := Js.isSpace) (l := s.toList)) c hc
    exact absurd (hall.symm.trans hspace) (by decide)
  · exact absurd ((hrest c (List.mem_reverse.mpr hc)).symm.trans hspace) (by decide)

theorem mem_join {a b : String} {c : Char} (ha : a ≠ "") (hc : c ∈ a.toList) :
    c ∈ ("\n".intercalate ([a, b].filter (· ≠ ""))).toList ∧
    c ∈ ("\n".intercalate ([b, a].filter (· ≠ ""))).toList := by
  have hone : "\n".intercalate [a] = a := rfl
  have htwo : ∀ x y : String, "\n".intercalate [x, y] = x ++ "\n" ++ y := fun _ _ => rfl
  by_cases hb : b = "" <;> simp [ha, hb, hone, htwo, hc]

/-- No signature: `wipefs` printed nothing, and `blkid` found nothing. -/
theorem blank_of_signaturesOf {out wipefs : String} (h : Js.trim (signaturesOf out wipefs) = "") :
    Js.trim wipefs = "" ∧ blkidStatus out = some "2" := by
  unfold signaturesOf at h
  dsimp only at h
  constructor
  · by_contra hwipefs
    obtain ⟨c, hc, hspace⟩ := exists_of_trim hwipefs
    exact not_blank (mem_join hwipefs hc).1 hspace h
  · by_contra hrc
    rw [if_neg hrc] at h
    rcases hgiven : given (some (Js.trim ((sectionOf out "__SWARMY_BLKID__"
        ["__SWARMY_BLKID_RC__"]).getD ""))) with _ | hit
    · rw [hgiven, Option.getD_none] at h
      have hc : 'b' ∈ ("blkid -p exited " ++ (blkidStatus out).getD "without a status").toList := by
        rw [String.toList_append]
        exact List.mem_append_left _ (by decide)
      refine not_blank (mem_join (fun hnil => ?_) hc).2 (by decide) h
      rw [hnil] at hc
      cases hc
    · rw [hgiven, Option.getD_some] at h
      obtain ⟨hhit, hne⟩ := Option.filter_eq_some_iff.mp hgiven
      obtain rfl := Option.some.inj hhit
      obtain ⟨c, hc, hspace⟩ := exists_of_trim (of_decide_eq_true hne)
      exact not_blank (mem_join (of_decide_eq_true hne) hc).2 hspace h

/-- What the agent runs the script on. -/
theorem of_admitFormat (h : admitFormat deps m.payload m.out = some mnt) :
    ShownBlank deps m ∧ diskMountpoint m.payload.serial = .ok mnt := by
  unfold admitFormat at h
  dsimp only at h
  split at h
  · split at h
    · cases h
    · split at h
      next hgate =>
        obtain ⟨hdisk, hsig, htyped⟩ := of_formatGate hgate
        have hmnt : diskMountpoint m.payload.serial = .ok mnt := by
          unfold renderFormatScript at h
          dsimp only at h
          split at h
          · split at h
            · cases h
            · cases hm : diskMountpoint m.payload.serial with
              | error e =>
                rw [hm] at h
                cases h
              | ok mnt' =>
                rw [hm] at h
                cases hl : swarmyFsLabel m.payload.serial with
                | error e =>
                  simp only [Except.bind, hl] at h
                  cases h
                | ok label =>
                  simp only [Except.bind, hl] at h
                  exact congrArg Except.ok (Option.some.inj h)
          · cases h
        refine ⟨?_, hmnt⟩
        cases hsection : sectionOf m.out "__SWARMY_WIPEFS__" ["__SWARMY_BLKID__"] with
        | none =>
          rw [parseDiskProbe, hsection] at hsig
          exact absurd (show Js.trim "the signature probe did not run" = "" from hsig)
            (by decide)
        | some text =>
          rw [parseDiskProbe, hsection] at hsig
          obtain ⟨hwipefs, hblkid⟩ := blank_of_signaturesOf hsig
          exact ⟨hdisk, ⟨text, hsection, hwipefs⟩, hblkid, htyped⟩
      · cases h
  · cases h

/-! ## The script -/

theorem blankNow_of_formatChecks {p : FormatDiskPayload}
    (hc : formatChecks h ⟨p.path, p.serial, p.sizeBytes⟩ mnt r = none) : BlankNow h p := by
  unfold formatChecks at hc
  split at hc
  · cases hc
  split at hc
  · cases hc
  next d hd =>
    split at hc
    · cases hc
    next hserial =>
      split at hc
      · cases hc
      next hsize =>
        split at hc
        · cases hc
        next hmounted =>
          split at hc
          · cases hc
          next hchildren =>
            split at hc
            · cases hc
            next hsig =>
              rw [not_or] at hsig
              exact ⟨d, hd, not_not.mp hserial, not_not.mp hsize, Bool.eq_false_iff.mpr hmounted,
                not_not.mp hchildren, not_not.mp hsig.1, Bool.eq_false_iff.mpr hsig.2⟩

/-- What the script may have done to the mounts and the fstab by the time it ends. -/
inductive Touched (h : Host) (path mnt : String) (r : FormatRun) (h' : Host) : ScriptEnd → Prop
  | nothing {e : ScriptEnd} : h'.mounts = h.mounts → h'.fstab = h.fstab →
      (∀ uuid, e ≠ .formatted uuid) → Touched h path mnt r h' e
  | mounted {e : ScriptEnd} : h'.mounts = ⟨mnt, path⟩ :: h.mounts →
      h'.fstab = h.fstab ∨ h'.fstab = (if r.sed then h.fstab.filter (!deletes mnt ·) else h.fstab) →
      (∀ uuid, e ≠ .formatted uuid) → Touched h path mnt r h' e
  | written {e : ScriptEnd} : h'.mounts = ⟨mnt, path⟩ :: h.mounts →
      h'.fstab = (if r.sed then h.fstab.filter (!deletes mnt ·) else h.fstab) ++
        [fstabLine r.uuid mnt] →
      (∀ uuid, e = .formatted uuid → uuid = r.uuid) → Touched h path mnt r h' e

theorem touched_mountDisk : Touched h input.path mnt r
    (mountDisk (h.setSignature input.path) input mnt r).1
    (mountDisk (h.setSignature input.path) input mnt r).2 := by
  unfold mountDisk
  dsimp only
  split
  · split
    · split
      · refine .written rfl rfl fun uuid he => ?_
        dsimp only at he
        split at he
        · exact (ScriptEnd.formatted.inj he).symm
        · cases he
      · exact .mounted rfl (.inr rfl) fun uuid he => by cases he
    · exact .mounted rfl (.inl rfl) fun uuid he => by cases he
  · exact .nothing rfl rfl fun uuid he => by cases he

theorem touched_makeDisk (h : Host) (input : FormatInput) (mnt : String) (r : FormatRun) :
    Touched h input.path mnt r (makeDisk h input mnt r).1
    (makeDisk h input mnt r).2 := by
  unfold makeDisk
  dsimp only
  split
  · split
    · exact .nothing rfl rfl fun uuid he => by cases he
    · split
      · exact touched_mountDisk
      · exact .nothing rfl rfl fun uuid he => by cases he
  · exact .nothing rfl rfl fun uuid he => by cases he

/-- What a format is: refused before `mkfs`, or run on a disk that was shown to be blank. -/
inductive Formats (deps : Deps) (w : World) (m : FormatMove) (w' : World) : Prop
  | refused : w'.host = w.host → w'.formatted = w.formatted → w'.made = w.made →
      Formats deps w m w'
  | ran (mnt : String) (e : ScriptEnd) : ShownBlank deps m → BlankNow w.host m.payload →
      diskMountpoint m.payload.serial = .ok mnt → w'.made = m.payload.path :: w.made →
      Touched w.host m.payload.path mnt m.run w'.host e →
      w'.formatted = (match e with
        | .formatted uuid => ⟨m.payload.path, m.payload.serial, mnt, uuid⟩ :: w.formatted
        | .err _ | .failed => w.formatted) → Formats deps w m w'

theorem formats_formatDisk (deps : Deps) (w : World) (m : FormatMove) :
    Formats deps w m (w.formatDisk deps m) := by
  unfold World.formatDisk
  cases hadmit : admitFormat deps m.payload m.out with
  | none => exact .refused rfl rfl rfl
  | some mnt =>
    obtain ⟨hshown, hmnt⟩ := of_admitFormat hadmit
    dsimp only
    unfold runFormatScript
    cases hchecks : formatChecks w.host
        ⟨m.payload.path, m.payload.serial, m.payload.sizeBytes⟩ mnt m.run with
    | some message => exact .refused rfl rfl rfl
    | none =>
      refine .ran mnt _ hshown (blankNow_of_formatChecks hchecks) hmnt rfl ?_ rfl
      exact touched_makeDisk w.host
        ⟨m.payload.path, m.payload.serial, m.payload.sizeBytes⟩ mnt m.run

/-! ## The fstab -/

theorem idChar_isIdChar {c c' : Char} (h : c' ∈ idChar c) : isIdChar c' = true := by
  unfold idChar at h
  split at h
  next hc => rwa [List.mem_singleton.mp h]
  · split at h
    · rw [List.mem_singleton.mp h]
      decide
    · simp only [List.mem_cons, List.not_mem_nil, or_false, or_self] at h
      rw [h]
      decide

theorem diskId_isIdChar {serial id : String} (h : diskId serial = .ok id) :
    ∀ c ∈ id.toList, isIdChar c = true := by
  unfold diskId at h
  dsimp only at h
  split at h
  · obtain rfl := Except.ok.inj h
    exact List.all_eq_true.mp (by decide)
  · split at h
    · cases h
    · obtain rfl := Except.ok.inj h
      rw [String.toList_ofList]
      intro c hc
      obtain ⟨c', -, hmem⟩ := List.mem_flatMap.mp
        ((List.dropWhile_sublist _).mem (List.mem_of_mem_take hc))
      exact idChar_isIdChar hmem

/-- A mountpoint is one word. -/
theorem diskMountpoint_noSpace {serial : String} (h : diskMountpoint serial = .ok mnt) :
    ∀ c ∈ mnt.toList, c ≠ ' ' := by
  cases hid : diskId serial with
  | error e =>
    rw [diskMountpoint, hid] at h
    cases h
  | ok id =>
    rw [diskMountpoint, hid] at h
    obtain rfl := Except.ok.inj h
    rw [String.toList_append]
    intro c hc
    rcases List.mem_append.mp hc with hc | hc
    · have hall : SWARMY_DISK_ROOT.toList.all (· ≠ ' ') = true := by decide
      exact of_decide_eq_true (List.all_eq_true.mp hall c hc)
    · rintro rfl
      exact absurd (diskId_isIdChar hid _ hc) (by decide)

theorem takeWhile_reverse {a m : List Char} (hm : ∀ c ∈ m, c ≠ ' ') :
    (a ++ ' ' :: m).reverse.takeWhile (· ≠ ' ') = m.reverse := by
  rw [List.reverse_append, List.reverse_cons, List.append_assoc,
    List.takeWhile_append_of_pos fun c hc => decide_eq_true (hm c (List.mem_reverse.mp hc)),
    List.singleton_append, List.takeWhile_cons_of_neg (by decide), List.append_nil]

/-- Lines that are equal have equal mountpoints. -/
theorem mnt_of_fstabLine {uuid uuid' mnt' : String} (hm : ∀ c ∈ mnt.toList, c ≠ ' ')
    (hm' : ∀ c ∈ mnt'.toList, c ≠ ' ') (heq : fstabLine uuid mnt = fstabLine uuid' mnt') :
    mnt = mnt' := by
  have hlist : ("UUID=" ++ uuid).toList ++ ' ' :: mnt.toList =
      ("UUID=" ++ uuid').toList ++ ' ' :: mnt'.toList := by
    have htoList := congrArg String.toList heq
    unfold fstabLine at htoList
    simp only [String.toList_append, List.append_cancel_right_eq] at htoList
    have hspace : " ".toList = [' '] := rfl
    simpa only [String.toList_append, List.append_assoc, hspace,
      List.singleton_append] using htoList
  have hword := congrArg (fun l : List Char => l.reverse.takeWhile (· ≠ ' ')) hlist
  rw [takeWhile_reverse hm, takeWhile_reverse hm'] at hword
  exact String.toList_inj.mp (List.reverse_inj.mp hword)

/-! ## Runs -/

theorem mountedAt_cons {dev dir : String} {ms : List Mount} (hms : h.mounts = ⟨dir, dev⟩ :: ms)
    {dir' : String} : h.mountedAt dir' =
      if dir = dir' then some dev else (ms.find? (·.dir = dir')).map (·.dev) := by
  unfold Host.mountedAt
  rw [hms, List.find?_cons]
  by_cases hd : dir = dir' <;> simp [hd]

theorem kept_of_mounted {h' : Host} {path : String} (hf : Kept h f) (hne : f.mountpoint ≠ mnt)
    (hmounts : h'.mounts = ⟨mnt, path⟩ :: h.mounts)
    (hline : fstabLine f.uuid f.mountpoint ∈ h'.fstab) : Kept h' f := by
  refine ⟨?_, hline⟩
  rw [mountedAt_cons hmounts, if_neg fun heq => hne heq.symm]
  exact hf.1

/-- A format that is apart keeps the disks before it. -/
theorem kept_formatDisk (hkept : ∀ f ∈ w.formatted, Kept w.host f) (hok : Apart w m) :
    ∀ f ∈ (w.formatDisk deps m).formatted, Kept (w.formatDisk deps m).host f := by
  cases formats_formatDisk deps w m with
  | refused hhost hformatted _ =>
    rw [hhost, hformatted]
    exact hkept
  | ran mnt e _ _ hmnt _ htouched hformatted =>
    have hold : ∀ f ∈ w.formatted, Kept (w.formatDisk deps m).host f := by
      intro f hf
      obtain ⟨hne, hsed⟩ := hok f hf mnt hmnt
      have hfilter : fstabLine f.uuid f.mountpoint ∈
          if m.run.sed = true then w.host.fstab.filter (!deletes mnt ·) else w.host.fstab := by
        split
        next hrun => exact List.mem_filter.mpr ⟨(hkept f hf).2, by rw [hsed hrun]; rfl⟩
        · exact (hkept f hf).2
      cases htouched with
      | nothing hmounts hfstab _ =>
        unfold Kept Host.mountedAt
        rw [hmounts, hfstab]
        exact hkept f hf
      | mounted hmounts hfstab _ =>
        refine kept_of_mounted (hkept f hf) hne hmounts ?_
        rcases hfstab with hfstab | hfstab
        · rw [hfstab]
          exact (hkept f hf).2
        · rw [hfstab]
          exact hfilter
      | written hmounts hfstab _ =>
        refine kept_of_mounted (hkept f hf) hne hmounts ?_
        rw [hfstab]
        exact List.mem_append_left _ hfilter
    rw [hformatted]
    cases e with
    | err message => exact hold
    | failed => exact hold
    | formatted uuid =>
      intro f hf
      rcases List.mem_cons.mp hf with rfl | hf
      · cases htouched with
        | nothing _ _ hne => exact absurd rfl (hne uuid)
        | mounted _ _ hne => exact absurd rfl (hne uuid)
        | written hmounts hfstab huuid =>
          refine ⟨(mountedAt_cons hmounts).trans (if_pos rfl), ?_⟩
          rw [hfstab, huuid uuid rfl]
          exact List.mem_append_right _ (List.mem_singleton_self _)
      · exact hold f hf

/-- What is known of a disk that was formatted. -/
theorem mountpoint_formatDisk (hold : ∀ f ∈ w.formatted, diskMountpoint f.serial = .ok f.mountpoint)
    : ∀ f ∈ (w.formatDisk deps m).formatted, diskMountpoint f.serial = .ok f.mountpoint := by
  cases formats_formatDisk deps w m with
  | refused _ hformatted _ =>
    rw [hformatted]
    exact hold
  | ran mnt e _ _ hmnt _ _ hformatted =>
    rw [hformatted]
    cases e with
    | err message => exact hold
    | failed => exact hold
    | formatted uuid =>
      intro f hf
      rcases List.mem_cons.mp hf with rfl | hf
      · exact hmnt
      · exact hold f hf

/-- A completed format that is not apart. -/
theorem loses_formatDisk (hkept : ∀ f ∈ w.formatted, Kept w.host f)
    (hmounts : ∀ f ∈ w.formatted, diskMountpoint f.serial = .ok f.mountpoint)
    (hapart : ¬ Apart w m) (hdone : (w.formatDisk deps m).formatted ≠ w.formatted) :
    ∃ f ∈ w.formatted, ¬ Kept (w.formatDisk deps m).host f := by
  obtain ⟨f, hapart⟩ := Classical.not_forall.mp hapart
  obtain ⟨hf, hapart⟩ := Classical.not_imp.mp hapart
  obtain ⟨mnt, hapart⟩ := Classical.not_forall.mp hapart
  obtain ⟨hmnt, hapart⟩ := Classical.not_imp.mp hapart
  refine ⟨f, hf, fun hkept' => hapart ?_⟩
  cases formats_formatDisk deps w m with
  | refused _ hformatted _ => exact absurd hformatted hdone
  | ran mnt' e _ hblank hmnt' _ htouched hformatted =>
    obtain rfl : mnt = mnt' := Except.ok.inj (hmnt.symm.trans hmnt')
    cases e with
    | err message => exact absurd hformatted hdone
    | failed => exact absurd hformatted hdone
    | formatted uuid =>
      cases htouched with
      | nothing _ _ hne => exact absurd rfl (hne uuid)
      | mounted _ _ hne => exact absurd rfl (hne uuid)
      | written hnew hfstab _ =>
        have hne : f.mountpoint ≠ mnt := by
          intro heq
          -- the earlier disk is mounted, the one that is formatted is not
          obtain ⟨d, -, -, -, hfree, -⟩ := hblank
          have hseen := hkept'.1
          rw [mountedAt_cons hnew, if_pos heq.symm] at hseen
          obtain ⟨mount, hmount, hdev⟩ := Option.map_eq_some_iff.mp (hkept f hf).1
          have hany : w.host.isMounted m.payload.path d = true :=
            List.any_eq_true.mpr ⟨mount, List.mem_of_find?_eq_some hmount, decide_eq_true
              (List.mem_cons.mpr (.inl (hdev.trans (Option.some.inj hseen).symm)))⟩
          exact absurd (hfree.symm.trans hany) (by decide)
        refine ⟨hne, fun hrun => Bool.eq_false_iff.mpr fun hdeleted => ?_⟩
        have hline := hkept'.2
        rw [hfstab, if_pos hrun] at hline
        rcases List.mem_append.mp hline with hline | hline
        · have hstays := (List.mem_filter.mp hline).2
          rw [hdeleted] at hstays
          cases hstays
        · exact hne (mnt_of_fstabLine (diskMountpoint_noSpace (hmounts f hf))
            (diskMountpoint_noSpace hmnt) (List.mem_singleton.mp hline))

end

/-- `mkfs` runs on blank disks, and formats that are apart, and no others, keep the disks
before them. -/
theorem formatsSafely_apart (deps : Deps) : FormatsSafely deps Apart ∧ LosesOtherwise deps := by
  have hinv : ∀ host (w : World), Reach (World.step deps) Apart (World.fresh host) w →
      (∀ f ∈ w.formatted, Kept w.host f) ∧
        ∀ f ∈ w.formatted, diskMountpoint f.serial = .ok f.mountpoint := by
    refine fun host w h => h.induct
      (I := fun w => (∀ f ∈ w.formatted, Kept w.host f) ∧
        ∀ f ∈ w.formatted, diskMountpoint f.serial = .ok f.mountpoint) ⟨fun f hf =>
          (by cases hf), fun f hf => (by cases hf)⟩ ?_
    intro w m w' hI hok hs
    obtain rfl := Option.some.inj hs
    exact ⟨kept_formatDisk hI.1 hok, mountpoint_formatDisk hI.2⟩
  refine ⟨⟨fun w m => ?_, fun host w h => (hinv host w h).1⟩, fun host w h m hapart hdone =>
    loses_formatDisk (hinv host w h).1 (hinv host w h).2 hapart hdone⟩
  cases formats_formatDisk deps w m with
  | refused _ _ hmade => exact .inl hmade
  | ran mnt e hshown hblank _ hmade _ _ => exact .inr ⟨hmade, hshown, hblank⟩

/-! ## Two serials with one id -/

/-- Numbers are whole, and texts in ASCII. -/
def plainDeps : Deps where
  toUpperCase s := String.ofList (s.toList.map Char.toUpper)
  parseLsblk := parseLsblk fun digits => .int (Nat.ofDigitChars 10 digits 0)
  override := none

/-- A server with two empty disks. -/
def twoDisksHost : Host where
  privateNamespace := false
  devices := [("/dev/sdb", ⟨"WD 0001", 10737418240, [], "", false⟩),
    ("/dev/sdc", ⟨"WD_0001", 10737418240, [], "", false⟩)]
  mounts := []
  fstab := []
  bare := []

/-- A confirmed format of one of them. -/
def confirmed (path serial uuid probe : String) : FormatMove where
  payload := ⟨path, serial, 10737418240, "0001", some true⟩
  out := probe
  run := ⟨true, true, uuid, true, true, true, true, true, true⟩

/-- The probe shows two empty disks. -/
def firstFormat : FormatMove :=
  confirmed "/dev/sdb" "WD 0001" "u1"
    ("__SWARMY_LSBLK__\n\x7b\"blockdevices\":[\x7b\"name\":\"sdb\",\"size\":10737418240," ++
      "\"type\":\"disk\",\"serial\":\"WD 0001\"\x7d,\x7b\"name\":\"sdc\"," ++
      "\"size\":10737418240,\"type\":\"disk\",\"serial\":\"WD_0001\"\x7d]\x7d\n__SWARMY_DF__\n" ++
      "__SWARMY_FSPROBE__\n__SWARMY_WIPEFS__\n__SWARMY_BLKID__\n__SWARMY_BLKID_RC__ 2\n")

/-- The probe shows the first disk mounted, and the other still empty. -/
def secondFormat : FormatMove :=
  confirmed "/dev/sdc" "WD_0001" "u2"
    ("__SWARMY_LSBLK__\n\x7b\"blockdevices\":[\x7b\"name\":\"sdb\",\"size\":10737418240," ++
      "\"type\":\"disk\",\"serial\":\"WD 0001\",\"fstype\":\"ext4\"," ++
      "\"mountpoints\":[\"/var/lib/swarmy/disks/WD_0001\"]\x7d,\x7b\"name\":\"sdc\"," ++
      "\"size\":10737418240,\"type\":\"disk\",\"serial\":\"WD_0001\"\x7d]\x7d\n__SWARMY_DF__\n" ++
      "__SWARMY_FSPROBE__\n__SWARMY_WIPEFS__\n__SWARMY_BLKID__\n__SWARMY_BLKID_RC__ 2\n")

theorem getD_map_ofList {α : Type} (o : Option α) (f : α → List Char) :
    (o.map fun x => String.ofList (f x)).getD "" = String.ofList ((o.map f).getD []) := by
  cases o <;> rfl

theorem trim_ofList (cs : List Char) : Js.trim (String.ofList cs) =
    String.ofList ((cs.dropWhile Js.isSpace).reverse.dropWhile Js.isSpace).reverse := by
  rw [Js.trim, String.toList_ofList]

theorem append_ofList {s t : String} {cs ds : List Char} (hs : s = String.ofList cs)
    (ht : t = String.ofList ds) : s ++ t = String.ofList (cs ++ ds) := by
  rw [hs, ht, String.ofList_append]

/-- The characters of a probe are read as a list: to decode a text takes long. -/
theorem admitFormat_of_chars {m : FormatMove} {cs : List Char} {mnt : Option String}
    (hout : m.out = String.ofList cs)
    (h : ∀ out, out = cs → admitFormat plainDeps m.payload (String.ofList out) = mnt) :
    admitFormat plainDeps m.payload m.out = mnt :=
  hout ▸ h cs rfl

set_option maxRecDepth 8000 in
theorem admit_firstFormat : admitFormat plainDeps firstFormat.payload firstFormat.out =
    some "/var/lib/swarmy/disks/WD_0001" := by
  refine admitFormat_of_chars (append_ofList (append_ofList (append_ofList
    rfl rfl) rfl) rfl) fun out hout => ?_
  unfold admitFormat parseDiskProbe signaturesOf
  simp only [blkidStatus, errorOf, sectionOf, plainDeps, parseLsblk, Js.Json.parse,
    getD_map_ofList, trim_ofList, String.toList_ofList]
  subst hout
  decide +kernel

set_option maxRecDepth 8000 in
theorem admit_secondFormat : admitFormat plainDeps secondFormat.payload secondFormat.out =
    some "/var/lib/swarmy/disks/WD_0001" := by
  refine admitFormat_of_chars (append_ofList (append_ofList (append_ofList (append_ofList
    rfl rfl) rfl) rfl) rfl) fun out hout => ?_
  unfold admitFormat parseDiskProbe signaturesOf
  simp only [blkidStatus, errorOf, sectionOf, plainDeps, parseLsblk, Js.Json.parse,
    getD_map_ofList, trim_ofList, String.toList_ofList]
  subst hout
  decide +kernel

/-- A format that is let through at the mountpoint of both disks. -/
def World.runScript (w : World) (m : FormatMove) : World :=
  w.after m.payload "/var/lib/swarmy/disks/WD_0001"
    (runFormatScript w.host ⟨m.payload.path, m.payload.serial, m.payload.sizeBytes⟩
      "/var/lib/swarmy/disks/WD_0001" m.run)

theorem step_runScript {w : World} {m : FormatMove}
    (h : admitFormat plainDeps m.payload m.out = some "/var/lib/swarmy/disks/WD_0001") :
    w.step plainDeps m = some (w.runScript m) := by
  rw [World.step, World.formatDisk, h]
  rfl

/-- The second is mounted over the first, and the line of the first is gone. -/
theorem formatsSafely_oneId : ¬ ∀ deps, FormatsSafely deps fun _ _ => True := by
  intro h
  let w := ((World.fresh twoDisksHost).runScript firstFormat).runScript secondFormat
  have hformatted : w.formatted =
      [⟨"/dev/sdc", "WD_0001", "/var/lib/swarmy/disks/WD_0001", "u2"⟩,
        ⟨"/dev/sdb", "WD 0001", "/var/lib/swarmy/disks/WD_0001", "u1"⟩] := by
    decide +kernel
  have hseen : w.host.mountedAt "/var/lib/swarmy/disks/WD_0001" = some "/dev/sdc" := by
    decide +kernel
  have hreach : Reach (World.step plainDeps) (fun _ _ => True) (World.fresh twoDisksHost) w :=
    (Reach.refl.tail firstFormat trivial (step_runScript admit_firstFormat)).tail secondFormat
      trivial (step_runScript admit_secondFormat)
  have hkept := (h plainDeps).kept twoDisksHost w hreach
    ⟨"/dev/sdb", "WD 0001", "/var/lib/swarmy/disks/WD_0001", "u1"⟩ (by rw [hformatted]; simp)
  exact absurd (hseen.symm.trans hkept.1) (by decide)

end Swarmy.Disk
