import Swarmy.Disk.Repair

/-!
# What a repair keeps

Whatever command of the repair fails or is the last one, the files that were under the bare
mountpoint are on the root disk, at the mountpoint or set aside.  A script that fails says
where they are, as long as the warning that names the place is written.  A line that the
script puts into the fstab is true as long as the append writes all of it or stops short of
the mountpoint, and no command after it fails: the rollback takes the mount away, and leaves
the line.
-/

namespace Swarmy.Disk

open Machine List Option

/-! ## What a repair promises -/

/-- A line with the directory between two blanks. -/
def IsLineFor (mnt line : String) : Prop :=
  ∃ (a b : List Char) (s t : Char), Js.isSpace s = true ∧ Js.isSpace t = true ∧
    line.toList = a ++ s :: (mnt.toList ++ t :: b)

/-- The fstab has a line for the mountpoint. -/
def Listed (n : RepairNames) (h : RepairHost) : Prop :=
  ∃ line ∈ h.fstab.getD [], IsLineFor n.mnt line

/-- The host sees the disk at its mountpoint. -/
def HostMounted (n : RepairNames) (h : RepairHost) : Prop :=
  h.mntDev = some n.dev ∧ h.privateNamespace = false

/-- The files that were under the bare mountpoint are all on the root disk. -/
def FilesKept (h₀ : RepairHost) (r : Repair) : Prop :=
  ∀ f ∈ filesOf h₀.atMnt, f ∈ filesOf r.host.atMnt ∨ f ∈ filesOf r.host.atAside

/-- When the script has failed, they are seen where they were, or the script has said where
they are. -/
def FilesNamed (n : RepairNames) (h₀ : RepairHost) (r : Repair) : Prop :=
  r.pc = .rolledBack ∨ r.pc = .failed → ∀ f ∈ filesOf h₀.atMnt,
    f ∈ filesOf r.host.atMnt ∧ r.host.mntDev = h₀.mntDev ∨
    f ∈ filesOf r.host.atAside ∧ r.keptAt = some n.aside

/-- A line for the mountpoint that the fstab did not have stands for a mount. -/
def AddedMounted (n : RepairNames) (h₀ : RepairHost) (r : Repair) : Prop :=
  ∀ line ∈ r.host.fstab.getD [], IsLineFor n.mnt line →
    line ∈ h₀.fstab.getD [] ∨ HostMounted n r.host

/-- In every state of a run of allowed commands.  The last field is about the servers of
`start`, the others about all. -/
structure NoLoss (n : RepairNames) (onlyIfEmptyAndInFstab : Bool) (start : RepairHost → Prop)
    (ok : Repair → RepairMove → Prop) : Prop where
  kept : ∀ h₀ r, Reach (Repair.step n onlyIfEmptyAndInFstab) ok (.start h₀) r → FilesKept h₀ r
  named : ∀ h₀ r, Reach (Repair.step n onlyIfEmptyAndInFstab) ok (.start h₀) r →
    FilesNamed n h₀ r
  added : ∀ h₀ r, Reach (Repair.step n onlyIfEmptyAndInFstab) ok (.start h₀) r →
    AddedMounted n h₀ r
  mounted : ∀ h₀ r, Reach (Repair.step n onlyIfEmptyAndInFstab) ok (.start h₀) r →
    r.pc = .done → Listed n r.host ∧ HostMounted n r.host
  listed : ∀ h₀, start h₀ → ∀ r, Reach (Repair.step n onlyIfEmptyAndInFstab) ok (.start h₀) r →
    Listed n r.host → HostMounted n r.host

/-! ## When it holds -/

/-- A server whose fstab has no line for the mountpoint without a mount. -/
def Truthful (n : RepairNames) (h₀ : RepairHost) : Prop := Listed n h₀ → HostMounted n h₀

/-- The commands that must not fail: those between the line and the end of the trap, the
warning that names the place of the files and, where files were set aside, the report.  An
append may fail that has not written the mountpoint with a blank after it. -/
def Careful (n : RepairNames) (r : Repair) : RepairMove → Prop
  | .ok => True
  | .fail _ cut =>
    r.pc ≠ .volumes ∧ r.pc ≠ .rmWork ∧ r.pc ≠ .warnKept ∧ (r.pc = .report → r.asideDone = false) ∧
      (r.pc = .append → cut = 0 ∨ ¬ IsLineFor n.mnt (r.shortLine n cut))

/-- After any such run, a command that fails against the rule leads to a state in which a file
is not named or a line of the fstab has no mount. -/
def MisleadsOtherwise (n : RepairNames) (onlyIfEmptyAndInFstab : Bool) : Prop :=
  ∀ h₀ r, Reach (Repair.step n onlyIfEmptyAndInFstab) (Careful n) (.start h₀) r →
    ∀ m, ¬ Careful n r m → ∃ r' r'', Repair.step n onlyIfEmptyAndInFstab r m = some r' ∧
      Reach (Repair.step n onlyIfEmptyAndInFstab) (Careful n) r' r'' ∧
      (¬ FilesNamed n h₀ r'' ∨ Listed n r''.host ∧ ¬ HostMounted n r''.host)

/-! ## Where the files are -/

section

variable {n : RepairNames} {only : Bool} {h₀ : RepairHost} {r r' : Repair} {m : RepairMove}

/-- Nothing has been moved, made or mounted. -/
@[mk_iff]
structure Untouched (h₀ : RepairHost) (r : Repair) : Prop where
  atMnt : r.host.atMnt = h₀.atMnt
  mntDev : r.host.mntDev = h₀.mntDev
  asideDone : r.asideDone = false
  mntMade : r.mntMade = false
  realMounted : r.realMounted = false

/-- The files are aside, with nothing at the mountpoint, or were not touched. -/
@[mk_iff]
structure Placed (h₀ : RepairHost) (r : Repair) : Prop where
  aside : r.asideDone = true → r.host.atAside = h₀.atMnt ∧ filesOf r.host.atMnt = [] ∧
    filesOf h₀.atMnt ≠ [] ∧ h₀.mntDev = none
  here : r.asideDone = false → r.host.atMnt = h₀.atMnt ∨ filesOf h₀.atMnt = []
  made : r.asideDone = false → r.mntMade = true → filesOf h₀.atMnt = []
  seen : r.asideDone = false → r.host.mntDev = h₀.mntDev ∨ filesOf h₀.atMnt = []

/-- The mount, as the flag has it. -/
@[mk_iff]
structure Flagged (n : RepairNames) (h₀ : RepairHost) (r : Repair) : Prop where
  real : r.realMounted = true → h₀.mntDev = none ∧ r.host.mntDev = some n.dev
  bare : r.realMounted = false → r.host.mntDev = h₀.mntDev

/-- The files are seen where they were. -/
@[grind =] def Back (h₀ : RepairHost) (r : Repair) : Prop :=
  ∀ f ∈ filesOf h₀.atMnt, f ∈ filesOf r.host.atMnt ∧ r.host.mntDev = h₀.mntDev

/-- The files are aside. -/
@[mk_iff]
structure Aside (h₀ : RepairHost) (r : Repair) : Prop where
  atAside : r.host.atAside = h₀.atMnt
  bare : filesOf r.host.atMnt = []
  files : filesOf h₀.atMnt ≠ []

/-- Where they are, command by command. -/
@[grind =] def Stored (n : RepairNames) (h₀ : RepairHost) (r : Repair) : Prop :=
  match r.pc with
  | .checks => Untouched h₀ r
  | .onlyIf | .branch => Untouched h₀ r ∧ h₀.mntDev = none
  | .dropStale | .dropBak | .findRsync | .mktemp | .listSrc | .mkdirTmp | .mountTmp | .copy
  | .compare | .umountTmp | .rmdirTmp | .setAside =>
    Untouched h₀ r ∧ h₀.mntDev = none ∧ filesOf h₀.atMnt ≠ []
  | .mkdirMnt => Placed h₀ r ∧ Flagged n h₀ r ∧ r.asideDone = true ∧ r.realMounted = false
  | .makeMnt => Untouched h₀ r ∧ h₀.mntDev = none ∧ filesOf h₀.atMnt = []
  | .mount =>
    Placed h₀ r ∧ Flagged n h₀ r ∧ h₀.mntDev = none ∧
      (r.asideDone = false → filesOf h₀.atMnt = [])
  | .hostCheck | .sed | .sedBak | .append | .volumes | .rmWork | .report | .done | .failed =>
    Placed h₀ r ∧ Flagged n h₀ r ∧ r.realMounted = true
  | .undoMount => Placed h₀ r ∧ Flagged n h₀ r
  | .undoRmdir => Placed h₀ r
  | .undoMove => Aside h₀ r ∧ r.host.mntDev = h₀.mntDev
  | .warnKept => Aside h₀ r
  | .undoTmpMount | .undoTmp | .undoWork | .rolledBack => Back h₀ r ∨ Aside h₀ r

theorem Untouched.placed (h : Untouched h₀ r) : Placed h₀ r where
  aside := by simp [h.asideDone]
  here _ := .inl h.atMnt
  made := by simp [h.mntMade]
  seen _ := .inl h.mntDev

theorem Untouched.flagged (h : Untouched h₀ r) : Flagged n h₀ r where
  real := by simp [h.realMounted]
  bare _ := h.mntDev

/-- Files that were not set aside are where they were. -/
theorem Placed.back (h : Placed h₀ r) (haside : r.asideDone = false) : Back h₀ r := by
  intro f hf
  have hfiles : filesOf h₀.atMnt ≠ [] := ne_nil_of_mem hf
  have hat := (h.here haside).resolve_right hfiles
  exact ⟨hat ▸ hf, (h.seen haside).resolve_right hfiles⟩

theorem mntDev_of_checks {h : RepairHost} (hchecks : (repairChecks n h).isSome ≠ true) :
    h.mntDev = none := by
  by_contra hmnt
  have hsome : h.mntDev.isSome = true := isSome_iff_ne_none.mpr hmnt
  refine hchecks ?_
  simp only [repairChecks, hsome, if_true]
  repeat' split
  all_goals rfl

/-- A command that succeeds. -/
theorem stored_ok (h : Stored n h₀ r) (hstep : r.ok n only = some r') : Stored n h₀ r' := by
  rcases r with ⟨pc, host, tmpMade, tmpMounted, asideDone, mntMade, realMounted, work, src, keptAt⟩
  cases pc <;>
    simp only [Repair.ok, ite_none_left_eq_some, ite_none_right_eq_some,
      Option.some.injEq, reduceCtorEq] at hstep <;>
    simp only [Stored, untouched_iff, placed_iff, flagged_iff, aside_iff, Back] at h
  case checks =>
    obtain ⟨hchecks, rfl⟩ := hstep
    have hnone := mntDev_of_checks hchecks
    cases only <;> simp_all [Stored, untouched_iff, Repair.goto]
  case branch =>
    subst hstep
    have hfiles : hasFiles host.atMnt = !decide (filesOf h₀.atMnt = []) := by
      simp [hasFiles, h.1.1]
    have hnone : host.atMnt.isNone = true → filesOf h₀.atMnt = [] := by
      intro hat
      rw [← h.1.1, isNone_iff_eq_none.mp hat]
      rfl
    simp only [Repair.goto]
    split
    · simp_all [Stored, untouched_iff]
    · split <;> simp_all [Stored, untouched_iff, placed_iff, flagged_iff]
  case setAside =>
    subst hstep
    simp_all [Stored, placed_iff, flagged_iff, filesOf]
  case mkdirMnt =>
    subst hstep
    simp_all [Stored, placed_iff, flagged_iff, filesOf, Repair.setHost]
  case makeMnt =>
    subst hstep
    simp_all [Stored, placed_iff, flagged_iff, filesOf]
  case mount =>
    subst hstep
    simp_all [Stored, placed_iff, flagged_iff]
  case undoMount =>
    subst hstep
    split <;> simp_all [Stored, placed_iff, Repair.setHost, Repair.goto]
  case undoRmdir =>
    split at hstep
    case isTrue haside =>
      simp only [ite_none_right_eq_some, Option.some.injEq] at hstep
      obtain ⟨⟨hat, hdev⟩, rfl⟩ := hstep
      simp_all [Stored, aside_iff, filesOf, Repair.setHost]
    case isFalse haside =>
      split at hstep
      case isTrue hmade =>
        simp only [ite_none_right_eq_some, Option.some.injEq] at hstep
        obtain ⟨-, rfl⟩ := hstep
        simp_all [Stored, Back, Repair.setHost]
      case isFalse hmade =>
        obtain rfl := some.inj hstep
        exact .inl (Placed.back ((placed_iff _ _).mpr h) (Bool.eq_false_iff.mpr haside))
  case undoMove =>
    subst hstep
    refine .inl fun f hf => ?_
    exact ⟨by simpa [Repair.setHost, h.1.1] using hf, h.2⟩
  case warnKept =>
    subst hstep
    exact .inr ((aside_iff _ _).mpr h)
  case undoTmpMount =>
    subst hstep
    split <;> simpa [Stored, aside_iff, Back, Repair.setHost, Repair.goto] using h
  case undoTmp =>
    split at hstep
    · simp only [ite_none_right_eq_some, Option.some.injEq] at hstep
      obtain ⟨-, rfl⟩ := hstep
      simpa [Stored, aside_iff, Back, Repair.setHost] using h
    · obtain rfl := some.inj hstep
      simpa [Stored, aside_iff, Back, Repair.goto] using h
  case undoWork =>
    subst hstep
    simpa [Stored, aside_iff, Back] using h
  case hostCheck =>
    obtain ⟨-, rfl⟩ := hstep
    simpa [Stored, placed_iff, flagged_iff, Repair.goto] using h
  case sed | sedBak | append | volumes | rmWork | report =>
    subst hstep
    simpa [Stored, placed_iff, flagged_iff, Repair.goto, Repair.setHost, Repair.sedded] using h
  all_goals first
    | subst hstep
      simp_all [Stored, untouched_iff, Repair.goto, Repair.setHost, Repair.sedded]
    | obtain ⟨-, rfl⟩ := hstep
      simp_all [Stored, untouched_iff, Repair.goto]

/-- What the rollback finds. -/
theorem Stored.rollback (h : Stored n h₀ r) (hpc : r.pc ∉ [.undoRmdir, .undoMove, .warnKept,
    .undoTmpMount, .undoTmp, .undoWork, .rolledBack]) : Placed h₀ r ∧ Flagged n h₀ r := by
  rcases r with ⟨pc, host, tmpMade, tmpMounted, asideDone, mntMade, realMounted, work, src, keptAt⟩
  cases pc
  case checks => exact ⟨h.placed, h.flagged⟩
  case mkdirMnt | mount | hostCheck | sed | sedBak | append | volumes | rmWork | report | done
    | failed => exact ⟨h.1, h.2.1⟩
  case undoMount => exact h
  case undoRmdir | undoMove | warnKept | undoTmpMount | undoTmp | undoWork | rolledBack =>
    simp at hpc
  all_goals exact ⟨h.1.placed, h.1.flagged⟩

/-- A short line changes the fstab alone. -/
theorem cutShort_cases (n : RepairNames) (r : Repair) (cut : Nat) :
    ∃ fstab, r.cutShort n cut = { r.host with fstab := fstab } := by
  unfold Repair.cutShort
  split
  · exact ⟨r.host.fstab, rfl⟩
  · exact ⟨_, rfl⟩

/-- A command that fails. -/
theorem stored_fail {left : Files} {cut : Nat} (h : Stored n h₀ r)
    (hstep : r.fail n left cut = some r') : Stored n h₀ r' := by
  have hback := h.rollback
  have hcut := cutShort_cases n r cut
  rcases r with ⟨pc, host, tmpMade, tmpMounted, asideDone, mntMade, realMounted, work, src, keptAt⟩
  cases pc <;> simp only [Repair.fail, Option.some.injEq, reduceCtorEq] at hstep
  case dropStale | sed | report =>
    subst hstep
    simpa [Stored, untouched_iff, placed_iff, flagged_iff, Repair.goto] using h
  case append =>
    subst hstep
    obtain ⟨fstab, hcut⟩ := hcut
    rw [hcut]
    simpa [Stored, placed_iff, flagged_iff, Repair.setHost] using hback (by simp)
  case undoMount =>
    subst hstep
    simpa [Stored, placed_iff, Repair.goto] using h.1
  case undoRmdir =>
    subst hstep
    split
    case isTrue haside =>
      obtain ⟨hat, hbare, hfiles, -⟩ := Placed.aside h haside
      exact ⟨hat, hbare, hfiles⟩
    case isFalse haside =>
      have hb : Back h₀ _ := Placed.back h (by simpa using haside)
      exact .inl hb
  case undoMove =>
    subst hstep
    exact ⟨h.1.atAside, h.1.bare, h.1.files⟩
  case warnKept =>
    subst hstep
    exact .inr ⟨h.atAside, h.bare, h.files⟩
  case undoTmpMount | undoTmp | undoWork =>
    subst hstep
    exact h.imp id fun h => ⟨h.atAside, h.bare, h.files⟩
  all_goals
    subst hstep
    simpa [Stored, placed_iff, flagged_iff, Repair.rollback, Repair.goto, Repair.setHost] using
      hback (by simp)

theorem stored_step (h : Stored n h₀ r) (hstep : r.step n only m = some r') : Stored n h₀ r' := by
  cases m with
  | ok => exact stored_ok h hstep
  | fail left cut => exact stored_fail h hstep

theorem stored_reach {ok : Repair → RepairMove → Prop}
    (h : Reach (Repair.step n only) ok (.start h₀) r) : Stored n h₀ r := by
  refine h.induct (I := Stored n h₀) ?_ fun r m r' hr _ hstep => stored_step hr hstep
  exact ⟨rfl, rfl, rfl, rfl, rfl⟩

theorem Placed.filesKept (h : Placed h₀ r) : FilesKept h₀ r := by
  intro f hf
  cases haside : r.asideDone with
  | true => exact .inr ((h.aside haside).1 ▸ hf)
  | false => exact .inl ((h.here haside).resolve_right (ne_nil_of_mem hf) ▸ hf)

theorem Aside.filesKept (h : Aside h₀ r) : FilesKept h₀ r := fun _ hf => .inr (h.atAside ▸ hf)

theorem filesKept_of_late (h : Back h₀ r ∨ Aside h₀ r) : FilesKept h₀ r :=
  h.elim (fun h f hf => .inl (h f hf).1) Aside.filesKept

theorem Stored.filesKept (h : Stored n h₀ r) : FilesKept h₀ r := by
  by_cases hpc : r.pc ∈ [.undoRmdir, .undoMove, .warnKept, .undoTmpMount, .undoTmp, .undoWork,
    .rolledBack]
  case neg => exact (h.rollback hpc).1.filesKept
  case pos =>
    simp only [mem_cons, not_mem_nil, or_false] at hpc
    rcases hpc with hpc | hpc | hpc | hpc | hpc | hpc | hpc <;> simp only [Stored, hpc] at h
    · exact h.filesKept
    · exact h.1.filesKept
    · exact h.filesKept
    all_goals exact filesKept_of_late h

/-! ## The line of the fstab -/

/-- The fstab has no line for the mountpoint that it did not have. -/
@[grind =] def NoneAdded (n : RepairNames) (h₀ h : RepairHost) : Prop :=
  ∀ line ∈ h.fstab.getD [], IsLineFor n.mnt line → line ∈ h₀.fstab.getD []

/-- Nothing was ever mounted. -/
@[grind =] def NeverMounted (h₀ : RepairHost) (r : Repair) : Prop :=
  r.host.mntDev = h₀.mntDev ∧ r.host.privateNamespace = h₀.privateNamespace ∧
    r.asideDone = false ∧ r.mntMade = false ∧ r.realMounted = false

/-- What the fstab has, command by command. -/
@[grind =] def Written (n : RepairNames) (h₀ : RepairHost) (r : Repair) : Prop :=
  match r.pc with
  | .checks => NoneAdded n h₀ r.host ∧ NeverMounted h₀ r
  | .sed | .sedBak | .append =>
    NoneAdded n h₀ r.host ∧ h₀.mntDev = none ∧ HostMounted n r.host
  | .volumes | .rmWork | .report | .done | .failed => Listed n r.host ∧ HostMounted n r.host
  | .undoMount | .undoRmdir | .undoMove | .warnKept | .undoTmpMount | .undoTmp | .undoWork
  | .rolledBack => NoneAdded n h₀ r.host ∧ (h₀.mntDev = none ∨ NeverMounted h₀ r)
  | _ => NoneAdded n h₀ r.host ∧ h₀.mntDev = none

theorem NoneAdded.listed {h : RepairHost} (hn : NoneAdded n h₀ h) (hlisted : Listed n h) :
    Listed n h₀ :=
  have ⟨line, hline, hfor⟩ := hlisted
  ⟨line, hn line hline hfor, hfor⟩

theorem Written.added (h : Written n h₀ r) : AddedMounted n h₀ r := by
  intro line hline hfor
  rcases r with ⟨pc, host, tmpMade, tmpMounted, asideDone, mntMade, realMounted, work, src, keptAt⟩
  cases pc <;> simp only [Written] at h
  case volumes | rmWork | report | done | failed => exact .inr h.2
  all_goals exact .inl (h.1 line hline hfor)

theorem Written.truthful (h : Written n h₀ r) (h₀t : Truthful n h₀) : Truthful n r.host := by
  intro hlisted
  -- a server with the line had the disk mounted when the script began, and the checks end it
  have hmounted (hn : NoneAdded n h₀ r.host) : HostMounted n h₀ := h₀t (hn.listed hlisted)
  have hnever (hn : NoneAdded n h₀ r.host) (hr : NeverMounted h₀ r) : HostMounted n r.host :=
    ⟨hr.1.trans (hmounted hn).1, hr.2.1.trans (hmounted hn).2⟩
  have hnone (hn : NoneAdded n h₀ r.host) (hdev : h₀.mntDev = none) : False :=
    some_ne_none _ ((hmounted hn).1.symm.trans hdev)
  rcases r with ⟨pc, host, tmpMade, tmpMounted, asideDone, mntMade, realMounted, work, src, keptAt⟩
  cases pc <;> simp only [Written] at h
  case checks => exact hnever h.1 h.2
  case sed | sedBak | append => exact h.2.2
  case volumes | rmWork | report | done | failed => exact h.2
  case undoMount | undoRmdir | undoMove | warnKept | undoTmpMount | undoTmp | undoWork
    | rolledBack => exact h.2.elim (fun hdev => (hnone h.1 hdev).elim) (hnever h.1)
  all_goals exact (hnone h.1 h.2).elim

theorem NoneAdded.sedded (h : NoneAdded n h₀ r.host) : NoneAdded n h₀ (r.sedded n) := by
  intro line hline
  refine h line ?_
  cases hfstab : r.host.fstab with
  | none => simp [Repair.sedded, hfstab] at hline
  | some lines =>
    rw [Repair.sedded, hfstab] at hline
    exact mem_of_mem_filter hline

theorem isLineFor_fstabLine (uuid mnt : String) : IsLineFor mnt (fstabLine uuid mnt) :=
  ⟨("UUID=" ++ uuid).toList, ("ext4 " ++ DISK_FSTAB_OPTIONS ++ " 0 2").toList, ' ', ' ', by decide,
    by decide, by simp [fstabLine]⟩

/-- An append that stops short of the mountpoint. -/
theorem NoneAdded.cutShort {cut : Nat} (h : NoneAdded n h₀ r.host)
    (hcut : cut = 0 ∨ ¬ IsLineFor n.mnt (r.shortLine n cut)) :
    NoneAdded n h₀ (r.cutShort n cut) := by
  unfold Repair.cutShort
  split
  case isTrue => exact h
  case isFalse hne =>
    intro line hline hfor
    rcases mem_append.mp hline with hold | hnew
    · exact h line hold hfor
    · exact absurd (mem_singleton.mp hnew ▸ hfor) (hcut.resolve_left hne)

/-- A command that succeeds. -/
theorem written_ok (h : Written n h₀ r) (hstep : r.ok n only = some r') : Written n h₀ r' := by
  have hsedded : NoneAdded n h₀ r.host → NoneAdded n h₀ (r.sedded n) := NoneAdded.sedded
  rcases r with ⟨pc, host, tmpMade, tmpMounted, asideDone, mntMade, realMounted, work, src, keptAt⟩
  cases pc <;>
    simp only [Repair.ok, ite_none_left_eq_some, ite_none_right_eq_some,
      Option.some.injEq, reduceCtorEq] at hstep
  case checks =>
    obtain ⟨hchecks, rfl⟩ := hstep
    have hnone : h₀.mntDev = none := h.2.1.symm.trans (mntDev_of_checks hchecks)
    cases only <;> exact ⟨h.1, hnone⟩
  case branch =>
    subst hstep
    simp only [Repair.goto]
    repeat' split
    all_goals exact h
  case dropStale =>
    subst hstep
    exact ⟨hsedded h.1, h.2⟩
  case hostCheck =>
    obtain ⟨hseen, rfl⟩ := hstep
    obtain ⟨hprivate, hdev⟩ := not_or.mp hseen
    exact ⟨h.1, h.2, not_not.mp hdev, Bool.eq_false_iff.mpr hprivate⟩
  case sed =>
    subst hstep
    exact ⟨hsedded h.1, h.2⟩
  case append =>
    subst hstep
    exact ⟨⟨fstabLine host.device.uuid n.mnt, by simp [Repair.setHost], isLineFor_fstabLine _ _⟩,
      h.2.2⟩
  case undoMount =>
    subst hstep
    split
    case isTrue hreal =>
      refine ⟨h.1, h.2.imp id fun hnever => ?_⟩
      exact absurd (hreal.symm.trans hnever.2.2.2.2) (by decide)
    case isFalse => exact h
  case undoRmdir =>
    split at hstep
    case isTrue haside =>
      simp only [ite_none_right_eq_some, Option.some.injEq] at hstep
      obtain ⟨-, rfl⟩ := hstep
      exact h
    case isFalse =>
      split at hstep
      · simp only [ite_none_right_eq_some, Option.some.injEq] at hstep
        obtain ⟨-, rfl⟩ := hstep
        exact h
      · obtain rfl := some.inj hstep
        exact h
  case undoTmpMount =>
    subst hstep
    split <;> exact h
  case undoTmp =>
    split at hstep
    · simp only [ite_none_right_eq_some, Option.some.injEq] at hstep
      obtain ⟨-, rfl⟩ := hstep
      exact h
    · obtain rfl := some.inj hstep
      exact h
  case onlyIf | findRsync | compare =>
    obtain ⟨-, rfl⟩ := hstep
    exact h
  all_goals
    subst hstep
    exact h

/-- A command that may fail, and does. -/
theorem written_fail {left : Files} {cut : Nat} (h : Written n h₀ r)
    (hok : Careful n r (.fail left cut)) (hstep : r.fail n left cut = some r') :
    Written n h₀ r' := by
  obtain ⟨hvolumes, hwork, -, -, happend⟩ := hok
  have hshort : NoneAdded n h₀ r.host → r.pc = .append → NoneAdded n h₀ (r.cutShort n cut) :=
    fun hn hpc => hn.cutShort (happend hpc)
  rcases r with ⟨pc, host, tmpMade, tmpMounted, asideDone, mntMade, realMounted, work, src, keptAt⟩
  cases pc <;> simp only [Repair.fail, Option.some.injEq, reduceCtorEq] at hstep
  case checks =>
    subst hstep
    exact ⟨h.1, .inr h.2⟩
  case volumes => exact absurd rfl hvolumes
  case rmWork => exact absurd rfl hwork
  case append =>
    subst hstep
    exact ⟨hshort h.1 rfl, .inl h.2.1⟩
  case undoRmdir =>
    subst hstep
    split <;> exact h
  case sed | dropStale | report | undoMount | undoMove | warnKept | undoTmpMount | undoTmp
    | undoWork =>
    subst hstep
    exact h
  case sedBak =>
    subst hstep
    exact ⟨h.1, .inl h.2.1⟩
  all_goals
    subst hstep
    exact ⟨h.1, .inl h.2⟩

theorem written_reach (h : Reach (Repair.step n only) (Careful n) (.start h₀) r) :
    Written n h₀ r := by
  have hstart : Written n h₀ (.start h₀) := ⟨fun _ hline _ => hline, rfl, rfl, rfl, rfl, rfl⟩
  refine h.induct hstart fun r m r' hr hok hstep => ?_
  cases m with
  | ok => exact written_ok hr hstep
  | fail left cut => exact written_fail hr hok hstep

/-! ## Where the script says the files are -/

/-- The end of the rollback. -/
@[grind =] def isLate (pc : RepairPc) : Prop :=
  pc ∈ [.undoTmpMount, .undoTmp, .undoWork, .rolledBack]

/-- Nothing is said before the end of the rollback, and there the files are back or the script
has said where they are. -/
@[mk_iff]
structure Told (n : RepairNames) (h₀ : RepairHost) (r : Repair) : Prop where
  silent : ¬ isLate r.pc → r.keptAt = none
  late : isLate r.pc → Back h₀ r ∨ Aside h₀ r ∧ r.keptAt = some n.aside

theorem Told.of_early (h : r.keptAt = none) (hpc : ¬ isLate r.pc) : Told n h₀ r :=
  ⟨fun _ => h, fun hlate => absurd hlate hpc⟩

theorem Told.of_late (h : Back h₀ r ∨ Aside h₀ r ∧ r.keptAt = some n.aside) (hpc : isLate r.pc) :
    Told n h₀ r :=
  ⟨fun hlate => absurd hpc hlate, fun _ => h⟩

/-- A command that succeeds. -/
theorem told_ok (hstored : Stored n h₀ r) (h : Told n h₀ r) (hstep : r.ok n only = some r') :
    Told n h₀ r' := by
  have hsilent := h.silent
  have hlate := h.late
  rcases r with ⟨pc, host, tmpMade, tmpMounted, asideDone, mntMade, realMounted, work, src, keptAt⟩
  cases pc <;> simp only [Repair.ok] at hstep
  case undoRmdir =>
    split at hstep
    case isTrue haside =>
      simp only [ite_none_right_eq_some, Option.some.injEq] at hstep
      obtain ⟨-, rfl⟩ := hstep
      exact .of_early (hsilent (by simp [isLate])) (by simp [isLate, Repair.setHost])
    case isFalse haside =>
      refine .of_late (.inl ?_) ?_
      · split at hstep
        case isTrue hmade =>
          simp only [ite_none_right_eq_some, Option.some.injEq] at hstep
          obtain ⟨-, rfl⟩ := hstep
          simp_all [Stored, placed_iff, Back, Repair.setHost]
        case isFalse hmade =>
          obtain rfl := some.inj hstep
          have hb : Back h₀ _ := Placed.back hstored (Bool.eq_false_iff.mpr haside)
          exact hb
      · repeat' split at hstep
        all_goals cases hstep <;> simp [isLate, Repair.goto, Repair.setHost]
  case undoMove =>
    obtain rfl := some.inj hstep
    refine .of_late (.inl fun f hf => ?_) (by simp [isLate, Repair.setHost])
    have hat : host.atAside = h₀.atMnt := hstored.1.atAside
    exact ⟨by simpa [Repair.setHost, hat] using hf, hstored.2⟩
  case warnKept =>
    obtain rfl := some.inj hstep
    exact .of_late (.inr ⟨⟨hstored.atAside, hstored.bare, hstored.files⟩, rfl⟩) (by simp [isLate])
  case undoTmpMount | undoTmp | undoWork =>
    have hplaces := hlate (by simp [isLate])
    repeat' split at hstep
    all_goals
      cases hstep <;> refine .of_late ?_ (by simp [isLate, Repair.goto, Repair.setHost])
    all_goals simpa [Back, aside_iff, Repair.goto, Repair.setHost] using hplaces
  case rolledBack | failed | done => cases hstep
  all_goals
    have hnone := hsilent (by simp [isLate])
    repeat' split at hstep
    all_goals cases hstep
    all_goals exact .of_early hnone (by simp [isLate, Repair.goto, Repair.setHost])

/-- A command that may fail, and does. -/
theorem told_fail {left : Files} {cut : Nat} (hstored : Stored n h₀ r) (h : Told n h₀ r)
    (hok : Careful n r (.fail left cut)) (hstep : r.fail n left cut = some r') : Told n h₀ r' := by
  have hsilent := h.silent
  have hlate := h.late
  have hwarn := hok.2.2.1
  rcases r with ⟨pc, host, tmpMade, tmpMounted, asideDone, mntMade, realMounted, work, src, keptAt⟩
  cases pc <;> simp only [Repair.fail, Option.some.injEq, reduceCtorEq] at hstep
  case undoRmdir =>
    subst hstep
    split
    case isTrue => exact .of_early (hsilent (by simp [isLate])) (by simp [isLate, Repair.goto])
    case isFalse haside =>
      have hb : Back h₀ _ := Placed.back hstored (Bool.eq_false_iff.mpr haside)
      exact .of_late (.inl hb) (by simp [isLate, Repair.goto])
  case warnKept => exact absurd rfl hwarn
  case undoTmpMount | undoTmp | undoWork =>
    subst hstep
    refine .of_late ?_ (by simp [isLate, Repair.goto])
    simpa [Back, aside_iff, Repair.goto] using hlate (by simp [isLate])
  all_goals
    subst hstep
    exact .of_early (hsilent (by simp [isLate]))
      (by simp [isLate, Repair.goto, Repair.rollback, Repair.setHost])

theorem told_reach (h : Reach (Repair.step n only) (Careful n) (.start h₀) r) : Told n h₀ r := by
  have hstart : Told n h₀ (.start h₀) := .of_early rfl (by simp [isLate, Repair.start])
  have hstored : Stored n h₀ (.start h₀) := ⟨rfl, rfl, rfl, rfl, rfl⟩
  refine (h.induct (I := fun r => Stored n h₀ r ∧ Told n h₀ r) ⟨hstored, hstart⟩
    fun r m r' hr hok hstep => ⟨stored_step hr.1 hstep, ?_⟩).2
  cases m with
  | ok => exact told_ok hr.1 hr.2 hstep
  | fail left cut => exact told_fail hr.1 hr.2 hok hstep

/-- Only a report that fails ends the script without a rollback. -/
theorem report_of_failed (hstep : r.step n only m = some r') (hpc : r'.pc = .failed) :
    r.pc = .report ∧ m ≠ .ok ∧ r'.asideDone = r.asideDone := by
  rcases r with ⟨pc, host, tmpMade, tmpMounted, asideDone, mntMade, realMounted, work, src, keptAt⟩
  cases m
  case ok =>
    exfalso
    simp only [Repair.step, Repair.ok] at hstep
    cases pc <;> simp only [] at hstep
    all_goals
      repeat' split at hstep
      all_goals cases hstep <;> simp [Repair.goto, Repair.setHost] at hpc
  case fail left cut =>
    simp only [Repair.step, Repair.fail] at hstep
    cases pc <;> simp only [] at hstep
    case report =>
      cases hstep
      exact ⟨rfl, by simp, rfl⟩
    case undoRmdir =>
      cases hstep
      split at hpc <;> cases hpc
    all_goals cases hstep <;> simp [Repair.goto, Repair.rollback, Repair.setHost] at hpc

end

/-! ## The runs -/

section

variable {n : RepairNames} {only : Bool} {h₀ : RepairHost} {r : Repair}

/-- A failed script that was run with care has its files back, or has named the place. -/
theorem named_reach (h : Reach (Repair.step n only) (Careful n) (.start h₀) r) :
    FilesNamed n h₀ r := by
  have hstored := stored_reach h
  rintro (hpc | hpc) f hf
  case inl =>
    rcases (told_reach h).late (by simp [hpc, isLate]) with hback | ⟨haside, hkept⟩
    · exact .inl (hback f hf)
    · exact .inr ⟨haside.atAside ▸ hf, hkept⟩
  case inr =>
    simp only [Stored, hpc] at hstored
    refine .inl (hstored.1.back ?_ f hf)
    cases h with
    | refl => cases hpc
    | tail m hreach hok hstep =>
      obtain ⟨hreport, hm, haside⟩ := report_of_failed hstep hpc
      cases m with
      | ok => exact absurd rfl hm
      | fail left cut => exact haside.trans (hok.2.2.2.1 hreport)

/-- The rollback of a mounted disk takes the mount away, and leaves the lines. -/
theorem misleads_listed (n : RepairNames) (only : Bool) (r : Repair) (hpc : r.pc = .undoMount)
    (hreal : r.realMounted = true)
    (hlisted : Listed n r.host) : ∃ r'', Reach (Repair.step n only) (Careful n) r r'' ∧
      Listed n r''.host ∧ ¬ HostMounted n r''.host := by
  have hstep : Repair.step n only r .ok =
      some (r.setHost { r.host with mntDev := none } .undoRmdir) := by
    simp only [Repair.step, Repair.ok, hpc, hreal, if_true]
  refine ⟨_, Reach.refl.tail .ok trivial hstep, hlisted, fun hmounted => ?_⟩
  exact some_ne_none _ hmounted.1.symm

/-- Files that are aside, and nothing has been said. -/
theorem not_filesNamed (haside : Aside h₀ r) (hkept : r.keptAt = none)
    (hpc : r.pc = .rolledBack ∨ r.pc = .failed) : ¬ FilesNamed n h₀ r := by
  intro hnamed
  obtain ⟨f, hf⟩ := exists_mem_of_ne_nil _ haside.files
  rcases hnamed hpc f hf with ⟨hat, -⟩ | ⟨-, hname⟩
  · exact not_mem_nil (haside.bare ▸ hat)
  · exact some_ne_none _ (hname.symm.trans hkept)

/-- A rollback that is silent about the files ends, whatever else of it fails. -/
theorem misleads_aside (n : RepairNames) (only : Bool) (r : Repair) (hpc : r.pc = .undoTmpMount)
    (haside : Aside h₀ r) (hkept : r.keptAt = none) :
    ∃ r'', Reach (Repair.step n only) (Careful n) r r'' ∧ ¬ FilesNamed n h₀ r'' := by
  have hfail (r : Repair) (hpc : r.pc = .undoTmpMount ∨ r.pc = .undoTmp ∨ r.pc = .undoWork) :
      Careful n r (.fail [] 0) := by
    rcases hpc with hpc | hpc | hpc <;> simp [Careful, hpc]
  have h₁ : Repair.step n only r (.fail [] 0) = some (r.goto .undoTmp) := by
    simp only [Repair.step, Repair.fail, hpc]
  have h₂ : Repair.step n only (r.goto .undoTmp) (.fail [] 0) = some (r.goto .undoWork) := rfl
  refine ⟨r.goto .rolledBack, ?_, not_filesNamed ⟨haside.1, haside.2, haside.3⟩ hkept (.inl rfl)⟩
  exact ((Reach.refl.tail _ (hfail r (.inl hpc)) h₁).tail _ (hfail _ (.inr (.inl rfl))) h₂).tail _
    (hfail _ (.inr (.inr rfl))) rfl

theorem misleadsOtherwise (n : RepairNames) (only : Bool) : MisleadsOtherwise n only := by
  intro h₀ r h m hm
  have hstored := stored_reach h
  have hwritten := written_reach h
  have hsilent := (told_reach h).silent
  cases m with
  | ok => exact absurd trivial hm
  | fail left cut =>
    by_cases hline : r.pc = .volumes ∨ r.pc = .rmWork
    case pos =>
      have hreal : r.realMounted = true := by
        rcases hline with hpc | hpc <;> simp only [Stored, hpc] at hstored <;> exact hstored.2.2
      have hlisted : Listed n r.host := by
        rcases hline with hpc | hpc <;> simp only [Written, hpc] at hwritten <;> exact hwritten.1
      obtain ⟨r'', hreach, hafter⟩ := misleads_listed n only r.rollback rfl
        hreal hlisted
      refine ⟨r.rollback, r'', ?_, hreach, .inr hafter⟩
      rcases hline with hpc | hpc <;> simp only [Repair.step, Repair.fail, hpc]
    case neg =>
      obtain ⟨hvolumes, hwork⟩ := not_or.mp hline
      by_cases hwarn : r.pc = .warnKept
      case pos =>
        simp only [Stored, hwarn] at hstored
        obtain ⟨r'', hreach, hafter⟩ := misleads_aside n only
          (r.goto .undoTmpMount) rfl ⟨hstored.1, hstored.2, hstored.3⟩
          (hsilent (by simp [hwarn, isLate]))
        exact ⟨_, r'', by simp only [Repair.step, Repair.fail, hwarn], hreach, .inl hafter⟩
      case neg =>
        by_cases hreport : r.pc = .report ∧ r.asideDone = true
        case pos =>
          obtain ⟨hpc, haside⟩ := hreport
          simp only [Stored, hpc] at hstored
          obtain ⟨hat, hbare, hfiles, -⟩ := hstored.1.aside haside
          refine ⟨r.goto .failed, _, by simp only [Repair.step, Repair.fail, hpc], .refl, .inl ?_⟩
          exact not_filesNamed ⟨hat, hbare, hfiles⟩ (hsilent (by simp [hpc, isLate])) (.inr rfl)
        case neg =>
          obtain ⟨happend, hcut, hfor⟩ : r.pc = .append ∧ cut ≠ 0 ∧
              IsLineFor n.mnt (r.shortLine n cut) := by
            by_contra hnot
            refine hm ⟨hvolumes, hwork, hwarn, fun hpc => ?_, fun hpc => ?_⟩
            · exact Bool.eq_false_iff.mpr fun haside => hreport ⟨hpc, haside⟩
            · by_contra hshort
              obtain ⟨hcut, hfor⟩ := not_or.mp hshort
              exact hnot ⟨hpc, hcut, not_not.mp hfor⟩
          simp only [Stored, happend] at hstored
          have hlisted : Listed n (r.cutShort n cut) := by
            refine ⟨r.shortLine n cut, ?_, hfor⟩
            simp [Repair.cutShort, hcut]
          obtain ⟨r'', hreach, hafter⟩ := misleads_listed n only
            (r.setHost (r.cutShort n cut) .undoMount) rfl hstored.2.2 hlisted
          exact ⟨_, r'', by simp only [Repair.step, Repair.fail, happend], hreach, .inr hafter⟩

/-- A repair whose commands after the line of the fstab do not fail, and whose warning is
written, loses no file, names the place of every file, and adds no line to the fstab without a
mount; a failure there does mislead. -/
theorem noLoss_careful (n : RepairNames) (onlyIfEmptyAndInFstab : Bool) :
    NoLoss n onlyIfEmptyAndInFstab (Truthful n) (Careful n) ∧
      MisleadsOtherwise n onlyIfEmptyAndInFstab where
  left :=
    { kept := fun _ _ h => (stored_reach h).filesKept
      named := fun _ _ h => named_reach h
      added := fun _ _ h => (written_reach h).added
      mounted := by
        intro h₀ r h hpc
        have hwritten := written_reach h
        simpa only [Written, hpc] using hwritten
      listed := fun _ hstart _ h => (written_reach h).truthful hstart }
  right := misleadsOtherwise n onlyIfEmptyAndInFstab

end

/-! ## A line without a mount -/

/-- A disk that was formatted before, with nothing at its mountpoint. -/
def sampleNames : RepairNames :=
  ⟨"/dev/sdb", "WD1", "swarmy-WD1", "/var/lib/swarmy/disks/WD1",
    "/var/lib/swarmy/disks/.repair-WD1", "/var/lib/swarmy/disks/WD1.pre-mount-1", "1"⟩

def sampleHost : RepairHost :=
  ⟨false, true, ⟨"disk", "WD1", "ext4", "swarmy-WD1", "u"⟩, false, true, none, none, none, none,
    none, [], some []⟩

/-- `mkdir` of the volumes fails, and the rollback takes the mount away. -/
def sampleRepairMoves : List RepairMove :=
  [.ok, .ok, .ok, .ok, .ok, .ok, .ok, .ok, .fail [] 0, .ok]

theorem not_noLoss : ¬ ∀ n onlyIfEmptyAndInFstab,
    NoLoss n onlyIfEmptyAndInFstab (Truthful n) (fun _ _ => True) := by
  intro hclaim
  have hstart : Truthful sampleNames sampleHost := fun ⟨line, hline, _⟩ => by
    cases hline
  obtain ⟨r, hrun, hfstab, hdev⟩ : ∃ r, run (Repair.step sampleNames false) (.start sampleHost)
      sampleRepairMoves = some r ∧ r.host.fstab = some [fstabLine "u" sampleNames.mnt] ∧
      r.host.mntDev = none := ⟨_, rfl, rfl, rfl⟩
  have hreach := reach_of_run .refl hrun
  have hlisted : Listed sampleNames r.host :=
    ⟨fstabLine "u" sampleNames.mnt, by simp [hfstab], isLineFor_fstabLine _ _⟩
  have hmounted := (hclaim sampleNames false).listed sampleHost hstart r hreach hlisted
  exact some_ne_none _ (hmounted.1.symm.trans hdev)

example : renderRepairScript ⟨"/dev/sdb", "WD1", "1", false⟩ = .ok sampleNames := by
  decide

end Swarmy.Disk
