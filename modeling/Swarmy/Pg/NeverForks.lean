import Swarmy.Pg.Boot

/-!
# What a boot never does

The invariant of a member's volume is that a cluster at PGDATA without
`standby.signal` is a writer's, one with it is not, and `pgdata.clone` never holds a
writer's data.  Every boot keeps it, except one that is killed while the clone it has
renamed into place still waits for its `standby.signal`.
-/

namespace Swarmy.Pg

open Shell Coop Coop.Prog List Option AList

/-- A cluster that has been a writer's. -/
def HoldsWriterData (d : Dir Mark) : Prop := d.nonEmpty pgVersion = true ∧ d.mark.Writer

/-- The directories for what is set aside. -/
def asideStems : List String := ["pgdata.incomplete-", "pgdata.diverged-", "pgdata.drill-"]

/-- Is this the name of a drill's copy? -/
def IsDrill (n : String) : Prop := "pgdata.drill-".toList.isPrefixOf n.toList = true

/-- PGDATA, or a name under which something is set aside. -/
def IsKept (n : String) : Prop := n = pgdata ∨ ∃ stem ∈ asideStems, ∃ t, n = stem ++ t

/-- The data of this directory is still there, or it was a drill's copy and has been
removed as one. -/
def Kept (i : Nat) (m : Member) : Prop :=
  m.volume.Holds (fun n d => IsKept n ∧ d.ident = i ∧ HoldsWriterData d) ∨
    m.volume.Lost fun n d => IsDrill n ∧ d.ident = i ∧ HoldsWriterData d

/-- Postgres has been started. -/
def Started (b : Boot) (n : Nat) (m : Member) : Prop :=
  (bootFor b n m).1.ended = some (.ok ())

/-- A boot starts no clone as a writer that was never promoted. -/
def NeverForks (b : Boot) (n : Nat) (m : Member) : Prop :=
  Started b n m → ∀ d, (bootFor b n m).2.volume.get pgdata = some d →
    d.nonEmpty pgVersion = true → d.hasFile standbySignal = false →
    ¬ (d.mark.origin = .clone ∧ d.mark.promoted = false)

/-- A boot as a replica under an epoch the member has not rejoined under does not
start on a writer's data. -/
def RejoinsClean (b : Boot) (n : Nat) (m : Member) : Prop :=
  b.role = "replica" → b.epoch ≠ "" → b.epoch ∉ m.joined → Started b n m →
    ∀ d, (bootFor b n m).2.volume.get pgdata = some d → ¬ HoldsWriterData d

/-- The commands between the rename of a clone and its `standby.signal`. -/
def BeforeSignal (c : Cmd) : Prop :=
  c = .rmF pgdata ["recovery.signal", "postmaster.pid"] ∨ c = .touch pgdata standbySignal

/-- The clone of this boot brings its own `standby.signal`: it is a standby's. -/
def Signalled (b : Boot) : Prop := (b.copied.lookup standbySignal).isSome = true

/-- What a boot needs to be safe: it is not killed between the rename of its clone and
the clone's `standby.signal`, unless the source is a standby itself; and where it
finds writer data with its own epoch in the rejoin marker, it is this member that
wrote the marker. -/
structure CarefulBoot (b : Boot) (n : Nat) (m : Member) : Prop where
  kill : ∀ c, (bootFor b n m).1.pending = some c → BeforeSignal c → Signalled b
  marker : b.role = "replica" → b.epoch ≠ "" → m.nonEmpty pgdata pgVersion = true →
    m.hasFile pgdata standbySignal = false → m.rejoined = b.epoch → b.epoch ∈ m.joined

/-- Every boot of the run is careful. -/
def Careful (m : Member) (es : List Event) : Prop :=
  ∀ pre b n post, es = pre ++ .boot b n :: post → CarefulBoot b n (m.runAll pre)

/-! ## Names -/

theorem aside_ne {stem n : String} (h : stem ∈ asideStems) (t : String) (hn : n.length < 13) :
    n ≠ stem ++ t := by
  intro he
  have hl := congrArg String.length he
  rw [String.length_append] at hl
  have hs : 13 ≤ stem.length := by
    simp only [asideStems, mem_cons, not_mem_nil, or_false] at h
    rcases h with rfl | rfl | rfl <;> decide
  omega

theorem not_isKept_clone : ¬ IsKept pgdataClone := by
  rintro (h | ⟨stem, hs, t, h⟩)
  · exact absurd h (by decide)
  · exact aside_ne hs t (by decide) h

theorem isKept_aside {stem : String} (h : stem ∈ asideStems) (t : String) : IsKept (stem ++ t) :=
  .inr ⟨stem, h, t, rfl⟩

/-! ## What is set aside is kept -/

/-- The commands a boot makes: it removes clones and drill copies, and renames to
PGDATA or to a name to set something aside. -/
def Fine : Cmd → Prop
  | .rmRf n => n = pgdataClone
  | .rmGlob stem => stem = "pgdata.drill-"
  | .mv src dst => src ≠ dst ∧ IsKept dst
  | .rmF _ files => pgVersion ∉ files
  | _ => True

theorem calls_run {P : Cmd → Prop} {c : Cmd} (h : P c) : (run c).Calls P := by
  refine ⟨h, fun r => ?_⟩
  cases r <;> trivial

theorem calls_read {α : Type} {P : Cmd → Prop} (f : Member → α) :
    (Prog.read f : Script α).Calls P := ⟨rfl, fun _ => trivial⟩

theorem calls_setIncompleteAside (b : Boot) : (setIncompleteAside b).Calls Fine := by
  refine Calls.bind (calls_read _) fun there => ?_
  split
  · trivial
  · refine ⟨trivial, fun gone => ?_⟩
    dsimp only [Prog.bind]
    split
    · trivial
    · exact calls_run ⟨aside_ne (by decide) _ (by decide), isKept_aside (by decide) _⟩

theorem calls_copySource : copySource.Calls Fine :=
  Calls.bind (calls_run trivial) fun _ => Calls.bind (calls_run rfl) fun _ =>
    Calls.bind (calls_run trivial) fun _ => calls_run trivial

theorem calls_clone (b : Boot) : (clone b).Calls Fine := by
  unfold clone
  split
  · trivial
  · refine Calls.bind calls_copySource fun _ => Calls.bind (calls_read _) fun verified => ?_
    split
    · trivial
    · have hfiles : Fine (.rmF pgdata ["recovery.signal", "postmaster.pid"]) := by
        unfold Fine
        decide
      exact Calls.bind (calls_setIncompleteAside b) fun _ =>
        Calls.bind (calls_run ⟨by decide, .inl rfl⟩) fun _ =>
        Calls.bind (calls_run hfiles) fun _ => calls_run trivial

theorem calls_setWriterAside (b : Boot) : (setWriterAside b).Calls Fine := by
  unfold setWriterAside
  split
  · exact Calls.bind (calls_run rfl) fun _ =>
      calls_run ⟨aside_ne (by decide) _ (by decide), isKept_aside (by decide) _⟩
  · exact calls_run ⟨aside_ne (by decide) _ (by decide), isKept_aside (by decide) _⟩

theorem calls_bootReplica (b : Boot) : (bootReplica b).Calls Fine := by
  refine Calls.bind ?_ fun _ => ?_
  · refine Calls.bind (calls_read _) fun held => Calls.bind (calls_read _) fun standby =>
      Calls.bind (calls_read _) fun marker => ?_
    split
    · exact calls_clone b
    · split
      · exact Calls.bind (calls_setWriterAside b) fun _ => calls_clone b
      · trivial
  · refine Calls.bind (calls_read _) fun held => ?_
    split
    · exact calls_run trivial
    · trivial

theorem calls_configure (b : Boot) : (configure b).Calls Fine := by
  refine Calls.bind (calls_read _) fun held => Calls.bind (calls_read _) fun standby => ?_
  split
  · trivial
  · split <;> exact calls_run trivial

theorem calls_pgBootScript (b : Boot) : (pgBootScript b).Calls Fine := by
  refine Calls.bind (calls_read _) fun held => Calls.bind (calls_read _) fun bitnami => ?_
  split
  · trivial
  · refine Calls.bind ?_ fun _ => Calls.bind (calls_configure b) fun _ => calls_run trivial
    unfold bootRole
    split
    · exact calls_bootReplica b
    · trivial

variable {i : Nat} {m : Member} {v : Volume Mark} {b : Boot}

theorem Kept.modify (h : Kept i m) (n : String)
    (f : Dir Mark → Dir Mark) (hi : ∀ d, (f d).ident = d.ident)
    (hf : IsKept n → ∀ d, m.volume.get n = some d → HoldsWriterData d → HoldsWriterData (f d)) :
    Kept i (m.on (Volume.modify n f)).2 := by
  rcases h with h | h
  · refine .inl (h.modify n f ?_)
    rintro d hd ⟨hn, rfl, hw⟩
    exact ⟨hn, hi d, hf hn d hd hw⟩
  · exact .inr (h.modify n f)

theorem entrypoint_cases (initdb : Files) (v : Volume Mark) :
    (∃ d, v.get pgdata = some d ∧ d.nonEmpty pgVersion = true ∧
      entrypoint initdb v = (true, v)) ∨
    ((∀ d, v.get pgdata = some d → d.nonEmpty pgVersion = false) ∧
      (entrypoint initdb v = (false, v) ∨ entrypoint initdb v =
        (v.mkdir pgdata ⟨.initdb, false⟩).modify pgdata fun d =>
          { d with files := initdb.erase standbySignal, mark := ⟨.initdb, false⟩ })) := by
  unfold entrypoint
  cases hd : v.get pgdata with
  | none => exact .inr ⟨(fun d h => by cases h), .inr rfl⟩
  | some d =>
    cases hv : d.nonEmpty pgVersion with
    | true => exact .inl ⟨d, rfl, hv, by simp [hv]⟩
    | false =>
      refine .inr ⟨fun d' h => by rwa [← some.inj h], ?_⟩
      cases he : d.files.entries.isEmpty <;> simp [hv, he]

theorem Kept.entrypoint (h : Kept i m) (initdb : Files) : Kept i (m.on (entrypoint initdb)).2 := by
  rcases entrypoint_cases initdb m.volume with ⟨_, _, _, he⟩ | ⟨hnone, he | he⟩
  · rw [Member.on, he]
    exact h
  · rw [Member.on, he]
    exact h
  · have hmk : Kept i { m with volume := m.volume.mkdir pgdata ⟨.initdb, false⟩ } := by
      rcases h with h | h
      · exact .inl (h.mkdir _ _)
      · exact .inr (h.mkdir _ _)
    rw [Member.on, he]
    refine hmk.modify pgdata _ (fun _ => rfl) fun _ d hd hw => ?_
    cases hp : m.volume.get pgdata with
    | none =>
      rw [Volume.get_mkdir_self _ _ _ hp] at hd
      obtain rfl := some.inj hd
      exact absurd rfl (Dir.ne_empty_of_nonEmpty hw.1)
    | some d' =>
      rw [Volume.mkdir, if_pos (by rw [hp]; rfl), hp] at hd
      exact absurd hw.1 (by rw [hnone d (hp.trans hd)]; decide)

/-- What was set aside stays so under every command of a boot. -/
theorem Kept.exec (h : Kept i m) (b : Boot) {c : Cmd} (hc : Fine c) : Kept i (exec b c m).2 := by
  cases c with
  | pgIsready => exact h
  | rmRf n =>
    obtain rfl : n = pgdataClone := hc
    rcases h with h | h
    · rcases h.rm (· = pgdataClone) with h | h
      · exact .inl h
      · obtain ⟨e, -, he, hk, -⟩ := h
        rw [of_decide_eq_true he] at hk
        exact absurd hk not_isKept_clone
    · exact .inr (h.rm _)
  | rmGlob stem =>
    obtain rfl : stem = "pgdata.drill-" := hc
    rcases h with h | h
    · rcases h.rm (fun n => "pgdata.drill-".toList.isPrefixOf n.toList) with h | h
      · exact .inl h
      · obtain ⟨e, hr, he, -, hP⟩ := h
        exact .inr ⟨e, hr, he, hP⟩
    · exact .inr (h.rm _)
  | mkdir n =>
    rcases h with h | h
    · exact .inl (h.mkdir _ _)
    · exact .inr (h.mkdir _ _)
  | pgBasebackup =>
    exact h.modify pgdataClone _ (fun _ => rfl) fun hk => absurd hk not_isKept_clone
  | rmdir n =>
    rcases h with h | h
    · exact .inl (h.rmdir n fun d hd => Dir.ne_empty_of_nonEmpty hd.2.2.1)
    · exact .inr (h.rmdir n)
  | mv src dst =>
    rcases h with h | h
    · exact .inl (h.mv hc.1 fun d hd => ⟨hc.2, hd.2⟩)
    · exact .inr (h.mv hc.1)
  | rmF n files =>
    refine h.modify n _ (fun _ => rfl) fun _ d _ hw => ⟨?_, hw.2⟩
    rw [Dir.nonEmpty_rmFiles hc]
    exact hw.1
  | touch n file =>
    refine h.modify n _ (fun _ => Dir.ident_touch _) fun _ d _ hw => ⟨?_, ?_⟩
    · rw [Dir.nonEmpty_touch]
      exact hw.1
    · rw [Dir.mark_touch]
      exact hw.2
  | markRejoined =>
    refine Kept.modify (m := { m with joined := b.epoch :: m.joined }) h pgdata _ (fun _ => rfl)
      fun _ d _ hw => ⟨?_, hw.2⟩
    rw [Dir.nonEmpty_write (by decide)]
    exact hw.1
  | pgConf mode =>
    by_cases hm : mode = .keep
    · rwa [Pg.exec, if_pos hm]
    · rw [Pg.exec, if_neg hm]
      refine h.modify pgdata _ (fun _ => rfl) fun _ d _ hw => ⟨?_, hw.2⟩
      rw [Dir.nonEmpty_write (by decide)]
      exact hw.1
  | entrypoint => exact h.entrypoint b.initdb


theorem Kept.promote (h : Kept i m) : Kept i (promote m) := by
  unfold Pg.promote
  split
  · refine h.modify pgdata _ (fun _ => rfl) fun _ d _ hw => ⟨?_, .inr rfl⟩
    rw [Dir.nonEmpty, lookup_erase_ne (by decide)]
    exact hw.1
  · exact h

theorem Kept.step (h : Kept i m) (e : Event) : Kept i (m.step e) := by
  cases e with
  | promote => exact h.promote
  | boot b n =>
    have ht : Throughout (Pg.exec b) (fun _ => Kept i) (fun _ => Kept i) (pgBootScript b) m :=
      Throughout.of_calls (fun c w hc hw => hw.exec b hc) (calls_pgBootScript b) h
    rcases after_cases (Pg.exec b) (pgBootScript b) m n with ⟨c, hc⟩ | ⟨x, hx⟩
    · exact ht.pending n hc
    · exact ht.ended n hx

theorem Kept.runAll (h : Kept i m) (es : List Event) : Kept i (m.runAll es) := by
  induction es generalizing m with
  | nil => exact h
  | cons e es ih => exact ih (h.step e)

/-! ## The invariant -/

/-- What holds of a member's volume between boots. -/
structure Inv (v : Volume Mark) : Prop where
  writer : ∀ d, v.get pgdata = some d → d.nonEmpty pgVersion = true →
    d.hasFile standbySignal = false → d.mark.Writer
  standby : ∀ d, v.get pgdata = some d → d.hasFile standbySignal = true → ¬ d.mark.Writer
  clone : ∀ d, v.get pgdataClone = some d → ¬ d.mark.Writer

theorem Inv.fresh (bitnami : Option Files) : Inv (Member.fresh bitnami).volume := by
  have hnone : ∀ n, n ≠ "data" → (Member.fresh bitnami).volume.get n = none := by
    intro n hn
    cases bitnami with
    | none => rfl
    | some files =>
      exact (lookup_insert_ne (s := ∅) hn).trans rfl
  refine ⟨fun d hd => ?_, fun d hd => ?_, fun d hd => ?_⟩
  · rw [hnone _ (by decide)] at hd
    cases hd
  · rw [hnone _ (by decide)] at hd
    cases hd
  · rw [hnone _ (by decide)] at hd
    cases hd

/-- A command that leaves PGDATA alone. -/
theorem Inv.congr {v' : Volume Mark} (h : Inv v) (hp : v'.get pgdata = v.get pgdata)
    (hc : ∀ d, v'.get pgdataClone = some d → ¬ d.mark.Writer) : Inv v' :=
  ⟨fun d hd => h.writer d (hp ▸ hd), fun d hd => h.standby d (hp ▸ hd), hc⟩

/-- No PGDATA at all. -/
theorem Inv.of_none (hp : v.get pgdata = none)
    (hc : ∀ d, v.get pgdataClone = some d → ¬ d.mark.Writer) : Inv v :=
  ⟨(fun d hd => by rw [hp] at hd; cases hd), (fun d hd => by rw [hp] at hd; cases hd), hc⟩

/-- Files of PGDATA other than the two that matter. -/
theorem Inv.modify (h : Inv v) (f : Dir Mark → Dir Mark)
    (hv : ∀ d, (f d).nonEmpty pgVersion = d.nonEmpty pgVersion)
    (hs : ∀ d, (f d).hasFile standbySignal = d.hasFile standbySignal)
    (hm : ∀ d, (f d).mark = d.mark) : Inv (v.modify pgdata f).2 := by
  refine ⟨fun d hd h₁ h₂ => ?_, fun d hd h₁ => ?_, fun d hd => ?_⟩
  · rw [Volume.get_modify, if_pos rfl] at hd
    obtain ⟨d₀, hd₀, rfl⟩ := map_eq_some_iff.mp hd
    rw [hm]
    exact h.writer d₀ hd₀ ((hv d₀).symm.trans h₁) ((hs d₀).symm.trans h₂)
  · rw [Volume.get_modify, if_pos rfl] at hd
    obtain ⟨d₀, hd₀, rfl⟩ := map_eq_some_iff.mp hd
    rw [hm]
    exact h.standby d₀ hd₀ ((hs d₀).symm.trans h₁)
  · rw [Volume.get_modify, if_neg (by decide)] at hd
    exact h.clone d hd

theorem Inv.promote (h : Inv m.volume) : Inv (promote m).volume := by
  unfold Pg.promote
  split
  · refine ⟨fun d hd _ _ => ?_, fun d hd hs => ?_, fun d hd => ?_⟩
    · rw [Member.on, Volume.get_modify, if_pos rfl] at hd
      obtain ⟨d₀, -, rfl⟩ := map_eq_some_iff.mp hd
      exact .inr rfl
    · rw [Member.on, Volume.get_modify, if_pos rfl] at hd
      obtain ⟨d₀, -, rfl⟩ := map_eq_some_iff.mp hd
      rw [Dir.hasFile, lookup_erase] at hs
      cases hs
    · rw [Member.on, Volume.get_modify, if_neg (by decide)] at hd
      exact h.clone d hd
  · exact h

theorem Inv.entrypoint (h : Inv v) (initdb : Files) : Inv (entrypoint initdb v).2 := by
  rcases entrypoint_cases initdb v with ⟨_, _, _, he⟩ | ⟨hnone, he | he⟩
  · rwa [he]
  · rwa [he]
  · rw [he]
    refine ⟨fun d hd _ _ => ?_, fun d hd hs => ?_, fun d hd => ?_⟩
    · rw [Volume.get_modify, if_pos rfl] at hd
      obtain ⟨d₀, -, rfl⟩ := map_eq_some_iff.mp hd
      exact .inl rfl
    · rw [Volume.get_modify, if_pos rfl] at hd
      obtain ⟨d₀, -, rfl⟩ := map_eq_some_iff.mp hd
      rw [Dir.hasFile, lookup_erase] at hs
      cases hs
    · rw [Volume.get_modify, if_neg (by decide), Volume.get_mkdir_ne _ _ (by decide)] at hd
      exact h.clone d hd

/-! ## A boot keeps it -/

section

variable (b : Boot)

/-- Before every command of a boot: the invariant holds, or a clone has just been
renamed and waits for its `standby.signal`. -/
def Kills (c : Cmd) (m : Member) : Prop := Inv m.volume ∨ BeforeSignal c ∧ ¬ Signalled b

/-- A part of a boot that ends with `P`, or with the boot. -/
def Leads {α : Type} (P : α → Member → Prop) (p : Script α) (m : Member) : Prop :=
  Throughout (exec b) (Kills b)
    (fun x m => Inv m.volume ∧ ∀ a, x = .ok a → P a m) p m

variable {b} {α β : Type} {P Q : α → Member → Prop}

theorem leads_ret {a : α} {m : Member} (hI : Inv m.volume) (h : P a m) : Leads b P (.ret a) m := by
  refine ⟨hI, fun a' ha => ?_⟩
  cases ha
  exact h

theorem leads_raise {e : Nat} {m : Member} (hI : Inv m.volume) : Leads b P (.raise e) m :=
  ⟨hI, fun a ha => by cases ha⟩

theorem Leads.bind {P : α → Member → Prop} {Q : β → Member → Prop} {p : Script α}
    {f : α → Script β} {m : Member} (h : Leads b P p m)
    (hf : ∀ a m, Inv m.volume → P a m → Leads b Q (f a) m) : Leads b Q (p.bind f) m :=
  Throughout.bind h (fun a m ha => hf a m ha.1 (ha.2 a rfl)) fun e m he =>
    ⟨he.1, fun a ha => by cases ha⟩

/-- A command that succeeds. -/
theorem leads_run_bind {P : α → Member → Prop} {c : Cmd} {f : Unit → Script α} {m : Member}
    (hc : Kills b c m) (hok : (exec b c m).1 = true) (h : Leads b P (f ()) (exec b c m).2) :
    Leads b P ((run c).bind f) m := by
  refine ⟨hc, ?_⟩
  rw [hok]
  exact h

/-- A command after which the invariant holds. -/
theorem leads_run {P : Unit → Member → Prop} {c : Cmd} {m : Member} (hc : Kills b c m)
    (hI' : Inv (exec b c m).2.volume) (h : (exec b c m).1 = true → P () (exec b c m).2) :
    Leads b P (run c) m := by
  refine ⟨hc, ?_⟩
  cases hr : (exec b c m).1 with
  | true => exact leads_ret hI' (h hr)
  | false => exact leads_raise hI'

end

/-! ### Cloning -/

/-- PGDATA is gone, the clone is as it was. -/
def Gone (m₀ : Member) (_ : Unit) (m : Member) : Prop :=
  m.volume.get pgdata = none ∧ m.volume.get pgdataClone = m₀.volume.get pgdataClone ∧
    m.joined = m₀.joined

/-- PGDATA is a fresh clone. -/
def Cloned (m₀ : Member) (_ : Unit) (m : Member) : Prop :=
  m.joined = m₀.joined ∧ ∃ d, m.volume.get pgdata = some d ∧ d.nonEmpty pgVersion = true ∧
    d.hasFile standbySignal = true ∧ ¬ d.mark.Writer

theorem Inv.of_standby {d : Dir Mark} (hd : v.get pgdata = some d)
    (hs : d.hasFile standbySignal = true) (hw : ¬ d.mark.Writer)
    (hc : v.get pgdataClone = none) : Inv v := by
  refine ⟨fun d' hd' _ hns => ?_, fun d' hd' _ => ?_, fun d' hd' => ?_⟩
  · obtain rfl := some.inj (hd.symm.trans hd')
    rw [hs] at hns
    cases hns
  · obtain rfl := some.inj (hd.symm.trans hd')
    exact hw
  · rw [hc] at hd'
    cases hd'

theorem leads_mvAside (hI : Inv m.volume) {stem : String} (hs : stem ∈ asideStems) (t : String) :
    Leads b (Gone m) (run (.mv pgdata (stem ++ t))) m := by
  have hne : pgdata ≠ stem ++ t := aside_ne hs t (by decide)
  have hne' : pgdataClone ≠ stem ++ t := aside_ne hs t (by decide)
  have hmv : (m.volume.mv pgdata (stem ++ t)).1 = false ∧
      (m.volume.mv pgdata (stem ++ t)).2 = m.volume ∨
      (m.volume.mv pgdata (stem ++ t)).2.get pgdata = none ∧
        (m.volume.mv pgdata (stem ++ t)).2.get pgdataClone = m.volume.get pgdataClone := by
    rcases Volume.mv_cases hne m.volume with h | ⟨-, -, -, hgone, hother, -⟩
    · rw [h]
      exact .inl ⟨rfl, rfl⟩
    · exact .inr ⟨hgone, hother _ (by decide) hne'⟩
  refine leads_run (.inl hI) ?_ fun hok => ?_
  · rcases hmv with ⟨-, h⟩ | ⟨hgone, hclone⟩
    · show Inv (m.volume.mv pgdata (stem ++ t)).2
      rwa [h]
    · exact Inv.of_none hgone fun d hd => hI.clone d (hclone ▸ hd)
  · rcases hmv with ⟨h, -⟩ | ⟨hgone, hclone⟩
    · rw [show (m.volume.mv pgdata (stem ++ t)).1 = true from hok] at h
      cases h
    · exact ⟨hgone, hclone, rfl⟩

theorem leads_setIncompleteAside (hI : Inv m.volume) :
    Leads b (Gone m) (setIncompleteAside b) m := by
  show Leads b (Gone m) (if (m.volume.get pgdata).isSome = false then pure () else _) m
  split
  · next h => exact leads_ret hI ⟨by simpa using h, rfl, rfl⟩
  · refine ⟨.inl hI, ?_⟩
    show Leads b (Gone m) (if (m.volume.rmdir pgdata).1 = true then pure () else _)
      { m with volume := (m.volume.rmdir pgdata).2 }
    rcases Volume.rmdir_cases pgdata m.volume with ⟨-, -, -, -, h⟩ | h
    · rw [h, if_pos rfl]
      have hnone : (m.volume.rm (· = pgdata)).get pgdata = none := by simp
      have hclone : (m.volume.rm (· = pgdata)).get pgdataClone = m.volume.get pgdataClone := by
        rw [Volume.get_rm, if_neg (by decide)]
      exact leads_ret (Inv.of_none hnone fun d hd => hI.clone d (hclone ▸ hd)) ⟨hnone, hclone, rfl⟩
    · rw [h, if_neg (Bool.false_ne_true)]
      exact leads_mvAside hI (by decide) b.now

theorem on_modify_ok {n : String} {d : Dir Mark} (f : Dir Mark → Dir Mark)
    (hd : m.volume.get n = some d) : (m.on (Volume.modify n f)).1 = true := by
  rw [Member.on, Volume.modify_of_get f hd]

theorem leads_installClone {d : Dir Mark} (hI : Inv m.volume) (hp : m.volume.get pgdata = none)
    (hd : m.volume.get pgdataClone = some d) (hv : d.nonEmpty pgVersion = true)
    (hf : d.files = b.copied) : Leads b (Cloned m) installClone m := by
  have hw : ¬ d.mark.Writer := hI.clone d hd
  rcases Volume.mv_cases (show pgdataClone ≠ pgdata by decide) m.volume with
    h | ⟨d', hd', hok, hgone, -, hnew, -⟩
  · refine Leads.bind (P := fun _ _ => False) (leads_run (.inl hI) ?_ fun hok => ?_) fun _ _ _ h =>
      h.elim
    · rwa [exec, Member.on, h]
    · rw [exec, Member.on, h] at hok
      cases hok
  · obtain rfl := some.inj (hd.symm.trans hd')
    have hd₁ : (exec b (.mv pgdataClone pgdata) m).2.volume.get pgdata = some d := hnew hp
    have hc₁ : (exec b (.mv pgdataClone pgdata) m).2.volume.get pgdataClone = none := hgone
    have hj₁ : (exec b (.mv pgdataClone pgdata) m).2.joined = m.joined := rfl
    refine leads_run_bind (.inl hI) hok ?_
    generalize (exec b (.mv pgdataClone pgdata) m).2 = m₁ at hd₁ hc₁ hj₁ ⊢
    -- From here until the signal is there, the invariant is the source's to keep.
    have hk₁ : ∀ c, BeforeSignal c → Kills b c m₁ := by
      intro c hc
      by_cases h : Signalled b
      · exact .inl (Inv.of_standby hd₁ (by rwa [Dir.hasFile, hf]) hw hc₁)
      · exact .inr ⟨hc, h⟩
    refine leads_run_bind (hk₁ _ (.inl rfl)) (on_modify_ok _ hd₁) ?_
    generalize hr : Cmd.rmF pgdata ["recovery.signal", "postmaster.pid"] = rmSignals
    have hd₂ : (exec b rmSignals m₁).2.volume.get pgdata =
        some (d.rmFiles ["recovery.signal", "postmaster.pid"]) := by
      rw [← hr]
      show (m₁.volume.modify pgdata _).2.get pgdata = _
      rw [Volume.get_modify, if_pos rfl, hd₁, map_some]
    have hc₂ : (exec b rmSignals m₁).2.volume.get pgdataClone = none := by
      rw [← hr]
      show (m₁.volume.modify pgdata _).2.get pgdataClone = _
      rw [Volume.get_modify, if_neg (by decide), hc₁]
    have hj₂ : (exec b rmSignals m₁).2.joined = m.joined := by
      rw [← hr]
      exact hj₁
    generalize (exec b rmSignals m₁).2 = m₂ at hd₂ hc₂ hj₂ ⊢
    have hk₂ : Kills b (.touch pgdata standbySignal) m₂ := by
      by_cases h : Signalled b
      · refine .inl (Inv.of_standby hd₂ ?_ hw hc₂)
        rwa [Dir.hasFile_rmFiles (by decide), Dir.hasFile, hf]
      · exact .inr ⟨.inr rfl, h⟩
    have hd₃ : (exec b (.touch pgdata standbySignal) m₂).2.volume.get pgdata =
        some ((d.rmFiles ["recovery.signal", "postmaster.pid"]).touch standbySignal) := by
      show (m₂.volume.modify pgdata _).2.get pgdata = _
      rw [Volume.get_modify, if_pos rfl, hd₂, map_some]
    have hs₃ := Dir.hasFile_touch_self (d := d.rmFiles ["recovery.signal", "postmaster.pid"])
      standbySignal
    have hw₃ : ¬ ((d.rmFiles ["recovery.signal", "postmaster.pid"]).touch
        standbySignal).mark.Writer := by
      rw [Dir.mark_touch]
      exact hw
    refine leads_run hk₂ (Inv.of_standby hd₃ hs₃ hw₃ ?_) fun _ => ⟨hj₂, _, hd₃, ?_, hs₃, hw₃⟩
    · show (m₂.volume.modify pgdata _).2.get pgdataClone = none
      rw [Volume.get_modify, if_neg (by decide), hc₂]
    · rw [Dir.nonEmpty_touch, Dir.nonEmpty_rmFiles (by decide)]
      exact hv

/-- The copy is in `pgdata.clone`, and PGDATA is as it was. -/
theorem leads_copySource (hI : Inv m.volume) :
    Leads b (fun _ m' => m'.volume.get pgdata = m.volume.get pgdata ∧ m'.joined = m.joined ∧
      ∃ d, m'.volume.get pgdataClone = some d ∧ d.files = b.copied) copySource m := by
  refine leads_run_bind (.inl hI) rfl (leads_run_bind (.inl hI) rfl ?_)
  have hp₁ : (exec b (.rmRf pgdataClone) m).2.volume.get pgdata = m.volume.get pgdata :=
    (Volume.get_rm _ _ _).trans (if_neg (by decide))
  have hc₁ : (exec b (.rmRf pgdataClone) m).2.volume.get pgdataClone = none :=
    (Volume.get_rm _ _ _).trans (if_pos (by decide))
  have hj₁ : (exec b (.rmRf pgdataClone) m).2.joined = m.joined := rfl
  show Leads b _ ((run _).bind fun _ => _) (exec b (.rmRf pgdataClone) m).2
  generalize (exec b (.rmRf pgdataClone) m).2 = m₁ at hp₁ hc₁ hj₁ ⊢
  have hI₁ : Inv m₁.volume := hI.congr hp₁ fun d hd => by rw [hc₁] at hd; cases hd
  refine leads_run_bind (.inl hI₁) rfl ?_
  have hp₂ : (exec b (.mkdir pgdataClone) m₁).2.volume.get pgdata = m.volume.get pgdata :=
    (Volume.get_mkdir_ne _ _ (by decide)).trans hp₁
  have hc₂ : (exec b (.mkdir pgdataClone) m₁).2.volume.get pgdataClone =
      some ⟨m₁.volume.next, ∅, ⟨.clone, false⟩⟩ := Volume.get_mkdir_self _ _ _ hc₁
  have hj₂ : (exec b (.mkdir pgdataClone) m₁).2.joined = m.joined := hj₁
  generalize (exec b (.mkdir pgdataClone) m₁).2 = m₂ at hp₂ hc₂ hj₂ ⊢
  have hw : ¬ (Mark.mk .clone false).Writer := by decide
  have hI₂ : Inv m₂.volume := hI.congr hp₂ fun d hd => by
    rw [hc₂] at hd
    obtain rfl := some.inj hd
    exact hw
  have hp₃ : (exec b .pgBasebackup m₂).2.volume.get pgdata = m.volume.get pgdata :=
    ((Volume.get_modify _ _ _ _).trans (if_neg (by decide))).trans hp₂
  have hc₃ : (exec b .pgBasebackup m₂).2.volume.get pgdataClone =
      some ⟨m₁.volume.next, b.copied, ⟨.clone, false⟩⟩ := by
    show (m₂.volume.modify pgdataClone _).2.get pgdataClone = _
    rw [Volume.get_modify, if_pos rfl, hc₂, map_some]
  refine leads_run (.inl hI₂) (hI.congr hp₃ fun d hd => ?_) fun _ => ⟨hp₃, hj₂, _, hc₃, rfl⟩
  rw [hc₃] at hd
  obtain rfl := some.inj hd
  exact hw

theorem leads_clone (hI : Inv m.volume) : Leads b (Cloned m) (clone b) m := by
  unfold clone
  split
  · exact leads_raise hI
  · refine (leads_copySource hI).bind fun _ m₁ hI₁ h => ?_
    obtain ⟨-, hj₁, d, hd, hf⟩ := h
    show Leads b _ (if m₁.nonEmpty pgdataClone pgVersion = false then _ else _) m₁
    split
    · exact leads_raise hI₁
    · next hv =>
      have hv : d.nonEmpty pgVersion = true := by simpa [Member.nonEmpty, hd] using hv
      refine (leads_setIncompleteAside hI₁).bind fun _ m₂ hI₂ hgone => ?_
      obtain ⟨hp₂, hc₂, hj₂⟩ := hgone
      have heq : Cloned m₂ = Cloned m := by
        unfold Cloned
        rw [hj₂, hj₁]
      exact heq ▸ leads_installClone hI₂ hp₂ (hc₂.trans hd) hv hf

/-! ### The whole boot -/

/-- There is a cluster at PGDATA; under an epoch the member has not rejoined under it
is not a writer's. -/
def Ready (b : Boot) (joined : List String) (m : Member) : Prop :=
  m.nonEmpty pgdata pgVersion = true ∧ (b.epoch ≠ "" → b.epoch ∉ joined →
    ∀ d, m.volume.get pgdata = some d → ¬ d.mark.Writer)

theorem Cloned.ready {m₀ : Member} (h : Cloned m₀ () m) (joined : List String) :
    Ready b joined m := by
  obtain ⟨-, d, hd, hv, -, hw⟩ := h
  refine ⟨?_, fun _ _ d' hd' => ?_⟩
  · rw [Member.nonEmpty, hd]
    exact hv
  · obtain rfl := some.inj (hd.symm.trans hd')
    exact hw

/-- Files of PGDATA other than `PG_VERSION`. -/
theorem Ready.modify {joined : List String} (h : Ready b joined m)
    (f : Dir Mark → Dir Mark) (hv : ∀ d, (f d).nonEmpty pgVersion = d.nonEmpty pgVersion)
    (hm : ∀ d, (f d).mark = d.mark) : Ready b joined (m.on (Volume.modify pgdata f)).2 := by
  have hg : (m.on (Volume.modify pgdata f)).2.volume.get pgdata =
      (m.volume.get pgdata).map f := (Volume.get_modify _ _ _ _).trans (if_pos rfl)
  refine ⟨?_, fun h₁ h₂ d hd => ?_⟩
  · have h₁ := h.1
    rw [Member.nonEmpty] at h₁ ⊢
    rw [hg]
    cases hd : m.volume.get pgdata with
    | none =>
      rw [hd] at h₁
      cases h₁
    | some d =>
      rw [hd] at h₁
      exact (hv d).trans h₁
  · rw [hg] at hd
    obtain ⟨d₀, hd₀, rfl⟩ := map_eq_some_iff.mp hd
    rw [hm]
    exact h.2 h₁ h₂ d₀ hd₀

theorem leads_setWriterAside (hI : Inv m.volume) :
    Leads b (fun _ _ => True) (setWriterAside b) m := by
  have haside : ∀ {m : Member}, Inv m.volume → ∀ {stem}, stem ∈ asideStems →
      Leads b (fun _ _ => True) (run (.mv pgdata (stem ++ b.now))) m := fun hI _ hs =>
    Throughout.mono (fun x m h => ⟨h.1, fun _ _ => trivial⟩) (leads_mvAside hI hs b.now)
  unfold setWriterAside
  split
  · have hn : ∀ n, "pgdata.drill-".toList.isPrefixOf n.toList = false →
        (exec b (.rmGlob "pgdata.drill-") m).2.volume.get n = m.volume.get n := fun n hn =>
      (Volume.get_rm _ _ _).trans (if_neg (by rw [hn]; exact Bool.false_ne_true))
    refine leads_run_bind (.inl hI) rfl (haside (hI.congr (hn _ (by decide)) fun d hd => ?_)
      (by decide))
    rw [hn _ (by decide)] at hd
    exact hI.clone d hd
  · exact haside hI (by decide)

theorem leads_prepareReplica (hI : Inv m.volume)
    (hmark : b.epoch ≠ "" → m.nonEmpty pgdata pgVersion = true →
      m.hasFile pgdata standbySignal = false → m.rejoined = b.epoch → b.epoch ∈ m.joined) :
    Leads b (fun _ => Ready b m.joined) (prepareReplica b) m := by
  have hclone : ∀ {m' : Member}, Inv m'.volume →
      Leads b (fun _ => Ready b m.joined) (clone b) m' := fun hI' =>
    Throughout.mono (fun x m h => ⟨h.1, fun a ha => (h.2 a ha).ready _⟩) (leads_clone hI')
  show Leads b _ (if m.nonEmpty pgdata pgVersion = false then clone b
    else if m.hasFile pgdata standbySignal = false ∧ b.epoch ≠ "" ∧ m.rejoined ≠ b.epoch then
      rejoin b
    else pure ()) m
  split
  · exact hclone hI
  · next hheld =>
    have hheld : m.nonEmpty pgdata pgVersion = true := by simpa using hheld
    split
    · exact (leads_setWriterAside hI).bind fun _ _ hI' _ => hclone hI'
    · next hkeep =>
      refine leads_ret hI ⟨hheld, fun he hj d hd => ?_⟩
      have hs : m.hasFile pgdata standbySignal = d.hasFile standbySignal := by
        rw [Member.hasFile, hd, any_some]
      -- A writer's data would have been set aside, or the marker is this member's own.
      cases hsig : d.hasFile standbySignal with
      | true => exact hI.standby d hd hsig
      | false =>
        refine absurd ?_ hj
        refine hmark he hheld (hs.trans hsig) ?_
        by_contra hne
        exact hkeep ⟨hs.trans hsig, he, hne⟩

theorem leads_bootReplica (hI : Inv m.volume)
    (hmark : b.epoch ≠ "" → m.nonEmpty pgdata pgVersion = true →
      m.hasFile pgdata standbySignal = false → m.rejoined = b.epoch → b.epoch ∈ m.joined) :
    Leads b (fun _ => Ready b m.joined) (bootReplica b) m := by
  refine (leads_prepareReplica hI hmark).bind fun _ m₁ hI₁ hR => ?_
  show Leads b _ (if b.epoch ≠ "" ∧ m₁.nonEmpty pgdata pgVersion = true then _ else _) m₁
  split
  · refine leads_run (.inl hI₁) ?_ fun _ => ?_
    · refine Inv.modify (v := m₁.volume) hI₁ _ (fun d => ?_) (fun d => ?_) fun d => rfl
      · exact Dir.nonEmpty_write (by decide) _
      · rw [Dir.hasFile_write, if_neg (by decide)]
    · refine Ready.modify (m := { m₁ with joined := b.epoch :: m₁.joined }) hR _ (fun d => ?_)
        fun d => rfl
      exact Dir.nonEmpty_write (by decide) _
  · exact leads_ret hI₁ hR

theorem leads_configure (P : Member → Prop) (hI : Inv m.volume)
    (hP : P m) (hmod : ∀ text, P m → P (m.on (Volume.modify pgdata fun d =>
      d.write "swarmy.conf" text)).2) : Leads b (fun _ => P) (configure b) m := by
  have hconf : ∀ mode, Leads b (fun _ => P) (run (.pgConf mode)) m := by
    intro mode
    have hx : Inv (exec b (.pgConf mode) m).2.volume ∧ P (exec b (.pgConf mode) m).2 := by
      by_cases hmode : mode = .keep
      · rw [exec, if_pos hmode]
        exact ⟨hI, hP⟩
      · rw [exec, if_neg hmode]
        refine ⟨hI.modify _ (fun d => ?_) (fun d => ?_) fun d => rfl, hmod _ hP⟩
        · exact Dir.nonEmpty_write (by decide) _
        · rw [Dir.hasFile_write, if_neg (by decide)]
    exact leads_run (.inl hI) hx.1 fun _ => hx.2
  show Leads b _ (if m.nonEmpty pgdata pgVersion = false then pure ()
    else if m.hasFile pgdata standbySignal = true then _ else _) m
  split
  · exact leads_ret hI hP
  · split
    · exact hconf _
    · exact hconf _

/-- A boot keeps the invariant wherever it is killed, the window before the signal
apart; and a replica that has started is ready. -/
theorem leads_pgBootScript (hI : Inv m.volume)
    (hmark : b.role = "replica" → b.epoch ≠ "" → m.nonEmpty pgdata pgVersion = true →
      m.hasFile pgdata standbySignal = false → m.rejoined = b.epoch → b.epoch ∈ m.joined) :
    Leads b (fun _ m' => b.role = "replica" → Ready b m.joined m') (pgBootScript b) m := by
  show Leads b _ (if b.roleOr = "primary" ∧ m.nonEmpty pgdata pgVersion = false ∧
    m.nonEmpty "data" pgVersion = true then _ else bootMember b) m
  split
  · exact leads_raise hI
  · have hrole : Leads b (fun _ m' => b.role = "replica" → Ready b m.joined m') (bootRole b) m := by
      unfold bootRole
      split
      · next h =>
        have hr : b.role = "replica" := by
          unfold Boot.roleOr at h
          split at h
          · exact absurd h (by decide)
          · exact h
        exact Throughout.mono (fun x m h => ⟨h.1, fun a ha _ => h.2 a ha⟩)
          (leads_bootReplica hI (hmark hr))
      · next h =>
        refine leads_ret hI fun hr => absurd ?_ h
        rw [Boot.roleOr, hr, if_neg (by decide)]
    refine hrole.bind fun _ m₁ hI₁ h₁ => ?_
    have hconf : Leads b (fun _ m' => b.role = "replica" →
        Ready b m.joined m') (configure b) m₁ := by
      refine leads_configure (fun m' => b.role = "replica" → Ready b m.joined m') hI₁ h₁
        fun text h hr => ?_
      exact (h hr).modify _ (fun d => Dir.nonEmpty_write (by decide) _) fun d => rfl
    refine hconf.bind fun _ m₂ hI₂ h₂ => leads_run (.inl hI₂) (hI₂.entrypoint _) fun _ hr => ?_
    have hR := h₂ hr
    rcases entrypoint_cases b.initdb m₂.volume with ⟨_, _, _, he⟩ | ⟨hnone, -⟩
    · have heq : (exec b .entrypoint m₂).2 = m₂ := by
        rw [exec, Member.on, he]
      rwa [heq]
    · have hv := hR.1
      rw [Member.nonEmpty] at hv
      cases hd : m₂.volume.get pgdata with
      | none =>
        rw [hd] at hv
        cases hv
      | some d =>
        rw [hd, any_some, hnone d hd] at hv
        cases hv

/-! ## Runs -/

theorem Inv.boot {n : Nat} (hI : Inv m.volume) (h : CarefulBoot b n m) :
    Inv (bootFor b n m).2.volume := by
  have ht := leads_pgBootScript hI h.marker
  rcases after_cases (exec b) (pgBootScript b) m n with ⟨c, hc⟩ | ⟨x, hx⟩
  · rcases ht.pending n hc with hI' | ⟨hb, hs⟩
    · exact hI'
    · exact absurd (h.kill c hc hb) hs
  · exact (ht.ended n hx).1

theorem Inv.runAll (hI : Inv m.volume) {es : List Event} (h : Careful m es) :
    Inv (m.runAll es).volume := by
  induction es generalizing m with
  | nil => exact hI
  | cons e es ih =>
    refine ih ?_ fun pre b n post heq => h (e :: pre) b n post (by rw [heq]; rfl)
    cases e with
    | promote => exact hI.promote
    | boot b n => exact hI.boot (h [] b n es rfl)

theorem Careful.left {es es' : List Event} (h : Careful m (es ++ es')) :
    Careful m es := fun pre b n post heq => h pre b n (post ++ es') (by rw [heq]; simp)

theorem neverForks_of_inv {n : Nat} (hI : Inv m.volume)
    (h : CarefulBoot b n m) : NeverForks b n m := by
  intro _ d hd hv hs ⟨ho, hp⟩
  rcases (hI.boot h).writer d hd hv hs with hw | hw
  · rw [ho] at hw
    cases hw
  · rw [hp] at hw
    cases hw

theorem rejoinsClean_of_inv {n : Nat} (hI : Inv m.volume)
    (h : CarefulBoot b n m) : RejoinsClean b n m := by
  intro hr he hj hstarted d hd hw
  have hR := ((leads_pgBootScript hI h.marker).ended n hstarted).2 () rfl hr
  exact hR.2 he hj d hd hw.2

/-- In every run of boots and promotions of a fresh volume: if its boots are careful,
no boot starts a clone as a writer that was never promoted, and none starts on a
writer's data under an epoch the member has not rejoined under; and whatever the boots,
writer data at PGDATA is only ever set aside, drill copies being all that is removed. -/
theorem bootLayer_of_careful (bitnami : Option Files) (es : List Event) :
    (Careful (Member.fresh bitnami) es → ∀ pre b n post, es = pre ++ .boot b n :: post →
      NeverForks b n ((Member.fresh bitnami).runAll pre) ∧
        RejoinsClean b n ((Member.fresh bitnami).runAll pre)) ∧
    ∀ pre post, es = pre ++ post → ∀ d,
      ((Member.fresh bitnami).runAll pre).volume.get pgdata = some d → HoldsWriterData d →
      Kept d.ident ((Member.fresh bitnami).runAll es) := by
  refine ⟨fun h pre b n post heq => ?_, fun pre post heq d hd hw => ?_⟩
  · have hI := (Inv.fresh bitnami).runAll (heq ▸ h).left
    have hb := h pre b n post heq
    exact ⟨neverForks_of_inv hI hb, rejoinsClean_of_inv hI hb⟩
  · have hk : Kept d.ident ((Member.fresh bitnami).runAll pre) :=
      .inl (.inl ⟨pgdata, d, hd, .inl rfl, rfl, hw⟩)
    rw [heq, Member.runAll, foldl_append]
    exact hk.runAll post

/-- A boot as a replica of `db`, whose PGDATA has these files. -/
def replicaBoot (epoch : String) (copied : Files) : Boot where
  role := "replica"
  phost := "db"
  epoch := epoch
  now := "20260101T000000Z"
  copied := copied
  copies := true
  initdb := ∅

/-- A boot as the primary. -/
def primaryBoot : Boot :=
  { replicaBoot "" ∅ with role := "primary", phost := "", initdb := AList.singleton pgVersion "17" }

/-- The PGDATA of a writer. -/
def writerFiles : Files := AList.singleton pgVersion "17"

/-- The PGDATA of a writer that once rejoined under this epoch. -/
def rejoinedFiles (epoch : String) : Files := writerFiles.insert rejoinedFile epoch

theorem bootLayer_demoted : NeverForks (replicaBoot "e1" writerFiles) 20
        ((Member.fresh none).runAll [.boot primaryBoot 9]) ∧
      RejoinsClean (replicaBoot "e1" writerFiles) 20
        ((Member.fresh none).runAll [.boot primaryBoot 9]) := by
  refine (bootLayer_of_careful none
    [.boot primaryBoot 9, .boot (replicaBoot "e1" writerFiles) 20]).1 ?_ [.boot primaryBoot 9]
      (replicaBoot "e1" writerFiles) 20 [] rfl
  have hp₁ : (bootFor primaryBoot 9 (Member.fresh none)).1.pending = none := by decide
  have hp₂ : (bootFor (replicaBoot "e1" writerFiles) 20
      ((Member.fresh none).runAll [.boot primaryBoot 9])).1.pending = none := by decide
  intro pre b n post heq
  rcases pre with _ | ⟨e₁, _ | ⟨e₂, pre⟩⟩
  · obtain ⟨he, -⟩ := cons_eq_cons.mp heq
    obtain ⟨rfl, rfl⟩ := Event.boot.inj he
    refine ⟨fun c hc => ?_, fun hr => absurd hr (by decide)⟩
    cases hp₁.symm.trans hc
  · obtain ⟨rfl, heq₁⟩ := cons_eq_cons.mp heq
    obtain ⟨he, -⟩ := cons_eq_cons.mp heq₁
    obtain ⟨rfl, rfl⟩ := Event.boot.inj he
    refine ⟨fun c hc => ?_, fun _ _ _ _ hm => absurd hm (by decide)⟩
    cases hp₂.symm.trans hc
  · simp at heq

/-- A clone whose `standby.signal` a kill prevented is started as a writer by the next
boot; and a marker that a clone has copied makes a replica start on writer data under
an epoch it has never rejoined under. -/
theorem bootLayer_forks : ¬ NeverForks primaryBoot 20
        ((Member.fresh none).runAll [.boot (replicaBoot "" writerFiles) 5]) ∧
      ¬ RejoinsClean (replicaBoot "e1" ∅) 20
        ((Member.fresh none).runAll [.boot (replicaBoot "" (rejoinedFiles "e1")) 20,
          .promote]) := by
  constructor
  · intro h
    refine h rfl _ (some_get (by decide)).symm ?_ ?_ ?_ <;> decide
  · intro h
    refine h rfl (by decide) (by decide) rfl _ (some_get (by decide)).symm ?_
    exact ⟨by decide, by decide⟩

end Swarmy.Pg
