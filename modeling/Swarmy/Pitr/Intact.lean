import Swarmy.Pitr.Order

/-!
# Intent carried intact

`intact_iff` says for which members the backup intent is intact once it is carried: nothing is
left to carry, the schedule and the flag are of one member, a user's schedule beats every default,
an opt-out leaves no default behind, no intent is lost, and the order of agreeing donors does not
matter.  The first, the third and the fifth always hold.
-/

namespace Swarmy.BackupIntent

open List Option

open Js (Value Fields)

variable {V : Type} {T : Texts V} {c : Pic V} {ds : List (Labels V)} {p : Labels V}
  {primary : Member V} {others : List (Member V)}

/-! ## Nothing is left to carry -/

theorem intentKeys_eq_nil {l : Labels V} : intentKeys l = [] ↔ ∀ k ∈ intentLabels, l k = none := by
  unfold intentKeys
  rw [filter_eq_nil_iff]
  exact forall₂_congr fun k _ => by rw [not_isSome_iff_eq_none]

theorem planBackupIntentCarry_eq_none :
    planBackupIntentCarry T primary others = none ↔ donors primary others = [] := by
  unfold planBackupIntentCarry
  cases donors primary others with
  | nil => exact ⟨fun _ => rfl, fun _ => rfl⟩
  | cons d ds => exact ⟨nofun, nofun⟩

theorem donors_eq_nil : donors primary others = [] ↔
      ∀ m ∈ others, m.name ≠ primary.name → intentKeys m.labels = [] := by
  unfold donors
  rw [filter_eq_nil_iff]
  refine forall₂_congr fun m _ => ?_
  rw [Bool.and_eq_true, not_and, decide_eq_true_eq, Bool.not_eq_true', Bool.not_eq_false,
    List.isEmpty_iff]

/-- Once the intent is carried, no member holds any that the primary should have. -/
theorem settled :
    planBackupIntentCarry T (carried T primary others) (stripped T primary others) = none := by
  rw [planBackupIntentCarry_eq_none, donors_eq_nil, carried_name]
  unfold stripped
  cases hplan : planBackupIntentCarry T primary others with
  | none => exact donors_eq_nil.mp (planBackupIntentCarry_eq_none.mp hplan)
  | some carry =>
    intro m' hm' hname
    obtain ⟨m, hm, rfl⟩ := mem_map.mp hm'
    have hdonors : carry.donors =
        (donors primary others).map fun m => (m.name, intentKeys m.labels) := by
      unfold planBackupIntentCarry at hplan
      split at hplan
      · exact nomatch hplan
      · exact some.inj hplan ▸ rfl
    rw [intentKeys_eq_nil]
    intro k hk
    unfold BackupIntentCarry.strip
    dsimp only
    rw [ite_eq_left_iff]
    intro hkept
    by_contra hsome
    have hkey : k ∈ intentKeys m.labels :=
      mem_filter.mpr ⟨hk, isSome_iff_ne_none.mpr hsome⟩
    have hdonor : m ∈ donors primary others := by
      refine mem_filter.mpr ⟨hm, ?_⟩
      rw [Bool.and_eq_true, decide_eq_true_eq, Bool.not_eq_true', isEmpty_eq_false_iff]
      exact ⟨hname, ne_nil_of_mem hkey⟩
    refine hkept (any_eq_true.mpr ⟨_, hdonors ▸ mem_map.mpr ⟨m, hdonor, rfl⟩, ?_⟩)
    rw [Bool.and_eq_true, decide_eq_true_eq, decide_eq_true_eq]
    exact ⟨rfl, hkey⟩

/-! ## The schedule -/

theorem userSet_rehomed {l : Labels V} :
    ((l scheduleLabel).map T.rehomeScheduleLabel).any (!T.isAutoSchedule ·) = userSet T l := by
  unfold userSet
  cases l scheduleLabel with
  | none => rfl
  | some s => exact congrArg (!·) (T.isAutoSchedule_rehome s)

/-- A user's schedule replaces a default, or comes where there is none. -/
theorem schedule_step_of_userSet {d : Labels V}
    (hc : c.schedule.any (!T.isAutoSchedule ·) = false) (hd : userSet T d = true) :
    (c.step T d).schedule = (d scheduleLabel).map T.rehomeScheduleLabel := by
  cases hs : c.schedule with
  | none =>
    rw [step_of_keeps (by rw [hs]; exact nofun) (by rw [hs]; exact nofun), hs]
    exact none_or
  | some s =>
    rw [hs, any_some, Bool.not_eq_false'] at hc
    rw [step_of_overrides (by rw [overridesAuto_eq, hs, any_some, hc, hd]; rfl)]

/-- A user's schedule beats every default. -/
theorem steps_userSet (h : c.schedule.any (!T.isAutoSchedule ·) = true ∨
    ∃ d ∈ ds, userSet T d = true) : (steps T c ds).schedule.any (!T.isAutoSchedule ·) = true := by
  induction ds generalizing c with
  | nil => exact h.resolve_right fun ⟨_, hd, _⟩ => nomatch hd
  | cons d ds ih =>
    by_cases huser : c.schedule.any (!T.isAutoSchedule ·) = true
    · rw [Option.any_eq_true] at huser
      obtain ⟨s, hs, hsuser⟩ := huser
      have hkept := hsuser
      rw [Bool.not_eq_true'] at hkept
      rw [(steps_of_userSet hkept hs (d :: ds)).1, any_some, hsuser]
    · refine ih ?_
      rcases h with h | ⟨d', hd', hu⟩
      · exact absurd h huser
      · rcases mem_cons.mp hd' with rfl | hd'
        · rw [schedule_step_of_userSet (Bool.eq_false_iff.mpr huser) hu, userSet_rehomed]
          exact .inl hu
        · exact .inr ⟨d', hd', hu⟩

/-- After every schedule there is an opt-out. -/
def Silenced (T : Texts V) : List (Labels V) → Prop
  | [] => True
  | m :: ms => (hasSchedule m = true → ∃ o ∈ ms, optedOut T o = true) ∧ Silenced T ms

/-- Where no schedule is a user's, the picture ends with a default, or with none if each was opted
out of. -/
theorem steps_silenced (hauto : ∀ s, c.schedule = some s → T.isAutoSchedule s = true)
    (hds : ∀ d ∈ ds, userSet T d = false) :
    (∀ s, (steps T c ds).schedule = some s → T.isAutoSchedule s = true) ∧
      ((steps T c ds).schedule = none ↔
        (c.schedule = none ∨ ∃ o ∈ ds, optedOut T o = true) ∧ Silenced T ds) := by
  induction ds generalizing c with
  | nil =>
    exact ⟨hauto, ⟨fun h => ⟨.inl h, trivial⟩,
      fun h => h.1.resolve_right fun ⟨_, hd, _⟩ => nomatch hd⟩⟩
  | cons d ds ih =>
    obtain ⟨hd, hds'⟩ := forall_mem_cons.mp hds
    have hover : ¬ overridesAuto T c.schedule d = true := by
      rw [overridesAuto_eq, hd, Bool.and_false]
      exact nofun
    simp only [exists_mem_cons_iff, Silenced]
    by_cases hout : optsOut T c.schedule d = true
    · have hopted : optedOut T d = true := by
        rw [optsOut_eq, Bool.and_eq_true] at hout
        exact hout.2
      have hnone := step_of_optsOut hout
      obtain ⟨hend, hiff⟩ := ih (c := c.step T d) (by rw [hnone]; exact nofun) hds'
      refine ⟨hend, hiff.trans ?_⟩
      rw [hnone, hopted, hasSchedule_of_optedOut hopted]
      simp
    · have hkeeps := step_of_keeps hover hout
      have hauto' : ∀ s, (c.step T d).schedule = some s → T.isAutoSchedule s = true := by
        rw [hkeeps]
        intro s hs
        rcases or_eq_some_iff.mp hs with hc | ⟨-, hs'⟩
        · exact hauto s hc
        · have hrehomed := userSet_rehomed (T := T) (l := d)
          rw [hs', hd, any_some, Bool.not_eq_false'] at hrehomed
          exact hrehomed
      obtain ⟨hend, hiff⟩ := ih hauto' hds'
      refine ⟨hend, hiff.trans ?_⟩
      have hnext : (c.step T d).schedule = none ↔ c.schedule = none ∧ hasSchedule d = false := by
        rw [hkeeps, or_eq_none_iff, map_eq_none_iff]
        exact and_congr_right fun _ =>
          isNone_iff_eq_none.symm.trans isSome_eq_false_iff.symm
      have hopted : optedOut T d = true → c.schedule = none ∧ hasSchedule d = false := by
        intro ho
        refine ⟨?_, hasSchedule_of_optedOut ho⟩
        by_contra hne
        obtain ⟨s, hs⟩ := ne_none_iff_exists'.mp hne
        refine hout ?_
        rw [optsOut_eq, hs, any_some, hauto s hs, ho]
        rfl
      rw [hnext]
      cases hs : hasSchedule d with
      | true =>
        rw [hs] at hopted
        have hnot : ¬ optedOut T d = true := fun ho => nomatch (hopted ho).2
        simp only [reduceCtorEq, and_false, false_or, hnot, forall_const]
        tauto
      | false =>
        simp only [and_true, Bool.false_eq_true, false_imp_iff, true_and]
        tauto

/-! ## The flag -/

theorem pitr_step {d : Labels V} (hd : hasFlag d = true) : (c.step T d).pitr.isSome = true := by
  by_cases hover : overridesAuto T c.schedule d = true
  · rw [step_of_overrides hover]
    exact hd
  · by_cases hout : optsOut T c.schedule d = true
    · rw [step_of_optsOut hout]
      exact hd
    · rw [step_of_keeps hover hout, isSome_or, show (d pitrLabel).isSome = true from hd,
        Bool.or_true]

theorem flag_of_pitr (h : c.pitr.isSome = true) : c.flag.isSome = true := by
  unfold Pic.flag
  rw [isSome_or, h, Bool.or_true]

/-- The schedule's member keeps its flag. -/
theorem Tracks.flag_of_schedule {own : Bool} {live ms : List (Labels V × Nat)} {c : Pic (V × Nat)}
    (h : Tracks T own live c) {s : V × Nat} (hs : (steps T.numbered c (at_ ms)).schedule = some s) :
    ∃ m, (m, s.2) ∈ live ++ ms ∧
      (hasFlag m = true → (steps T.numbered c (at_ ms)).flag.isSome = true) := by
  induction ms generalizing own live c with
  | nil =>
    have hplace : firstPlace hasSchedule live = some s.2 := by
      rw [← h.schedule, show c.schedule = some s from hs]
      rfl
    obtain ⟨m, hm, hms⟩ := mem_map.mp (firstPlace_mem hplace)
    refine ⟨m.1, ?_, fun hf => flag_of_pitr ?_⟩
    · rw [append_nil, ← hms]
      exact hm
    · change c.pitr.isSome = true
      rw [h.isSome_pitr, List.any_eq_true]
      exact ⟨m.1, List.mem_map.mpr ⟨m, hm, rfl⟩, hf⟩
  | cons d ms ih =>
    change (steps T.numbered (c.step T.numbered (d.1.at d.2)) (at_ ms)).schedule = some s at hs
    change ∃ m, (m, s.2) ∈ live ++ d :: ms ∧ (hasFlag m = true →
      (steps T.numbered (c.step T.numbered (d.1.at d.2)) (at_ ms)).flag.isSome = true)
    by_cases huser : userSet T d.1 = true
    · have hauto : c.schedule.any (!T.numbered.isAutoSchedule ·) = false := by
        rw [Bool.eq_false_iff, ne_eq, Option.any_eq_true]
        rintro ⟨t, ht, hauto⟩
        rw [show T.numbered.isAutoSchedule t = true from h.auto t ht] at hauto
        exact nomatch hauto
      have hstep := schedule_step_of_userSet (T := T.numbered) (d := d.1.at d.2) hauto
        (userSet_at.trans huser)
      have hset := userSet_rehomed (T := T.numbered) (l := d.1.at d.2)
      rw [← hstep, userSet_at, huser, Option.any_eq_true] at hset
      obtain ⟨t, ht, htuser⟩ := hset
      rw [Bool.not_eq_true'] at htuser
      obtain ⟨hsched, hflag⟩ := steps_of_userSet htuser ht (at_ ms)
      have hplace : t.2 = d.2 := by
        have hrehomed := place_rehomed (T := T) (l := d.1) (i := d.2)
        rw [← hstep, ht, hasSchedule_of_userSet huser] at hrehomed
        exact some.inj hrehomed
      obtain rfl := some.inj (hsched.symm.trans hs)
      refine ⟨d.1, mem_append_right _ (hplace ▸ .head _), fun hf => ?_⟩
      have hpitr : (c.step T.numbered (d.1.at d.2)).pitr.isSome = true :=
        pitr_step ((isSome_map).trans hf)
      rw [hflag, if_pos hpitr]
      exact flag_of_pitr hpitr
    · rw [Bool.not_eq_true] at huser
      by_cases hout : (optedOut T d.1 && (live.map Prod.fst).any hasSchedule) = true
      · obtain ⟨hopted, hany⟩ := Bool.and_eq_true_iff.mp hout
        obtain ⟨m, hm, hf⟩ := ih (h.optsOut hopted hany) hs
        exact ⟨m, mem_append_right _ hm, hf⟩
      · rw [Bool.not_eq_true] at hout
        obtain ⟨m, hm, hf⟩ := ih (h.keeps huser hout) hs
        rw [append_assoc] at hm
        exact ⟨m, hm, hf⟩

/-- A flag that nothing replaces stays. -/
theorem steps_pitr (hds : ∀ d ∈ ds, replaces T d = false) :
    (steps T c ds).pitr = c.pitr.or (firstOf pitrLabel ds) := by
  induction ds generalizing c with
  | nil => exact or_none.symm
  | cons d ds ih =>
    obtain ⟨hd, hds'⟩ := forall_mem_cons.mp hds
    obtain ⟨huser, hout⟩ := Bool.or_eq_false_iff.mp hd
    have hstep := step_of_keeps (T := T) (l := d) (c := c)
      (by rw [overridesAuto_eq, huser, Bool.and_false]; exact nofun)
      (by rw [optsOut_eq, hout, Bool.and_false]; exact nofun)
    rw [steps_cons, ih hds', hstep, firstOf, Option.or_assoc]

/-! ## Intact -/

/-- The primary and the donors. -/
def members (primary : Member V) (others : List (Member V)) : List (Labels V) :=
  primary.labels :: donorLabels primary others

/-- No intent is lost: the last run and the opt-out stay; a schedule stays where nobody opted out;
and a flag stays with its schedule, and where nothing replaces it. -/
structure Kept (T : Texts V) (primary : Member V) (others : List (Member V)) : Prop where
  rest : ∀ k ∈ [lastRunLabel, autoLabel], (∃ m ∈ members primary others, (m k).isSome = true) →
    ((carried T primary others).labels k).isSome = true
  schedule : (∃ m ∈ members primary others, hasSchedule m = true) →
    (∀ m ∈ members primary others, optedOut T m = false) →
    hasSchedule (carried T primary others).labels = true
  flag : ∀ s, traced T primary others scheduleLabel = some s →
    ∀ m, (m, s.2) ∈ (primary.labels, 0) :: placed primary others → hasFlag m = true →
    hasFlag (carried T primary others).labels = true
  alone : (∃ m ∈ members primary others, hasFlag m = true) →
    (∀ m ∈ members primary others, replaces T m = false) →
    hasFlag (carried T primary others).labels = true

/-- The backup intent follows the writer intact. -/
structure Intact (T : Texts V) (primary : Member V) (others : List (Member V)) : Prop where
  settled : planBackupIntentCarry T (carried T primary others) (stripped T primary others) = none
  oneSource : ∀ s f, traced T primary others scheduleLabel = some s →
    traced T primary others pitrLabel = some f → s.2 = f.2
  own : userSet T primary.labels = true → ∀ k ∈ [scheduleLabel, pitrLabel],
    ∀ v, traced T primary others k = some v → v.2 = 0
  userWins : (∃ m ∈ members primary others, userSet T m = true) →
    userSet T (carried T primary others).labels = true
  optOut : (∃ m ∈ members primary others, optedOut T m = true) →
    ((carried T primary others).labels scheduleLabel).any T.isAutoSchedule = false
  kept : Kept T primary others
  order : ∀ others', others'.Perm others → AgreeAll T (donorLabels primary others) →
    carried T primary others' = carried T primary others

/-- The members keep a schedule and its flag together, opt out after every default, and lose no
flag by their order. -/
structure Coherent (T : Texts V) (p : Labels V) (ds : List (Labels V)) : Prop where
  source : KeepsSource T p ds
  optOut : (∃ m ∈ p :: ds, optedOut T m = true) →
    (∃ m ∈ p :: ds, userSet T m = true) ∨ Silenced T (p :: ds)
  order : AgreeAll T ds → ¬ Loses T p ds

theorem userSet_carried : userSet T (carried T primary others).labels =
    (pics T primary.labels (donorLabels primary others)).schedule.any (!T.isAutoSchedule ·) := by
  unfold userSet
  rw [carried_schedule]

theorem hasFlag_carried : hasFlag (carried T primary others).labels =
    (pics T primary.labels (donorLabels primary others)).flag.isSome := by
  unfold hasFlag
  rw [carried_flag]

theorem userWins (h : ∃ m ∈ members primary others, userSet T m = true) :
    userSet T (carried T primary others).labels = true := by
  rw [userSet_carried]
  refine steps_userSet ?_
  obtain ⟨m, hm, hu⟩ := h
  rcases mem_cons.mp hm with heq | hds
  · rw [heq] at hu
    exact .inl hu
  · exact .inr ⟨m, hds, hu⟩

/-- Where no schedule is a user's, the primary ends with a default, or with none if each was opted
out of. -/
theorem carried_silenced (h : ∀ m ∈ members primary others, userSet T m = false) :
    (∀ s, (carried T primary others).labels scheduleLabel = some s → T.isAutoSchedule s = true) ∧
      ((carried T primary others).labels scheduleLabel = none ↔
        Silenced T (members primary others)) := by
  obtain ⟨hp, hds⟩ := forall_mem_cons.mp h
  have hauto : ∀ s, primary.labels scheduleLabel = some s → T.isAutoSchedule s = true := by
    intro s hs
    unfold userSet at hp
    rwa [hs, any_some, Bool.not_eq_false'] at hp
  have hend := steps_silenced (c := ⟨primary.labels scheduleLabel, primary.labels pitrLabel, none⟩)
    hauto hds
  rw [carried_schedule]
  refine ⟨hend.1, hend.2.trans (and_congr_left fun _ => ?_)⟩
  dsimp only
  rw [← not_isSome_iff_eq_none]
  unfold hasSchedule
  exact imp_iff_not_or.symm

theorem optOut_iff : ((∃ m ∈ members primary others, optedOut T m = true) →
      ((carried T primary others).labels scheduleLabel).any T.isAutoSchedule = false) ↔
      ((∃ m ∈ members primary others, optedOut T m = true) →
        (∃ m ∈ members primary others, userSet T m = true) ∨ Silenced T
        (members primary others)) := by
  refine imp_congr_right fun _ => ?_
  by_cases huser : ∃ m ∈ members primary others, userSet T m = true
  · have hwins := userWins huser
    unfold userSet at hwins
    rw [Option.any_eq_true] at hwins
    obtain ⟨s, hs, hsuser⟩ := hwins
    rw [Bool.not_eq_true'] at hsuser
    rw [hs, any_some, hsuser]
    exact ⟨fun _ => .inl huser, fun _ => rfl⟩
  · have hnone : ∀ m ∈ members primary others, userSet T m = false := fun m hm =>
      Bool.eq_false_iff.mpr fun hu => huser ⟨m, hm, hu⟩
    obtain ⟨hauto, hsilent⟩ := carried_silenced hnone
    rw [← hsilent, or_iff_right huser]
    cases hs : (carried T primary others).labels scheduleLabel with
    | none => exact ⟨fun _ => rfl, fun _ => rfl⟩
    | some s =>
      rw [any_some, hauto s hs]
      exact ⟨nofun, nofun⟩

/-- A user's schedule on the primary stays, and so does its flag. -/
theorem traced_of_userSet (huser : userSet T primary.labels = true) :
    ∃ s, traced T primary others scheduleLabel = some (s, 0) ∧
      (hasFlag primary.labels = true → (traced T primary others pitrLabel).isSome = true) := by
  obtain ⟨s, hsuser, hs⟩ := userSet_start huser
  obtain ⟨hsched, hflag⟩ := steps_of_userSet (T := T.numbered) (s := (s, 0))
    (c := ⟨(primary.labels.at 0) scheduleLabel, (primary.labels.at 0) pitrLabel, none⟩)
    hsuser hs (at_ (placed primary others))
  refine ⟨s, traced_schedule.trans hsched, fun hf => ?_⟩
  have hpitr : ((primary.labels.at 0) pitrLabel).isSome = true := isSome_map.trans hf
  rw [traced_flag]
  change (steps T.numbered _ _).flag.isSome = true
  rw [hflag, if_pos hpitr]
  exact flag_of_pitr hpitr

theorem flag_of_schedule (s : V × Nat) (hs : traced T primary others scheduleLabel = some s)
    (m : Labels V) (hm : (m, s.2) ∈ (primary.labels, 0) :: placed primary others)
    (hf : hasFlag m = true) : hasFlag (carried T primary others).labels = true := by
  have hsome : (traced T primary others pitrLabel).isSome = true := by
    by_cases huser : userSet T primary.labels = true
    · obtain ⟨t, ht, hflag⟩ := @traced_of_userSet _ _ _ others huser
      obtain rfl := some.inj (ht.symm.trans hs)
      have heq := inj_on_of_nodup_map (nodup_placed primary others) hm (.head _) rfl
      exact hflag ((Prod.mk.inj heq).1 ▸ hf)
    · rw [traced_schedule] at hs
      rw [traced_flag]
      obtain ⟨m', hm', hf'⟩ := (tracks_start (Bool.eq_false_iff.mpr huser)).flag_of_schedule hs
      have heq := inj_on_of_nodup_map (nodup_placed primary others) hm hm' rfl
      exact hf' ((Prod.mk.inj heq).1 ▸ hf)
  unfold hasFlag
  rw [← fst_traced.2, isSome_map]
  exact hsome

theorem kept : Kept T primary others where
  rest k hk h := by
    have hk' : k ∈ intentLabels ∧ k ≠ scheduleLabel ∧ k ≠ pitrLabel := by
      rcases mem_pair.mp hk with rfl | rfl <;> exact ⟨by decide, by decide, by decide⟩
    obtain ⟨m, hm, hsome⟩ := h
    rw [carried_first hk'.1 hk'.2.1 hk'.2.2, isSome_iff_ne_none]
    intro hnone
    rw [firstOf_eq_none.mp hnone m hm] at hsome
    exact nomatch hsome
  schedule h hout := by
    by_cases huser : ∃ m ∈ members primary others, userSet T m = true
    · exact hasSchedule_of_userSet (userWins huser)
    · obtain ⟨-, hsilent⟩ := @carried_silenced _ T primary others
        fun m hm => Bool.eq_false_iff.mpr fun hu => huser ⟨m, hm, hu⟩
      unfold hasSchedule
      rw [isSome_iff_ne_none, ne_eq, hsilent]
      intro hs
      obtain ⟨m, hm, hsched⟩ := h
      have hno : ∀ ms : List (Labels V), Silenced T ms → (∀ m ∈ ms, optedOut T m = false) →
          ∀ m ∈ ms, hasSchedule m = false := by
        intro ms
        induction ms with
        | nil => exact fun _ _ => nofun
        | cons m ms ih =>
          rintro ⟨hfirst, hrest⟩ hout
          obtain ⟨-, hout'⟩ := forall_mem_cons.mp hout
          refine forall_mem_cons.mpr ⟨Bool.eq_false_iff.mpr fun hm => ?_, ih hrest hout'⟩
          obtain ⟨o, ho, hopted⟩ := hfirst hm
          exact nomatch (hout' o ho).symm.trans hopted
      exact nomatch (hno _ hs hout m hm).symm.trans hsched
  flag := flag_of_schedule
  alone h hnone := by
    obtain ⟨m, hm, hf⟩ := h
    rw [hasFlag_carried]
    refine flag_of_pitr ?_
    have hpitr := @steps_pitr _ T ⟨primary.labels scheduleLabel, primary.labels pitrLabel, none⟩
      (donorLabels primary others) (forall_mem_cons.mp hnone).2
    change (steps T _ _).pitr.isSome = true
    rw [hpitr, isSome_iff_ne_none]
    intro hall
    have hall' : firstOf pitrLabel (members primary others) = none := hall
    unfold hasFlag at hf
    rw [firstOf_eq_none.mp hall' m hm] at hf
    exact nomatch hf

/-- The backup intent is carried intact exactly when the members are coherent. -/
theorem intact_of_coherent_iff :
    Intact T primary others ↔ Coherent T primary.labels (donorLabels primary others) := by
  constructor
  · exact fun h => ⟨oneSource_iff.mp h.oneSource, optOut_iff.mp h.optOut, perm_iff.mp h.order⟩
  · intro h
    have hone := oneSource_iff.mpr h.source
    refine ⟨settled, hone, fun huser => ?_, userWins, optOut_iff.mpr h.optOut, kept,
      perm_iff.mpr h.order⟩
    obtain ⟨s, hsched, -⟩ := @traced_of_userSet _ _ _ others huser
    intro k hk v hv
    rcases mem_pair.mp hk with rfl | rfl
    · exact congrArg Prod.snd (some.inj (hv.symm.trans hsched))
    · exact (hone _ _ hsched hv).symm

/-- For the texts of labels. -/
theorem intact_iff (J : Json) (primary : Member String) (others : List (Member String)) :
    Intact J.texts primary others ↔ Coherent J.texts primary.labels (donorLabels primary others) :=
  intact_of_coherent_iff

/-! ## A flag that is left behind -/

def autoText : String := "\x7b\"auto\":true\x7d"
def nightlyText : String := "\x7b\"cron\":\"0 3 * * *\"\x7d"

theorem plainFields_filter {fields : Js.Fields} (p : String × Js.Value → Bool)
    (h : Js.Json.plainFields fields = true) : Js.Json.plainFields (fields.filter p) = true := by
  induction fields with
  | nil => rfl
  | cons f fs ih =>
    obtain ⟨⟨hvalue, hkeys⟩, hrest⟩ :
        (Js.Json.plain f.2 = true ∧ (fs.all fun g => g.1 ≠ f.1) = true) ∧
          Js.Json.plainFields fs = true := by
      rwa [Js.Json.plainFields, Bool.and_eq_true, Bool.and_eq_true] at h
    by_cases hp : p f = true
    · rw [filter_cons_of_pos hp, Js.Json.plainFields, hvalue, ih hrest, Bool.true_and,
        Bool.and_true]
      exact List.all_eq_true.mpr fun g hg => List.all_eq_true.mp hkeys g (mem_of_mem_filter hg)
    · rw [filter_cons_of_neg hp]
      exact ih hrest

theorem get_filter {fields : Js.Fields} {j k : String} (h : j ≠ k) :
    Fields.get (fields.filter (·.1 ≠ k)) j = Fields.get fields j := by
  unfold Fields.get
  induction fields with
  | nil => rfl
  | cons f fs ih =>
    by_cases hk : f.1 = k
    · have hne : (j == f.1) = false := beq_eq_false_iff_ne.mpr (hk ▸ h)
      rw [filter_cons_of_neg (by simp [hk]), ih, lookup_cons, hne]
    · rw [filter_cons_of_pos (by simp [hk]), lookup_cons, lookup_cons, ih]

/-- `JSON` of texts without numbers. -/
def plainJson : Json where
  parse text := (Js.Json.parse (fun _ => .int 0) text).filter Js.Json.plain
  stringify := Js.Json.stringify
  parse_stringify text fields k hparse := by
    obtain ⟨-, hplain⟩ := Option.filter_eq_some_iff.mp hparse
    have hfiltered : Js.Json.plain (.obj (fields.filter (·.1 ≠ k))) = true := by
      rw [Js.Json.plain] at hplain ⊢
      exact plainFields_filter _ hplain
    refine ⟨fields.filter (·.1 ≠ k), ?_, fun j hj => by rw [get_filter hj]⟩
    rw [Js.Json.parse_stringify (Js.Json.sound_of_plain hfiltered)]
    exact Option.filter_eq_some_iff.mpr ⟨rfl, hfiltered⟩

/-- The members of a cluster whose writer was replaced twice: the labels of a member are its
schedule and its flag. -/
def member (name : String) (schedule flag : Option String) : Member String where
  name
  labels k := if k = scheduleLabel then schedule else if k = pitrLabel then flag else none

/-- Every primary and every list of other members ends with its intent intact. -/
def AlwaysIntact : Prop :=
  ∀ (J : Json) (primary : Member String) (others : List (Member String)),
    Intact J.texts primary others

/-- One donor has a default and the flag, the next a user's schedule without a flag: the primary
ends with the schedule of the second and the flag of the first. -/
theorem not_alwaysIntact : ¬ AlwaysIntact := fun h => by
  have hone := (h plainJson (member "shop_main-primary" none none)
    [member "shop_main-replica" (some autoText) (some "true"),
      member "shop_main-replica-eu" (some nightlyText) none]).oneSource
    (nightlyText, 2) ("true", 1) (by decide +kernel) (by decide +kernel)
  exact absurd hone (by decide)

end Swarmy.BackupIntent
