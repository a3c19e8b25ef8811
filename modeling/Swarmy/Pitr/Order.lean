import Mathlib
import Swarmy.Pitr.Source

/-!
# The order of the donors

Donors agree when no label has two values on them, and none is opted out where another has a
schedule.  Of agreeing donors at most one kind replaces an automatic schedule: a user's schedule,
or an opt-out.  `perm_iff`: the order of agreeing donors does not matter exactly when the flag of a
donor that replaces nothing is not lost at one that does.
-/

namespace Swarmy.BackupIntent

open List Option Bool

variable {V : Type} {T : Texts V} {ds ds' pre post : List (Labels V)} {u d : Labels V} {k : String}

/-! ## Agreement -/

/-- Two donors do not contradict each other. -/
structure Agree (T : Texts V) (l l' : Labels V) : Prop where
  same : ∀ k ∈ intentLabels, ∀ v v', l k = some v → l' k = some v' → v = v'
  optOut : optedOut T l = true → hasSchedule l' = false

def AgreeAll (T : Texts V) (ds : List (Labels V)) : Prop := ∀ l ∈ ds, ∀ l' ∈ ds, Agree T l l'

theorem AgreeAll.of_subset (h : AgreeAll T ds) (hsub : ds' ⊆ ds) : AgreeAll T ds' :=
  fun l hl l' hl' => h l (hsub hl) l' (hsub hl')

/-- A donor that replaces an automatic schedule. -/
def replaces (T : Texts V) (l : Labels V) : Bool := userSet T l || optedOut T l

theorem firstOf_eq_none : firstOf k ds = none ↔ ∀ d ∈ ds, d k = none := by
  induction ds with
  | nil => exact ⟨fun _ => nofun, fun _ => rfl⟩
  | cons d ds ih => rw [firstOf, or_eq_none_iff, ih, forall_mem_cons]

theorem firstOf_append : firstOf k (ds ++ ds') = (firstOf k ds).or (firstOf k ds') := by
  induction ds with
  | nil => rfl
  | cons d ds ih => rw [List.cons_append, firstOf, firstOf, ih, Option.or_assoc]

theorem firstOf_mem {v : V} (h : firstOf k ds = some v) : ∃ d ∈ ds, d k = some v := by
  induction ds with
  | nil => exact nomatch h
  | cons d ds ih =>
    rw [firstOf] at h
    rcases or_eq_some_iff.mp h with hd | ⟨-, hds⟩
    · exact ⟨d, .head _, hd⟩
    · obtain ⟨d', hd', hv⟩ := ih hds
      exact ⟨d', .tail _ hd', hv⟩

/-- The first value of a label is any of them. -/
theorem AgreeAll.firstOf (h : AgreeAll T ds) (hk : k ∈ intentLabels) (hd : d ∈ ds) {v : V}
    (hv : d k = some v) : firstOf k ds = some v := by
  cases hf : BackupIntent.firstOf k ds with
  | none => exact nomatch (firstOf_eq_none.mp hf d hd).symm.trans hv
  | some v' =>
    obtain ⟨d', hd', hv'⟩ := firstOf_mem hf
    exact congrArg some ((h d' hd' d hd).same k hk v' v hv' hv)

theorem AgreeAll.firstOf_perm (h : AgreeAll T ds) (hk : k ∈ intentLabels) (hp : ds'.Perm ds) :
    BackupIntent.firstOf k ds' = BackupIntent.firstOf k ds := by
  cases hf : BackupIntent.firstOf k ds' with
  | none =>
    have hnone := firstOf_eq_none.mp hf
    exact (firstOf_eq_none.mpr fun d hd => hnone d (hp.mem_iff.mpr hd)).symm
  | some v =>
    obtain ⟨d, hd, hv⟩ := firstOf_mem hf
    exact (h.firstOf hk (hp.mem_iff.mp hd) hv).symm

/-! ## Calm and storm -/

/-- A walk in which nothing is replaced. -/
theorem steps_calm {c : Pic V} (h : AgreeAll T ds)
    (hcalm : c.schedule.any T.isAutoSchedule = true → ∀ d ∈ ds, replaces T d = false) :
    steps T c ds =
      ⟨c.schedule.or ((firstOf scheduleLabel ds).map T.rehomeScheduleLabel),
        c.pitr.or (firstOf pitrLabel ds),
        if c.pitr.isSome then c.added else (firstOf pitrLabel ds).or c.added⟩ := by
  induction ds generalizing c with
  | nil =>
    obtain ⟨s, p, a⟩ := c
    simp [steps, firstOf]
  | cons d ds ih =>
    have hquiet : c.schedule.any T.isAutoSchedule = true →
        userSet T d = false ∧ optedOut T d = false := fun hc =>
      or_eq_false_iff.mp (hcalm hc d (.head _))
    have hstep := step_of_keeps (T := T) (l := d) (c := c)
      (by
        rw [overridesAuto_eq, and_eq_true]
        rintro ⟨hc, hu⟩
        exact Bool.false_ne_true ((hquiet hc).1.symm.trans hu))
      (by
        rw [optsOut_eq, and_eq_true]
        rintro ⟨hc, ho⟩
        exact Bool.false_ne_true ((hquiet hc).2.symm.trans ho))
    have hnext : (c.step T d).schedule.any T.isAutoSchedule = true →
        ∀ d' ∈ ds, replaces T d' = false := by
      rw [hstep]
      intro hany d' hd'
      cases hc : c.schedule with
      | some s =>
        rw [hc] at hany hcalm
        exact hcalm hany d' (.tail _ hd')
      | none =>
        rw [hc, none_or] at hany
        cases hs : d scheduleLabel with
        | none =>
          rw [hs] at hany
          exact (Bool.false_ne_true hany).elim
        | some v =>
          rw [hs, map_some, any_some, T.isAutoSchedule_rehome] at hany
          refine or_eq_false_iff.mpr ⟨?_, ?_⟩
          · unfold userSet
            cases hs' : d' scheduleLabel with
            | none => rfl
            | some v' =>
              rw [← (h d (.head _) d' (.tail _ hd')).same _ (by decide) v v' hs hs',
                any_some, hany]
              rfl
          · rw [eq_false_iff]
            intro ho
            have hnone := (h d' (.tail _ hd') d (.head _)).optOut ho
            unfold hasSchedule at hnone
            rw [hs] at hnone
            exact Bool.false_ne_true hnone.symm
    rw [steps_cons, ih (h.of_subset (subset_cons_self _ _)) hnext, hstep, firstOf, firstOf]
    cases c.schedule <;> cases c.pitr <;> cases d pitrLabel <;> cases d scheduleLabel <;> rfl

theorem steps_append (c : Pic V) : steps T c (ds ++ ds') = steps T (steps T c ds) ds' :=
  foldl_append

variable {p : Labels V}

/-- A user's schedule replaces an automatic one, and every flag that was not added. -/
theorem steps_cons_userSet {c : Pic V} (hauto : c.schedule.any T.isAutoSchedule = true)
    (hu : userSet T u = true) :
    (steps T c (u :: post)).schedule = (u scheduleLabel).map T.rehomeScheduleLabel ∧
      (steps T c (u :: post)).flag = (u pitrLabel).or ((firstOf pitrLabel post).or c.added) := by
  have hstep := step_of_overrides (T := T) (l := u) (c := c)
    (by rw [overridesAuto_eq, hauto, hu]; rfl)
  unfold userSet at hu
  rw [Option.any_eq_true] at hu
  obtain ⟨v, hv, hvuser⟩ := hu
  rw [not_eq_true'] at hvuser
  have hsched : (c.step T u).schedule = some (T.rehomeScheduleLabel v) := by
    rw [hstep, hv]
    rfl
  obtain ⟨hkept, hflag⟩ := steps_of_userSet ((T.isAutoSchedule_rehome v).trans hvuser) hsched post
  rw [steps_cons, hkept, hflag, hv]
  refine ⟨rfl, ?_⟩
  rw [hstep]
  unfold Pic.flag
  cases u pitrLabel <;> rfl

/-- An opt-out takes an automatic schedule away, and every flag. -/
theorem steps_cons_optedOut {c : Pic V} (hauto : c.schedule.any T.isAutoSchedule = true)
    (hu : optedOut T u = true) (hadded : c.pitr = none → c.added = none) (hagree : AgreeAll T post)
    (hpost : ∀ d ∈ post, d scheduleLabel = none) : (steps T c (u :: post)).schedule = none ∧
      (steps T c (u :: post)).flag = (u pitrLabel).or (firstOf pitrLabel post) := by
  have hstep := step_of_optsOut (T := T) (l := u) (c := c)
    (by rw [optsOut_eq, hauto, hu]; rfl)
  have hnone : (if c.pitr.isSome then none else c.added) = none := by
    cases hc : c.pitr with
    | none => exact hadded hc
    | some f => rfl
  rw [hnone, or_none] at hstep
  have hcalm := steps_calm (T := T) (c := ⟨none, u pitrLabel, u pitrLabel⟩) hagree nofun
  rw [steps_cons, hstep, hcalm, firstOf_eq_none.mpr hpost]
  refine ⟨rfl, ?_⟩
  unfold Pic.flag
  cases u pitrLabel <;> cases firstOf pitrLabel post <;> rfl

/-- A walk in which the first of some agreeing donors replaces an automatic schedule: the flag of
an earlier donor is lost, unless it was added and a user's schedule does the replacing. -/
theorem pics_storm (hauto : (p scheduleLabel).any T.isAutoSchedule = true)
    (h : AgreeAll T (pre ++ u :: post)) (hpre : ∀ d ∈ pre, replaces T d = false)
    (hu : replaces T u = true) :
    (pics T p (pre ++ u :: post)).schedule = (u scheduleLabel).map T.rehomeScheduleLabel ∧
      (pics T p (pre ++ u :: post)).flag = (u pitrLabel).or ((firstOf pitrLabel post).or
        (if hasFlag p || optedOut T u then none else firstOf pitrLabel pre)) := by
  obtain ⟨s, hs, hsauto⟩ : ∃ s, p scheduleLabel = some s ∧ T.isAutoSchedule s = true := by
    rwa [Option.any_eq_true] at hauto
  have hfirst := steps_calm (T := T) (c := ⟨p scheduleLabel, p pitrLabel, none⟩)
    (h.of_subset (subset_append_left _ _)) fun _ => hpre
  have hauto' : (steps T ⟨p scheduleLabel, p pitrLabel, none⟩ pre).schedule.any T.isAutoSchedule =
      true := by
    rw [hfirst, hs]
    exact hsauto
  change (steps T _ (pre ++ u :: post)).schedule = _ ∧ (steps T _ (pre ++ u :: post)).flag = _
  rw [steps_append]
  cases huser : userSet T u with
  | true =>
    have hopted : optedOut T u = false := by
      rw [eq_false_iff]
      intro ho
      exact nomatch (hasSchedule_of_optedOut ho).symm.trans (hasSchedule_of_userSet huser)
    obtain ⟨hsched, hflag⟩ := @steps_cons_userSet _ _ post _ _ hauto' huser
    refine ⟨hsched, hflag.trans ?_⟩
    rw [hfirst, hopted, Bool.or_false]
    unfold hasFlag
    cases p pitrLabel <;> cases firstOf pitrLabel pre <;> rfl
  | false =>
    have hopted : optedOut T u = true := by
      unfold replaces at hu
      rwa [huser, Bool.false_or] at hu
    have hmem : u ∈ pre ++ u :: post := mem_append_right _ (.head _)
    have hpost (d : Labels V) (hd : d ∈ post) : d scheduleLabel = none := by
      have hnone := (h u hmem d (mem_append_right _ (.tail _ hd))).optOut hopted
      exact isNone_iff_eq_none.mp (isSome_eq_false_iff.mp hnone)
    have hadded : (steps T ⟨p scheduleLabel, p pitrLabel, none⟩ pre).pitr = none →
        (steps T ⟨p scheduleLabel, p pitrLabel, none⟩ pre).added = none := by
      rw [hfirst]
      dsimp only
      intro hnone
      obtain ⟨hp, hf⟩ := or_eq_none_iff.mp hnone
      rw [hp, hf]
      rfl
    obtain ⟨hsched, hflag⟩ := steps_cons_optedOut (T := T) hauto' hopted hadded
      (h.of_subset fun d hd => mem_append_right _ (.tail _ hd)) hpost
    have husched : u scheduleLabel = none :=
      isNone_iff_eq_none.mp (isSome_eq_false_iff.mp (hasSchedule_of_optedOut hopted))
    refine ⟨hsched.trans (by rw [husched]; rfl), hflag.trans ?_⟩
    rw [hopted, Bool.or_true, if_pos rfl, or_none]

/-! ## The outcome -/

/-- A donor replaces the primary's automatic schedule. -/
def Storm (T : Texts V) (p : Labels V) (ds : List (Labels V)) : Prop :=
  (p scheduleLabel).any T.isAutoSchedule = true ∧ ∃ d ∈ ds, replaces T d = true

/-- In the order where the donors with a flag come first, a donor that replaces the schedule
loses their flag. -/
structure Loses (T : Texts V) (p : Labels V) (ds : List (Labels V)) : Prop where
  storm : Storm T p ds
  bare : ∀ d ∈ ds, replaces T d = true → hasFlag d = false
  flag : ∃ d ∈ ds, hasFlag d = true
  lost : hasFlag p = true ∨ ∃ d ∈ ds, optedOut T d = true

theorem Storm.perm (h : Storm T p ds) (hp : ds.Perm ds') : Storm T p ds' := by
  obtain ⟨hauto, d, hd, hr⟩ := h
  exact ⟨hauto, d, hp.mem_iff.mp hd, hr⟩

theorem Loses.perm (h : Loses T p ds) (hp : ds.Perm ds') : Loses T p ds' := by
  obtain ⟨d, hd, hf⟩ := h.flag
  refine ⟨h.storm.perm hp, fun d hd => h.bare d (hp.mem_iff.mpr hd), ⟨d, hp.mem_iff.mp hd, hf⟩, ?_⟩
  exact h.lost.imp_right fun ⟨d, hd, ho⟩ => ⟨d, hp.mem_iff.mp hd, ho⟩

/-- The first of the donors that replaces an automatic schedule. -/
theorem exists_first_replaces (h : ∃ d ∈ ds, replaces T d = true) :
    ∃ pre u post, ds = pre ++ u :: post ∧ (∀ d ∈ pre, replaces T d = false) ∧
      replaces T u = true := by
  obtain ⟨d, hd, hr⟩ := h
  obtain ⟨u, hu⟩ := isSome_iff_exists.mp (List.find?_isSome.mpr ⟨d, hd, hr⟩)
  obtain ⟨hru, pre, post, heq, hpre⟩ := List.find?_eq_some_iff_append.mp hu
  refine ⟨pre, u, post, heq, fun d hd => ?_, hru⟩
  have hd' := hpre d hd
  rwa [not_eq_true'] at hd'

theorem outcome_of_not_storm (h : AgreeAll T ds) (hcalm : ¬ Storm T p ds) : (pics T p ds).schedule =
        (p scheduleLabel).or ((firstOf scheduleLabel ds).map T.rehomeScheduleLabel) ∧
      (pics T p ds).flag = (p pitrLabel).or (firstOf pitrLabel ds) := by
  have hsteps := steps_calm (T := T) (c := ⟨p scheduleLabel, p pitrLabel, none⟩) h
    fun hauto d hd => eq_false_iff.mpr fun hr => hcalm ⟨hauto, d, hd, hr⟩
  change (steps T _ ds).schedule = _ ∧ (steps T _ ds).flag = _
  rw [hsteps]
  refine ⟨rfl, ?_⟩
  unfold Pic.flag
  cases p pitrLabel <;> cases firstOf pitrLabel ds <;> rfl

theorem outcome_of_storm (h : AgreeAll T ds) (hstorm : Storm T p ds) (hkeeps : ¬ Loses T p ds) :
    (pics T p ds).schedule = (firstOf scheduleLabel ds).map T.rehomeScheduleLabel ∧
      (pics T p ds).flag = firstOf pitrLabel ds := by
  obtain ⟨pre, u, post, rfl, hpre, hu⟩ := exists_first_replaces hstorm.2
  have hmem : u ∈ pre ++ u :: post := mem_append_right _ (.head _)
  obtain ⟨hsched, hflag⟩ := pics_storm hstorm.1 h hpre hu
  constructor
  · rw [hsched]
    congr 1
    cases hv : u scheduleLabel with
    | some v => exact (h.firstOf (by decide) hmem hv).symm
    | none =>
      have hopted : optedOut T u = true := by
        unfold replaces userSet at hu
        rwa [hv, any_none, Bool.false_or] at hu
      exact (firstOf_eq_none.mpr fun d hd => isNone_iff_eq_none.mp
        (isSome_eq_false_iff.mp ((h u hmem d hd).optOut hopted))).symm
  · rw [hflag]
    cases hall : firstOf pitrLabel (pre ++ u :: post) with
    | none =>
      have hnone := firstOf_eq_none.mp hall
      have hpreNone := firstOf_eq_none.mpr fun d hd => hnone d (mem_append_left _ hd)
      have hpostNone := firstOf_eq_none.mpr fun d hd =>
        hnone d (mem_append_right _ (.tail _ hd))
      rw [hnone u hmem, hpreNone, hpostNone, ite_self]
      rfl
    | some x =>
      have hvalue {d : Labels V} (hd : d ∈ pre ++ u :: post) {v : V} (hv : d pitrLabel = some v) :
          some v = some x := (h.firstOf (by decide) hd hv).symm.trans hall
      cases hup : u pitrLabel with
      | some v => exact hvalue hmem hup
      | none =>
        cases hpost : firstOf pitrLabel post with
        | some v =>
          obtain ⟨d, hd, hv⟩ := firstOf_mem hpost
          exact hvalue (mem_append_right _ (.tail _ hd)) hv
        | none =>
          rw [firstOf_append, firstOf, hup, hpost, none_or, or_none] at hall
          rw [none_or, none_or, hall]
          refine if_neg fun hlost => hkeeps ⟨hstorm, fun d hd hr => ?_, ?_, ?_⟩
          · rcases mem_append.mp hd with hd | hd
            · exact (Bool.false_ne_true ((hpre d hd).symm.trans hr)).elim
            · rcases mem_cons.mp hd with rfl | hd
              · exact isSome_eq_false_iff.mpr (isNone_iff_eq_none.mpr hup)
              · exact isSome_eq_false_iff.mpr
                  (isNone_iff_eq_none.mpr (firstOf_eq_none.mp hpost d hd))
          · obtain ⟨d, hd, hv⟩ := firstOf_mem hall
            exact ⟨d, mem_append_left _ hd, isSome_of_eq_some hv⟩
          · exact (or_eq_true_iff.mp hlost).imp_right fun ho => ⟨u, hmem, ho⟩

/-- Agreeing donors that lose no flag may come in any order. -/
theorem pics_perm (h : AgreeAll T ds) (hkeeps : ¬ Loses T p ds) (hp : ds'.Perm ds) :
    (pics T p ds').schedule = (pics T p ds).schedule ∧
    (pics T p ds').flag = (pics T p ds).flag := by
  have h' : AgreeAll T ds' := h.of_subset hp.subset
  by_cases hstorm : Storm T p ds
  · obtain ⟨hsched, hflag⟩ := outcome_of_storm h hstorm hkeeps
    obtain ⟨hsched', hflag'⟩ :=
      outcome_of_storm h' (hstorm.perm hp.symm) fun hl => hkeeps (hl.perm hp)
    rw [hsched, hflag, hsched', hflag', h.firstOf_perm (by decide) hp,
      h.firstOf_perm (by decide) hp]
    exact ⟨rfl, rfl⟩
  · obtain ⟨hsched, hflag⟩ := outcome_of_not_storm h hstorm
    obtain ⟨hsched', hflag'⟩ := outcome_of_not_storm h' fun hs => hstorm (hs.perm hp)
    rw [hsched, hflag, hsched', hflag', h.firstOf_perm (by decide) hp,
      h.firstOf_perm (by decide) hp]
    exact ⟨rfl, rfl⟩

/-- Where agreeing donors lose a flag, it matters whether those with a flag come first or last. -/
theorem Loses.flag_filter (hl : Loses T p ds) (h : AgreeAll T ds) :
    (pics T p (ds.filter hasFlag ++ ds.filter (!hasFlag ·))).flag = none ∧
      (pics T p (ds.filter (!hasFlag ·) ++ ds.filter hasFlag)).flag ≠ none := by
  obtain ⟨d, hd, hr⟩ := hl.storm.2
  have hrest : ∃ d ∈ ds.filter (!hasFlag ·), replaces T d = true :=
    ⟨d, mem_filter.mpr ⟨hd, by rw [hl.bare d hd hr]; rfl⟩, hr⟩
  obtain ⟨pre, u, post, hsplit, hpre, hu⟩ := exists_first_replaces hrest
  have hmem {d : Labels V} (hd : d ∈ pre ++ u :: post) : d ∈ ds ∧ d pitrLabel = none := by
    rw [← hsplit, mem_filter, not_eq_true'] at hd
    exact ⟨hd.1, isNone_iff_eq_none.mp (isSome_eq_false_iff.mp hd.2)⟩
  obtain ⟨huds, hup⟩ := hmem (mem_append_right _ (.head _))
  have hflags : firstOf pitrLabel (ds.filter hasFlag) ≠ none := fun hnone => by
    obtain ⟨d, hd, hf⟩ := hl.flag
    have hd' := firstOf_eq_none.mp hnone d (mem_filter.mpr ⟨hd, hf⟩)
    exact absurd hd' (isSome_iff_ne_none.mp hf)
  have hbare (d : Labels V) (hd : d ∈ ds.filter hasFlag) : replaces T d = false := by
    obtain ⟨hds, hf⟩ := mem_filter.mp hd
    rw [eq_false_iff]
    intro hr
    exact nomatch (hl.bare d hds hr).symm.trans hf
  constructor
  · rw [hsplit, ← append_assoc]
    have hsub : ds.filter hasFlag ++ pre ++ u :: post ⊆ ds := by
      rw [append_assoc, ← hsplit]
      exact append_subset.mpr ⟨filter_subset_self _, filter_subset_self _⟩
    have hpre' : ∀ d ∈ ds.filter hasFlag ++ pre, replaces T d = false := fun d hd =>
      (mem_append.mp hd).elim (hbare d) (hpre d)
    have hlost : (hasFlag p || optedOut T u) = true := by
      refine or_eq_true_iff.mpr (hl.lost.imp_right fun ⟨o, ho, hopted⟩ => ?_)
      refine (or_eq_true_iff.mp hu).resolve_left fun huser => ?_
      exact nomatch ((h o ho u huds).optOut hopted).symm.trans (hasSchedule_of_userSet huser)
    have hpost : firstOf pitrLabel post = none := firstOf_eq_none.mpr fun d hd =>
      (hmem (mem_append_right _ (.tail _ hd))).2
    rw [(pics_storm hl.storm.1 (h.of_subset hsub) hpre' hu).2, hup, hpost, if_pos hlost]
    rfl
  · rw [hsplit, append_assoc, cons_append]
    have hsub : pre ++ u :: (post ++ ds.filter hasFlag) ⊆ ds := by
      rw [← cons_append, ← append_assoc, ← hsplit]
      exact append_subset.mpr ⟨filter_subset_self _, filter_subset_self _⟩
    rw [(pics_storm hl.storm.1 (h.of_subset hsub) hpre hu).2, hup, firstOf_append, none_or]
    intro hnone
    exact hflags (or_eq_none_iff.mp (or_eq_none_iff.mp hnone).1).2

/-! ## The primary's labels -/

section

variable {primary : Member V} {others others' : List (Member V)}

theorem carried_name : (carried T primary others).name = primary.name := by
  unfold carried
  split <;> rfl

theorem donorLabels_perm (hp : others'.Perm others) :
    (donorLabels primary others').Perm (donorLabels primary others) :=
  (hp.filter _).map _

/-- The members with a flag before the others, or after them. -/
theorem donorLabels_filter (q : Labels V → Bool) :
    donorLabels primary (others.filter fun m => q m.labels) =
    (donorLabels primary others).filter q := by
  unfold donorLabels donors
  rw [List.filter_map, List.filter_filter, List.filter_filter]
  congr 1
  refine filter_congr fun m _ => ?_
  exact and_comm _ _

theorem donorLabels_append :
    donorLabels primary (others ++ others') =
    donorLabels primary others ++ donorLabels primary others' := by
  unfold donorLabels donors
  rw [filter_append, map_append]

/-- The order of donors that agree does not matter exactly when they lose no flag. -/
theorem perm_iff : (∀ others', others'.Perm others → AgreeAll T (donorLabels primary others) →
      carried T primary others' = carried T primary others) ↔
      (AgreeAll T (donorLabels primary others) →
        ¬ Loses T primary.labels (donorLabels primary others)) := by
  constructor
  · intro hperm hagree hl
    have hfirst : (others.filter (fun m => hasFlag m.labels) ++
        others.filter fun m => !hasFlag m.labels).Perm others := filter_append_perm _ _
    have hlast := perm_append_comm.trans hfirst
    have hflag := congrArg (fun m : Member V => m.labels pitrLabel)
      ((hperm _ hfirst hagree).trans (hperm _ hlast hagree).symm)
    rw [carried_flag, carried_flag, donorLabels_append, donorLabels_append, donorLabels_filter,
      donorLabels_filter (!hasFlag ·)] at hflag
    obtain ⟨hnone, hsome⟩ := hl.flag_filter hagree
    exact hsome (hflag.symm.trans hnone)
  · intro hkeeps others' hp hagree
    have hds := @donorLabels_perm _ primary _ _ hp
    obtain ⟨hsched, hflag⟩ := pics_perm hagree (hkeeps hagree) hds
    have hlabels : (carried T primary others').labels = (carried T primary others).labels := by
      funext k
      by_cases hs : k = scheduleLabel
      · rw [hs, carried_schedule, carried_schedule, hsched]
      · by_cases hf : k = pitrLabel
        · rw [hf, carried_flag, carried_flag, hflag]
        · by_cases hk : k ∈ intentLabels
          · rw [carried_first hk hs hf, carried_first hk hs hf, firstOf, firstOf,
              hagree.firstOf_perm hk hds]
          · rw [carried_rest hk, carried_rest hk]
    have hname : (carried T primary others').name = (carried T primary others).name :=
      carried_name.trans carried_name.symm
    cases hc : carried T primary others'
    cases hc' : carried T primary others
    rw [hc, hc'] at hlabels hname
    exact congrArg₂ Member.mk hname hlabels

end

end Swarmy.BackupIntent
