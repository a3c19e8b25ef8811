import Swarmy.Pitr.Carry

/-!
# The picture of the primary

The walk over the donors keeps a picture of the labels the primary has by now.  Each label goes
its own way, apart from the schedule, which decides what becomes of the PITR flag; so of the walk
a picture of three values matters, and `pic_donor` says what a donor does to it.  The flag that
was added is kept apart from the flag in the picture: where a user's schedule without a flag
replaces an automatic one, the picture loses the flag, and what was added stays.
-/

namespace Swarmy.BackupIntent

open List Option

variable {V : Type} {T : Texts V} {w : Walk V} {p l : Labels V} {k : String} {overrides : Bool}

/-! ## One label at a time -/

/-- The label in the picture, and what is added of it. -/
def Walk.at (w : Walk V) (k : String) : Option V × Option V := (w.have_ k, w.add k)

/-- One label of a donor, as far as it is about this label. -/
def takeAt (T : Texts V) (l : Labels V) (overrides : Bool) (k : String)
    (c : Option V × Option V) : Option V × Option V :=
  match l k with
  | none => c
  | some v =>
    if c.1.isSome && !(overrides && (k = scheduleLabel || k = pitrLabel)) then c
    else
      let value := if k = scheduleLabel then T.rehomeScheduleLabel v else v
      (some value, some value)

theorem at_take (j : String) :
    (w.take T l overrides j).at k = if k = j then takeAt T l overrides k (w.at k) else w.at k := by
  unfold Walk.take takeAt Walk.at
  by_cases hk : k = j
  · subst hk
    rw [if_pos rfl]
    cases l k with
    | none => rfl
    | some v =>
      dsimp only
      split_ifs <;> simp only [Function.update_self]
  · rw [if_neg hk]
    cases l j with
    | none => rfl
    | some v =>
      dsimp only
      split_ifs <;> simp only [Function.update_of_ne hk]

theorem at_foldl_take {ks : List String} (nodup : ks.Nodup) (w : Walk V) :
    (ks.foldl (fun w k => w.take T l overrides k) w).at k =
      if k ∈ ks then takeAt T l overrides k (w.at k) else w.at k := by
  induction ks generalizing w with
  | nil => rfl
  | cons j ks ih =>
    obtain ⟨hj, hks⟩ := nodup_cons.mp nodup
    rw [foldl_cons, ih hks, at_take]
    by_cases hk : k = j
    · subst hk
      rw [if_neg hj, if_pos rfl, if_pos (.head _)]
    · rw [if_neg hk]
      simp only [mem_cons, hk, false_or]

theorem nodup_intentLabels : intentLabels.Nodup := by decide

theorem at_drop (j : String) :
    (w.drop j).at k = if k = j ∧ (w.have_ k).isSome then (none, none) else w.at k := by
  unfold Walk.drop Walk.at
  by_cases hk : k = j
  · subst hk
    split_ifs <;> simp_all
  · split_ifs <;> simp_all

/-! ## The picture -/

/-- The schedule and the PITR flag in the picture, and the flag that is added. -/
structure Pic (V : Type) where
  schedule : Option V
  pitr : Option V
  added : Option V

def Walk.pic (w : Walk V) : Pic V := ⟨w.have_ scheduleLabel, w.have_ pitrLabel, w.add pitrLabel⟩

/-- What a donor does to the picture. -/
def Pic.step (T : Texts V) (c : Pic V) (l : Labels V) : Pic V :=
  if overridesAuto T c.schedule l then
    ⟨(l scheduleLabel).map T.rehomeScheduleLabel, l pitrLabel, (l pitrLabel).or c.added⟩
  else if optsOut T c.schedule l then
    ⟨none, l pitrLabel, (l pitrLabel).or (if c.pitr.isSome then none else c.added)⟩
  else
    ⟨c.schedule.or ((l scheduleLabel).map T.rehomeScheduleLabel), c.pitr.or (l pitrLabel),
      if c.pitr.isSome then c.added else (l pitrLabel).or c.added⟩

/-- The flag the primary ends with. -/
def Pic.flag (c : Pic V) : Option V := c.added.or c.pitr

theorem at_opened : (w.opened T l).at k =
    if optsOut T (w.have_ scheduleLabel) l ∧ (k = scheduleLabel ∨ k = pitrLabel) ∧
      (w.have_ k).isSome then (none, none) else w.at k := by
  have hne : scheduleLabel ≠ pitrLabel := by decide
  unfold Walk.opened
  by_cases hout : optsOut T (w.have_ scheduleLabel) l = true
  · have hhave : ((w.drop scheduleLabel).have_ k) = ((w.drop scheduleLabel).at k).1 := rfl
    rw [if_pos hout, at_drop, hhave, at_drop]
    by_cases hs : k = scheduleLabel
    · subst hs
      simp [hne, hout]
    · by_cases hp : k = pitrLabel
      · subst hp
        simp [Ne.symm hne, hout]
        rfl
      · simp [hs, hp]
  · rw [if_neg hout, if_neg fun h => hout h.1]

theorem at_closed : (w.closed l overrides).at k =
    if k = pitrLabel ∧ overrides ∧ (l pitrLabel).isNone then (none, (w.at k).2) else w.at k := by
  unfold Walk.closed Walk.at
  by_cases hp : k = pitrLabel
  · subst hp
    split_ifs <;> simp_all
  · split_ifs <;> simp_all

/-- A donor, one label at a time. -/
theorem at_donor : (w.donor T l).at k =
    let overrides := overridesAuto T (w.have_ scheduleLabel) l
    let taken := if k ∈ intentLabels then takeAt T l overrides k ((w.opened T l).at k)
      else (w.opened T l).at k
    if k = pitrLabel ∧ overrides ∧ (l pitrLabel).isNone then (none, taken.2) else taken := by
  dsimp only
  rw [← at_foldl_take nodup_intentLabels, ← at_closed]
  rfl

theorem overridesAuto_eq_true {schedule : Option V} : overridesAuto T schedule l = true ↔
      (∃ s, schedule = some s ∧ T.isAutoSchedule s = true) ∧
        ∃ s, l scheduleLabel = some s ∧ T.isAutoSchedule s = false := by
  unfold overridesAuto
  rw [Bool.and_eq_true, Option.any_eq_true, Option.any_eq_true]
  simp only [Bool.not_eq_true']

theorem optsOut_eq_true {schedule : Option V} : optsOut T schedule l = true ↔
      (∃ s, schedule = some s ∧ T.isAutoSchedule s = true) ∧
        (∃ a, l autoLabel = some a ∧ T.isOff a = true) ∧ l scheduleLabel = none := by
  unfold optsOut
  rw [Bool.and_eq_true, Bool.and_eq_true, Option.any_eq_true, Option.any_eq_true,
    Option.isNone_iff_eq_none, and_assoc]

theorem takeAt_of_none {c : Option V × Option V} (h : l k = none) :
    takeAt T l overrides k c = c := by
  unfold takeAt
  rw [h]

/-- A label that is not replaced: the picture keeps the one it has. -/
theorem takeAt_false {c : Option V × Option V} : takeAt T l false k c =
      (c.1.or ((l k).map (if k = scheduleLabel then T.rehomeScheduleLabel else id)),
        if c.1.isSome then c.2
        else ((l k).map (if k = scheduleLabel then T.rehomeScheduleLabel else id)).or c.2) := by
  obtain ⟨c₁, c₂⟩ := c
  unfold takeAt
  cases l k <;> cases c₁ <;> split_ifs <;> simp_all

/-- A label the picture does not have, or that is replaced. -/
theorem takeAt_of_some {v : V} {c : Option V × Option V} (hv : l k = some v)
    (h : c.1 = none ∨ overrides = true ∧ (k = scheduleLabel ∨ k = pitrLabel)) :
    takeAt T l overrides k c = (some (if k = scheduleLabel then T.rehomeScheduleLabel v else v),
      some (if k = scheduleLabel then T.rehomeScheduleLabel v else v)) := by
  unfold takeAt
  rw [hv]
  refine if_neg ?_
  rcases h with h | ⟨h, hk⟩
  · rw [h]
    exact nofun
  · rcases hk with rfl | rfl <;> rw [h] <;> simp

theorem step_of_overrides {c : Pic V} (h : overridesAuto T c.schedule l = true) : c.step T l =
      ⟨(l scheduleLabel).map T.rehomeScheduleLabel, l pitrLabel, (l pitrLabel).or c.added⟩ :=
  if_pos h

theorem step_of_optsOut {c : Pic V} (h : optsOut T c.schedule l = true) : c.step T l =
      ⟨none, l pitrLabel, (l pitrLabel).or (if c.pitr.isSome then none else c.added)⟩ := by
  obtain ⟨-, -, hl⟩ := optsOut_eq_true.mp h
  refine (if_neg fun hover => ?_).trans (if_pos h)
  obtain ⟨-, s, hs, -⟩ := overridesAuto_eq_true.mp hover
  exact nomatch hl.symm.trans hs

theorem step_of_keeps {c : Pic V} (hover : ¬ overridesAuto T c.schedule l)
    (hout : ¬ optsOut T c.schedule l) : c.step T l =
      ⟨c.schedule.or ((l scheduleLabel).map T.rehomeScheduleLabel), c.pitr.or (l pitrLabel),
        if c.pitr.isSome then c.added else (l pitrLabel).or c.added⟩ :=
  (if_neg hover).trans (if_neg hout)

theorem pic_eq {c : Pic V} (hs : (w.at scheduleLabel).1 = c.schedule)
    (hp : w.at pitrLabel = (c.pitr, c.added)) : w.pic = c := by
  obtain ⟨hpitr, hadded⟩ := Prod.mk.inj hp
  change w.have_ scheduleLabel = c.schedule at hs
  change w.have_ pitrLabel = c.pitr at hpitr
  change w.add pitrLabel = c.added at hadded
  unfold Walk.pic
  rw [hs, hpitr, hadded]

theorem fst_at_donor_schedule : ((w.donor T l).at scheduleLabel).1 =
    (takeAt T l (overridesAuto T (w.have_ scheduleLabel) l) scheduleLabel
      ((w.opened T l).at scheduleLabel)).1 := by
  rw [at_donor, if_neg (fun h => absurd h.1 (by decide)), if_pos (by decide)]

theorem at_donor_pitr_of_not (h : ¬ overridesAuto T (w.have_ scheduleLabel) l) :
    (w.donor T l).at pitrLabel =
      takeAt T l false pitrLabel ((w.opened T l).at pitrLabel) := by
  rw [at_donor, if_neg (fun hc => h hc.2.1), if_pos (by decide), Bool.eq_false_iff.mpr h]

/-- What becomes of the picture at a donor. -/
theorem pic_donor : (w.donor T l).pic = w.pic.step T l := by
  by_cases hover : overridesAuto T (w.have_ scheduleLabel) l = true
  · rw [step_of_overrides hover]
    obtain ⟨-, s, hs, -⟩ := overridesAuto_eq_true.mp hover
    have hopened (k : String) : (w.opened T l).at k = w.at k := by
      rw [at_opened, if_neg]
      rintro ⟨hout, -, -⟩
      exact nomatch (optsOut_eq_true.mp hout).2.2.symm.trans hs
    refine pic_eq ?_ ?_
    · rw [fst_at_donor_schedule, hover, takeAt_of_some hs (.inr ⟨rfl, .inl rfl⟩), hs]
      rfl
    · have hmem : pitrLabel ∈ intentLabels := by decide
      rw [at_donor, hover, hopened]
      cases hl : l pitrLabel with
      | none =>
        dsimp only
        rw [if_pos ⟨rfl, rfl, rfl⟩, if_pos hmem, takeAt_of_none hl]
        rfl
      | some v =>
        dsimp only
        rw [if_neg (fun h => nomatch h.2.2), if_pos hmem,
          takeAt_of_some hl (.inr ⟨rfl, .inr rfl⟩)]
        rfl
  · by_cases hout : optsOut T (w.have_ scheduleLabel) l = true
    · rw [step_of_optsOut hout]
      obtain ⟨⟨s, hs, -⟩, -, hl⟩ := optsOut_eq_true.mp hout
      refine pic_eq ?_ ?_
      · rw [fst_at_donor_schedule, takeAt_of_none hl, at_opened,
          if_pos ⟨hout, .inl rfl, by rw [hs]; rfl⟩]
      · have hopened : (w.opened T l).at pitrLabel =
            (none, if (w.have_ pitrLabel).isSome then none else w.add pitrLabel) := by
          rw [at_opened]
          cases hp : w.have_ pitrLabel with
          | none =>
            rw [if_neg fun h => nomatch h.2.2]
            exact congrArg (·, w.add pitrLabel) hp
          | some v => rw [if_pos ⟨hout, .inr rfl, rfl⟩]; rfl
        rw [at_donor_pitr_of_not hover, hopened, takeAt_false]
        exact congrArg₂ Prod.mk map_id' (congrArg (Option.or · _) map_id')
    · rw [step_of_keeps hover hout]
      have hopened (k : String) : (w.opened T l).at k = w.at k := by
        rw [at_opened, if_neg fun h => hout h.1]
      refine pic_eq ?_ ?_
      · rw [fst_at_donor_schedule, hopened, Bool.eq_false_iff.mpr hover, takeAt_false]
        rfl
      · rw [at_donor_pitr_of_not hover, hopened, takeAt_false, if_neg (by decide), Option.map_id]
        rfl

/-- A label outside the schedule and the flag stays with the first member that has it. -/
theorem have_donor_of_ne (hk : k ∈ intentLabels) (hs : k ≠ scheduleLabel) (hp : k ≠ pitrLabel) :
    (w.donor T l).have_ k = (w.have_ k).or (l k) := by
  have hat : ((w.donor T l).at k).1 = _ := congrArg Prod.fst at_donor
  have hopened : (w.opened T l).at k = w.at k := by
    rw [at_opened, if_neg fun h => h.2.1.elim hs hp]
  have hover : takeAt T l (overridesAuto T (w.have_ scheduleLabel) l) k (w.at k) =
      takeAt T l false k (w.at k) := by
    unfold takeAt
    rw [decide_eq_false hs, decide_eq_false hp, Bool.or_false, Bool.and_false, Bool.and_false]
  dsimp only at hat
  rw [if_neg (fun h => hp h.1), if_pos hk, hopened, hover, takeAt_false, if_neg hs,
    Option.map_id] at hat
  exact hat

theorem have_donor_of_notMem (hk : k ∉ intentLabels) : (w.donor T l).have_ k = w.have_ k := by
  have hs : k ≠ scheduleLabel := fun h => hk (h ▸ by decide)
  have hp : k ≠ pitrLabel := fun h => hk (h ▸ by decide)
  have hat : ((w.donor T l).at k).1 = _ := congrArg Prod.fst at_donor
  dsimp only at hat
  rw [if_neg (fun h => hp h.1), if_neg hk, at_opened, if_neg (fun h => h.2.1.elim hs hp)] at hat
  exact hat

/-! ## What the primary ends with -/

/-- The label the primary gets from what is added and removed so far. -/
def Walk.label (w : Walk V) (p : Labels V) (k : String) : Option V :=
  (w.add k).or (if k ∈ w.removed then none else p k)

/-- The picture is what the primary would get, but for a flag that was added and is not in the
picture any more. -/
structure Walk.Shows (w : Walk V) (p : Labels V) : Prop where
  unadded : ∀ k, w.add k = none → w.label p k = w.have_ k
  added : ∀ k ≠ pitrLabel, ∀ v, w.add k = some v → w.have_ k = some v

theorem Walk.Shows.label (h : w.Shows p) (hk : k ≠ pitrLabel) : w.label p k = w.have_ k := by
  cases ha : w.add k with
  | none => exact h.unadded k ha
  | some v =>
    rw [h.added k hk v ha]
    unfold Walk.label
    rw [ha, some_or]

theorem Walk.Shows.flag (h : w.Shows p) : w.label p pitrLabel = w.pic.flag := by
  unfold Pic.flag Walk.pic
  cases ha : w.add pitrLabel with
  | none => exact (h.unadded _ ha).trans (none_or).symm
  | some v =>
    unfold Walk.label
    rw [ha, some_or, some_or]

theorem Walk.Shows.drop (h : w.Shows p) (j : String) : (w.drop j).Shows p := by
  unfold Walk.drop
  split_ifs
  · refine ⟨fun k ha => ?_, fun k hk v ha => ?_⟩
    · unfold Walk.label
      by_cases hj : k = j
      · subst hj
        simp
      · have hlabel := h.unadded k
        unfold Walk.label at hlabel
        simp only [Function.update_of_ne hj] at ha ⊢
        simpa [hj] using hlabel ha
    · by_cases hj : k = j
      · subst hj
        simp at ha
      · simp only [Function.update_of_ne hj] at ha ⊢
        exact h.added k hk v ha
  · exact h

theorem Walk.Shows.take (h : w.Shows p) (j : String) : (w.take T l overrides j).Shows p := by
  unfold Walk.take
  cases l j with
  | none => exact h
  | some v =>
    dsimp only
    split_ifs
    · exact h
    all_goals
      refine ⟨fun k ha => ?_, fun k hk u ha => ?_⟩
      · by_cases hj : k = j
        · subst hj
          simp at ha
        · have hlabel := h.unadded k
          unfold Walk.label at hlabel ⊢
          simp only [Function.update_of_ne hj] at ha ⊢
          exact hlabel ha
      · by_cases hj : k = j
        · subst hj
          simpa using ha
        · simp only [Function.update_of_ne hj] at ha ⊢
          exact h.added k hk u ha

theorem Walk.Shows.closed (h : w.Shows p) : (w.closed l overrides).Shows p := by
  unfold Walk.closed
  split_ifs
  · refine ⟨fun k ha => ?_, fun k hk v ha => ?_⟩
    · by_cases hj : k = pitrLabel
      · subst hj
        unfold Walk.label
        simpa using ha
      · have hlabel := h.unadded k ha
        unfold Walk.label at hlabel ⊢
        simpa [hj, Function.update_of_ne hj] using hlabel
    · simp only [Function.update_of_ne hk]
      exact h.added k hk v ha
  · exact h

theorem Walk.Shows.foldl_take {ks : List String} (h : w.Shows p) :
    (ks.foldl (fun w k => w.take T l overrides k) w).Shows p := by
  induction ks generalizing w with
  | nil => exact h
  | cons k ks ih => exact ih (h.take k)

theorem Walk.Shows.donor (h : w.Shows p) : (w.donor T l).Shows p := by
  have hopened : (w.opened T l).Shows p := by
    unfold Walk.opened
    split_ifs
    · exact (h.drop _).drop _
    · exact h
  exact hopened.foldl_take.closed

variable {primary : Member V} {others : List (Member V)} {ds : List (Labels V)}

/-- The picture after all donors. -/
def pics (T : Texts V) (primary : Labels V) (ds : List (Labels V)) : Pic V :=
  ds.foldl (Pic.step T) ⟨primary scheduleLabel, primary pitrLabel, none⟩

theorem pic_walk : (walk T primary ds).pic = pics T primary.labels ds := by
  have hfold : ∀ (ds : List (Labels V)) (w : Walk V),
      (ds.foldl (Walk.donor T) w).pic = ds.foldl (Pic.step T) w.pic := by
    intro ds
    induction ds with
    | nil => exact fun _ => rfl
    | cons d ds ih =>
      intro w
      rw [foldl_cons, foldl_cons, ih, pic_donor]
  exact hfold ds _

theorem shows_walk : (walk T primary ds).Shows primary.labels := by
  have hfold : ∀ (ds : List (Labels V)) (w : Walk V), w.Shows primary.labels →
      (ds.foldl (Walk.donor T) w).Shows primary.labels := by
    intro ds
    induction ds with
    | nil => exact fun _ h => h
    | cons d ds ih => exact fun w h => ih _ h.donor
  exact hfold ds _ ⟨fun _ _ => rfl, fun _ _ _ h => nomatch h⟩

/-- The first member, the primary before the donors, that has a label. -/
def firstOf (k : String) : List (Labels V) → Option V
  | [] => none
  | m :: ms => (m k).or (firstOf k ms)

theorem have_walk (hk : k ∈ intentLabels) (hs : k ≠ scheduleLabel) (hp : k ≠ pitrLabel) :
    (walk T primary ds).have_ k = firstOf k (primary.labels :: ds) := by
  have hfold : ∀ (ds : List (Labels V)) (w : Walk V),
      (ds.foldl (Walk.donor T) w).have_ k = (w.have_ k).or (firstOf k ds) := by
    intro ds
    induction ds with
    | nil => exact fun w => or_none.symm
    | cons d ds ih =>
      intro w
      rw [List.foldl_cons, ih, have_donor_of_ne hk hs hp, Option.or_assoc]
      rfl
  exact hfold ds _

theorem have_walk_of_notMem (hk : k ∉ intentLabels) :
    (walk T primary ds).have_ k = primary.labels k := by
  have hfold : ∀ (ds : List (Labels V)) (w : Walk V), (ds.foldl (Walk.donor T) w).have_ k =
      w.have_ k := by
    intro ds
    induction ds with
    | nil => exact fun _ => rfl
    | cons d ds ih => exact fun w => (ih _).trans (have_donor_of_notMem hk)
  exact hfold ds _

/-- The labels of the donors, in their order. -/
def donorLabels (primary : Member V) (others : List (Member V)) : List (Labels V) :=
  (donors primary others).map (·.labels)

/-- The primary's labels once the intent is carried. -/
theorem carried_labels : (carried T primary others).labels k =
    (walk T primary (donorLabels primary others)).label primary.labels k := by
  unfold carried planBackupIntentCarry donorLabels
  cases hd : donors primary others with
  | nil => rfl
  | cons d ds =>
    dsimp only [BackupIntentCarry.apply, Walk.label]
    simp only [mem_filter, mem_dedup]
    cases (walk T primary ((d :: ds).map (·.labels))).add k with
    | none => simp only [isNone_none, and_true, none_or]
    | some v => simp only [isNone_some, and_false, Bool.false_eq_true, if_false, some_or]

/-- The primary's labels once the intent is carried, each from the part of the walk that
decides it. -/
theorem carried_schedule : (carried T primary others).labels scheduleLabel =
    (pics T primary.labels (donorLabels primary others)).schedule := by
  rw [carried_labels, shows_walk.label (by decide), ← pic_walk]
  rfl

theorem carried_flag : (carried T primary others).labels pitrLabel =
    (pics T primary.labels (donorLabels primary others)).flag := by
  rw [carried_labels, shows_walk.flag, pic_walk]

theorem carried_first (hk : k ∈ intentLabels) (hs : k ≠ scheduleLabel) (hp : k ≠ pitrLabel) :
    (carried T primary others).labels k =
      firstOf k (primary.labels :: donorLabels primary others) := by
  rw [carried_labels, shows_walk.label hp, have_walk hk hs hp]

theorem carried_rest (hk : k ∉ intentLabels) :
    (carried T primary others).labels k = primary.labels k := by
  have hp : k ≠ pitrLabel := by
    rintro rfl
    exact hk (by decide)
  rw [carried_labels, shows_walk.label hp, have_walk_of_notMem hk]

end Swarmy.BackupIntent
