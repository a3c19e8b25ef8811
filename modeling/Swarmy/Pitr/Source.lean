import Swarmy.Pitr.Picture

/-!
# Where a primary's schedule and flag come from

A label's value is numbered with the place of its member, so that the outcome says where it is
from.  `fst_carried_numbered`: the numbers change nothing else.  `oneSource_iff` says for which
members the schedule and the PITR flag that the primary ends with are of one member.

As long as no schedule is a user's, the picture has the first schedule and the first flag of the
members since the last opt-out that took a schedule away: the live ones.  A user's schedule stays,
and with it the flag in the picture, or the first one that comes later.
-/

namespace Swarmy.BackupIntent

open List Option

variable {V : Type} {T : Texts V} {l : Labels V} {k : String}

/-! ## Kinds of members -/

def hasSchedule (l : Labels V) : Bool := (l scheduleLabel).isSome

def hasFlag (l : Labels V) : Bool := (l pitrLabel).isSome

/-- A schedule that a user has set. -/
def userSet (T : Texts V) (l : Labels V) : Bool := (l scheduleLabel).any (!T.isAutoSchedule ·)

/-- A user's opt-out: automatic backups are off, and there is no schedule. -/
def optedOut (T : Texts V) (l : Labels V) : Bool :=
  (l autoLabel).any T.isOff && (l scheduleLabel).isNone

theorem overridesAuto_eq {c : Option V} :
    overridesAuto T c l = (c.any T.isAutoSchedule && userSet T l) := rfl

theorem optsOut_eq {c : Option V} :
    optsOut T c l = (c.any T.isAutoSchedule && optedOut T l) := Bool.and_assoc ..

theorem hasSchedule_of_userSet (h : userSet T l = true) : hasSchedule l = true := by
  unfold userSet at h
  rw [Option.any_eq_true] at h
  obtain ⟨s, hs, -⟩ := h
  exact isSome_of_eq_some hs

theorem hasSchedule_of_optedOut (h : optedOut T l = true) : hasSchedule l = false := by
  exact isSome_eq_false_iff.mpr (Bool.and_eq_true_iff.mp h).2

/-! ## Numbered values -/

/-- The labels of the member at a place. -/
def Labels.at (l : Labels V) (i : Nat) : Labels (V × Nat) := fun k => (l k).map (·, i)

/-- Numbers are carried along with the texts. -/
def Texts.numbered (T : Texts V) : Texts (V × Nat) where
  isAutoSchedule v := T.isAutoSchedule v.1
  isOff v := T.isOff v.1
  rehomeScheduleLabel v := (T.rehomeScheduleLabel v.1, v.2)
  isAutoSchedule_rehome v := T.isAutoSchedule_rehome v.1

/-- The primary is at place 0, the other members come after it. -/
def Member.at (m : Member V) (i : Nat) : Member (V × Nat) := ⟨m.name, m.labels.at i⟩

def numbered (others : List (Member V)) : List (Member (V × Nat)) :=
  (others.zipIdx 1).map fun m => m.1.at m.2

/-- The donors with their places. -/
def placed (primary : Member V) (others : List (Member V)) : List (Labels V × Nat) :=
  ((others.zipIdx 1).filter fun m =>
    m.1.name ≠ primary.name && !(intentKeys m.1.labels).isEmpty).map fun m => (m.1.labels, m.2)

theorem intentKeys_at (l : Labels V) (i : Nat) : intentKeys (l.at i) = intentKeys l := by
  unfold intentKeys Labels.at
  simp only [isSome_map]

theorem donorLabels_numbered (primary : Member V) (others : List (Member V)) :
    donorLabels (primary.at 0) (numbered others) =
      (placed primary others).map fun m => m.1.at m.2 := by
  unfold donorLabels donors numbered placed
  rw [List.filter_map, List.map_map, List.map_map]
  congr 1
  refine filter_congr fun m _ => ?_
  simp only [Function.comp_apply, Member.at, intentKeys_at]
  rfl

theorem map_placed (primary : Member V) (others : List (Member V)) :
    (placed primary others).map Prod.fst = donorLabels primary others := by
  have hfst : (others.zipIdx 1).map Prod.fst = others := List.zipIdx_map_fst 1 others
  unfold placed donorLabels donors
  conv_rhs => rw [← hfst]
  rw [List.filter_map, List.map_map, List.map_map]
  rfl

/-- No two members have one place. -/
theorem nodup_placed (primary : Member V) (others : List (Member V)) :
    (((primary.labels, 0) :: placed primary others).map Prod.snd).Nodup := by
  have hsub : ((placed primary others).map Prod.snd).Sublist (List.range' 1 others.length) := by
    unfold placed
    rw [List.map_map, ← List.zipIdx_map_snd 1 others]
    exact List.filter_sublist.map _
  rw [map_cons, nodup_cons]
  exact ⟨fun h => absurd (mem_range'_1.mp (hsub.subset h)).1 (Nat.not_succ_le_zero 0),
    hsub.nodup nodup_range'⟩

/-! ## The condition -/

/-- The first of the members that has a schedule or a flag has both, or what it has nobody else
has the other of. -/
def Whole : List (Labels V) → Prop
  | [] => True
  | m :: ms =>
    if hasSchedule m then hasFlag m ∨ ∀ m' ∈ ms, hasFlag m' = false
    else if hasFlag m then ∀ m' ∈ ms, hasSchedule m' = false
    else Whole ms

/-- The first flag of the live members is a donor's: the first of them is the primary if `own`. -/
@[grind =] def addsFlag (own : Bool) : List (Labels V) → Bool
  | [] => false
  | m :: ms => if hasFlag m then !own else ms.any hasFlag

/-- Schedule and flag come from one member: `live` are the live members so far, the first of them
the primary if `own`, and the donors are to come.  A user's schedule that replaces an automatic
one brings a flag along, or else no donor has added one and none will; one that replaces nothing
finds no flag. -/
def OneSource (T : Texts V) (own : Bool) (live : List (Labels V)) : List (Labels V) → Prop
  | [] => Whole live
  | d :: ds =>
    if userSet T d then
      if live.any hasSchedule then
        hasFlag d ∨ ((∀ m ∈ ds, hasFlag m = false) ∧ addsFlag own live = false)
      else (∀ m ∈ live, hasFlag m = false) ∧ (hasFlag d ∨ ∀ m ∈ ds, hasFlag m = false)
    else if optedOut T d && live.any hasSchedule then OneSource T false [d] ds
    else OneSource T own (live ++ [d]) ds

/-- Schedule and flag come from one member; a primary with a user's schedule has a flag too, or no
donor has. -/
def KeepsSource (T : Texts V) (primary : Labels V) (ds : List (Labels V)) : Prop :=
  if userSet T primary then hasFlag primary ∨ ∀ m ∈ ds, hasFlag m = false
  else OneSource T true [primary] ds

/-! ## The first member of a kind -/

/-- The place of the first member of a kind. -/
@[grind =] def firstPlace (q : Labels V → Bool) : List (Labels V × Nat) → Option Nat
  | [] => none
  | m :: ms => if q m.1 then some m.2 else firstPlace q ms

section

variable {q : Labels V → Bool} {ms ms' : List (Labels V × Nat)} {i : Nat}

theorem firstPlace_append : firstPlace q (ms ++ ms') = (firstPlace q ms).or (firstPlace q ms') := by
  induction ms with
  | nil => rfl
  | cons m ms ih =>
    rw [cons_append, firstPlace, firstPlace]
    split_ifs
    · rfl
    · exact ih

theorem firstPlace_eq_none : firstPlace q ms = none ↔ ∀ m ∈ ms.map Prod.fst, q m = false := by
  induction ms with
  | nil => exact ⟨fun _ => nofun, fun _ => rfl⟩
  | cons m ms ih =>
    rw [firstPlace, map_cons, forall_mem_cons, ← ih]
    cases hq : q m.1 with
    | true => exact ⟨nofun, fun h => nomatch h.1⟩
    | false => exact ⟨fun h => ⟨rfl, h⟩, fun h => h.2⟩

theorem firstPlace_mem (h : firstPlace q ms = some i) : i ∈ ms.map Prod.snd := by
  induction ms with
  | nil => exact nomatch h
  | cons m ms ih =>
    rw [firstPlace] at h
    split_ifs at h
    · exact some.inj h ▸ .head _
    · exact .tail _ (ih h)

theorem isSome_firstPlace : (firstPlace q ms).isSome = (ms.map Prod.fst).any q := by
  induction ms with
  | nil => rfl
  | cons m ms ih =>
    rw [firstPlace, map_cons, any_cons]
    cases q m.1 with
    | true => rfl
    | false => exact ih

/-- The first schedule and the first flag are of one member. -/
theorem whole_iff (nodup : (ms.map Prod.snd).Nodup) :
    (∀ i j, firstPlace hasSchedule ms = some i → firstPlace hasFlag ms = some j → i = j) ↔
      Whole (ms.map Prod.fst) := by
  induction ms with
  | nil => exact ⟨fun _ => trivial, fun _ _ _ h => nomatch h⟩
  | cons m ms ih =>
    obtain ⟨hm, hms⟩ := nodup_cons.mp nodup
    rw [firstPlace, firstPlace, map_cons, Whole]
    cases hs : hasSchedule m.1 with
    | true =>
      cases hf : hasFlag m.1 with
      | true =>
        simp only [if_true, true_or, iff_true]
        intro i j hi hj
        exact (some.inj hi).symm.trans (some.inj hj)
      | false =>
        simp only [if_true, Bool.false_eq_true, if_false, false_or, ← firstPlace_eq_none]
        constructor
        · intro h
          by_contra hne
          obtain ⟨j, hj⟩ := ne_none_iff_exists'.mp hne
          exact hm (h _ j rfl hj ▸ firstPlace_mem hj)
        · intro h i j _ hj
          exact nomatch h.symm.trans hj
    | false =>
      cases hf : hasFlag m.1 with
      | true =>
        simp only [if_true, Bool.false_eq_true, if_false, ← firstPlace_eq_none]
        constructor
        · intro h
          by_contra hne
          obtain ⟨i, hi⟩ := ne_none_iff_exists'.mp hne
          exact hm ((h i _ hi rfl).symm ▸ firstPlace_mem hi)
        · intro h i j hi _
          exact nomatch h.symm.trans hi
      | false =>
        simp only [Bool.false_eq_true, if_false]
        exact ih hms

end

/-! ## The walk over numbered values -/

section

variable {i : Nat}

theorem userSet_at : userSet T.numbered (l.at i) = userSet T l := by
  unfold userSet Labels.at
  cases l scheduleLabel <;> rfl

theorem optedOut_at : optedOut T.numbered (l.at i) = optedOut T l := by
  unfold optedOut Labels.at
  cases l scheduleLabel <;> cases l autoLabel <;> rfl

theorem place_schedule : ((l.at i) scheduleLabel).map Prod.snd =
    if hasSchedule l then some i else none := by
  unfold hasSchedule Labels.at
  cases l scheduleLabel <;> rfl

theorem place_rehomed : (((l.at i) scheduleLabel).map T.numbered.rehomeScheduleLabel).map Prod.snd =
      if hasSchedule l then some i else none := by
  unfold hasSchedule Labels.at
  cases l scheduleLabel <;> rfl

theorem place_flag : ((l.at i) pitrLabel).map Prod.snd = if hasFlag l then some i else none := by
  unfold hasFlag Labels.at
  cases l pitrLabel <;> rfl

end

/-- The picture after some donors. -/
def steps (T : Texts V) (c : Pic V) (ds : List (Labels V)) : Pic V := ds.foldl (Pic.step T) c

theorem steps_cons (c : Pic V) (d : Labels V) (ds : List (Labels V)) :
    steps T c (d :: ds) = steps T (c.step T d) ds := rfl

/-- A user's schedule stays, and with it the flag in the picture, or the first one that comes. -/
theorem steps_of_userSet {s : V} (user : T.isAutoSchedule s = false) {c : Pic V}
    (hc : c.schedule = some s) (ds : List (Labels V)) : (steps T c ds).schedule = some s ∧
      (steps T c ds).flag =
        if c.pitr.isSome then c.flag else (firstOf pitrLabel ds).or c.added := by
  induction ds generalizing c with
  | nil =>
    refine ⟨hc, ?_⟩
    change c.added.or c.pitr = if c.pitr.isSome then c.added.or c.pitr else none.or c.added
    cases c.pitr with
    | none => exact or_none
    | some f => rfl
  | cons d ds ih =>
    have hany : c.schedule.any T.isAutoSchedule = false := by
      rw [hc]
      exact user
    have hstep := step_of_keeps (T := T) (l := d) (c := c)
      (by rw [overridesAuto_eq, hany]; exact nofun) (by rw [optsOut_eq, hany]; exact nofun)
    have hs : (c.step T d).schedule = some s := by
      rw [hstep, hc]
      rfl
    obtain ⟨hsched, hflag⟩ := ih hs
    refine ⟨hsched, ?_⟩
    rw [steps_cons, hflag, hstep, firstOf]
    unfold Pic.flag
    dsimp only
    cases hp : c.pitr with
    | some f => rfl
    | none =>
      cases hd : d pitrLabel with
      | some f => rfl
      | none => rfl

/-- The picture of the live members, when no schedule is a user's. -/
structure Tracks (T : Texts V) (own : Bool) (live : List (Labels V × Nat)) (c : Pic (V × Nat)) :
    Prop where
  nonempty : live ≠ []
  auto : ∀ s, c.schedule = some s → T.isAutoSchedule s.1 = true
  schedule : c.schedule.map Prod.snd = firstPlace hasSchedule live
  pitr : c.pitr.map Prod.snd = firstPlace hasFlag live
  added : c.added.map Prod.snd =
    if addsFlag own (live.map Prod.fst) then firstPlace hasFlag live else none

section

variable {own : Bool} {live ds : List (Labels V × Nat)} {c : Pic (V × Nat)} {d : Labels V × Nat}

theorem addsFlag_of_none {ls : List (Labels V)} (h : ∀ m ∈ ls, hasFlag m = false) :
    addsFlag own ls = false := by
  cases ls with
  | nil => rfl
  | cons m ms =>
    obtain ⟨hm, hms⟩ := forall_mem_cons.mp h
    rw [addsFlag, hm, if_neg nofun, List.any_eq_false]
    exact fun m' hm' => Bool.eq_false_iff.mp (hms m' hm')

theorem any_hasFlag_of_addsFlag {ls : List (Labels V)} (h : addsFlag own ls = true) :
    ls.any hasFlag = true := by
  by_contra hnone
  rw [Bool.not_eq_true, List.any_eq_false] at hnone
  rw [addsFlag_of_none fun m hm => Bool.eq_false_iff.mpr (hnone m hm)] at h
  exact nomatch h

theorem addsFlag_append {ls : List (Labels V)} (nonempty : ls ≠ []) (m : Labels V) :
    addsFlag own (ls ++ [m]) =
      if ls.any hasFlag then addsFlag own ls else hasFlag m := by
  cases ls with
  | nil => exact absurd rfl nonempty
  | cons p ms =>
    rw [cons_append, addsFlag, addsFlag, any_cons, any_append, any_cons,
      any_nil, Bool.or_false]
    cases hasFlag p with
    | true => rfl
    | false =>
      cases ms.any hasFlag with
      | true => rfl
      | false => rfl

namespace Tracks

theorem any_schedule (h : Tracks T own live c) :
    c.schedule.any T.numbered.isAutoSchedule = (live.map Prod.fst).any hasSchedule := by
  rw [← isSome_firstPlace, ← h.schedule, isSome_map]
  cases hc : c.schedule with
  | none => rfl
  | some s => exact h.auto s hc

theorem isSome_pitr (h : Tracks T own live c) :
    c.pitr.isSome = (live.map Prod.fst).any hasFlag := by
  rw [← isSome_firstPlace, ← h.pitr, isSome_map]

theorem added_of_none (h : Tracks T own live c) (hnone : c.pitr = none) : c.added = none := by
  have hplace := h.pitr
  rw [hnone] at hplace
  have hadded := h.added
  rw [← hplace, map_none, ite_self] at hadded
  exact map_eq_none_iff.mp hadded

/-- An opt-out that takes the schedule away is the only live member. -/
theorem optsOut (h : Tracks T own live c) (hout : optedOut T d.1 = true)
    (hany : (live.map Prod.fst).any hasSchedule = true) :
    Tracks T false [d] (c.step T.numbered (d.1.at d.2)) := by
  have hstep := step_of_optsOut (T := T.numbered) (l := d.1.at d.2) (c := c)
    (by rw [optsOut_eq, optedOut_at, h.any_schedule, hany, hout]; rfl)
  have hadded : (if c.pitr.isSome then none else c.added) = none := by
    cases hc : c.pitr with
    | none => exact h.added_of_none hc
    | some f => rfl
  rw [hadded, or_none] at hstep
  rw [hstep]
  refine ⟨cons_ne_nil _ _, nofun, ?_, ?_, ?_⟩
  · rw [firstPlace, hasSchedule_of_optedOut hout]
    rfl
  · exact place_flag
  · refine place_flag.trans ?_
    rw [map_singleton, addsFlag, firstPlace]
    cases hasFlag d.1 <;> rfl

/-- Any other member whose schedule is not a user's is live too. -/
theorem keeps (h : Tracks T own live c) (huser : userSet T d.1 = false)
    (hout : (optedOut T d.1 && (live.map Prod.fst).any hasSchedule) = false) :
    Tracks T own (live ++ [d]) (c.step T.numbered (d.1.at d.2)) := by
  have hstep := step_of_keeps (T := T.numbered) (l := d.1.at d.2) (c := c)
    (by rw [overridesAuto_eq, userSet_at, huser, Bool.and_false]; exact nofun)
    (by rw [optsOut_eq, optedOut_at, h.any_schedule, Bool.and_comm, hout]; exact nofun)
  rw [hstep]
  refine ⟨append_ne_nil_of_left_ne_nil h.nonempty _, ?_, ?_, ?_, ?_⟩
  · intro s hs
    rcases or_eq_some_iff.mp hs with hc | ⟨-, hd⟩
    · exact h.auto s hc
    · obtain ⟨v, hv, rfl⟩ := map_eq_some_iff.mp hd
      obtain ⟨u, hu, rfl⟩ := map_eq_some_iff.mp hv
      unfold userSet at huser
      rw [hu, any_some, Bool.not_eq_false'] at huser
      exact (T.isAutoSchedule_rehome u).trans huser
  · rw [map_or, h.schedule, place_rehomed, firstPlace_append]
    rfl
  · rw [map_or, h.pitr, place_flag, firstPlace_append]
    rfl
  · have hplaces : live.map Prod.fst ≠ [] := fun hnil => h.nonempty (map_eq_nil_iff.mp hnil)
    rw [map_append, map_singleton, addsFlag_append hplaces, firstPlace_append,
      ← h.isSome_pitr]
    cases hc : c.pitr with
    | some f =>
      have hfirst : firstPlace hasFlag live = some f.2 := by
        rw [← h.pitr, hc]
        rfl
      have hadded := h.added
      rw [hfirst] at hadded ⊢
      exact hadded
    | none =>
      have hfirst : firstPlace hasFlag live = none := by
        rw [← h.pitr, hc]
        rfl
      rw [h.added_of_none hc, hfirst]
      refine (congrArg (Option.map Prod.snd) or_none).trans (place_flag.trans ?_)
      rw [none_or, firstPlace]
      cases hasFlag d.1 <;> rfl

end Tracks

/-- The places of the schedule and the flag in a picture. -/
def Pic.OneSource (c : Pic (V × Nat)) : Prop :=
  ∀ s f, c.schedule = some s → c.flag = some f → s.2 = f.2

/-- Numbered labels of members. -/
def at_ (ms : List (Labels V × Nat)) : List (Labels (V × Nat)) := ms.map fun m => m.1.at m.2

theorem firstOf_at (ms : List (Labels V × Nat)) :
    (firstOf pitrLabel (at_ ms)).map Prod.snd = firstPlace hasFlag ms := by
  induction ms with
  | nil => rfl
  | cons m ms ih =>
    change (((m.1.at m.2) pitrLabel).or (firstOf pitrLabel (at_ ms))).map Prod.snd = _
    rw [map_or, ih, place_flag, firstPlace]
    cases hasFlag m.1 <;> rfl

theorem Tracks.oneSource_iff (h : Tracks T own live c) (nodup : (live.map Prod.snd).Nodup) :
    c.OneSource ↔ Whole (live.map Prod.fst) := by
  have hflag : c.flag.map Prod.snd = firstPlace hasFlag live := by
    unfold Pic.flag
    rw [map_or, h.added, h.pitr]
    split_ifs
    · exact or_self
    · exact none_or
  rw [← whole_iff nodup, ← h.schedule, ← hflag]
  constructor
  · intro hone i j hi hj
    obtain ⟨s, hs, rfl⟩ := map_eq_some_iff.mp hi
    obtain ⟨f, hf, rfl⟩ := map_eq_some_iff.mp hj
    exact hone s f hs hf
  · intro hone s f hs hf
    exact hone s.2 f.2 (congrArg (Option.map Prod.snd) hs) (congrArg (Option.map Prod.snd) hf)

/-- After a user's schedule, the flag is its member's if the picture has it, and otherwise there
must be none. -/
theorem oneSource_steps_of_userSet {s : V × Nat} (user : T.isAutoSchedule s.1 = false)
    (hc : c.schedule = some s) (hds : s.2 ∉ ds.map Prod.snd) :
    (steps T.numbered c (at_ ds)).OneSource ↔
      if c.pitr.isSome then ∀ f, c.flag = some f → s.2 = f.2
      else (∀ m ∈ ds.map Prod.fst, hasFlag m = false) ∧ ∀ f, c.added = some f → s.2 = f.2 := by
  obtain ⟨hsched, hflag⟩ := steps_of_userSet (T := T.numbered) user hc (at_ ds)
  have hone : (steps T.numbered c (at_ ds)).OneSource ↔
      ∀ f, (if c.pitr.isSome then c.flag else (firstOf pitrLabel (at_ ds)).or c.added) = some f →
        s.2 = f.2 := by
    unfold Pic.OneSource
    rw [hsched, hflag]
    exact ⟨fun h f hf => h s f rfl hf, fun h s' f hs hf => some.inj hs ▸ h f hf⟩
  rw [hone]
  cases c.pitr with
  | some f => exact Iff.rfl
  | none =>
    rw [if_neg nofun, if_neg nofun, ← firstPlace_eq_none, ← firstOf_at, map_eq_none_iff]
    constructor
    · intro h
      have hnone : firstOf pitrLabel (at_ ds) = none := by
        by_contra hne
        obtain ⟨f, hf⟩ := ne_none_iff_exists'.mp hne
        have hplace : firstPlace hasFlag ds = some f.2 := by
          rw [← firstOf_at, hf]
          rfl
        exact hds ((h f (by rw [hf]; rfl)).symm ▸ firstPlace_mem hplace)
      rw [hnone] at h
      exact ⟨hnone, h⟩
    · rintro ⟨hnone, h⟩
      rw [hnone]
      exact h

/-- A user's schedule comes. -/
theorem Tracks.oneSource_userSet (h : Tracks T own live c)
    (nodup : ((live ++ d :: ds).map Prod.snd).Nodup) (huser : userSet T d.1 = true) :
    (steps T.numbered (c.step T.numbered (d.1.at d.2)) (at_ ds)).OneSource ↔
      if (live.map Prod.fst).any hasSchedule then
        hasFlag d.1 ∨ ((∀ m ∈ ds.map Prod.fst, hasFlag m = false) ∧
          addsFlag own (live.map Prod.fst) = false)
      else (∀ m ∈ live.map Prod.fst, hasFlag m = false) ∧
        (hasFlag d.1 ∨ ∀ m ∈ ds.map Prod.fst, hasFlag m = false) := by
  rw [List.map_append, List.map_cons, List.nodup_append, List.nodup_cons] at nodup
  obtain ⟨-, ⟨hds, -⟩, hdisjoint⟩ := nodup
  have hlive : d.2 ∉ live.map Prod.snd := fun hmem => hdisjoint _ hmem _ (.head _) rfl
  have hplace (f : V × Nat) (hf : (d.1.at d.2) pitrLabel = some f) : d.2 = f.2 := by
    obtain ⟨v, -, rfl⟩ := map_eq_some_iff.mp hf
    rfl
  have hset : (d.1.at d.2 scheduleLabel).any (fun v => !T.isAutoSchedule v.1) = true :=
    userSet_at.trans huser
  rw [Option.any_eq_true] at hset
  obtain ⟨s, hs, huserS⟩ := hset
  rw [Bool.not_eq_true'] at huserS
  have hsPlace : s.2 = d.2 := by
    obtain ⟨v, -, rfl⟩ := map_eq_some_iff.mp hs
    rfl
  have hflag : ((d.1.at d.2) pitrLabel).isSome = hasFlag d.1 := isSome_map
  have huser' : T.isAutoSchedule (T.rehomeScheduleLabel s.1) = false :=
    (T.isAutoSchedule_rehome s.1).trans huserS
  cases hany : (live.map Prod.fst).any hasSchedule with
  | true =>
    have hstep := step_of_overrides (T := T.numbered) (l := d.1.at d.2) (c := c)
      (by rw [overridesAuto_eq, userSet_at, h.any_schedule, hany, huser]; rfl)
    rw [hs] at hstep
    rw [oneSource_steps_of_userSet (s := (T.rehomeScheduleLabel s.1, s.2)) huser'
      (by rw [hstep]; rfl) (hsPlace.symm ▸ hds), hstep, if_pos rfl, ← hflag]
    unfold Pic.flag
    dsimp only
    cases hP : (d.1.at d.2) pitrLabel with
    | some f =>
      simp only [isSome_some, if_true, true_or, iff_true, some_or]
      intro g hg
      exact hsPlace.trans (hplace g (hP.trans hg))
    | none =>
      simp only [isSome_none, Bool.false_eq_true, if_false, false_or, none_or]
      refine and_congr_right fun _ => ?_
      have hadded := h.added
      constructor
      · intro hall
        by_contra hadds
        rw [Bool.not_eq_false] at hadds
        rw [if_pos hadds] at hadded
        have hsome := any_hasFlag_of_addsFlag hadds
        rw [← isSome_firstPlace, ← hadded, isSome_map] at hsome
        obtain ⟨f, hf⟩ := isSome_iff_exists.mp hsome
        rw [hf] at hadded
        exact hlive (hsPlace.symm.trans (hall f hf) ▸ firstPlace_mem hadded.symm)
      · intro hadds f hf
        rw [hadds, if_neg Bool.false_ne_true, hf] at hadded
        exact nomatch hadded
  | false =>
    have hnone : c.schedule.any T.numbered.isAutoSchedule = false := h.any_schedule.trans hany
    have hsched : c.schedule = none := by
      cases hc : c.schedule with
      | none => rfl
      | some t =>
        rw [hc, any_some] at hnone
        exact nomatch hnone.symm.trans (h.auto t hc)
    have hstep := step_of_keeps (T := T.numbered) (l := d.1.at d.2) (c := c)
      (by rw [overridesAuto_eq, hnone]; exact nofun) (by rw [optsOut_eq, hnone]; exact nofun)
    rw [hs, hsched] at hstep
    rw [if_neg Bool.false_ne_true,
      oneSource_steps_of_userSet (s := (T.rehomeScheduleLabel s.1, s.2)) huser'
        (by rw [hstep]; rfl) (hsPlace.symm ▸ hds), hstep, ← hflag,
      ← @firstPlace_eq_none _ _ live, ← h.pitr, map_eq_none_iff]
    unfold Pic.flag
    dsimp only
    cases hc : c.pitr with
    | some f =>
      simp only [isSome_some, some_or, if_true, reduceCtorEq, false_and, iff_false]
      intro hall
      obtain ⟨g, hg⟩ : ∃ g, c.added.or (some f) = some g :=
        isSome_iff_exists.mp (by cases c.added <;> rfl)
      have hgPlace : firstPlace hasFlag live = some g.2 := by
        have hadded := h.added
        have hpitr := h.pitr
        rw [hc] at hpitr
        cases ha : c.added with
        | none =>
          rw [ha, none_or] at hg
          exact some.inj hg ▸ hpitr.symm
        | some a =>
          rw [ha] at hg hadded
          split_ifs at hadded
          · exact some.inj hg ▸ hadded.symm
          · exact nomatch hadded
      exact hlive (hsPlace.symm.trans (hall g hg) ▸ firstPlace_mem hgPlace)
    | none =>
      rw [h.added_of_none hc]
      cases hP : (d.1.at d.2) pitrLabel with
      | some f =>
        simp only [isSome_some, isSome_none, Bool.false_eq_true, if_false,
          none_or, if_true, true_or, and_self, iff_true, some_or]
        intro g hg
        exact hsPlace.trans (hplace g (hP.trans hg))
      | none => simp

theorem oneSource_steps_iff (h : Tracks T own live c) (nodup : ((live ++ ds).map Prod.snd).Nodup) :
    (steps T.numbered c (at_ ds)).OneSource ↔ OneSource T own (live.map Prod.fst)
    (ds.map Prod.fst) := by
  induction ds generalizing own live c with
  | nil =>
    rw [append_nil] at nodup
    exact h.oneSource_iff nodup
  | cons d ds ih =>
    rw [map_cons, OneSource]
    change (steps T.numbered (c.step T.numbered (d.1.at d.2)) (at_ ds)).OneSource ↔ _
    by_cases huser : userSet T d.1 = true
    · rw [if_pos huser]
      exact h.oneSource_userSet nodup huser
    · rw [if_neg huser]
      by_cases hout : (optedOut T d.1 && (live.map Prod.fst).any hasSchedule) = true
      · rw [if_pos hout]
        obtain ⟨hopted, hany⟩ := Bool.and_eq_true_iff.mp hout
        refine ih (h.optsOut hopted hany) ?_
        rw [map_append, nodup_append] at nodup
        exact nodup.2.1
      · rw [if_neg hout, ← map_singleton, ← map_append]
        refine ih (h.keeps (Bool.eq_false_iff.mpr huser) (Bool.eq_false_iff.mpr hout)) ?_
        rwa [append_assoc, singleton_append]

end

/-! ## The primary's schedule and flag -/

section

variable {primary : Member V} {others : List (Member V)}

/-- The primary once the intent of the numbered members is carried. -/
def traced (T : Texts V) (primary : Member V) (others : List (Member V)) : Labels (V × Nat) :=
  (carried T.numbered (primary.at 0) (numbered others)).labels

theorem traced_schedule : traced T primary others scheduleLabel =
    (pics T.numbered (primary.labels.at 0) (at_ (placed primary others))).schedule := by
  unfold traced
  rw [carried_schedule, donorLabels_numbered]
  rfl

theorem traced_flag : traced T primary others pitrLabel =
    (pics T.numbered (primary.labels.at 0) (at_ (placed primary others))).flag := by
  unfold traced
  rw [carried_flag, donorLabels_numbered]
  rfl

theorem tracks_start (huser : userSet T primary.labels = false) :
    Tracks T true [(primary.labels, 0)]
      ⟨(primary.labels.at 0) scheduleLabel, (primary.labels.at 0) pitrLabel, none⟩ := by
  refine ⟨cons_ne_nil _ _, fun s hs => ?_, ?_, ?_, ?_⟩
  · obtain ⟨v, hv, rfl⟩ := map_eq_some_iff.mp hs
    unfold userSet at huser
    rw [hv, any_some, Bool.not_eq_false'] at huser
    exact huser
  · exact place_schedule
  · exact place_flag
  · rw [map_singleton, addsFlag]
    cases hasFlag primary.labels <;> rfl

/-- A user's schedule on the primary is at place 0. -/
theorem userSet_start (huser : userSet T primary.labels = true) :
    ∃ s : V, T.isAutoSchedule s = false ∧ (primary.labels.at 0) scheduleLabel = some (s, 0) := by
  unfold userSet at huser
  rw [Option.any_eq_true] at huser
  obtain ⟨s, hs, hauto⟩ := huser
  rw [Bool.not_eq_true'] at hauto
  refine ⟨s, hauto, ?_⟩
  unfold Labels.at
  rw [hs]
  rfl

/-- The schedule and the flag the primary ends with are of one member exactly when the members
keep them together. -/
theorem oneSource_iff : (∀ s f, traced T primary others scheduleLabel = some s →
      traced T primary others pitrLabel = some f → s.2 = f.2) ↔
      KeepsSource T primary.labels (donorLabels primary others) := by
  have hnodup := nodup_placed primary others
  rw [traced_schedule, traced_flag, ← map_placed]
  change (steps T.numbered _ (at_ (placed primary others))).OneSource ↔ _
  unfold KeepsSource
  by_cases huser : userSet T primary.labels = true
  · rw [if_pos huser]
    obtain ⟨s, hauto, hs⟩ := userSet_start huser
    rw [map_cons, nodup_cons] at hnodup
    rw [oneSource_steps_of_userSet (s := (s, 0)) hauto hs hnodup.1]
    have hflag : ((primary.labels.at 0) pitrLabel).isSome = hasFlag primary.labels :=
      isSome_map
    rw [← hflag]
    unfold Pic.flag
    dsimp only
    cases hP : (primary.labels.at 0) pitrLabel with
    | some f =>
      obtain ⟨v, -, rfl⟩ := map_eq_some_iff.mp hP
      simp
    | none => simp
  · rw [if_neg huser]
    exact oneSource_steps_iff (tracks_start (Bool.eq_false_iff.mpr huser)) hnodup

/-! The numbers change nothing else. -/

/-- A picture without the numbers. -/
def Pic.plain (c : Pic (V × Nat)) : Pic V :=
  ⟨c.schedule.map Prod.fst, c.pitr.map Prod.fst, c.added.map Prod.fst⟩

theorem map_fst_at (i : Nat) (k : String) : ((l.at i) k).map Prod.fst = l k := by
  unfold Labels.at
  cases l k <;> rfl

theorem plain_step {c : Pic (V × Nat)} {i : Nat} :
    (c.step T.numbered (l.at i)).plain = c.plain.step T l := by
  have hany : c.schedule.any T.numbered.isAutoSchedule = c.plain.schedule.any T.isAutoSchedule := by
    unfold Pic.plain
    cases c.schedule <;> rfl
  have hsome : c.plain.pitr.isSome = c.pitr.isSome := isSome_map
  unfold Pic.step
  rw [overridesAuto_eq, overridesAuto_eq, optsOut_eq, optsOut_eq, hany, userSet_at,
    optedOut_at, hsome]
  have hrehomed : (((l.at i) scheduleLabel).map T.numbered.rehomeScheduleLabel).map Prod.fst =
      (l scheduleLabel).map T.rehomeScheduleLabel := by
    unfold Labels.at
    cases l scheduleLabel <;> rfl
  unfold Pic.plain
  split_ifs <;> simp only [map_or, map_fst_at, hrehomed, map_none]

theorem plain_steps (c : Pic (V × Nat)) (ms : List (Labels V × Nat)) :
    (steps T.numbered c (at_ ms)).plain = steps T c.plain (ms.map Prod.fst) := by
  induction ms generalizing c with
  | nil => rfl
  | cons m ms ih =>
    change (steps T.numbered (c.step T.numbered (m.1.at m.2)) (at_ ms)).plain = _
    rw [ih, plain_step]
    rfl

/-- The traced schedule and flag are those of the primary once the intent is carried. -/
theorem fst_traced : (traced T primary others scheduleLabel).map Prod.fst =
        (carried T primary others).labels scheduleLabel ∧
      (traced T primary others pitrLabel).map Prod.fst =
        (carried T primary others).labels pitrLabel := by
  have hplain := plain_steps (T := T)
    ⟨(primary.labels.at 0) scheduleLabel, (primary.labels.at 0) pitrLabel, none⟩
    (placed primary others)
  rw [map_placed] at hplain
  have hstart : Pic.plain ⟨(primary.labels.at 0) scheduleLabel,
      (primary.labels.at 0) pitrLabel, none⟩ =
      ⟨primary.labels scheduleLabel, primary.labels pitrLabel, none⟩ := by
    unfold Pic.plain
    rw [map_fst_at, map_fst_at]
    rfl
  rw [hstart] at hplain
  rw [traced_schedule, traced_flag, carried_schedule, carried_flag]
  constructor
  · exact congrArg Pic.schedule hplain
  · refine Eq.trans ?_ (congrArg Pic.flag hplain)
    unfold Pic.flag Pic.plain
    exact map_or

end

end Swarmy.BackupIntent
