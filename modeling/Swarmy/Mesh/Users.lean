import Swarmy.Mesh.Kinds

/-!
# The people settle

One sync gives every person of the mesh the groups it plans for them, and the plan made
from what the control plane then says is empty.
-/

namespace Swarmy.Mesh

open Keyed List Option

/-- The people of a control plane whose ids are distinct. -/
structure Directory (S : IdSupply) extends People where
  groupIds : GroupsFresh S groups issued
  userIds : (users.map NbUser.id).Nodup

/-! ## Names and ids -/

section

variable {groups : List NbGroup} {i name : String}

/-- The id a name is sent as. -/
def idOf (groups : List NbGroup) (name : String) : String := (groupMap groups name).getD name

/-- A name that comes back as it is sent. -/
def Settled (groups : List NbGroup) (name : String) : Prop :=
  (∃ i, groupMap groups name = some i) ∨ nameOf groups name = name

theorem nameOf_cases (groups : List NbGroup) (i : String) :
    (∃ j, groupMap groups (nameOf groups i) = some j) ∨ nameOf groups i = i := by
  unfold nameOf
  cases h : (groups.filter fun g => groupMap groups g.name = some g.id).find? (·.id = i) with
  | none => exact .inr rfl
  | some g =>
    have hg := mem_of_find?_eq_some h
    exact .inl ⟨g.id, of_decide_eq_true (mem_filter.mp hg).2⟩

theorem settled_nameOf : Settled groups (nameOf groups i) := by
  rcases nameOf_cases groups i with h | h
  · exact .inl h
  · exact .inr (by rw [h, h])

theorem nameOf_idOf (hg : (groups.map NbGroup.id).Nodup) (h : Settled groups name) :
    nameOf groups (idOf groups name) = name := by
  unfold idOf
  cases hm : groupMap groups name with
  | none =>
    rcases h with ⟨i, hi⟩ | h
    · rw [hm] at hi
      cases hi
    · exact h
  | some i =>
    obtain ⟨g, hmem, rfl, rfl⟩ := groupMap_mem hm
    show nameOf groups g.id = g.name
    have hfound : g ∈ groups.filter fun g => groupMap groups g.name = some g.id :=
      mem_filter.mpr ⟨hmem, decide_eq_true hm⟩
    unfold nameOf
    cases hfind : (groups.filter fun g => groupMap groups g.name = some g.id).find?
        (·.id = g.id) with
    | none => exact absurd (decide_eq_true rfl) (List.find?_eq_none.mp hfind g hfound)
    | some g' =>
      have hg' := (mem_filter.mp (mem_of_find?_eq_some hfind)).1
      have hid : g'.id = g.id := by simpa using List.find?_some hfind
      rw [inj_on_of_nodup_map hg hg' hmem hid]
      rfl

end

/-! ## One person -/

section

variable {toLowerCase : String → String} {dexSubject : String → Option String}
variable {cluster : String} {people : List PersonAccess} {groups : List NbGroup}

/-- The person after an action. -/
def userAfter (groups : List NbGroup) (a : UserSyncAction) (u : NbUser) : NbUser :=
  if u.id = a.nbUserId then
    { u with role := if u.role = "" then "user" else u.role
             autoGroups := a.autoGroups.map (idOf groups)
             isBlocked := a.block }
  else u

variable {a : UserSyncAction} {u : NbUser}

theorem userAfter_id : (userAfter groups a u).id = u.id := by
  unfold userAfter
  split <;> rfl

theorem personOf_mem {p : PersonAccess}
    (h : personOf toLowerCase dexSubject people u = some p) : p ∈ people := by
  rcases or_eq_some_iff.mp h with h | ⟨-, h⟩
  · obtain ⟨s, -, hs⟩ := bind_eq_some_iff.mp h
    exact (Js.mapGet_mem hs).1
  · split at h
    · cases h
    · exact mem_of_mem_filter (Js.mapGet_mem h).1

/-- The groups a person keeps, and those they are to have, are kept when they are
computed again. -/
theorem next_next (xs ys : List String) (p : String → Bool) :
    sorted (Js.unique ((sorted (Js.unique (xs.filter p ++ ys))).filter p ++ ys)) =
      sorted (Js.unique (xs.filter p ++ ys)) := by
  rw [sorted_eq_iff, perm_ext_iff_of_nodup (Js.nodup_unique _) (Js.nodup_unique _)]
  intro x
  simp only [Js.mem_unique, mem_append, mem_filter, mem_sorted]
  tauto

theorem kept_kept (xs : List String) (p : String → Bool) :
    sorted ((sorted (xs.filter p)).filter p) = sorted (xs.filter p) := by
  rw [sorted_eq_iff]
  have hall : ∀ x ∈ sorted (xs.filter p), p x = true := fun x hx =>
    (mem_filter.mp (mem_sorted.mp hx)).2
  rw [filter_eq_self.mpr hall]
  exact sorted_perm _

/-- Nobody changes who a person is. -/
theorem personOf_userAfter : personOf toLowerCase dexSubject people (userAfter groups a u) =
      personOf toLowerCase dexSubject people u := by
  unfold userAfter
  split <;> rfl

/-- What is planned for a person is all there is to do. -/
theorem userSyncAction_after (groups : List NbGroup) {names : List String}
    (h : userSyncAction toLowerCase dexSubject cluster people u names = some a) :
    a.nbUserId = u.id ∧ userSyncAction toLowerCase dexSubject cluster people
      (userAfter groups a u) a.autoGroups = none := by
  have hblocked : a.nbUserId = u.id → (userAfter groups a u).isBlocked = a.block := by
    intro hid
    unfold userAfter
    rw [if_pos hid.symm]
  unfold userSyncAction at h
  split at h
  · cases h
  · unfold userSyncAction
    rw [personOf_userAfter]
    cases hp : personOf toLowerCase dexSubject people u with
    | none =>
      rw [hp] at h
      dsimp only at h
      split at h
      · cases h
      · obtain rfl := some.inj h
        refine ⟨rfl, ite_eq_left_iff.mpr fun _ => ?_⟩
        dsimp only
        rw [hblocked rfl, kept_kept, sorted_sorted, if_pos]
        simp
    | some person =>
      rw [hp] at h
      dsimp only at h
      split at h
      · cases h
      · obtain rfl := some.inj h
        refine ⟨rfl, ite_eq_left_iff.mpr fun _ => ?_⟩
        dsimp only
        rw [hblocked rfl, next_next, sorted_sorted, if_pos]
        simp

/-- Every name that is planned for a person comes back as it is sent. -/
theorem settled_action {ids : List String}
    (hpeople : ∀ p ∈ people, ∀ g ∈ p.groups, ∃ i, groupMap groups g = some i)
    (h : userSyncAction toLowerCase dexSubject cluster people u (ids.map (nameOf groups)) =
      some a) :
    ∀ g ∈ a.autoGroups, Settled groups g := by
  have hkept : ∀ g ∈ (ids.map (nameOf groups)).filter
      fun g => !Js.startsWith g (swarmyPrefix cluster), Settled groups g := by
    intro g hg
    obtain ⟨i, -, rfl⟩ := mem_map.mp (mem_of_mem_filter hg)
    exact settled_nameOf
  unfold userSyncAction at h
  split at h
  · cases h
  · cases hp : personOf toLowerCase dexSubject people u with
    | none =>
      rw [hp] at h
      dsimp only at h
      split at h
      · cases h
      · obtain rfl := some.inj h
        exact fun g hg => hkept g (mem_sorted.mp hg)
    | some person =>
      rw [hp] at h
      dsimp only at h
      split at h
      · cases h
      · obtain rfl := some.inj h
        intro g hg
        rcases mem_append.mp (Js.mem_unique.mp (mem_sorted.mp hg)) with hg | hg
        · exact hkept g hg
        · exact .inl (hpeople person (personOf_mem hp) g hg)

end

/-! ## All people -/

section

variable {toLowerCase : String → String} {dexSubject : String → Option String}
variable {cluster : String} {people : List PersonAccess}

/-- The action of a person, by the groups of the control plane. -/
def actionOf (toLowerCase : String → String) (dexSubject : String → Option String)
    (cluster : String) (people : List PersonAccess) (groups : List NbGroup) (u : NbUser) :
    Option UserSyncAction :=
  userSyncAction toLowerCase dexSubject cluster people u (u.autoGroups.map (nameOf groups))

/-- The person after their action, if they have one. -/
def synced1 (groups : List NbGroup) (act : NbUser → Option UserSyncAction) (v u : NbUser) :
    NbUser :=
  (act v).elim u fun a => userAfter groups a u

theorem synced1_id {groups : List NbGroup} {act : NbUser → Option UserSyncAction} {v u : NbUser} :
    (synced1 groups act v u).id = u.id := by
  unfold synced1
  cases act v with
  | none => rfl
  | some a => exact userAfter_id

theorem fold_groups (as : List UserSyncAction) (p : People) :
    (as.foldl applyUserAction p).groups = p.groups := by
  induction as generalizing p with
  | nil => rfl
  | cons a as ih => exact ih (applyUserAction p a)

theorem fold_users (act : NbUser → Option UserSyncAction) (us : List NbUser) (p : People) :
    ((us.filterMap act).foldl applyUserAction p).users =
      p.users.map fun u => us.foldl (fun u v => synced1 p.groups act v u) u := by
  induction us generalizing p with
  | nil => simp
  | cons v us ih =>
    cases hv : act v with
    | none =>
      rw [filterMap_cons_none hv, ih]
      simp only [foldl_cons, synced1, hv, elim_none]
    | some a =>
      rw [filterMap_cons_some hv, foldl_cons, ih]
      show List.map _ (List.map (userAfter p.groups a) p.users) = _
      rw [List.map_map]
      refine List.map_congr_left fun u _ => ?_
      simp only [foldl_cons, synced1, hv, elim_some]
      rfl

/-- Only a person's own action changes them. -/
theorem fold_synced1 {groups : List NbGroup} {act : NbUser → Option UserSyncAction}
    (hact : ∀ v a, act v = some a → a.nbUserId = v.id) {us : List NbUser}
    (hus : (us.map NbUser.id).Nodup) {u : NbUser} (hu : u ∈ us) :
    us.foldl (fun u v => synced1 groups act v u) u = synced1 groups act u u := by
  have hother : ∀ (l : List NbUser) (x : NbUser), (∀ v ∈ l, v.id ≠ x.id) →
      l.foldl (fun u v => synced1 groups act v u) x = x := by
    intro l
    induction l with
    | nil => exact fun _ _ => rfl
    | cons v l ih =>
      intro x hx
      have hstep : synced1 groups act v x = x := by
        unfold synced1
        cases hv : act v with
        | none => rfl
        | some a =>
          refine if_neg fun he => hx v (.head _) ?_
          rw [← hact v a hv, he]
      rw [foldl_cons, hstep]
      exact ih x fun v' hv' => hx v' (.tail _ hv')
  obtain ⟨l, r, rfl⟩ := append_of_mem hu
  rw [map_append, map_cons, nodup_append, nodup_cons] at hus
  obtain ⟨-, ⟨hr, -⟩, hl⟩ := hus
  rw [foldl_append, foldl_cons, hother l u, hother r]
  · intro v hv he
    rw [synced1_id] at he
    exact hr (he ▸ mem_map_of_mem hv)
  · intro v hv he
    exact hl v.id (mem_map_of_mem hv) u.id (.head _) he

/-- The plan made after a sync has nothing to do. -/
theorem planUserSync_applyUserSync {S : IdSupply} (d : Directory S) :
    planUserSync toLowerCase dexSubject cluster people
      (applyUserSync toLowerCase dexSubject S cluster people d.toPeople).groups
      (applyUserSync toLowerCase dexSubject S cluster people d.toPeople).users = [] := by
  let groups := ensureGroups S (d.groups, d.issued) (people.flatMap PersonAccess.groups)
  have hfresh : GroupsFresh S groups.1 groups.2 :=
    GroupsFresh.ensureGroups (show GroupsFresh S (d.groups, d.issued).1 _ from d.groupIds)
  have hpeople : ∀ p ∈ people, ∀ g ∈ p.groups, ∃ i, groupMap groups.1 g = some i := by
    intro p hp g hg
    exact exists_groupMap_ensureGroups _ _ (mem_flatMap.mpr ⟨p, hp, hg⟩)
  let act := actionOf toLowerCase dexSubject cluster people groups.1
  have hact : ∀ v a, act v = some a → a.nbUserId = v.id := fun v a h =>
    (userSyncAction_after groups.1 h).1
  let us := d.users.insertionSort (·.id ≤ ·.id)
  have hus : (us.map NbUser.id).Nodup :=
    ((perm_insertionSort _ d.users).map NbUser.id).nodup_iff.mpr d.userIds
  have happly : applyUserSync toLowerCase dexSubject S cluster people d.toPeople =
      (us.filterMap act).foldl applyUserAction
        { d.toPeople with groups := groups.1, issued := groups.2 } := rfl
  rw [happly, fold_groups, fold_users]
  show List.filterMap act _ = []
  rw [filterMap_eq_nil_iff]
  intro x hx
  rw [mem_insertionSort] at hx
  obtain ⟨u, hu, rfl⟩ := mem_map.mp hx
  rw [fold_synced1 hact hus ((mem_insertionSort _).mpr hu)]
  unfold synced1
  cases ha : act u with
  | none => exact ha
  | some a =>
    obtain ⟨hid, hafter⟩ := userSyncAction_after groups.1 ha
    have hnames : (userAfter groups.1 a u).autoGroups.map (nameOf groups.1) = a.autoGroups := by
      unfold userAfter
      rw [if_pos hid.symm, List.map_map]
      refine (List.map_congr_left fun g hg => ?_).trans (List.map_id _)
      exact nameOf_idOf hfresh.nodup (settled_action hpeople ha g hg)
    show userSyncAction _ _ _ _ _ _ = none
    rw [elim_some, hnames]
    exact hafter

end

end Swarmy.Mesh
