import Swarmy.Js.Value

/-!
# The layout of a Garage cluster

A Garage cluster gives each of its nodes a role: a zone and a capacity.  Changes to the
roles are staged first, one for each node, and applying commits everything that is
staged, whoever staged it.  The reconciler reads the layout, stages the difference from
the members it wants and applies.
-/

namespace Swarmy.Storage

open List Option AList

/-! ## The cluster -/

/-- The role of a Garage node; a gateway has no capacity. -/
structure NodeRole where
  zone : String
  capacity : Option Nat
  tags : List String

/-- What a role says of where data goes. -/
def NodeRole.place (r : NodeRole) : String × Option Nat := (r.zone, r.capacity)

/-- The layout a Garage cluster holds; a staged change without a role is a removal. -/
structure Garage where
  version : Nat
  roles : AList fun _ : String => NodeRole
  staged : AList fun _ : String => Option NodeRole

/-- The changes the reconciler stages. -/
inductive GarageLayoutChange where
  | remove (id : String)
  | assign (id zone : String) (capacity : Nat) (tags : List String)

namespace GarageLayoutChange

def id : GarageLayoutChange → String
  | .remove i => i
  | .assign i _ _ _ => i

/-- The role the change gives, none for a removal. -/
def role : GarageLayoutChange → Option NodeRole
  | .remove _ => none
  | .assign _ zone capacity tags => some ⟨zone, some capacity, tags⟩

/-- Where the change puts its node. -/
def place (ch : GarageLayoutChange) : Option (String × Option Nat) := ch.role.map NodeRole.place

@[simp] theorem id_remove (i : String) : (remove i).id = i := rfl
@[simp] theorem id_assign (i z : String) (c : Nat) (ts : List String) :
    (assign i z c ts).id = i := rfl
@[simp] theorem place_remove (i : String) : (remove i).place = none := rfl
@[simp] theorem place_assign (i z : String) (c : Nat) (ts : List String) :
    (assign i z c ts).place = some (z, some c) := rfl

end GarageLayoutChange

namespace Garage

variable {g : Garage} {i : String}

/-- The place a node has. -/
def roleAt (g : Garage) (i : String) : Option (String × Option Nat) :=
  (g.roles.lookup i).map NodeRole.place

/-- The place applying what is staged leaves a node with. -/
def leftAt (g : Garage) (i : String) : Option (String × Option Nat) :=
  ((g.staged.lookup i).getD (g.roles.lookup i)).map NodeRole.place

/-- `POST /v1/layout`: a change replaces what was staged for its node. -/
def stage (g : Garage) (chs : List GarageLayoutChange) : Garage :=
  { g with staged := chs.foldl (fun st ch => st.insert ch.id ch.role) g.staged }

/-- A role change is committed. -/
def commit (roles : AList fun _ : String => NodeRole) (e : (_ : String) × Option NodeRole) :
    AList fun _ : String => NodeRole :=
  match e.2 with
  | none => roles.erase e.1
  | some r => roles.insert e.1 r

/-- `POST /v1/layout/apply`, which has to name the next version. -/
def apply (g : Garage) (version : Nat) : Garage :=
  if version = g.version + 1 then
    { version, roles := g.staged.entries.foldl commit g.roles, staged := ∅ }
  else g

/-! Staging a list of changes. -/

@[simp] theorem stage_version (chs : List GarageLayoutChange) :
    (g.stage chs).version = g.version := rfl

@[simp] theorem stage_roles (chs : List GarageLayoutChange) : (g.stage chs).roles = g.roles := rfl

theorem stage_cons (ch : GarageLayoutChange) (chs : List GarageLayoutChange) :
    g.stage (ch :: chs) = (g.stage [ch]).stage chs := rfl

theorem lookup_stage_of_ne {chs : List GarageLayoutChange} (h : ∀ ch ∈ chs, ch.id ≠ i) :
    (g.stage chs).staged.lookup i = g.staged.lookup i := by
  induction chs generalizing g with
  | nil => rfl
  | cons ch chs ih =>
    rw [stage_cons, ih fun ch' hch => h ch' (.tail _ hch)]
    exact lookup_insert_ne fun hi => h ch (.head _) hi.symm

/-- Changes of one node that all give the same role. -/
theorem lookup_stage_of_agree {chs : List GarageLayoutChange} {r : Option NodeRole}
    (hall : ∀ ch ∈ chs, ch.id = i → ch.role = r) (hex : ∃ ch ∈ chs, ch.id = i) :
    (g.stage chs).staged.lookup i = some r := by
  induction chs generalizing g with
  | nil => obtain ⟨ch, hch, -⟩ := hex; cases hch
  | cons ch chs ih =>
    rw [stage_cons]
    by_cases hrest : ∃ ch' ∈ chs, ch'.id = i
    · exact ih (fun ch' hch => hall ch' (.tail _ hch)) hrest
    · have hi : ch.id = i := by
        obtain ⟨ch', hmem, hi⟩ := hex
        rcases mem_cons.mp hmem with rfl | hmem
        · exact hi
        · exact absurd ⟨ch', hmem, hi⟩ hrest
      rw [lookup_stage_of_ne fun ch' hch hi => hrest ⟨ch', hch, hi⟩]
      show (g.staged.insert ch.id ch.role).lookup i = some r
      rw [← hi, lookup_insert, hall ch (.head _) hi]

theorem leftAt_stage_of_ne {chs : List GarageLayoutChange} (h : ∀ ch ∈ chs, ch.id ≠ i) :
    (g.stage chs).leftAt i = g.leftAt i := by
  rw [leftAt, lookup_stage_of_ne h, stage_roles, leftAt]

/-! Applying what is staged. -/

theorem lookup_commit_ne {roles : AList fun _ : String => NodeRole}
    {e : (_ : String) × Option NodeRole} (h : i ≠ e.1) :
    (commit roles e).lookup i = roles.lookup i := by
  unfold commit
  split
  · exact lookup_erase_ne h
  · exact lookup_insert_ne h

theorem lookup_commit_self {roles : AList fun _ : String => NodeRole}
    {e : (_ : String) × Option NodeRole} : (commit roles e).lookup e.1 = e.2 := by
  unfold commit
  split
  · next he => rw [he, lookup_erase]
  · next r he => rw [he, lookup_insert]

theorem lookup_foldl_commit {es : List ((_ : String) × Option NodeRole)} (hes : es.NodupKeys)
    (roles : AList fun _ : String => NodeRole) :
    (es.foldl commit roles).lookup i = (es.dlookup i).getD (roles.lookup i) := by
  induction es generalizing roles with
  | nil => rfl
  | cons e es ih =>
    obtain ⟨hnot, hes⟩ := nodupKeys_cons.mp hes
    rw [foldl_cons, ih hes]
    by_cases hi : i = e.1
    · subst hi
      rw [dlookup_eq_none.mpr hnot, getD_none, lookup_commit_self]
      cases e
      rw [dlookup_cons_eq, getD_some]
    · rw [lookup_commit_ne hi]
      cases e
      rw [dlookup_cons_ne _ _ hi]

/-- What applying makes of a node. -/
theorem roleAt_apply : (g.apply (g.version + 1)).roleAt i = g.leftAt i := by
  rw [apply, if_pos rfl]
  show ((g.staged.entries.foldl commit g.roles).lookup i).map _ = _
  rw [lookup_foldl_commit g.staged.nodupKeys]
  rfl

end Garage

/-! ## The reconciler -/

structure GarageLayoutRole where
  id : String
  zone : String
  capacity : Option Nat

/-- The layout as it is read. -/
structure GarageLayout where
  version : Nat
  roles : List GarageLayoutRole
  staged : List GarageLayoutChange

/-- A staged change as it is read; one that makes its node a gateway is passed over. -/
def parseChange (e : (_ : String) × Option NodeRole) : Option GarageLayoutChange :=
  match e.2 with
  | none => some (.remove e.1)
  | some r => r.capacity.map fun capacity => .assign e.1 r.zone capacity r.tags

/-- The answer to `GET /v1/layout`, read. -/
def parseGarageLayout (g : Garage) : GarageLayout where
  version := g.version
  roles := g.roles.entries.map fun e => ⟨e.1, e.2.zone, e.2.capacity⟩
  staged := g.staged.entries.filterMap parseChange

/-- The zone a member is assigned. -/
def zoneFor (swarmyNodeId : String) : String := "node-" ++ swarmyNodeId

structure DesiredMember where
  nodeId : String
  garageNodeId : Option String
  capacityGb : Nat

/-- The Garage id of the member, once it is known. -/
def DesiredMember.knownId (m : DesiredMember) : Option String := m.garageNodeId.filter (· ≠ "")

/-- The role the member is to have. -/
def DesiredMember.desired (orgId : String) (m : DesiredMember) : Option GarageLayoutChange :=
  m.knownId.map fun i => .assign i (zoneFor m.nodeId) (m.capacityGb * 1000000000) ["org:" ++ orgId]

structure LayoutPlan where
  stage : List GarageLayoutChange
  applyVersion : Option Nat
  incompleteMapping : Bool

def changeKey : GarageLayoutChange → String
  | .remove i => i ++ "|remove"
  | .assign i zone capacity tags =>
    i ++ "|" ++ zone ++ "|" ++ toString capacity ++ "|" ++
      ",".intercalate (tags.insertionSort (· ≤ ·))

def desiredRoles (orgId : String) (desired : List DesiredMember) : List GarageLayoutChange :=
  desired.filterMap (DesiredMember.desired orgId)

/-- Some member's Garage id is not known. -/
def incomplete (orgId : String) (desired : List DesiredMember) : Bool :=
  (desiredRoles orgId desired).length != desired.length

/-- The role differs from what is applied. -/
def differs (roles : List GarageLayoutRole) (d : GarageLayoutChange) : Bool :=
  match Js.mapGet GarageLayoutRole.id roles d.id with
  | none => true
  | some cur => some (cur.zone, cur.capacity) != d.place

/-- Everything to change, in the order of the ids. -/
def needed (orgId : String) (desired : List DesiredMember) (layout : GarageLayout) :
    List GarageLayoutChange :=
  let roles := desiredRoles orgId desired
  let removals := if incomplete orgId desired then [] else
    (layout.roles.filter fun r => r.id ∉ roles.map GarageLayoutChange.id).map fun r => .remove r.id
  (roles.filter (differs layout.roles) ++ removals).insertionSort (·.id ≤ ·.id)

def planLayout (orgId : String) (desired : List DesiredMember) (layout : GarageLayout) :
    LayoutPlan where
  stage := (needed orgId desired layout).filter fun ch => changeKey ch ∉ layout.staged.map changeKey
  applyVersion :=
    if (needed orgId desired layout).length > 0 then some (layout.version + 1) else none
  incompleteMapping := incomplete orgId desired

/-- The layout step of a tick: stage, then apply. -/
def reconcileLayout (orgId : String) (desired : List DesiredMember) (g : Garage) : Garage :=
  let plan := planLayout orgId desired (parseGarageLayout g)
  let staged := g.stage plan.stage
  match plan.applyVersion with
  | none => staged
  | some version => staged.apply version

end Swarmy.Storage

/-!
## When the layout converges

What is applied is all that is staged, so a plan is safe only if what was staged before
it is.  `reconcileLayout_converges_iff` says for which members and staged changes one
tick leaves every member's node with the place it is to have.
-/

namespace Swarmy.Storage

open Garage GarageLayoutChange

/-! ## What is converged to -/

/-- The layout has converged from `g` to `g'`: every member whose Garage id is known has
its place; where every id is known, nothing else has a role and nothing is left to plan;
where one is not, no node has lost its role. -/
structure Converges (orgId : String) (desired : List DesiredMember) (g g' : Garage) : Prop where
  kept : ∀ m ∈ desired, ∀ i, m.knownId = some i →
    g'.roleAt i = some (zoneFor m.nodeId, some (m.capacityGb * 1000000000))
  exact : (∀ m ∈ desired, m.knownId.isSome) →
    (∀ i, (g'.roleAt i).isSome → ∃ m ∈ desired, m.knownId = some i) ∧
      planLayout orgId desired (parseGarageLayout g') = ⟨[], none, false⟩
  safe : (∃ m ∈ desired, m.knownId = none) →
    ∀ i, (g.roleAt i).isSome → (g'.roleAt i).isSome

/-- The keys of what is staged already. -/
def stagedKeys (g : Garage) : List String := (parseGarageLayout g).staged.map changeKey

/-- No change is needed: the members have their places, and where all their ids are
known, only they do. -/
structure Settled (orgId : String) (desired : List DesiredMember) (g : Garage) : Prop where
  placed : ∀ d ∈ desiredRoles orgId desired, g.roleAt d.id = d.place
  only : incomplete orgId desired = false →
    ∀ i, (g.roleAt i).isSome → ∃ d ∈ desiredRoles orgId desired, d.id = i

/-- What is staged already does no harm where the plan stages nothing over it. -/
structure SafelyStaged (orgId : String) (desired : List DesiredMember) (g : Garage) : Prop where
  /-- Members known by one Garage id are to have one place. -/
  agree : ∀ d ∈ desiredRoles orgId desired, ∀ d' ∈ desiredRoles orgId desired,
    d.id = d'.id → d.place = d'.place
  /-- A member that has its place, or whose change is staged, ends up there. -/
  members : ∀ d ∈ desiredRoles orgId desired,
    g.roleAt d.id = d.place ∨ changeKey d ∈ stagedKeys g → g.leftAt d.id = d.place
  /-- With every id known, another node without a role, or whose removal is staged, ends
  up without one. -/
  others : incomplete orgId desired = false →
    ∀ i, (∀ d ∈ desiredRoles orgId desired, d.id ≠ i) →
      g.roleAt i = none ∨ changeKey (.remove i) ∈ stagedKeys g → g.leftAt i = none
  /-- With an id unknown, no other node ends up without its role. -/
  unknown : incomplete orgId desired = true →
    ∀ i, (∀ d ∈ desiredRoles orgId desired, d.id ≠ i) →
      (g.roleAt i).isSome → (g.leftAt i).isSome

/-! ## What is read -/

section

variable {g : Garage} {i : String}

theorem mapGet_parse : (Js.mapGet GarageLayoutRole.id (parseGarageLayout g).roles i).map
    (fun r => (r.zone, r.capacity)) = g.roleAt i := by
  have hids : (parseGarageLayout g).roles.map GarageLayoutRole.id = g.roles.keys :=
    List.map_map ..
  have hnodup : ((parseGarageLayout g).roles.map GarageLayoutRole.id).Nodup :=
    hids ▸ g.roles.keys_nodup
  cases hl : g.roles.lookup i with
  | none =>
    have hget : Js.mapGet GarageLayoutRole.id (parseGarageLayout g).roles i = none := by
      rw [Js.mapGet_eq_none]
      intro r hr he
      have hkey : r.id ∈ g.roles.keys := hids ▸ List.mem_map_of_mem hr
      rw [he] at hkey
      exact AList.lookup_eq_none.mp hl hkey
    rw [hget, roleAt, hl]
    rfl
  | some nr =>
    have hget : Js.mapGet GarageLayoutRole.id (parseGarageLayout g).roles i =
        some ⟨i, nr.zone, nr.capacity⟩ := by
      refine (Js.mapGet_eq_some hnodup).mpr ⟨?_, rfl⟩
      exact List.mem_map.mpr ⟨⟨i, nr⟩, AList.mem_lookup_iff.mp hl, rfl⟩
    rw [hget, roleAt, hl]
    rfl

theorem differs_iff {d : GarageLayoutChange} (hd : d.place.isSome) :
    differs (parseGarageLayout g).roles d = true ↔ g.roleAt d.id ≠ d.place := by
  rw [← mapGet_parse, differs]
  cases Js.mapGet GarageLayoutRole.id (parseGarageLayout g).roles d.id with
  | none =>
    refine iff_of_true rfl fun h => ?_
    rw [← h] at hd
    cases hd
  | some r => simp

theorem mem_parse_roles : (∃ r ∈ (parseGarageLayout g).roles, r.id = i) ↔ (g.roleAt i).isSome := by
  rw [← mapGet_parse, Option.isSome_map]
  cases h : Js.mapGet GarageLayoutRole.id (parseGarageLayout g).roles i with
  | none =>
    refine iff_of_false ?_ (by decide)
    exact fun ⟨r, hr, hi⟩ => Js.mapGet_eq_none.mp h r hr hi
  | some r => exact iff_of_true ⟨r, Js.mapGet_mem h⟩ rfl

end

/-! ## The members -/

section

variable {orgId : String} {desired : List DesiredMember} {d d' : GarageLayoutChange}

theorem mem_desiredRoles : d ∈ desiredRoles orgId desired ↔ ∃ m ∈ desired, ∃ i,
    m.knownId = some i ∧
      d = .assign i (zoneFor m.nodeId) (m.capacityGb * 1000000000) ["org:" ++ orgId] := by
  simp only [desiredRoles, List.mem_filterMap, DesiredMember.desired, Option.map_eq_some_iff]
  refine exists_congr fun m => and_congr_right fun _ => exists_congr fun i => ?_
  exact and_congr_right fun _ => eq_comm

theorem place_isSome (hd : d ∈ desiredRoles orgId desired) : d.place.isSome := by
  obtain ⟨m, -, i, -, rfl⟩ := mem_desiredRoles.mp hd
  rfl

/-- Two members' changes that give one node one place are the same. -/
theorem eq_of_place (hd : d ∈ desiredRoles orgId desired) (hd' : d' ∈ desiredRoles orgId desired)
    (hi : d.id = d'.id) (hp : d.place = d'.place) : d = d' := by
  obtain ⟨m, -, i, -, rfl⟩ := mem_desiredRoles.mp hd
  obtain ⟨m', -, i', -, rfl⟩ := mem_desiredRoles.mp hd'
  simp only [place_assign, Option.some.injEq, Prod.mk.injEq] at hp
  rw [id_assign, id_assign] at hi
  rw [hi, hp.1, hp.2]

theorem incomplete_eq_false :
    incomplete orgId desired = false ↔ ∀ m ∈ desired, m.knownId.isSome := by
  have hsome : ∀ m : DesiredMember, (m.desired orgId).isSome = m.knownId.isSome :=
    fun m => Option.isSome_map ..
  rw [incomplete, bne_eq_false_iff_eq, desiredRoles, List.filterMap_length_eq_length]
  exact forall₂_congr fun m _ => by rw [hsome]

theorem incomplete_eq_true : incomplete orgId desired = true ↔ ∃ m ∈ desired, m.knownId = none := by
  rw [← Bool.not_eq_false, incomplete_eq_false]
  simp only [not_forall, Option.not_isSome_iff_eq_none, exists_prop]

end

/-! ## What is staged -/

section

variable {orgId : String} {desired : List DesiredMember} {g : Garage}
variable {ch d : GarageLayoutChange} {i : String}

/-- What is needed: the places members do not have, and, with every id known, the
removal of the other nodes with a role. -/
theorem mem_needed : ch ∈ needed orgId desired (parseGarageLayout g) ↔
    (ch ∈ desiredRoles orgId desired ∧ g.roleAt ch.id ≠ ch.place) ∨
      (incomplete orgId desired = false ∧ ∃ i, ch = .remove i ∧ (g.roleAt i).isSome ∧
        ∀ d ∈ desiredRoles orgId desired, d.id ≠ i) := by
  rw [needed, (List.perm_insertionSort _ _).mem_iff, List.mem_append, List.mem_filter]
  refine or_congr (and_congr_right fun hd => differs_iff (place_isSome hd)) ?_
  cases hinc : incomplete orgId desired with
  | true => simp
  | false =>
    simp only [Bool.false_eq_true, if_false, List.mem_map, List.mem_filter, decide_eq_true_eq,
      true_and, not_exists, not_and, ← mem_parse_roles]
    constructor
    · rintro ⟨r, ⟨hr, hnot⟩, rfl⟩
      exact ⟨r.id, rfl, ⟨r, hr, rfl⟩, hnot⟩
    · rintro ⟨i, rfl, ⟨r, hr, rfl⟩, hnot⟩
      exact ⟨r, ⟨hr, hnot⟩, rfl⟩

/-- The changes the plan stages. -/
def planned (orgId : String) (desired : List DesiredMember) (g : Garage) :
    List GarageLayoutChange :=
  (planLayout orgId desired (parseGarageLayout g)).stage

theorem mem_planned : ch ∈ planned orgId desired g ↔
    ch ∈ needed orgId desired (parseGarageLayout g) ∧ changeKey ch ∉ stagedKeys g := by
  rw [planned, planLayout, List.mem_filter, decide_eq_true_eq, stagedKeys]

theorem settled_iff : Settled orgId desired g ↔
    needed orgId desired (parseGarageLayout g) = [] := by
  constructor
  · intro h
    refine List.eq_nil_iff_forall_not_mem.mpr fun ch hch => ?_
    rcases mem_needed.mp hch with ⟨hd, hne⟩ | ⟨hinc, i, -, hrole, hnot⟩
    · exact hne (h.placed ch hd)
    · obtain ⟨d, hd, hi⟩ := h.only hinc i hrole
      exact hnot d hd hi
  · intro h
    refine ⟨fun d hd => ?_, fun hinc i hrole => ?_⟩
    · by_contra hne
      exact List.not_mem_nil (h ▸ mem_needed.mpr (.inl ⟨hd, hne⟩))
    · by_contra hnot
      refine List.not_mem_nil (h ▸ mem_needed.mpr (.inr ⟨hinc, i, rfl, hrole, ?_⟩))
      exact fun d hd hi => hnot ⟨d, hd, hi⟩

theorem planLayout_of_settled (h : Settled orgId desired g) :
    planLayout orgId desired (parseGarageLayout g) = ⟨[], none, incomplete orgId desired⟩ := by
  rw [planLayout, settled_iff.mp h]
  rfl

theorem reconcileLayout_of_settled (h : Settled orgId desired g) :
    reconcileLayout orgId desired g = g := by
  rw [reconcileLayout, planLayout_of_settled h]
  rfl

/-- Where a change is needed, what is staged in the end is what is applied. -/
theorem roleAt_reconcileLayout (h : ¬ Settled orgId desired g) :
    (reconcileLayout orgId desired g).roleAt i =
      (g.stage (planned orgId desired g)).leftAt i := by
  have hpos : (needed orgId desired (parseGarageLayout g)).length > 0 :=
    List.length_pos_iff.mpr fun he => h (settled_iff.mpr he)
  have happly : reconcileLayout orgId desired g =
      (g.stage (planned orgId desired g)).apply
        ((g.stage (planned orgId desired g)).version + 1) := by
    rw [reconcileLayout, planned]
    simp only [planLayout, if_pos hpos]
    rfl
  rw [happly, roleAt_apply]

/-- A node the plan stages nothing for. -/
theorem roleAt_of_unplanned (h : ¬ Settled orgId desired g)
    (hi : ∀ ch ∈ planned orgId desired g, ch.id ≠ i) :
    (reconcileLayout orgId desired g).roleAt i = g.leftAt i := by
  rw [roleAt_reconcileLayout h, leftAt_stage_of_ne hi]

/-- A node all planned changes agree about. -/
theorem roleAt_of_planned (h : ¬ Settled orgId desired g)
    (hall : ∀ ch' ∈ planned orgId desired g, ch'.id = ch.id → ch'.role = ch.role)
    (hch : ch ∈ planned orgId desired g) :
    (reconcileLayout orgId desired g).roleAt ch.id = ch.place := by
  rw [roleAt_reconcileLayout h, leftAt, lookup_stage_of_agree hall ⟨ch, hch, rfl⟩]
  rfl

/-- A planned change of a member's node is a member's. -/
theorem planned_of_desired (hd : d ∈ desiredRoles orgId desired)
    (hch : ch ∈ planned orgId desired g) (hi : ch.id = d.id) :
    ch ∈ desiredRoles orgId desired ∧ g.roleAt ch.id ≠ ch.place := by
  rcases mem_needed.mp (mem_planned.mp hch).1 with h | ⟨-, i, rfl, -, hnot⟩
  · exact h
  · exact absurd hi.symm (hnot d hd)

/-- A planned change of another node is its removal. -/
theorem planned_of_other (hi : ∀ d ∈ desiredRoles orgId desired, d.id ≠ i)
    (hch : ch ∈ planned orgId desired g) (hci : ch.id = i) :
    incomplete orgId desired = false ∧ ch = .remove i ∧ (g.roleAt i).isSome := by
  rcases mem_needed.mp (mem_planned.mp hch).1 with ⟨hd, -⟩ | ⟨hinc, j, rfl, hrole, -⟩
  · exact absurd hci (hi ch hd)
  · rw [id_remove] at hci
    exact ⟨hinc, by rw [hci], hci ▸ hrole⟩

end

/-! ## One tick -/

section

variable {orgId : String} {desired : List DesiredMember} {g g' : Garage}

theorem exists_desired {i : String} :
    (∃ d ∈ desiredRoles orgId desired, d.id = i) ↔ ∃ m ∈ desired, m.knownId = some i := by
  constructor
  · rintro ⟨d, hd, rfl⟩
    obtain ⟨m, hm, i, hi, rfl⟩ := mem_desiredRoles.mp hd
    exact ⟨m, hm, hi⟩
  · rintro ⟨m, hm, hi⟩
    exact ⟨_, mem_desiredRoles.mpr ⟨m, hm, i, hi, rfl⟩, rfl⟩

/-- A converged layout is settled, and has kept every role where it had to. -/
theorem converges_iff : Converges orgId desired g g' ↔ Settled orgId desired g' ∧
    (incomplete orgId desired = true → ∀ i, (g.roleAt i).isSome → (g'.roleAt i).isSome) := by
  constructor
  · intro h
    refine ⟨⟨fun d hd => ?_, fun hinc i hrole => ?_⟩,
      fun hinc => h.safe (incomplete_eq_true.mp hinc)⟩
    · obtain ⟨m, hm, i, hi, rfl⟩ := mem_desiredRoles.mp hd
      exact h.kept m hm i hi
    · exact exists_desired.mpr ((h.exact (incomplete_eq_false.mp hinc)).1 i hrole)
  · rintro ⟨hs, hsafe⟩
    refine ⟨fun m hm i hi => ?_, fun hall => ?_, fun hun => hsafe (incomplete_eq_true.mpr hun)⟩
    · exact hs.placed _ (mem_desiredRoles.mpr ⟨m, hm, i, hi, rfl⟩)
    · have hinc : incomplete orgId desired = false := incomplete_eq_false.mpr hall
      refine ⟨fun i hrole => exists_desired.mp (hs.only hinc i hrole), ?_⟩
      rw [planLayout_of_settled hs, hinc]

/-- A tick settles a safely staged layout. -/
theorem settled_of_safelyStaged (hn : ¬ Settled orgId desired g) (h : SafelyStaged orgId desired g)
    : Settled orgId desired (reconcileLayout orgId desired g) := by
  refine ⟨fun d hd => ?_, fun hinc i hrole => ?_⟩
  · by_cases hex : ∃ ch ∈ planned orgId desired g, ch.id = d.id
    · obtain ⟨ch, hch, hi⟩ := hex
      have hmem := (planned_of_desired hd hch hi).1
      rw [← h.agree ch hmem d hd hi, ← hi]
      refine roleAt_of_planned hn (fun ch' hch' hi' => ?_) hch
      have hmem' := (planned_of_desired hmem hch' hi').1
      rw [eq_of_place hmem' hmem hi' (h.agree ch' hmem' ch hmem hi')]
    · have hun : ∀ ch ∈ planned orgId desired g, ch.id ≠ d.id := fun ch hch hi => hex ⟨ch, hch, hi⟩
      rw [roleAt_of_unplanned hn hun]
      refine h.members d hd ?_
      by_contra hnot
      rw [not_or] at hnot
      exact hun d (mem_planned.mpr ⟨mem_needed.mpr (.inl ⟨hd, hnot.1⟩), hnot.2⟩) rfl
  · by_contra hother
    have hi : ∀ d ∈ desiredRoles orgId desired, d.id ≠ i := fun d hd he => hother ⟨d, hd, he⟩
    refine Option.isSome_iff_ne_none.mp hrole ?_
    by_cases hex : ∃ ch ∈ planned orgId desired g, ch.id = i
    · obtain ⟨ch, hch, hci⟩ := hex
      obtain ⟨-, rfl, -⟩ := planned_of_other hi hch hci
      refine roleAt_of_planned hn (fun ch' hch' hi' => ?_) hch
      rw [(planned_of_other hi hch' hi').2.1]
    · have hun : ∀ ch ∈ planned orgId desired g, ch.id ≠ i := fun ch hch hci => hex ⟨ch, hch, hci⟩
      rw [roleAt_of_unplanned hn hun]
      refine h.others hinc i hi ?_
      by_contra hnot
      rw [not_or] at hnot
      refine hun (.remove i) (mem_planned.mpr ⟨mem_needed.mpr (.inr ⟨hinc, i, rfl, ?_, hi⟩),
        hnot.2⟩) rfl
      exact Option.isSome_iff_ne_none.mpr hnot.1

/-- With an id unknown, a tick takes no role from a safely staged layout. -/
theorem kept_of_safelyStaged (hn : ¬ Settled orgId desired g) (h : SafelyStaged orgId desired g)
    (hinc : incomplete orgId desired = true) (i : String) (hrole : (g.roleAt i).isSome) :
    ((reconcileLayout orgId desired g).roleAt i).isSome := by
  by_cases hex : ∃ d ∈ desiredRoles orgId desired, d.id = i
  · obtain ⟨d, hd, rfl⟩ := hex
    rw [(settled_of_safelyStaged hn h).placed d hd]
    exact place_isSome hd
  · have hi : ∀ d ∈ desiredRoles orgId desired, d.id ≠ i := fun d hd he => hex ⟨d, hd, he⟩
    rw [roleAt_of_unplanned hn fun ch hch hci => ?_]
    · exact h.unknown hinc i hi hrole
    · rw [(planned_of_other hi hch hci).1] at hinc
      cases hinc

/-- What a tick settles was staged safely. -/
theorem safelyStaged_of_settled (hn : ¬ Settled orgId desired g)
    (h : Settled orgId desired (reconcileLayout orgId desired g))
    (hsafe : incomplete orgId desired = true →
      ∀ i, (g.roleAt i).isSome → ((reconcileLayout orgId desired g).roleAt i).isSome) :
    SafelyStaged orgId desired g := by
  have hagree : ∀ d ∈ desiredRoles orgId desired, ∀ d' ∈ desiredRoles orgId desired,
      d.id = d'.id → d.place = d'.place := by
    intro d hd d' hd' hi
    rw [← h.placed d hd, ← h.placed d' hd', hi]
  refine ⟨hagree, fun d hd hleft => ?_, fun hinc i hi hleft => ?_, fun hinc i hi hrole => ?_⟩
  · rw [← roleAt_of_unplanned hn fun ch hch hi => ?_, h.placed d hd]
    -- a planned change of the node would be the member's own
    obtain ⟨hmem, hne⟩ := planned_of_desired hd hch hi
    obtain rfl := eq_of_place hmem hd hi (hagree ch hmem d hd hi)
    rcases hleft with hleft | hleft
    · exact hne hleft
    · exact (mem_planned.mp hch).2 hleft
  · rw [← roleAt_of_unplanned hn fun ch hch hci => ?_]
    · by_contra hrole
      obtain ⟨d, hd, he⟩ := h.only hinc i (Option.isSome_iff_ne_none.mpr hrole)
      exact hi d hd he
    · obtain ⟨-, rfl, hrole⟩ := planned_of_other hi hch hci
      rcases hleft with hleft | hleft
      · rw [hleft] at hrole
        cases hrole
      · exact (mem_planned.mp hch).2 hleft
  · rw [← roleAt_of_unplanned hn fun ch hch hci => ?_]
    · exact hsafe hinc i hrole
    · rw [(planned_of_other hi hch hci).1] at hinc
      cases hinc

/-- A tick converges exactly where nothing is needed or what is staged already does no
harm. -/
theorem reconcileLayout_converges_iff (orgId : String) (desired : List DesiredMember) (g : Garage) :
    Converges orgId desired g (reconcileLayout orgId desired g) ↔
      Settled orgId desired g ∨ SafelyStaged orgId desired g := by
  rw [converges_iff]
  by_cases hn : Settled orgId desired g
  · refine iff_of_true ?_ (.inl hn)
    rw [reconcileLayout_of_settled hn]
    exact ⟨hn, fun _ _ => id⟩
  · rw [or_iff_right hn]
    constructor
    · rintro ⟨hs, hsafe⟩
      exact safelyStaged_of_settled hn hs hsafe
    · exact fun h => ⟨settled_of_safelyStaged hn h, kept_of_safelyStaged hn h⟩

end

/-- Two members, the first in place with a removal left staged, the second new. -/
def leftover : Garage where
  version := 3
  roles := AList.insert "g1" ⟨"node-n1", some 100000000000, ["org:o"]⟩ ∅
  staged := AList.insert "g1" none ∅

/-- The removal left staged is applied with the second member's role: the first loses
its own. -/
theorem reconcileLayout_removes_member :
    ¬ Converges "o" [⟨"n1", some "g1", 100⟩, ⟨"n2", some "g2", 100⟩] leftover
      (reconcileLayout "o" [⟨"n1", some "g1", 100⟩, ⟨"n2", some "g2", 100⟩] leftover) := by
  intro h
  have hg1 := h.kept ⟨"n1", some "g1", 100⟩ (.head _) "g1" (by decide)
  exact absurd hg1 (by decide)

end Swarmy.Storage
