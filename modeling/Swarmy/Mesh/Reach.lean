import Swarmy.Mesh.Converge

/-!
# Who reaches what

A group reaches an address where a rule of an enabled policy accepts it, for a resource
of that address; what no rule accepts is not let through.  The rules an apply leaves as
they are point at resources the apply may change: `points_iff` says which addresses they
point at afterwards, from the control plane as it was.
-/

namespace Swarmy.Mesh

open Keyed List Option Bool Nat

/-! ## Reach -/

/-- The rule accepts traffic of the group, on the port. -/
structure NbPolicyRule.Lets (r : NbPolicyRule) (g : String) (proto : Proto) (port : Nat) :
    Prop where
  enabled : r.enabled = true
  accepts : r.action = .accept
  protocol : r.protocol = proto.protocol ∨ r.protocol = .all
  port : r.ports = [] ∨ toString port ∈ r.ports
  source : g ∈ r.sources

/-- The rule is for the resource: for itself, or for a group it is in. -/
def NbPolicyRule.IsFor (r : NbPolicyRule) (x : NbResource) : Prop :=
  r.destinationResource = some x.id ∨ ∃ d ∈ r.destinations, d ∈ x.groups

def ControlPlane.resources (m : ControlPlane) : List NbResource :=
  m.networks.flatMap NbNetwork.resources

/-- The rule is for a resource that stands for the address. -/
def ControlPlane.Serves (m : ControlPlane) (r : NbPolicyRule) (address : String) : Prop :=
  ∃ x ∈ m.resources, x.enabled = true ∧ x.address = address ∧ r.IsFor x

/-- The group reaches the address, on the port. -/
def ControlPlane.Reach (m : ControlPlane) (g address : String) (proto : Proto) (port : Nat) :
    Prop :=
  ∃ p ∈ m.policies, p.enabled = true ∧ ∃ r ∈ p.rules, r.Lets g proto port ∧ m.Serves r address

/-- A text that is an id: not empty, and without a comma. -/
def Plain (i : String) : Prop := i ≠ "" ∧ ',' ∉ i.toList

/-- The groups that objects name. -/
def ControlPlane.groupRefs (m : ControlPlane) : List String :=
  m.networks.flatMap (fun n => n.resources.flatMap NbResource.groups) ++
    m.policies.flatMap fun p => p.rules.flatMap fun r => r.sources ++ r.destinations

/-- A mesh whose ids are texts, and whose objects name only ids that have been given out. -/
structure Linked (S : IdSupply) extends Numbered S where
  plain : ∀ k, Plain (S.issue k)
  groupsPlain : ∀ g ∈ groups, Plain g.id
  resourcesNamed : ∀ x ∈ toControlPlane.resources, x.id ≠ ""
  refs : ∀ i ∈ toControlPlane.groupRefs, S.Before issued i
  targets : ∀ p ∈ policies, ∀ r ∈ p.rules, ∀ i, r.destinationResource = some i → S.Before issued i

/-! ## Texts of one id -/

theorem intercalate_singleton (i : String) : ",".intercalate [i] = i := by
  simp

/-- A joined list that reads as one id is that id alone. -/
theorem eq_singleton_of_intercalate {l : List String} {i : String} (hi : Plain i)
    (h : ",".intercalate l = ",".intercalate [i]) : l = [i] := by
  rw [intercalate_singleton] at h
  match l with
  | [] => exact absurd h.symm hi.1
  | [j] =>
    rw [intercalate_singleton] at h
    rw [h]
  | j :: k :: l =>
    refine absurd ?_ hi.2
    rw [← h, String.toList_intercalate]
    simp

/-! ## The group of a name -/

section

variable {S : IdSupply} {m : Linked S} {plan : PeopleAccessPlan} {name i : String}

/-- The id of a group after a run is the one it had, or a new one. -/
theorem groupMap_ensureGroups_cases {names : List String} {st : List NbGroup × Nat}
    (h : groupMap (ensureGroups S st names).1 name = some i) :
    groupMap st.1 name = some i ∨ groupMap st.1 name = none ∧ ∃ k, st.2 ≤ k ∧ i = S.issue k := by
  induction names generalizing st with
  | nil => exact .inl h
  | cons a names ih =>
    rcases ih h with hstep | ⟨hstep, k, hk, hi⟩
    · unfold ensureGroup at hstep
      cases ha : groupMap st.1 a with
      | some j =>
        rw [ha] at hstep
        exact .inl hstep
      | none =>
        rw [ha] at hstep
        rw [groupMap_append_singleton] at hstep
        split at hstep
        · next he =>
          subst he
          exact .inr ⟨ha, st.2, le_refl _, (some.inj hstep).symm⟩
        · exact .inl hstep
    · refine .inr ⟨?_, k, le_trans le_ensureGroup hk, hi⟩
      cases hst : groupMap st.1 name with
      | none => rfl
      | some j =>
        rw [groupMap_ensureGroup_of_some hst] at hstep
        cases hstep

/-- Of the ids objects name, a run gives none to a new group. -/
theorem groupMap_phases_iff (plan : PeopleAccessPlan) (hi : S.Before m.issued i) :
    groupMap (phases S plan m.toControlPlane).groups.1 name = some i ↔
      groupMap m.groups name = some i := by
  constructor
  · intro h
    rcases groupMap_ensureGroups_cases (show groupMap
      (ensureGroups S (m.groups, m.issued) plan.groups).1 name =
        some i from h) with h | ⟨-, k, hk, he⟩
    · exact h
    · exact absurd he (hi k hk)
  · intro h
    have hst : groupMap (m.groups, m.issued).1 name = some i := h
    exact groupMap_ensureGroups_of_some plan.groups hst

theorem exists_groupMap_phases (h : name ∈ plan.groups) :
    ∃ i, groupMap (phases S plan m.toControlPlane).groups.1 name = some i :=
  exists_groupMap_ensureGroups S (m.groups, m.issued) h

theorem groupId_of_groupMap {groups : List NbGroup} (h : groupMap groups name = some i) :
    groupId groups name = i := by
  rw [groupId, h]
  rfl

theorem plain_of_groupMap (h : groupMap (phases S plan m.toControlPlane).groups.1 name = some i) :
    Plain i := by
  rcases groupMap_ensureGroups_cases (show groupMap
    (ensureGroups S (m.groups, m.issued) plan.groups).1 name =
      some i from h) with h | ⟨-, k, -, rfl⟩
  · obtain ⟨g, hg, -, rfl⟩ := groupMap_mem h
    exact m.groupsPlain g hg
  · exact m.plain k

end

/-! ## Resources after a run -/

section

variable {S : IdSupply} {cluster : String}

/-- The object of a resource of a network. -/
def objectOf (S : IdSupply) (cluster : String) (networks : List NbNetwork) (net res : String) :
    Option NbResource :=
  (pick (networkKind S cluster) networks net).bind fun n => pick (resourceKind S) n.resources res

theorem synced_of_silent {listed : List NbResource} {b : NetworkBody} {n : Nat}
    (h : Silent (resourceKind S) listed b.resources b.drops) :
    synced (resourceKind S) listed b.resources b.drops n = listed := by
  obtain ⟨hok, hgone⟩ := silent_iff.mp h
  unfold synced prune
  rw [ensure_of_ok hok, filter_eq_self]
  intro a _
  have hnil : listed.filter b.drops = [] := filter_eq_nil_iff.mpr fun a ha => by
    rw [hgone a ha]
    exact false_ne_true
  rw [hnil]
  rfl

/-- The resources of a network that is taken for a planned one. -/
theorem taken_resources {listed : List NbNetwork} {n : Nat} {b : NetworkBody} {net : NbNetwork}
    (h : Taken (networkKind S cluster) listed n b net) : ∃ n', n ≤ n' ∧ net.resources =
      synced (resourceKind S) ((pick (networkKind S cluster) listed b.name).elim []
        NbNetwork.resources) b.resources b.drops n' := by
  cases hp : pick (networkKind S cluster) listed b.name with
  | none =>
    obtain ⟨n', hn', rfl⟩ := h.new hp
    refine ⟨n' + 1, le_succ_of_le hn', ?_⟩
    rfl
  | some a =>
    rcases h.old a hp with ⟨hok, rfl⟩ | ⟨-, n', hn', rfl⟩
    · exact ⟨n, le_refl n, (synced_of_silent (networkKind_ok.mp hok).1).symm⟩
    · refine ⟨n', hn', ?_⟩
      show (syncNetwork S n' b a).1.resources = _
      rw [syncNetwork_resources]
      rfl

/-- What the object of a planned resource is like. -/
structure Standing (S : IdSupply) (n : Nat) (before : Option NbResource) (address group : String)
    (x : NbResource) : Prop where
  enabled : x.enabled = true
  address : x.address = address
  groups : x.groups = [group]
  old : ∀ a, before = some a → x.id = a.id
  new : before = none → ∃ k, n ≤ k ∧ x.id = S.issue k

theorem taken_standing {listed : List NbResource} {n : Nat} {b : ResourceBody} {x : NbResource}
    (hg : Plain b.group) (h : Taken (resourceKind S) listed n b x) :
    Standing S n (pick (resourceKind S) listed b.name) b.address b.group x := by
  have hsorted : ∀ {gs : List String}, sorted gs = [b.group] → gs = [b.group] := fun hs =>
    perm_singleton.mp (hs ▸ (sorted_perm _).symm)
  cases hp : pick (resourceKind S) listed b.name with
  | none =>
    obtain ⟨n', hn', rfl⟩ := h.new hp
    exact ⟨rfl, rfl, rfl, (fun _ ha => by cases ha), fun _ => ⟨n', hn', rfl⟩⟩
  | some a =>
    rcases h.old a hp with ⟨hok, rfl⟩ | ⟨-, n', hn', rfl⟩
    · obtain ⟨haddr, hen, hjoin⟩ := resourceKind_ok.mp hok
      refine ⟨hen, haddr, hsorted (eq_singleton_of_intercalate hg hjoin), ?_, fun hn => by cases hn⟩
      exact fun a' ha => by rw [some.inj ha]
    · refine ⟨rfl, rfl, rfl, ?_, fun hn => by cases hn⟩
      exact fun a' ha => by rw [← some.inj ha]; rfl

end

/-! ## Names -/

/-- The names a plan gives are distinct: of groups, of resources with their networks, and
of policies. -/
structure NamesDistinct (plan : PeopleAccessPlan) : Prop where
  groups : plan.groups.Nodup
  resources : (plan.networks.flatMap fun n => n.resources.map fun r =>
    n.name ++ "/" ++ r.name).Nodup
  policies : (plan.policies.map PlannedPolicy.name).Nodup

theorem NamesDistinct.resourceNames {plan : PeopleAccessPlan} (h : NamesDistinct plan)
    {n : PlannedNetwork} (hn : n ∈ plan.networks) :
    (n.resources.map PlannedResource.name).Nodup := by
  have hkeys := (nodup_flatMap.mp h.resources).1 n hn
  have hcomp : n.resources.map (fun r => n.name ++ "/" ++ r.name) =
      (n.resources.map PlannedResource.name).map (n.name ++ "/" ++ ·) := by
    rw [List.map_map]
    rfl
  rw [hcomp] at hkeys
  exact hkeys.of_map

/-- A resource is seen from its key. -/
theorem NamesDistinct.key {plan : PeopleAccessPlan} (h : NamesDistinct plan)
    {n n' : PlannedNetwork} (hn : n ∈ plan.networks) (hn' : n' ∈ plan.networks)
    {r r' : PlannedResource} (hr : r ∈ n.resources) (hr' : r' ∈ n'.resources)
    (hkey : n.name ++ "/" ++ r.name = n'.name ++ "/" ++ r'.name) : n = n' ∧ r = r' := by
  have hnn : n = n' := by
    by_contra hne
    have hsymm : Std.Symm (Function.onFun List.Disjoint fun n : PlannedNetwork =>
        n.resources.map fun r => n.name ++ "/" ++ r.name) := ⟨fun _ _ h => List.Disjoint.symm h⟩
    have hdisj := (nodup_flatMap.mp h.resources).2.forall hn hn' hne
    exact hdisj (mem_map_of_mem hr) (mem_map.mpr ⟨r', hr', hkey.symm⟩)
  subst hnn
  refine ⟨rfl, inj_on_of_nodup_map (h.resourceNames hn) hr hr' ?_⟩
  exact (String.append_right_inj _).mp hkey

/-! ## The resources of a mesh, before and after -/

section

variable (S : IdSupply) (plan : PeopleAccessPlan) (m : ControlPlane)

/-- A resource an apply leaves as it is: its network is neither planned nor dropped, or
another resource counts for the name it has. -/
def LeftResource (x : NbResource) : Prop :=
  ∃ net ∈ m.networks, x ∈ net.resources ∧
    ((plan.dropsNetwork net = false ∧
        ∀ n ∈ plan.networks, pick (networkKind S plan.cluster) m.networks n.name ≠ some net) ∨
      ∃ n ∈ plan.networks, pick (networkKind S plan.cluster) m.networks n.name = some net ∧
        (∃ r ∈ n.resources, r.name = x.name) ∧
          ∀ r ∈ n.resources, pick (resourceKind S) net.resources r.name ≠ some x)

/-- The rule is for the address once the plan has been applied: the address is planned
for a resource it points at, or it points at a resource that is left alone. -/
def Points (rule : NbPolicyRule) (address : String) : Prop :=
  (∃ n ∈ plan.networks, ∃ r ∈ n.resources, r.address = address ∧
      ((∃ x, objectOf S plan.cluster m.networks n.name r.name = some x ∧
          rule.destinationResource = some x.id) ∨
        ∃ d ∈ rule.destinations, groupMap m.groups r.group = some d)) ∨
    ∃ x, LeftResource S plan m x ∧ x.enabled = true ∧ x.address = address ∧ rule.IsFor x

end

section

variable {S : IdSupply} {plan : PeopleAccessPlan} {m : Linked S}

theorem fresh_elim {o : Option NbNetwork} (ho : ∀ net, o = some net → net ∈ m.networks) {n : Nat}
    (hn : m.issued ≤ n) : Fresh S (resourceKind S) (o.elim [] NbNetwork.resources) n := by
  cases o with
  | none => exact fresh_nil
  | some net => exact fresh_resources (ho net rfl) hn

theorem resourcesAgree_of_distinct (hplan : plan.WellBuilt) (hN : NamesDistinct plan) :
    ∀ b ∈ (phases S plan m.toControlPlane).networkBodies, ResourcesAgree b.resources := by
  refine (resourcesAgree_iff hplan).mpr fun n hn r hr r' hr' hname => ?_
  exact inj_on_of_nodup_map (hN.resourceNames hn) hr hr' hname

/-- The network taken for a planned one after a run. -/
theorem exists_network (hplan : plan.WellBuilt) (hN : NamesDistinct plan) {n : PlannedNetwork}
    (hn : n ∈ plan.networks) : ∃ net, pick (networkKind S plan.cluster)
        (applyPeopleAccessPlan S plan m.toControlPlane).networks n.name = some net ∧
      Taken (networkKind S plan.cluster) m.networks (phases S plan m.toControlPlane).groups.2
        (networkBody (phases S plan m.toControlPlane).groups.1 n) net := by
  have hb : networkBody (phases S plan m.toControlPlane).groups.1 n ∈
      (phases S plan m.toControlPlane).networkBodies := mem_map_of_mem hn
  obtain ⟨net, hpick, -⟩ := (silent_iff.mp ((silent_networks_iff hplan).mpr
    (resourcesAgree_of_distinct hplan hN))).1 _ hb
  obtain ⟨u, news, hE⟩ := exists_ensured (K := networkKind S plan.cluster) networkKind_lawful
    (fresh_networks (m := m.toNumbered)) (phases S plan m.toControlPlane).networkBodies
  refine ⟨net, hpick, hE.taken networkKind_lawful ?_ hb ?_⟩
  · exact fun b hb b' hb' => eq_of_want (fun _ => rfl) hplan.networkNames hb hb'
  · exact (pick_synced networkKind_lawful fresh_networks drops_network hb).symm.trans hpick

theorem want_bodies (groups : List NbGroup) (n : PlannedNetwork) :
    (networkBody groups n).resources.map (resourceKind S).want =
      n.resources.map PlannedResource.name := by
  show List.map _ (List.map _ n.resources) = _
  rw [List.map_map]
  rfl

theorem want_networkBodies (cluster : String) (groups : List NbGroup) (ns : List PlannedNetwork) :
    (ns.map (networkBody groups)).map
    (networkKind S cluster).want = ns.map PlannedNetwork.name := by
  rw [List.map_map]
  rfl

/-- What is in the network taken for a planned one: resources left as they were, and one
for each planned. -/
theorem mem_network_resources (hN : NamesDistinct plan) {n : PlannedNetwork}
    (hn : n ∈ plan.networks) {net : NbNetwork} {x : NbResource}
    (h : Taken (networkKind S plan.cluster) m.networks (phases S plan m.toControlPlane).groups.2
      (networkBody (phases S plan m.toControlPlane).groups.1 n) net) : x ∈ net.resources ↔
    (∃ a, pick (networkKind S plan.cluster) m.networks n.name = some a ∧ x ∈ a.resources ∧
      (∃ r ∈ n.resources, r.name = x.name) ∧
        ∀ r ∈ n.resources, pick (resourceKind S) a.resources r.name ≠ some x) ∨
      ∃ r ∈ n.resources, pick (resourceKind S) net.resources r.name = some x := by
  obtain ⟨n', hn', hres⟩ := taken_resources h
  have hfresh : Fresh S (resourceKind S) ((pick (networkKind S plan.cluster) m.networks n.name).elim
      [] NbNetwork.resources) n' :=
    fresh_elim (fun net hp => (pick_mem hp).1) (le_trans le_groups hn')
  have hwants : ((networkBody (phases S plan m.toControlPlane).groups.1 n).resources.map
      (resourceKind S).want).Nodup := by
    rw [want_bodies]
    exact hN.resourceNames hn
  rw [hres]
  refine (mem_synced_iff resourceKind_lawful hfresh (drops_resource _) hwants).trans ?_
  refine or_congr ?_ ?_
  · constructor
    · rintro ⟨hx, hkept, hfree⟩
      cases hp : pick (networkKind S plan.cluster) m.networks n.name with
      | none =>
        rw [hp] at hx
        cases hx
      | some a =>
        rw [hp] at hx hfree
        refine ⟨a, rfl, hx, ?_, fun r hr => hfree _ (mem_map_of_mem hr)⟩
        rw [NetworkBody.drops, not_eq_false'] at hkept
        obtain ⟨r, hr, hname⟩ := any_eq_true.mp hkept
        obtain ⟨q, hq, rfl⟩ := mem_map.mp hr
        exact ⟨q, hq, of_decide_eq_true hname⟩
    · rintro ⟨a, hp, hx, ⟨r, hr, hname⟩, hfree⟩
      rw [hp]
      refine ⟨hx, ?_, fun b hb => ?_⟩
      · rw [NetworkBody.drops, not_eq_false']
        exact any_eq_true.mpr ⟨_, mem_map_of_mem hr, decide_eq_true hname⟩
      · obtain ⟨q, hq, rfl⟩ := mem_map.mp hb
        exact hfree q hq
  · constructor
    · rintro ⟨b, hb, hp⟩
      obtain ⟨q, hq, rfl⟩ := mem_map.mp hb
      exact ⟨q, hq, hp⟩
    · rintro ⟨q, hq, hp⟩
      exact ⟨_, mem_map_of_mem hq, hp⟩

/-- The object of a planned resource after a run. -/
theorem exists_objectOf (hplan : plan.WellBuilt) (hN : NamesDistinct plan) {n : PlannedNetwork}
    (hn : n ∈ plan.networks) {r : PlannedResource} (hr : r ∈ n.resources) : ∃ x,
    objectOf S plan.cluster (applyPeopleAccessPlan S plan m.toControlPlane).networks n.name r.name =
        some x ∧
      Standing S m.issued (objectOf S plan.cluster m.networks n.name r.name) r.address
        (groupId (phases S plan m.toControlPlane).groups.1 r.group) x := by
  obtain ⟨net, hpick, htaken⟩ := exists_network (m := m) hplan hN hn
  obtain ⟨n', hn', hres⟩ := taken_resources htaken
  have hfresh : Fresh S (resourceKind S) ((pick (networkKind S plan.cluster) m.networks n.name).elim
      [] NbNetwork.resources) n' :=
    fresh_elim (fun net hp => (pick_mem hp).1) (le_trans le_groups hn')
  let b : NetworkBody := networkBody (phases S plan m.toControlPlane).groups.1 n
  let rb : ResourceBody :=
    ⟨r.name, r.address, groupId (phases S plan m.toControlPlane).groups.1 r.group⟩
  have hrb : rb ∈ b.resources := mem_map_of_mem hr
  have hnodup : (b.resources.map (resourceKind S).want).Nodup := by
    rw [want_bodies]
    exact hN.resourceNames hn
  obtain ⟨u, news, hE⟩ :=
    exists_ensured (K := resourceKind S) resourceKind_lawful hfresh b.resources
  obtain ⟨x, hx⟩ := hE.exists_pick resourceKind_lawful hrb
  have hplain : Plain rb.group := by
    obtain ⟨i, hi⟩ := exists_groupMap_phases (m := m) (hplan.group n hn r hr)
    show Plain (groupId _ _)
    rw [groupId_of_groupMap hi]
    exact plain_of_groupMap hi
  have hstanding := taken_standing hplain
    (hE.taken resourceKind_lawful (fun r hr r' hr' h => inj_on_of_nodup_map hnodup hr hr' h) hrb hx)
  refine ⟨x, ?_, ?_⟩
  · unfold objectOf
    rw [hpick, bind_some, hres]
    exact (pick_synced resourceKind_lawful hfresh (drops_resource b) hrb).trans hx
  · have hobj : objectOf S plan.cluster m.networks n.name r.name = pick (resourceKind S)
        ((pick (networkKind S plan.cluster) m.networks n.name).elim
          [] NbNetwork.resources) r.name := by
      unfold objectOf
      cases pick (networkKind S plan.cluster) m.networks n.name with
      | none => exact (pick_eq_none.mpr fun _ h => by cases h).symm
      | some net => rfl
    rw [hobj]
    refine ⟨hstanding.enabled, hstanding.address, hstanding.groups, hstanding.old, fun hnone => ?_⟩
    obtain ⟨k, hk, hid⟩ := hstanding.new hnone
    exact ⟨k, le_trans (le_trans le_groups hn') hk, hid⟩

/-- After a run there are the resources left as they were, and one for each planned. -/
theorem mem_resources_iff (hplan : plan.WellBuilt) (hN : NamesDistinct plan) {x : NbResource} :
    x ∈ (applyPeopleAccessPlan S plan m.toControlPlane).resources ↔
      LeftResource S plan m.toControlPlane x ∨ ∃ n ∈ plan.networks, ∃ r ∈ n.resources,
        objectOf S plan.cluster (applyPeopleAccessPlan S plan m.toControlPlane).networks n.name
          r.name = some x := by
  have hnet : ∀ net, net ∈ (applyPeopleAccessPlan S plan m.toControlPlane).networks ↔ _ :=
    fun net =>
    mem_synced_iff networkKind_lawful (show Fresh S (networkKind S plan.cluster) m.networks
      (phases S plan m.toControlPlane).groups.2 from fresh_networks
        (m := m.toNumbered)) drops_network
      (by
        rw [want_networkBodies]
        exact hplan.networkNames)
  constructor
  · intro hx
    obtain ⟨net, hmem, hx⟩ := mem_flatMap.mp hx
    rcases (hnet net).mp hmem with ⟨hm, hkept, hfree⟩ | ⟨b, hb, hp⟩
    · exact .inl ⟨net, hm, hx, .inl ⟨hkept, fun n hn => hfree _ (mem_map_of_mem hn)⟩⟩
    · obtain ⟨n, hn, rfl⟩ := mem_map.mp hb
      obtain ⟨net', hpick, htaken⟩ := exists_network (m := m) hplan hN hn
      obtain rfl : net = net' := some.inj (hp.symm.trans hpick)
      rcases (mem_network_resources hN hn htaken).mp hx with ⟨a, ha, hxa, hname,
        hfree⟩ | ⟨r, hr, hxr⟩
      · exact .inl ⟨a, (pick_mem ha).1, hxa, .inr ⟨n, hn, ha, hname, hfree⟩⟩
      · refine .inr ⟨n, hn, r, hr, ?_⟩
        rw [objectOf, hpick]
        exact hxr
  · rintro (⟨net, hm, hx, ⟨hkept, hfree⟩ | ⟨n, hn, ha, hname, hfree⟩⟩ | ⟨n, hn, r, hr, hobj⟩)
    · refine mem_flatMap.mpr ⟨net, (hnet net).mpr (.inl ⟨hm, hkept, fun b hb => ?_⟩), hx⟩
      obtain ⟨n, hn, rfl⟩ := mem_map.mp hb
      exact hfree n hn
    · obtain ⟨net', hpick, htaken⟩ := exists_network (m := m) hplan hN hn
      refine mem_flatMap.mpr ⟨net', (pick_mem hpick).1, ?_⟩
      exact (mem_network_resources hN hn htaken).mpr (.inl ⟨net, ha, hx, hname, hfree⟩)
    · obtain ⟨net, hpick, htaken⟩ := exists_network (m := m) hplan hN hn
      rw [objectOf, hpick] at hobj
      refine mem_flatMap.mpr ⟨net, (pick_mem hpick).1, ?_⟩
      exact (mem_network_resources hN hn htaken).mpr (.inr ⟨r, hr, hobj⟩)

/-- No two resources have one id. -/
theorem resource_id_inj {x x' : NbResource}
    (hx : x ∈ (applyPeopleAccessPlan S plan m.toControlPlane).resources)
    (hx' : x' ∈ (applyPeopleAccessPlan S plan m.toControlPlane).resources) (h : x.id = x'.id) :
    x = x' := by
  obtain ⟨net, hmem, hx⟩ := mem_flatMap.mp hx
  obtain ⟨net', hmem', hx'⟩ := mem_flatMap.mp hx'
  have hapart : Apart S (networkKind S plan.cluster) NbNetwork.ids m.networks
      (phases S plan m.toControlPlane).networks := apart_networks (m := m.toNumbered)
  have hin : net ∈ (phases S plan m.toControlPlane).networks.1 := mem_of_mem_filter hmem
  have hin' : net' ∈ (phases S plan m.toControlPlane).networks.1 := mem_of_mem_filter hmem'
  obtain rfl : net = net' := by
    refine inj_on_of_nodup_map hapart.nodup hin hin' ?_
    by_contra hne
    refine hapart.apart net hin net' hin' hne x.id (mem_map_of_mem hx) ?_
    rw [h]
    exact mem_map_of_mem hx'
  exact inj_on_of_nodup_map (nodup_ids (m := m.toNumbered) hin) hx hx' h

/-- The addresses a rule that was there is for after a run. -/
theorem points_iff (hplan : plan.WellBuilt) (hN : NamesDistinct plan) {rule : NbPolicyRule}
    (hdest : ∀ d ∈ rule.destinations, S.Before m.issued d)
    (htarget : ∀ i, rule.destinationResource = some i → S.Before m.issued i) {address : String} :
    (applyPeopleAccessPlan S plan m.toControlPlane).Serves rule address ↔
      Points S plan m.toControlPlane rule address := by
  -- a rule is for a planned resource's object as the control plane was to begin with
  have hplanned : ∀ n ∈ plan.networks, ∀ r ∈ n.resources, ∀ x,
      Standing S m.issued (objectOf S plan.cluster m.networks n.name r.name) r.address
        (groupId (phases S plan m.toControlPlane).groups.1 r.group) x → (rule.IsFor x ↔
      (∃ y, objectOf S plan.cluster m.networks n.name r.name = some y ∧
        rule.destinationResource = some y.id) ∨
      ∃ d ∈ rule.destinations, groupMap m.groups r.group = some d) := by
    intro n hn r hr x hx
    obtain ⟨i, hi⟩ := exists_groupMap_phases (m := m) (hplan.group n hn r hr)
    rw [groupId_of_groupMap hi] at hx
    refine or_congr ?_ ?_
    · constructor
      · intro hres
        cases hobj : objectOf S plan.cluster m.networks n.name r.name with
        | some y => exact ⟨y, rfl, by rw [hres, hx.old y hobj]⟩
        | none =>
          obtain ⟨k, hk, hid⟩ := hx.new hobj
          exact absurd hid (htarget x.id hres k hk)
      · rintro ⟨y, hobj, hres⟩
        rw [hres, hx.old y hobj]
    · rw [hx.groups]
      refine exists_congr fun d => and_congr_right fun hd => ?_
      rw [mem_singleton, ← groupMap_phases_iff plan (hdest d hd), hi,
        Option.some.injEq, eq_comm]
  constructor
  · rintro ⟨x, hx, hen, haddr, hfor⟩
    rcases (mem_resources_iff hplan hN).mp hx with hleft | ⟨n, hn, r, hr, hobj⟩
    · exact .inr ⟨x, hleft, hen, haddr, hfor⟩
    · obtain ⟨y, hy, hstanding⟩ := exists_objectOf (m := m) hplan hN hn hr
      obtain rfl : x = y := some.inj (hobj.symm.trans hy)
      exact .inl ⟨n, hn, r, hr, hstanding.address.symm.trans haddr,
        (hplanned n hn r hr x hstanding).mp hfor⟩
  · rintro (⟨n, hn, r, hr, haddr, hfor⟩ | ⟨x, hleft, hen, haddr, hfor⟩)
    · obtain ⟨x, hx, hstanding⟩ := exists_objectOf (m := m) hplan hN hn hr
      exact ⟨x, (mem_resources_iff hplan hN).mpr (.inr ⟨n, hn, r, hr, hx⟩), hstanding.enabled,
        hstanding.address.trans haddr, (hplanned n hn r hr x hstanding).mpr hfor⟩
    · exact ⟨x, (mem_resources_iff hplan hN).mpr (.inl hleft), hen, haddr, hfor⟩

end

end Swarmy.Mesh
