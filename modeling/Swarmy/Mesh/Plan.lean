import Swarmy.Mesh.People

/-!
# What a plan is like

Every group a plan names is among its groups, every policy is for a planned resource,
and names, ports and sources have the forms the plan gives them.  `reaches_sourceSets`
says which ports of a service a source is planned to reach.
-/

namespace Swarmy.Mesh

open List Option

/-! ## Sources and ports -/

theorem mem_portSet {p : Nat} {ports : List Nat} : p ∈ portSet ports ↔ p ∈ ports := by
  rw [portSet, mem_insertionSort, mem_dedup]

theorem portSet_pairwise (ports : List Nat) : (portSet ports).Pairwise (· ≤ ·) :=
  pairwise_insertionSort (· ≤ ·) _

/-- In these sets, the source reaches the port. -/
def Reaches (bySet : List (List Nat × List String)) (s : String) (p : Nat) : Prop :=
  ∃ e ∈ bySet, p ∈ e.1 ∧ s ∈ e.2

section

variable {bySet : List (List Nat × List String)} {source s : String} {ports : List Nat} {p : Nat}

theorem reaches_addSource :
    Reaches (addSource source ports bySet) s p ↔ (s = source ∧ p ∈ ports) ∨ Reaches bySet s p := by
  rw [← mem_portSet]
  unfold addSource
  cases portSet ports with
  | nil => simp
  | cons q qs =>
    dsimp only
    split
    · next hany =>
      obtain ⟨e₀, he₀, hkey⟩ := any_eq_true.mp hany
      constructor
      · rintro ⟨e, he, hp, hs⟩
        obtain ⟨e', he', rfl⟩ := mem_map.mp he
        by_cases hk : e'.1 = q :: qs
        · rw [if_pos hk] at hp hs
          rcases mem_append.mp hs with hs | hs
          · exact .inr ⟨e', he', hp, hs⟩
          · exact .inl ⟨mem_singleton.mp hs, hk ▸ hp⟩
        · rw [if_neg hk] at hp hs
          exact .inr ⟨e', he', hp, hs⟩
      · rintro (⟨rfl, hp⟩ | ⟨e, he, hp, hs⟩)
        · refine ⟨_, mem_map_of_mem he₀, ?_⟩
          rw [if_pos (of_decide_eq_true hkey)]
          exact ⟨of_decide_eq_true hkey ▸ hp, mem_append_right _ (mem_singleton_self _)⟩
        · refine ⟨_, mem_map_of_mem he, ?_⟩
          split
          · exact ⟨hp, mem_append_left _ hs⟩
          · exact ⟨hp, hs⟩
    · constructor
      · rintro ⟨e, he, hp, hs⟩
        rcases mem_append.mp he with he | he
        · exact .inr ⟨e, he, hp, hs⟩
        · rw [mem_singleton.mp he] at hp hs
          exact .inl ⟨mem_singleton.mp hs, hp⟩
      · rintro (⟨rfl, hp⟩ | ⟨e, he, hp, hs⟩)
        · exact ⟨_, mem_append_right _ (mem_singleton_self _), hp,
            mem_singleton_self _⟩
        · exact ⟨e, mem_append_left _ he, hp, hs⟩

/-- The sets are sets of ports, and none is empty. -/
def SetsOk (bySet : List (List Nat × List String)) : Prop :=
  ∀ e ∈ bySet, e.1.Pairwise (· ≤ ·) ∧ e.1 ≠ [] ∧ e.2 ≠ []

theorem setsOk_addSource (h : SetsOk bySet) : SetsOk (addSource source ports bySet) := by
  have hsorted := portSet_pairwise ports
  unfold addSource
  cases hset : portSet ports with
  | nil => exact h
  | cons q qs =>
    rw [hset] at hsorted
    dsimp only
    split
    · intro e he
      obtain ⟨e', he', rfl⟩ := mem_map.mp he
      obtain ⟨hpair, hne, hsrc⟩ := h e' he'
      split
      · exact ⟨hpair, hne, append_ne_nil_of_left_ne_nil hsrc _⟩
      · exact ⟨hpair, hne, hsrc⟩
    · intro e he
      rcases mem_append.mp he with he | he
      · exact h e he
      · rw [mem_singleton.mp he]
        exact ⟨hsorted, cons_ne_nil _ _, cons_ne_nil _ _⟩

end

section

variable {cluster : String} {st : PeopleStackIntent} {svc : PeopleServiceIntent} {proto : Proto}

/-- Which ports of a service a source is planned to reach. -/
theorem reaches_sourceSets {s : String} {p : Nat} :
    Reaches (sourceSets cluster st svc proto) s p ↔ p ∈ svc.portsOf proto ∧
      ((st.ruleAccess = true ∧ s = accessGroup cluster st.stackId) ∨
        ∃ g ∈ st.grants, g.covers svc = true ∧ s = grantGroup cluster g.routeId ∧
          p ∈ g.allowed (svc.portsOf proto)) := by
  have hallowed : ∀ {g : PersonalGrantIntent}, p ∈ g.allowed (svc.portsOf proto) →
      p ∈ svc.portsOf proto := by
    intro g hp
    unfold PersonalGrantIntent.allowed at hp
    split at hp
    · exact hp
    · exact hp
    · exact mem_of_mem_filter hp
  have hfold : ∀ (gs : List PersonalGrantIntent) (l : List (List Nat × List String)),
      Reaches (gs.foldl (fun bySet g =>
        addSource (grantGroup cluster g.routeId) (g.allowed (svc.portsOf proto)) bySet) l) s p ↔
      Reaches l s p ∨ ∃ g ∈ gs, s = grantGroup cluster g.routeId ∧
        p ∈ g.allowed (svc.portsOf proto) := by
    intro gs
    induction gs with
    | nil => simp
    | cons g gs ih =>
      intro l
      rw [foldl_cons, ih, reaches_addSource]
      simp only [mem_cons, exists_eq_or_imp]
      tauto
  unfold sourceSets
  rw [hfold]
  have hrule : Reaches (if st.ruleAccess = true then
      addSource (accessGroup cluster st.stackId) (svc.portsOf proto) [] else []) s p ↔
      st.ruleAccess = true ∧ s = accessGroup cluster st.stackId ∧ p ∈ svc.portsOf proto := by
    split
    · next hr =>
      rw [reaches_addSource]
      simp [Reaches, hr]
    · next hr => simp [Reaches, hr]
  rw [hrule]
  simp only [PeopleStackIntent.sortedGrants, mem_filter, mem_insertionSort]
  constructor
  · rintro (⟨hr, hs, hp⟩ | ⟨g, ⟨hg, hc⟩, hs, hp⟩)
    · exact ⟨hp, .inl ⟨hr, hs⟩⟩
    · exact ⟨hallowed hp, .inr ⟨g, hg, hc, hs, hp⟩⟩
  · rintro ⟨hp, ⟨hr, hs⟩ | ⟨g, hg, hc, hs, hp'⟩⟩
    · exact .inl ⟨hr, hs, hp⟩
    · exact .inr ⟨g, ⟨hg, hc⟩, hs, hp'⟩

theorem setsOk_sourceSets : SetsOk (sourceSets cluster st svc proto) := by
  have hnil : SetsOk [] := fun e he => by cases he
  have hfold : ∀ (gs : List PersonalGrantIntent) (l : List (List Nat × List String)), SetsOk l →
      SetsOk (gs.foldl (fun bySet g =>
        addSource (grantGroup cluster g.routeId) (g.allowed (svc.portsOf proto)) bySet) l) := by
    intro gs
    induction gs with
    | nil => exact fun l h => h
    | cons g gs ih => exact fun l h => ih _ (setsOk_addSource h)
  unfold sourceSets
  refine hfold _ _ ?_
  split
  · exact setsOk_addSource hnil
  · exact hnil

end

/-! ## What a built plan is like -/

/-- A text begins with what it was put behind. -/
theorem startsWith_append (p s : String) : Js.startsWith (p ++ s) p = true := by
  rw [Js.startsWith, isPrefixOf_iff_prefix, String.toList_append]
  exact prefix_append _ _

theorem isSwarmyManaged_colon {cluster s : String} :
    isSwarmyManaged cluster (swarmyPrefix cluster ++ s) = true := by
  rw [isSwarmyManaged, startsWith_append, Bool.true_or]

theorem isSwarmyManaged_dash {cluster s : String} :
    isSwarmyManaged cluster ("swarmy-" ++ cluster ++ "-" ++ s) = true := by
  rw [isSwarmyManaged, startsWith_append, Bool.or_true]

theorem isSwarmyManaged_networkName_append {cluster stackId s : String} :
    isSwarmyManaged cluster (networkName cluster stackId ++ s) = true := by
  rw [networkName, String.append_assoc]
  exact isSwarmyManaged_dash

theorem policyName_eq (cluster stackId service : String) :
    policyName cluster stackId service = networkName cluster stackId ++ "-" ++ service := rfl

theorem networkName_injective {cluster : String} : Function.Injective (networkName cluster) :=
  fun _ _ h => String.append_right_inj _ |>.mp h

/-- What a policy of a plan is like: it lets groups of the plan reach some ports of a
planned resource, and is named after it. -/
structure PlannedPolicy.WellBuilt (p : PlannedPolicy) (groups : List String)
    (networks : List PlannedNetwork) : Prop where
  sources : ∀ s ∈ p.sources, s ∈ groups
  sorted : sorted p.sources = p.sources
  ports : ∃ ports : List Nat, ports.Pairwise (· ≤ ·) ∧ p.ports = ports.map toString
  someport : p.ports ≠ []
  planned : ∃ n ∈ networks, n.name = p.network ∧ ∃ r ∈ n.resources, r.name = p.resource
  name : ∃ suffix, p.name = p.network ++ "-" ++ p.resource ++ suffix

/-- What a plan is like that was built. -/
structure PeopleAccessPlan.WellBuilt (plan : PeopleAccessPlan) : Prop where
  networkNames : (plan.networks.map PlannedNetwork.name).Nodup
  zoneNames : (plan.zones.map PlannedZone.name).Nodup
  policy : ∀ p ∈ plan.policies, p.WellBuilt plan.groups plan.networks
  oneGroup : ∀ n ∈ plan.networks, ∀ r ∈ n.resources, ∀ r' ∈ n.resources, r.group = r'.group
  group : ∀ n ∈ plan.networks, ∀ r ∈ n.resources, r.group ∈ plan.groups
  managed : (∀ g ∈ plan.groups, isSwarmyManaged plan.cluster g = true) ∧
    (∀ n ∈ plan.networks, isSwarmyManaged plan.cluster n.name = true) ∧
    (∀ p ∈ plan.policies, isSwarmyManaged plan.cluster p.name = true) ∧
    ∀ z ∈ plan.zones, isSwarmyManaged plan.cluster z.name = true

section

variable {toLowerCase : String → String} {intent : PeopleAccessIntent}
variable {cluster : String} {st : PeopleStackIntent}

theorem openStacks_nodup : (intent.openStacks.map PeopleStackIntent.stackId).Nodup := by
  have hsub : intent.openStacks.Sublist (intent.stackList.insertionSort (·.stackId ≤ ·.stackId)) :=
    filter_sublist
  refine (hsub.map PeopleStackIntent.stackId).nodup ?_
  exact ((perm_insertionSort _ _).map _).nodup_iff.mpr intent.nodup

/-- Names made from the stacks' ids are distinct. -/
theorem nodup_of_stackId {α : Type} {make : PeopleStackIntent → α} {name : α → String}
    (hname : ∀ st, name (make st) = networkName intent.cluster st.stackId) :
    (((intent.openStacks.map make).insertionSort (name · ≤ name ·)).map name).Nodup := by
  rw [((List.perm_insertionSort _ _).map name).nodup_iff, List.map_map]
  have hcomp : (name ∘ make) = networkName intent.cluster ∘ PeopleStackIntent.stackId :=
    funext hname
  rw [hcomp, ← List.map_map]
  exact openStacks_nodup.map networkName_injective

theorem mem_stackGroups {g : String} : g ∈ stackGroups cluster st ↔
    g = routerGroup cluster st.stackId ∨ g = resourceGroup cluster st.stackId ∨
      (st.ruleAccess = true ∧ g = accessGroup cluster st.stackId) ∨
        ∃ grant ∈ st.grants, grantGroup cluster grant.routeId = g := by
  unfold stackGroups PeopleStackIntent.sortedGrants
  simp only [List.mem_cons, List.mem_append, List.mem_map, List.mem_insertionSort]
  cases st.ruleAccess <;> simp

theorem mem_groups {g : String} : g ∈ (buildPeopleAccessPlan toLowerCase intent).groups ↔
    ∃ st ∈ intent.openStacks, g ∈ stackGroups intent.cluster st := by
  show g ∈ sorted _ ↔ _
  rw [mem_sorted, Js.mem_unique, mem_flatMap]

theorem mem_policies {p : PlannedPolicy} :
    p ∈ (buildPeopleAccessPlan toLowerCase intent).policies ↔ ∃ st ∈ intent.openStacks,
      ∃ svc ∈ st.resources, ∃ proto, p ∈ planPolicies intent.cluster st svc proto := by
  show p ∈ List.insertionSort _ _ ↔ _
  rw [mem_insertionSort, mem_flatMap]
  refine exists_congr fun st => and_congr_right fun _ => ?_
  unfold stackPolicies
  rw [mem_flatMap]
  refine exists_congr fun svc => and_congr_right fun _ => ?_
  rw [mem_append]
  constructor
  · rintro (h | h)
    · exact ⟨_, h⟩
    · exact ⟨_, h⟩
  · rintro ⟨proto, h⟩
    cases proto with
    | tcp => exact .inl h
    | udp => exact .inr h

/-- A policy of a service lets the sources of one set reach it. -/
theorem mem_planPolicies {svc : PeopleServiceIntent} {proto : Proto} {p : PlannedPolicy}
    (h : p ∈ planPolicies cluster st svc proto) : ∃ i, ∃ e ∈ sourceSets cluster st svc proto,
      p = { name := policyName cluster st.stackId svc.name ++ policySuffix proto i
            sources := sorted e.2
            network := networkName cluster st.stackId
            resource := svc.name
            protocol := proto
            ports := e.1.map toString } := by
  unfold planPolicies at h
  split at h
  · cases h
  · obtain ⟨i, hi, rfl⟩ := mem_mapIdx.mp h
    exact ⟨i, _, (mem_insertionSort _).mp (getElem_mem hi), rfl⟩

/-- Everybody a policy lets in is a group of the stack. -/
theorem mem_stackGroups_of_source {svc : PeopleServiceIntent} {proto : Proto}
    {e : List Nat × List String} {s : String} (he : e ∈ sourceSets cluster st svc proto)
    (hs : s ∈ e.2) : s ∈ stackGroups cluster st := by
  obtain ⟨-, hne, -⟩ := setsOk_sourceSets e he
  obtain ⟨p, hp⟩ := exists_mem_of_ne_nil _ hne
  obtain ⟨-, ⟨hr, hs⟩ | ⟨g, hg, -, hs, -⟩⟩ := reaches_sourceSets.mp ⟨e, he, hp, hs⟩
  · exact mem_stackGroups.mpr (.inr (.inr (.inl ⟨hr, hs⟩)))
  · exact mem_stackGroups.mpr (.inr (.inr (.inr ⟨g, hg, hs.symm⟩)))

theorem mem_networks {n : PlannedNetwork} :
    n ∈ (buildPeopleAccessPlan toLowerCase intent).networks ↔
      ∃ st ∈ intent.openStacks, planNetwork intent.cluster st = n := by
  show n ∈ List.insertionSort _ _ ↔ _
  rw [List.mem_insertionSort, List.mem_map]

theorem mem_zones {z : PlannedZone} : z ∈ (buildPeopleAccessPlan toLowerCase intent).zones ↔
      ∃ st ∈ intent.openStacks, planZone intent.cluster st toLowerCase = z := by
  show z ∈ List.insertionSort _ _ ↔ _
  rw [List.mem_insertionSort, List.mem_map]

theorem wellBuilt_policy {p : PlannedPolicy}
    (h : p ∈ (buildPeopleAccessPlan toLowerCase intent).policies) :
    p.WellBuilt (buildPeopleAccessPlan toLowerCase intent).groups
      (buildPeopleAccessPlan toLowerCase intent).networks := by
  obtain ⟨st, hst, svc, hsvc, proto, hp⟩ := mem_policies.mp h
  obtain ⟨i, e, he, rfl⟩ := mem_planPolicies hp
  constructor
  · intro s hs
    exact mem_groups.mpr ⟨st, hst, mem_stackGroups_of_source he (mem_sorted.mp hs)⟩
  · exact sorted_sorted e.2
  · exact ⟨e.1, (setsOk_sourceSets e he).1, rfl⟩
  · exact fun h => (setsOk_sourceSets e he).2.1 (map_eq_nil_iff.mp h)
  · exact ⟨_, mem_networks.mpr ⟨st, hst, rfl⟩, rfl, _, mem_map_of_mem hsvc, rfl⟩
  · exact ⟨policySuffix proto i, rfl⟩

theorem wellBuilt : (buildPeopleAccessPlan toLowerCase intent).WellBuilt where
  networkNames := nodup_of_stackId fun _ => rfl
  zoneNames := nodup_of_stackId fun _ => rfl
  policy _ h := wellBuilt_policy h
  oneGroup n hn r hr r' hr' := by
    obtain ⟨st, -, rfl⟩ := mem_networks.mp hn
    obtain ⟨svc, -, rfl⟩ := mem_map.mp hr
    obtain ⟨svc', -, rfl⟩ := mem_map.mp hr'
    rfl
  group n hn r hr := by
    obtain ⟨st, hst, rfl⟩ := mem_networks.mp hn
    obtain ⟨svc, -, rfl⟩ := mem_map.mp hr
    exact mem_groups.mpr ⟨st, hst, mem_stackGroups.mpr (.inr (.inl rfl))⟩
  managed := by
    refine ⟨fun g hg => ?_, fun n hn => ?_, fun p hp => ?_, fun z hz => ?_⟩
    · obtain ⟨st, -, hg⟩ := mem_groups.mp hg
      obtain ⟨tail, rfl⟩ : ∃ tail, g = swarmyPrefix intent.cluster ++ tail := by
        rcases mem_stackGroups.mp hg with rfl | rfl | ⟨-, rfl⟩ | ⟨grant, -, rfl⟩
        · exact ⟨"router:" ++ st.stackId, by
            simp [routerGroup, swarmyPrefix, ← String.toList_inj]⟩
        · exact ⟨"res:" ++ st.stackId, by
            simp [resourceGroup, swarmyPrefix, ← String.toList_inj]⟩
        · exact ⟨"access:" ++ st.stackId, by
            simp [accessGroup, swarmyPrefix, ← String.toList_inj]⟩
        · exact ⟨"grant:" ++ grant.routeId, by
            simp [grantGroup, swarmyPrefix, ← String.toList_inj]⟩
      exact isSwarmyManaged_colon
    · obtain ⟨st, -, rfl⟩ := mem_networks.mp hn
      exact isSwarmyManaged_dash
    · obtain ⟨st, -, svc, -, proto, hp⟩ := mem_policies.mp hp
      obtain ⟨i, e, -, rfl⟩ := mem_planPolicies hp
      rw [policyName_eq, String.append_assoc, String.append_assoc]
      exact isSwarmyManaged_networkName_append
    · obtain ⟨st, -, rfl⟩ := mem_zones.mp hz
      show isSwarmyManaged intent.cluster (zoneName intent.cluster st.stackId) = true
      rw [zoneName]
      exact isSwarmyManaged_dash

end

end Swarmy.Mesh
