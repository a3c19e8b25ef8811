import Swarmy.Mesh.Settle
import Swarmy.Mesh.Users

/-!
# The mesh settles, and other clusters' objects are left alone

An apply should have nothing to do when it is done again, and should touch nothing but
the cluster's own objects.  `peopleAccess_converges_iff`: it is so exactly where what is
planned under one name is one thing, and nobody else's object under the cluster's prefix
is out of step with the plan.
-/

namespace Swarmy.Mesh

open Keyed List Option

/-! ## The property -/

/-- The write is of one of the cluster's objects. -/
def MeshWrite.Own (cluster : String) : MeshWrite → Prop
  | .group name => isSwarmyManaged cluster name = true
  | .network (.create b) => isSwarmyManaged cluster b.name = true
  | .network (.update n) | .network (.delete n) => n.maker = .cluster cluster
  | .policy (.create b) => isSwarmyManaged cluster b.name = true
  | .policy (.update p) | .policy (.delete p) => p.maker = .cluster cluster
  | .zone (.create b) => isSwarmyManaged cluster b.name = true
  | .zone (.update z) | .zone (.delete z) => z.maker = .cluster cluster

section

variable (toLowerCase : String → String) (dexSubject : String → Option String) (S : IdSupply)

/-- A second apply writes nothing, the first writes only to the cluster's objects, and a
second sync of the people has nothing to do. -/
structure Converges (plan : PeopleAccessPlan) (m : Numbered S) (people : List PersonAccess)
    (d : Directory S) : Prop where
  quiet : applyWrites S plan (applyPeopleAccessPlan S plan m.toControlPlane) = []
  own : ∀ w ∈ applyWrites S plan m.toControlPlane, w.Own plan.cluster
  people : planUserSync toLowerCase dexSubject plan.cluster people
    (applyUserSync toLowerCase dexSubject S plan.cluster people d.toPeople).groups
    (applyUserSync toLowerCase dexSubject S plan.cluster people d.toPeople).users = []

end

/-! ## The conditions -/

/-- What is planned under one name is one thing: resources in a network, records in a
zone, and policies. -/
structure NamesAgree (plan : PeopleAccessPlan) : Prop where
  resources : ∀ n ∈ plan.networks, ∀ r ∈ n.resources, ∀ r' ∈ n.resources,
    r.name = r'.name → r = r'
  policies : ∀ p ∈ plan.policies, ∀ p' ∈ plan.policies, p.name = p'.name → p = p'
  records : ∀ z ∈ plan.zones, ∀ r ∈ z.records, ∀ r' ∈ z.records, r.name = r'.name → r = r'

/-- Every object under the cluster's prefix is the cluster's, or one the plan leaves as
it is. -/
structure OwnNames (S : IdSupply) (plan : PeopleAccessPlan) (m : ControlPlane) : Prop where
  networks : ∀ n ∈ m.networks, isSwarmyManaged plan.cluster n.name = true →
    n.maker = .cluster plan.cluster ∨ Spared (networkKind S plan.cluster) m.networks
      (phases S plan m).networkBodies plan.dropsNetwork n
  policies : ∀ p ∈ m.policies, isSwarmyManaged plan.cluster p.name = true →
    p.maker = .cluster plan.cluster ∨ Spared (policyKind S plan.cluster) m.policies
      (phases S plan m).policyBodies plan.dropsPolicy p
  zones : ∀ z ∈ m.zones, isSwarmyManaged plan.cluster z.name = true →
    z.maker = .cluster plan.cluster ∨ Spared (zoneKind S plan.cluster) m.zones
      (phases S plan m).zoneBodies plan.dropsZone z

section

variable {S : IdSupply} {plan : PeopleAccessPlan} {m : Numbered S}

/-! ## A second apply -/

theorem resourcesAgree_iff (hplan : plan.WellBuilt) :
    (∀ b ∈ (phases S plan m.toControlPlane).networkBodies, ResourcesAgree b.resources) ↔
      ∀ n ∈ plan.networks, ∀ r ∈ n.resources, ∀ r' ∈ n.resources, r.name = r'.name → r = r' := by
  constructor
  · intro h n hn r hr r' hr' hname
    have hagree := h _ (mem_map_of_mem hn) _ (mem_map_of_mem hr) _
      (mem_map_of_mem hr') hname
    have hgroup : r.group = r'.group := hplan.oneGroup n hn r hr r' hr'
    cases r
    cases r'
    simp_all only
  · intro h b hb r hr r' hr' hname
    obtain ⟨n, hn, rfl⟩ := mem_map.mp hb
    obtain ⟨q, hq, rfl⟩ := mem_map.mp hr
    obtain ⟨q', hq', rfl⟩ := mem_map.mp hr'
    rw [h n hn q hq q' hq' hname]
    exact ⟨rfl, rfl⟩

theorem recordsAgree_iff :
    (∀ b ∈ (phases S plan m.toControlPlane).zoneBodies, RecordsAgree b.records) ↔
      ∀ z ∈ plan.zones, ∀ r ∈ z.records, ∀ r' ∈ z.records, r.name = r'.name → r = r' := by
  constructor
  · intro h z hz r hr r' hr' hname
    obtain ⟨hcontent, httl⟩ := h _ (mem_map_of_mem hz) r hr r' hr' hname
    cases r
    cases r'
    simp_all only
  · intro h b hb r hr r' hr' hname
    obtain ⟨z, hz, rfl⟩ := mem_map.mp hb
    rw [h z hz r hr r' hr' hname]
    exact ⟨rfl, rfl⟩

theorem applyWrites_eq_nil {m : ControlPlane} : applyWrites S plan m = [] ↔
    newGroups plan m = [] ∧
      Silent (networkKind S plan.cluster) m.networks (phases S plan m).networkBodies
        plan.dropsNetwork ∧
      Silent (policyKind S plan.cluster) m.policies (phases S plan m).policyBodies
        plan.dropsPolicy ∧
      Silent (zoneKind S plan.cluster) m.zones (phases S plan m).zoneBodies plan.dropsZone := by
  simp only [applyWrites, append_eq_nil_iff, map_eq_nil_iff, Silent, and_assoc]

/-- A second apply writes nothing exactly where names agree. -/
theorem quiet_iff (hplan : plan.WellBuilt) :
    applyWrites S plan (applyPeopleAccessPlan S plan m.toControlPlane) = [] ↔ NamesAgree plan := by
  rw [applyWrites_eq_nil, and_iff_right newGroups_again, phases_networkBodies_again,
    phases_zoneBodies_again, silent_zones_iff hplan, recordsAgree_iff]
  constructor
  · rintro ⟨hnet, hpol, hzone⟩
    rw [phases_policyBodies_again hnet, silent_policies_iff, policiesAgree_iff hplan hnet] at hpol
    rw [silent_networks_iff hplan, resourcesAgree_iff hplan] at hnet
    exact ⟨hnet, hpol, hzone⟩
  · rintro ⟨hres, hpol, hrec⟩
    have hnet := (silent_networks_iff hplan).mpr
        ((resourcesAgree_iff (S := S) (m := m) hplan).mpr hres)
    refine ⟨hnet, ?_, hrec⟩
    rw [phases_policyBodies_again hnet, silent_policies_iff, policiesAgree_iff hplan hnet]
    exact hpol

/-! ## Whose objects are written -/

theorem own_networks_iff (hplan : plan.WellBuilt) {m : ControlPlane} :
    (∀ w ∈ writes (networkKind S plan.cluster) m.networks (phases S plan m).networkBodies
      plan.dropsNetwork, (MeshWrite.network w).Own plan.cluster) ↔
    ∀ n ∈ m.networks, isSwarmyManaged plan.cluster n.name = true →
      n.maker = .cluster plan.cluster ∨ Spared (networkKind S plan.cluster) m.networks
        (phases S plan m).networkBodies plan.dropsNetwork n := by
  refine forall_writes_iff_own (P := fun w => (MeshWrite.network w).Own plan.cluster)
    (O := fun name => isSwarmyManaged plan.cluster name = true) (fun _ => Iff.rfl)
    (fun _ => Iff.rfl) (fun _ => Iff.rfl) (fun b hb => ?_) (fun n h => ?_)
  · obtain ⟨n, hn, rfl⟩ := mem_map.mp hb
    exact hplan.managed.2.1 n hn
  · exact (Bool.and_eq_true_iff.mp h).1

theorem own_policies_iff (hplan : plan.WellBuilt) {m : ControlPlane} :
    (∀ w ∈ writes (policyKind S plan.cluster) m.policies (phases S plan m).policyBodies
      plan.dropsPolicy, (MeshWrite.policy w).Own plan.cluster) ↔
    ∀ p ∈ m.policies, isSwarmyManaged plan.cluster p.name = true →
      p.maker = .cluster plan.cluster ∨ Spared (policyKind S plan.cluster) m.policies
        (phases S plan m).policyBodies plan.dropsPolicy p := by
  refine forall_writes_iff_own (P := fun w => (MeshWrite.policy w).Own plan.cluster)
    (O := fun name => isSwarmyManaged plan.cluster name = true) (fun _ => Iff.rfl)
    (fun _ => Iff.rfl) (fun _ => Iff.rfl) (fun b hb => ?_) (fun p h => ?_)
  · obtain ⟨p, hp, hbody⟩ := mem_filterMap.mp hb
    obtain ⟨e, -, rfl⟩ := map_eq_some_iff.mp hbody
    exact hplan.managed.2.2.1 p hp
  · exact (Bool.and_eq_true_iff.mp (Bool.and_eq_true_iff.mp h).1).2

theorem own_zones_iff (hplan : plan.WellBuilt) {m : ControlPlane} :
    (∀ w ∈ writes (zoneKind S plan.cluster) m.zones (phases S plan m).zoneBodies
      plan.dropsZone, (MeshWrite.zone w).Own plan.cluster) ↔
    ∀ z ∈ m.zones, isSwarmyManaged plan.cluster z.name = true →
      z.maker = .cluster plan.cluster ∨ Spared (zoneKind S plan.cluster) m.zones
        (phases S plan m).zoneBodies plan.dropsZone z := by
  refine forall_writes_iff_own (P := fun w => (MeshWrite.zone w).Own plan.cluster)
    (O := fun name => isSwarmyManaged plan.cluster name = true) (fun _ => Iff.rfl)
    (fun _ => Iff.rfl) (fun _ => Iff.rfl) (fun b hb => ?_) (fun z h => ?_)
  · obtain ⟨z, hz, rfl⟩ := mem_map.mp hb
    exact hplan.managed.2.2.2 z hz
  · exact (Bool.and_eq_true_iff.mp h).1

/-- An apply writes only to the cluster's objects exactly where no other is in its way. -/
theorem own_iff (hplan : plan.WellBuilt) {m : ControlPlane} :
    (∀ w ∈ applyWrites S plan m, w.Own plan.cluster) ↔ OwnNames S plan m := by
  have hgroups : ∀ w ∈ (newGroups plan m).map MeshWrite.group, w.Own plan.cluster := by
    intro w hw
    obtain ⟨name, hname, rfl⟩ := mem_map.mp hw
    exact hplan.managed.1 name (mem_of_mem_filter hname)
  simp only [applyWrites, List.forall_mem_append, List.forall_mem_map, own_networks_iff hplan,
    own_policies_iff hplan, own_zones_iff hplan]
  rw [List.forall_mem_map] at hgroups
  constructor
  · rintro ⟨⟨⟨-, hn⟩, hp⟩, hz⟩
    exact ⟨hn, hp, hz⟩
  · rintro ⟨hn, hp, hz⟩
    exact ⟨⟨⟨hgroups, hn⟩, hp⟩, hz⟩

end

/-- Applying what is planned converges, and stays with the cluster's own objects, exactly
where names agree and no object of another is in the way. -/
theorem peopleAccess_converges_iff (toLowerCase : String → String)
    (dexSubject : String → Option String) (S : IdSupply) (intent : PeopleAccessIntent)
    (m : Numbered S)
    (people : List PersonAccess) (d : Directory S) :
    Converges toLowerCase dexSubject S (buildPeopleAccessPlan toLowerCase intent) m people d ↔
      NamesAgree (buildPeopleAccessPlan toLowerCase intent) ∧
        OwnNames S (buildPeopleAccessPlan toLowerCase intent) m.toControlPlane := by
  constructor
  · intro h
    exact ⟨(quiet_iff wellBuilt).mp h.quiet, (own_iff wellBuilt).mp h.own⟩
  · rintro ⟨hnames, hown⟩
    exact ⟨(quiet_iff wellBuilt).mpr hnames, (own_iff wellBuilt).mpr hown,
      planUserSync_applyUserSync d⟩

/-- Ids in order. -/
def serial : IdSupply where
  issue n := "nb" ++ toString n
  injective _ _ h := Js.toString_injective ((String.append_right_inj _).mp h)

/-- The network of a stack of the cluster `lon-2`. -/
def neighboursNetwork : NbNetwork where
  id := "nb0"
  name := "swarmy-lon-2-app"
  description := "swarmy stack app"
  resources := []
  routers := []
  maker := .cluster "lon-2"

/-- A mesh that has nothing else. -/
def neighbour : Numbered serial where
  groups := []
  networks := [neighboursNetwork]
  policies := []
  zones := []
  issued := 1
  groupIds := ⟨nodup_nil, fun _ h => by cases h⟩
  networkIds := by
    refine ⟨nodup_singleton _, fun i hi k hk he => ?_⟩
    have hi : i = serial.issue 0 := (mem_singleton.mp hi).trans (by decide)
    have := serial.injective (hi.symm.trans he)
    omega
  resourceIds := ⟨nodup_nil, fun _ h => by cases h⟩
  policyIds := ⟨nodup_nil, fun _ h => by cases h⟩
  zoneIds := ⟨nodup_nil, fun _ h => by cases h⟩
  recordIds := ⟨nodup_nil, fun _ h => by cases h⟩

def nobody : Directory serial where
  groups := []
  users := []
  peers := []
  issued := 0
  groupIds := ⟨nodup_nil, fun _ h => by cases h⟩
  userIds := nodup_nil

/-- The cluster `lon` deletes the network of the cluster `lon-2`. -/
theorem applyPeopleAccessPlan_deletes_neighbour : ¬ Converges Js.toLowerCase (fun _ => none) serial
      (buildPeopleAccessPlan Js.toLowerCase ⟨"lon", [], nodup_nil⟩) neighbour [] nobody := by
  intro h
  have hdrop : (buildPeopleAccessPlan Js.toLowerCase ⟨"lon", [], nodup_nil⟩).dropsNetwork
      neighboursNetwork = true := by decide
  have hown := h.own (.network (.delete neighboursNetwork)) (by
    refine mem_append_left _ (mem_append_left _ (mem_append_right _ ?_))
    refine mem_map_of_mem (mem_append_right _ (mem_map_of_mem ?_))
    exact mem_filter.mpr ⟨.head _, hdrop⟩)
  have hne : neighboursNetwork.maker ≠ .cluster "lon" := by decide
  exact hne hown

/-- Two services of one stack, `db` on UDP and `db-udp` on TCP, share a policy's name. -/
example : ¬ NamesAgree (buildPeopleAccessPlan Js.toLowerCase ⟨"lon", [⟨"app", "app",
    [⟨"db", "10.0.0.2", [⟨53, .udp⟩]⟩, ⟨"db-udp", "10.0.0.3", [⟨53, .tcp⟩]⟩], true, []⟩],
    nodup_singleton _⟩) := by
  intro h
  have hpol := h.policies
  revert hpol
  decide

end Swarmy.Mesh
