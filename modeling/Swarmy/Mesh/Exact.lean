import Swarmy.Mesh.Names
import Swarmy.Mesh.Reach

/-!
# Access is what was granted

After an apply a group should reach a service's port exactly where the stack's rule or a
grant gives it that.  `peopleAccess_exact_iff`: it does, and names are distinct, exactly
where no two services share a name in their stacks or take each other's names, and no rule
that the apply leaves as it was lets a group reach more.
-/

namespace Swarmy.Mesh

open Keyed List Option

/-! ## The property -/

/-- The grant is for the port. -/
def PersonalGrantIntent.Opens (g : PersonalGrantIntent) (port : Nat) : Prop :=
  g.ports.getD [] = [] ∨ port ∈ g.ports.getD []

/-- A service with the address declares the port, and the rule of its stack or a grant
for it gives the group access. -/
def Granted (intent : PeopleAccessIntent) (name address : String) (proto : Proto) (port : Nat) :
    Prop :=
  ∃ st ∈ intent.stackList, ∃ svc ∈ st.services, isIpv4 svc.vip = true ∧ svc.vip ++ "/32" = address ∧
    ⟨port, proto⟩ ∈ svc.ports ∧
      ((st.ruleAccess = true ∧ name = accessGroup intent.cluster st.stackId) ∨
        ∃ g ∈ st.grants, g.covers svc = true ∧ name = grantGroup intent.cluster g.routeId ∧
          g.Opens port)

/-- After the apply a group reaches what it has been granted, and nothing else; and the
plan's names are distinct. -/
structure Exact (toLowerCase : String → String) (S : IdSupply) (intent : PeopleAccessIntent)
    (m : Linked S) : Prop where
  reach : ∀ g address proto port,
    (applyPeopleAccessPlan S (buildPeopleAccessPlan toLowerCase intent) m.toControlPlane).Reach g
        address proto port ↔
      ∃ name, groupMap (applyPeopleAccessPlan S (buildPeopleAccessPlan toLowerCase intent)
        m.toControlPlane).groups name = some g ∧ Granted intent name address proto port
  names : NamesDistinct (buildPeopleAccessPlan toLowerCase intent)

/-! ## What an apply leaves as it was -/

section

variable (S : IdSupply) (plan : PeopleAccessPlan) (m : ControlPlane)

/-- The policy is enabled, and its first rule is the planned one. -/
structure AsPlanned (q : PlannedPolicy) (p : NbPolicy) : Prop where
  enabled : p.enabled = true
  rule : ∃ x, objectOf S plan.cluster m.networks q.network q.resource = some x ∧
    (∀ s ∈ q.sources, ∃ i, groupMap m.groups s = some i) ∧
      ∃ r, p.rules.head? = some r ∧ SameRule r (policyRule m.groups q x.id)

/-- A rule the apply leaves as it is: of a policy that is neither planned nor dropped, or
that another policy of its name hides; or one behind the planned rule of a policy that is
as planned. -/
def LeftRule (r : NbPolicyRule) : Prop :=
  ∃ p ∈ m.policies, p.enabled = true ∧
    ((plan.dropsPolicy p = false ∧
        (∀ q ∈ plan.policies, pick (policyKind S plan.cluster) m.policies q.name ≠ some p) ∧
          r ∈ p.rules) ∨
      ∃ q ∈ plan.policies, pick (policyKind S plan.cluster) m.policies q.name = some p ∧
        AsPlanned S plan m q p ∧ r ∈ p.rules.tail)

/-- Who reaches what by the rules that are left. -/
def LeftReach (g address : String) (proto : Proto) (port : Nat) : Prop :=
  ∃ r, LeftRule S plan m r ∧ r.Lets g proto port ∧ Points S plan m r address

end

/-- Who reaches what by the plan. -/
def Compiled (plan : PeopleAccessPlan) (name address : String) (proto : Proto) (port : Nat) :
    Prop :=
  ∃ q ∈ plan.policies, q.protocol = proto ∧ toString port ∈ q.ports ∧ name ∈ q.sources ∧
    ∃ n ∈ plan.networks, n.name = q.network ∧ ∃ r ∈ n.resources, r.name = q.resource ∧
      r.address = address

/-! ## Planned policies -/

section

variable {S : IdSupply} {plan : PeopleAccessPlan} {m : Linked S}

variable {groups : List NbGroup} {q : PlannedPolicy} {r : NbPolicyRule} {n : PlannedNetwork}
  {pr : PlannedResource} {x : NbResource}

theorem lets_policyRule {i g : String} {proto : Proto} {port : Nat} (hq : q.ports ≠ [])
    (h : SameRule r (policyRule groups q i)) : r.Lets g proto port ↔
      q.protocol = proto ∧ toString port ∈ q.ports ∧ g ∈ q.sources.map (groupId groups) := by
  have hports : r.ports.Perm q.ports := h.ports
  have hproto : r.protocol = q.protocol.protocol := h.protocol
  have hsrc : r.sources.Perm (q.sources.map (groupId groups)) := h.sources
  constructor
  · rintro ⟨-, -, hp, hport, hg⟩
    refine ⟨?_, ?_, hsrc.mem_iff.mp hg⟩
    · rcases hp with hp | hp
      · exact protocol_injective (hproto.symm.trans hp)
      · rw [hproto] at hp
        cases hqp : q.protocol <;> rw [hqp] at hp <;> cases hp
    · rcases hport with hport | hport
      · rw [hport] at hports
        exact absurd (nil_perm.mp hports) hq
      · exact hports.mem_iff.mp hport
  · rintro ⟨rfl, hport, hg⟩
    exact ⟨h.enabled, h.action, .inl hproto, .inr (hports.mem_iff.mpr hport), hsrc.mem_iff.mpr hg⟩

/-- The object of a planned resource is for the rules that name it alone. -/
theorem serves_policyRule (hplan : plan.WellBuilt) (hN : NamesDistinct plan) {address : String}
    (hn : n ∈ plan.networks) (hr : pr ∈ n.resources)
    (hobj : objectOf S plan.cluster (applyPeopleAccessPlan S plan m.toControlPlane).networks n.name
      pr.name = some x) (h : SameRule r (policyRule groups q x.id)) :
    (applyPeopleAccessPlan S plan m.toControlPlane).Serves r address ↔ pr.address = address := by
  obtain ⟨y, hy, hstanding⟩ := exists_objectOf (m := m) hplan hN hn hr
  obtain rfl : x = y := some.inj (hobj.symm.trans hy)
  have hmem := (mem_resources_iff (m := m) hplan hN).mpr (.inr ⟨n, hn, pr, hr, hobj⟩)
  have hid : x.id ≠ "" := by
    cases hbefore : objectOf S plan.cluster m.networks n.name pr.name with
    | none =>
      obtain ⟨k, -, hk⟩ := hstanding.new hbefore
      rw [hk]
      exact (m.plain k).1
    | some a =>
      rw [hstanding.old a hbefore]
      obtain ⟨net, hnet, ha⟩ := bind_eq_some_iff.mp hbefore
      exact m.resourcesNamed a (mem_flatMap.mpr ⟨net, (pick_mem hnet).1, (pick_mem ha).1⟩)
  have htarget : r.destinationResource = some x.id := by
    have hres : r.destinationResource.getD "" = x.id := h.resource
    cases hd : r.destinationResource with
    | none =>
      rw [hd] at hres
      exact absurd hres.symm hid
    | some i =>
      rw [hd] at hres
      rw [show i = x.id from hres]
  have hdest : r.destinations = [] := h.destinations.eq_nil
  constructor
  · rintro ⟨z, hz, -, haddr, hfor | ⟨d, hd, -⟩⟩
    · have hzx : z.id = x.id := some.inj (hfor.symm.trans htarget)
      obtain rfl := resource_id_inj hz hmem hzx
      exact hstanding.address.symm.trans haddr
    · rw [hdest] at hd
      cases hd
  · exact fun haddr => ⟨x, hmem, hstanding.enabled, hstanding.address.trans haddr, .inl htarget⟩

theorem silent_of_distinct (hplan : plan.WellBuilt) (hN : NamesDistinct plan) :
    Silent (networkKind S plan.cluster)
      (applyPeopleAccessPlan S plan m.toControlPlane).networks
      (phases S plan m.toControlPlane).networkBodies plan.dropsNetwork :=
  (silent_networks_iff hplan).mpr (resourcesAgree_of_distinct hplan hN)

/-- The id a policy is sent with is that of its resource's object. -/
theorem resourceId_eq (hN : NamesDistinct plan) (hn : n ∈ plan.networks) (hr : pr ∈ n.resources)
    (hobj : objectOf S plan.cluster (applyPeopleAccessPlan S plan m.toControlPlane).networks n.name
      pr.name = some x) {e : String × String}
    (he : e ∈ resourceIds S plan.cluster (phases S plan m.toControlPlane).networks.1
      (phases S plan m.toControlPlane).networkBodies)
    (hkey : e.1 = n.name ++ "/" ++ pr.name) : e.2 = x.id := by
  obtain ⟨b, hb, net, hnet, rb, hrb, y, hy, rfl⟩ := mem_resourceIds.mp he
  obtain ⟨n', hn', rfl⟩ := mem_map.mp hb
  obtain ⟨pr', hr', rfl⟩ := mem_map.mp hrb
  obtain ⟨rfl, rfl⟩ := hN.key hn' hn hr' hr hkey
  have hpick := (pick_synced networkKind_lawful (fresh_networks (m := m.toNumbered)) drops_network
    hb).trans hnet
  have hyobj : objectOf S plan.cluster (applyPeopleAccessPlan S plan m.toControlPlane).networks
      n'.name pr'.name = some y := bind_eq_some_iff.mpr ⟨net, hpick, hy⟩
  rw [some.inj (hyobj.symm.trans hobj)]

/-- What is sent for a planned policy. -/
structure Sent (S : IdSupply) (plan : PeopleAccessPlan) (m : Linked S) (q : PlannedPolicy)
    (n : PlannedNetwork) (pr : PlannedResource) (x : NbResource) : Prop where
  network : n ∈ plan.networks
  resource : pr ∈ n.resources
  networkName : n.name = q.network
  resourceName : pr.name = q.resource
  object : objectOf S plan.cluster (applyPeopleAccessPlan S plan m.toControlPlane).networks n.name
    pr.name = some x
  standing : Standing S m.issued (objectOf S plan.cluster m.networks n.name pr.name) pr.address
    (groupId (phases S plan m.toControlPlane).groups.1 pr.group) x
  body : (⟨q.name, policyRule (phases S plan m.toControlPlane).groups.1 q x.id⟩ : PolicyBody) ∈
    (phases S plan m.toControlPlane).policyBodies

theorem exists_sent (hplan : plan.WellBuilt) (hN : NamesDistinct plan)
    (hq : q ∈ plan.policies) : ∃ n pr x, Sent S plan m q n pr x := by
  obtain ⟨n, hn, hname, pr, hr, hrname⟩ := (hplan.policy q hq).planned
  obtain ⟨x, hobj, hstanding⟩ := exists_objectOf (m := m) hplan hN hn hr
  obtain ⟨e, he, hkey, hbody⟩ := exists_resourceId hplan (silent_of_distinct (m := m) hplan hN) hq
  rw [← hname, ← hrname] at hkey
  rw [resourceId_eq hN hn hr hobj he hkey] at hbody
  exact ⟨n, pr, x, hn, hr, hname, hrname, hobj, hstanding, hbody⟩

theorem body_name {ids : List (String × String)}
    {b : PolicyBody} (h : policyBody groups ids q = some b) : b.name = q.name := by
  obtain ⟨e, -, rfl⟩ := map_eq_some_iff.mp h
  rfl

theorem nodup_filterMap {α β κ : Type} {f : α → Option β} {w : β → κ} {name : α → κ}
    (hf : ∀ a b, f a = some b → w b = name a) {xs : List α} (h : (xs.map name).Nodup) :
    ((xs.filterMap f).map w).Nodup := by
  have hsub : ((xs.filterMap f).map w).Sublist (xs.map name) := by
    clear h
    induction xs with
    | nil => exact .refl _
    | cons a xs ih =>
      cases ha : f a with
      | none =>
        rw [filterMap_cons_none ha]
        exact ih.cons _
      | some b =>
        rw [filterMap_cons_some ha, map_cons, map_cons, hf a b ha]
        exact ih.cons_cons _
  exact hsub.nodup h

theorem nodup_bodies (hN : NamesDistinct plan) :
    ((phases S plan m.toControlPlane).policyBodies.map (policyKind S plan.cluster).want).Nodup :=
  nodup_filterMap (fun _ _ h => body_name h) hN.policies

/-- The policies after a run: those left as they were, and one for each planned. -/
theorem mem_policies_iff (hplan : plan.WellBuilt) (hN : NamesDistinct plan) {p : NbPolicy} :
    p ∈ (applyPeopleAccessPlan S plan m.toControlPlane).policies ↔
      (p ∈ m.policies ∧ plan.dropsPolicy p = false ∧
        ∀ q ∈ plan.policies, pick (policyKind S plan.cluster) m.policies q.name ≠ some p) ∨
      ∃ q ∈ plan.policies, pick (policyKind S plan.cluster)
        (applyPeopleAccessPlan S plan m.toControlPlane).policies q.name = some p := by
  have hbody : ∀ P : String → Prop,
      (∀ b ∈ (phases S plan m.toControlPlane).policyBodies, P b.name) ↔
      ∀ q ∈ plan.policies, P q.name := by
    intro P
    constructor
    · intro h q hq
      obtain ⟨n, pr, x, hsent⟩ := exists_sent (m := m) hplan hN hq
      exact h _ hsent.body
    · intro h b hb
      obtain ⟨q, hq, hqb⟩ := mem_filterMap.mp hb
      rw [body_name hqb]
      exact h q hq
  refine (mem_synced_iff policyKind_lawful (fresh_policies (m := m.toNumbered)) drops_policy
    (nodup_bodies hN)).trans (or_congr ?_ ?_)
  · constructor
    · rintro ⟨hp, hkept, hfree⟩
      exact ⟨hp, hkept, (hbody fun name =>
        pick (policyKind S plan.cluster) m.policies name ≠ some p).mp hfree⟩
    · rintro ⟨hp, hkept, hfree⟩
      exact ⟨hp, hkept, (hbody fun name =>
        pick (policyKind S plan.cluster) m.policies name ≠ some p).mpr hfree⟩
  · rw [← not_iff_not]
    push Not
    exact hbody fun name => pick (policyKind S plan.cluster)
      (applyPeopleAccessPlan S plan m.toControlPlane).policies name ≠ some p

/-- The policy taken for a planned one after a run. -/
theorem exists_policy (hplan : plan.WellBuilt) (hN : NamesDistinct plan)
    (hq : q ∈ plan.policies) : ∃ n pr x, Sent S plan m q n pr x ∧ ∃ p,
      pick (policyKind S plan.cluster) (applyPeopleAccessPlan S plan m.toControlPlane).policies
          q.name = some p ∧
        Taken (policyKind S plan.cluster) m.policies (phases S plan m.toControlPlane).networks.2
          ⟨q.name, policyRule (phases S plan m.toControlPlane).groups.1 q x.id⟩ p := by
  obtain ⟨n, pr, x, hsent⟩ := exists_sent (m := m) hplan hN hq
  refine ⟨n, pr, x, hsent, ?_⟩
  obtain ⟨u, news, hE⟩ := exists_ensured (K := policyKind S plan.cluster) policyKind_lawful
    (fresh_policies (m := m.toNumbered)) (phases S plan m.toControlPlane).policyBodies
  obtain ⟨p, hp⟩ := hE.exists_pick policyKind_lawful hsent.body
  have hpick := (pick_synced policyKind_lawful (fresh_policies (m := m.toNumbered)) drops_policy
    hsent.body).trans hp
  refine ⟨p, hpick, hE.taken policyKind_lawful ?_ hsent.body hp⟩
  exact fun b hb b' hb' => inj_on_of_nodup_map (nodup_bodies hN) hb hb'

theorem sources_before {p : NbPolicy} (hp : p ∈ m.policies) (hr : r ∈ p.rules)
    {i : String} (hi : i ∈ r.sources ++ r.destinations) : S.Before m.issued i := by
  refine m.refs i (mem_append_right _ (mem_flatMap.mpr ⟨p, hp, ?_⟩))
  exact mem_flatMap.mpr ⟨r, hr, hi⟩

theorem policyRule_congr {groups' : List NbGroup} {i : String}
    (h : ∀ s ∈ q.sources, groupId groups s = groupId groups' s) :
    policyRule groups q i = policyRule groups' q i := by
  unfold policyRule
  rw [map_congr_left h]

/-- Whether a policy is as it is sent is seen from the control plane as it was. -/
theorem ok_iff_asPlanned (hplan : plan.WellBuilt) (hq : q ∈ plan.policies)
    (hsent : Sent S plan m q n pr x) {p : NbPolicy} (hp : p ∈ m.policies) :
    (policyKind S plan.cluster).ok
        ⟨q.name, policyRule (phases S plan m.toControlPlane).groups.1 q x.id⟩ p = true ↔
      AsPlanned S plan m.toControlPlane q p := by
  have hstanding := hsent.standing
  rw [hsent.networkName, hsent.resourceName] at hstanding
  have hknown : ∀ s ∈ q.sources, ∀ i, groupMap m.groups s = some i →
      groupId (phases S plan m.toControlPlane).groups.1 s = groupId m.groups s := by
    intro s hs i hi
    have hst : groupMap (m.groups, m.issued).1 s = some i := hi
    rw [groupId_of_groupMap hi]
    exact groupId_of_groupMap (groupMap_ensureGroups_of_some plan.groups hst)
  rw [policyKind_ok]
  constructor
  · rintro ⟨⟨r, hr, hsame⟩, hen⟩
    have hmem : r ∈ p.rules := mem_of_mem_head? hr
    -- the rule names no id that is new, so neither its groups nor its resource are
    have hall : ∀ s ∈ q.sources, ∃ i, groupMap m.groups s = some i := by
      intro s hs
      obtain ⟨i, hi⟩ := exists_groupMap_phases (m := m) ((hplan.policy q hq).sources s hs)
      have hin : i ∈ r.sources := by
        refine hsame.sources.mem_iff.mpr ?_
        rw [← groupId_of_groupMap hi]
        exact mem_map_of_mem hs
      exact ⟨i, (groupMap_phases_iff _ (sources_before hp hmem (mem_append_left _ hin))).mp hi⟩
    have hres : r.destinationResource.getD "" = x.id := hsame.resource
    refine ⟨hen, ?_⟩
    cases hbefore : objectOf S plan.cluster m.networks q.network q.resource with
    | none =>
      obtain ⟨k, hk, hid⟩ := hstanding.new hbefore
      rw [hid] at hres
      cases hd : r.destinationResource with
      | none =>
        rw [hd] at hres
        exact absurd hres.symm (m.plain k).1
      | some i =>
        rw [hd] at hres
        exact absurd hres (m.targets p hp r hmem i hd k hk)
    | some a =>
      refine ⟨a, rfl, hall, r, hr, ?_⟩
      rw [hstanding.old a hbefore] at hsame
      rwa [← policyRule_congr fun s hs => ?_]
      obtain ⟨i, hi⟩ := hall s hs
      exact hknown s hs i hi
  · rintro ⟨hen, a, hbefore, hall, r, hr, hsame⟩
    refine ⟨⟨r, hr, ?_⟩, hen⟩
    rw [hstanding.old a hbefore]
    rwa [policyRule_congr fun s hs => ?_]
    obtain ⟨i, hi⟩ := hall s hs
    exact hknown s hs i hi

/-! ## Who reaches what after an apply -/

/-- The rule sent for a planned policy lets exactly those through that the plan does. -/
theorem reach_of_sent (hplan : plan.WellBuilt) (hN : NamesDistinct plan) (hq : q ∈ plan.policies)
    (hsent : Sent S plan m q n pr x) {g address : String} {proto : Proto} {port : Nat}
    (h : SameRule r (policyRule (phases S plan m.toControlPlane).groups.1 q x.id)) :
    (r.Lets g proto port ∧ (applyPeopleAccessPlan S plan m.toControlPlane).Serves r address) ↔
      q.protocol = proto ∧ toString port ∈ q.ports ∧
        (∃ s ∈ q.sources, groupMap (phases S plan m.toControlPlane).groups.1 s = some g) ∧
          pr.address = address := by
  have hsrc : g ∈ q.sources.map (groupId (phases S plan m.toControlPlane).groups.1) ↔
      ∃ s ∈ q.sources, groupMap (phases S plan m.toControlPlane).groups.1 s = some g := by
    rw [List.mem_map]
    refine exists_congr fun s => and_congr_right fun hs => ?_
    obtain ⟨i, hi⟩ := exists_groupMap_phases (m := m) ((hplan.policy q hq).sources s hs)
    rw [groupId_of_groupMap hi, hi, Option.some.injEq]
  rw [lets_policyRule (hplan.policy q hq).someport h, hsrc,
    serves_policyRule hplan hN hsent.network hsent.resource hsent.object h]
  simp only [and_assoc]

/-- After a run a group reaches what the plan lets it reach, and what the rules that were
left let it. -/
theorem reach_iff (hplan : plan.WellBuilt) (hN : NamesDistinct plan) {g address : String}
    {proto : Proto} {port : Nat} :
    (applyPeopleAccessPlan S plan m.toControlPlane).Reach g address proto port ↔
      (∃ name, groupMap (phases S plan m.toControlPlane).groups.1 name = some g ∧
        Compiled plan name address proto port) ∨
      LeftReach S plan m.toControlPlane g address proto port := by
  have hpoints : ∀ p ∈ m.policies, ∀ r ∈ p.rules,
      ((applyPeopleAccessPlan S plan m.toControlPlane).Serves r address ↔
        Points S plan m.toControlPlane r address) := fun p hp r hr =>
    points_iff hplan hN (fun d hd => sources_before hp hr (mem_append_right _ hd))
      (m.targets p hp r hr)
  constructor
  · rintro ⟨p, hp, hen, r, hr, hlets, hserves⟩
    rcases (mem_policies_iff hplan hN).mp hp with ⟨hm, hkept, hfree⟩ | ⟨q, hq, hpick⟩
    · exact .inr ⟨r, ⟨p, hm, hen, .inl ⟨hkept, hfree, hr⟩⟩, hlets, (hpoints p hm r hr).mp hserves⟩
    · obtain ⟨n, pr, x, hsent, p', hpick', htaken⟩ := exists_policy (m := m) hplan hN hq
      obtain rfl : p = p' := some.inj (hpick.symm.trans hpick')
      have hcompiled : SameRule r (policyRule (phases S plan m.toControlPlane).groups.1 q x.id) →
          ∃ name, groupMap (phases S plan m.toControlPlane).groups.1 name = some g ∧
            Compiled plan name address proto port := by
        intro hsame
        obtain ⟨hproto, hport, ⟨s, hs, hg⟩, haddr⟩ :=
          (reach_of_sent hplan hN hq hsent hsame).mp ⟨hlets, hserves⟩
        exact ⟨s, hg, q, hq, hproto, hport, hs, n, hsent.network, hsent.networkName, pr,
          hsent.resource, hsent.resourceName, haddr⟩
      cases hbefore : pick (policyKind S plan.cluster) m.policies q.name with
      | none =>
        obtain ⟨n', -, rfl⟩ := htaken.new hbefore
        obtain rfl := mem_singleton.mp hr
        exact .inl (hcompiled (.refl _))
      | some a =>
        rcases htaken.old a hbefore with ⟨hok, rfl⟩ | ⟨-, n', -, rfl⟩
        · have hm : p ∈ m.policies := (pick_mem hbefore).1
          have hplanned := (ok_iff_asPlanned hplan hq hsent hm).mp hok
          obtain ⟨⟨r₀, hr₀, hsame⟩, -⟩ := policyKind_ok.mp hok
          obtain ⟨tail, hrules⟩ : ∃ tail, p.rules = r₀ :: tail := by
            cases hcases : p.rules with
            | nil =>
              rw [hcases] at hr₀
              cases hr₀
            | cons r₁ tail =>
              rw [hcases] at hr₀
              exact ⟨tail, by rw [some.inj hr₀]⟩
          have hcases : r = r₀ ∨ r ∈ tail := by
            rw [hrules] at hr
            exact mem_cons.mp hr
          rcases hcases with rfl | htail
          · exact .inl (hcompiled hsame)
          · refine .inr ⟨r, ⟨p, hm, hen, .inr ⟨q, hq, hbefore, hplanned, ?_⟩⟩, hlets,
              (hpoints p hm r hr).mp hserves⟩
            rw [hrules]
            exact htail
        · obtain rfl := mem_singleton.mp hr
          exact .inl (hcompiled (.refl _))
  · rintro (⟨name, hg, q, hq, hproto, hport, hs, n, hn, hname, pr, hr, hrname, haddr⟩ |
      ⟨r, ⟨p, hp, hen, hleft⟩, hlets, hserves⟩)
    · obtain ⟨n', pr', x, hsent, p, hpick, htaken⟩ := exists_policy (m := m) hplan hN hq
      obtain ⟨rfl, rfl⟩ : n' = n ∧ pr' = pr := by
        refine hN.key hsent.network hn hsent.resource hr ?_
        rw [hsent.networkName, hsent.resourceName, hname, hrname]
      obtain ⟨hen, r, hrmem, hsame⟩ : p.enabled = true ∧ ∃ r ∈ p.rules,
          SameRule r (policyRule (phases S plan m.toControlPlane).groups.1 q x.id) := by
        cases hbefore : pick (policyKind S plan.cluster) m.policies q.name with
        | none =>
          obtain ⟨k, -, rfl⟩ := htaken.new hbefore
          exact ⟨rfl, _, mem_singleton_self _, .refl _⟩
        | some a =>
          rcases htaken.old a hbefore with ⟨hok, rfl⟩ | ⟨-, k, -, rfl⟩
          · obtain ⟨⟨r₀, hr₀, hsame⟩, hen⟩ := policyKind_ok.mp hok
            exact ⟨hen, r₀, mem_of_mem_head? hr₀, hsame⟩
          · exact ⟨rfl, _, mem_singleton_self _, .refl _⟩
      obtain ⟨hlets, hserves⟩ := (reach_of_sent hplan hN hq hsent hsame).mpr
        ⟨hproto, hport, ⟨name, hs, hg⟩, haddr⟩
      exact ⟨p, (mem_policies_iff hplan hN).mpr (.inr ⟨q, hq, hpick⟩), hen, r, hrmem,
        hlets, hserves⟩
    · rcases hleft with ⟨hkept, hfree, hr⟩ | ⟨q, hq, hbefore, hplanned, hr⟩
      · exact ⟨p, (mem_policies_iff hplan hN).mpr (.inl ⟨hp, hkept, hfree⟩), hen, r, hr, hlets,
          (hpoints p hp r hr).mpr hserves⟩
      · obtain ⟨n, pr, x, hsent, p', hpick, htaken⟩ := exists_policy (m := m) hplan hN hq
        have hok := (ok_iff_asPlanned hplan hq hsent hp).mpr hplanned
        have hmem : r ∈ p.rules := mem_of_mem_tail hr
        obtain rfl : p' = p := by
          rcases htaken.old p hbefore with ⟨-, h⟩ | ⟨hnot, -⟩
          · exact h
          · rw [hok] at hnot
            cases hnot
        exact ⟨p', (mem_policies_iff hplan hN).mpr (.inr ⟨q, hq, hpick⟩), hen, r, hmem, hlets,
          (hpoints p' hp r hmem).mpr hserves⟩

end

/-! ## The plan is what was granted -/

theorem opens_iff {g : PersonalGrantIntent} {ports : List Nat} {port : Nat} :
    port ∈ g.allowed ports ↔ port ∈ ports ∧ g.Opens port := by
  unfold PersonalGrantIntent.allowed PersonalGrantIntent.Opens
  split
  · next h => simp [h]
  · next h => simp [h]
  · next ps hne h =>
    simp only [h, getD_some, mem_filter, decide_eq_true_eq]
    refine and_congr_right fun _ => (or_iff_right ?_).symm
    rintro rfl
    exact hne rfl

theorem mem_portsOf {svc : PeopleServiceIntent} {proto : Proto} {port : Nat} :
    port ∈ svc.portsOf proto ↔ ⟨port, proto⟩ ∈ svc.ports := by
  unfold PeopleServiceIntent.portsOf
  rw [List.mem_map]
  constructor
  · rintro ⟨p, hp, rfl⟩
    obtain ⟨hp, hproto⟩ := mem_filter.mp hp
    rw [← of_decide_eq_true hproto]
    exact hp
  · intro h
    exact ⟨_, mem_filter.mpr ⟨h, decide_eq_true rfl⟩, rfl⟩

theorem mem_stackResources {st : PeopleStackIntent} {svc : PeopleServiceIntent} :
    svc ∈ st.resources ↔ svc ∈ st.services ∧ isIpv4 svc.vip = true ∧ svc.ports ≠ [] := by
  unfold PeopleStackIntent.resources
  rw [mem_insertionSort, mem_filter, Bool.and_eq_true, decide_eq_true_eq, gt_iff_lt,
    length_pos_iff]

theorem mem_openStacks {intent : PeopleAccessIntent} {st : PeopleStackIntent} :
    st ∈ intent.openStacks ↔ st ∈ intent.stackList ∧ st.isClosed = false := by
  unfold PeopleAccessIntent.openStacks
  rw [mem_filter, mem_insertionSort, Bool.not_eq_true']

theorem exists_planPolicy {cluster : String} {st : PeopleStackIntent} {svc : PeopleServiceIntent}
    {proto : Proto} {e : List Nat × List String} (he : e ∈ sourceSets cluster st svc proto)
    (hports : svc.portsOf proto ≠ []) : ∃ q ∈ planPolicies cluster st svc proto,
      q.sources = sorted e.2 ∧ q.network = networkName cluster st.stackId ∧ q.resource = svc.name ∧
        q.protocol = proto ∧ q.ports = e.1.map toString := by
  unfold planPolicies
  rw [if_neg hports]
  have hmem := (mem_insertionSort (fun a b : List Nat × List String =>
    portKey a.1 ≤ portKey b.1)).mpr he
  obtain ⟨i, hi, hget⟩ := getElem_of_mem hmem
  refine ⟨_, mem_mapIdx.mpr ⟨i, hi, rfl⟩, ?_⟩
  rw [hget]
  exact ⟨rfl, rfl, rfl, rfl, rfl⟩

/-- Where resources' names are distinct, the plan lets a group reach what it has been
granted. -/
theorem compiled_iff_granted {toLowerCase : String → String} {intent : PeopleAccessIntent}
    (hN : NamesDistinct (buildPeopleAccessPlan toLowerCase intent)) {name address : String}
    {proto : Proto} {port : Nat} :
    Compiled (buildPeopleAccessPlan toLowerCase intent) name address proto port ↔
      Granted intent name address proto port := by
  constructor
  · rintro ⟨q, hq, hproto, hport, hname, n, hn, hnname, pr, hr, hrname, haddr⟩
    obtain ⟨st, hst, svc, hsvc, proto', hq'⟩ := mem_policies.mp hq
    obtain ⟨i, e, he, rfl⟩ := mem_planPolicies hq'
    obtain rfl : proto' = proto := hproto
    obtain ⟨st', hst', rfl⟩ := mem_networks.mp hn
    -- the policy's resource is its own service
    obtain rfl : st' = st := inj_on_of_nodup_map openStacks_nodup hst' hst
      (networkName_injective hnname)
    have hown : (⟨svc.name, svc.vip ++ "/32", resourceGroup intent.cluster st'.stackId⟩ :
        PlannedResource) ∈ (planNetwork intent.cluster st').resources := mem_map_of_mem hsvc
    obtain rfl := inj_on_of_nodup_map (hN.resourceNames hn) hr hown hrname
    have hport' : port ∈ e.1 := by
      obtain ⟨p, hp, he⟩ := mem_map.mp hport
      rw [← Js.toString_injective he]
      exact hp
    obtain ⟨hsvc, hvip, -⟩ := mem_stackResources.mp hsvc
    obtain ⟨hdecl, hgrant⟩ := reaches_sourceSets.mp ⟨e, he, hport', mem_sorted.mp hname⟩
    refine ⟨st', (mem_openStacks.mp hst).1, svc, hsvc, hvip, haddr, mem_portsOf.mp hdecl,
      hgrant.imp_right ?_⟩
    rintro ⟨g, hg, hc, hs, hp⟩
    exact ⟨g, hg, hc, hs, (opens_iff.mp hp).2⟩
  · rintro ⟨st, hst, svc, hsvc, hvip, haddr, hdecl, hgrant⟩
    have hopen : st ∈ intent.openStacks := by
      refine mem_openStacks.mpr ⟨hst, ?_⟩
      unfold PeopleStackIntent.isClosed
      rcases hgrant with ⟨hr, -⟩ | ⟨g, hg, -⟩
      · rw [hr, Bool.not_true, Bool.false_and]
      · cases hgs : st.grants with
        | nil =>
          rw [hgs] at hg
          cases hg
        | cons _ _ => rw [isEmpty_cons, Bool.and_false]
    have hres : svc ∈ st.resources :=
      mem_stackResources.mpr ⟨hsvc, hvip, ne_nil_of_mem hdecl⟩
    have hportsOf : port ∈ svc.portsOf proto := mem_portsOf.mpr hdecl
    obtain ⟨e, he, hp, hs⟩ : Reaches (sourceSets intent.cluster st svc proto) name port := by
      refine reaches_sourceSets.mpr ⟨hportsOf, hgrant.imp_right ?_⟩
      rintro ⟨g, hg, hc, hs, ho⟩
      exact ⟨g, hg, hc, hs, opens_iff.mpr ⟨hportsOf, ho⟩⟩
    obtain ⟨q, hq, hsrc, hnet, hqres, hproto, hports⟩ := exists_planPolicy he
      (ne_nil_of_mem hportsOf)
    refine ⟨q, mem_policies.mpr ⟨st, hopen, svc, hres, proto, hq⟩, hproto, ?_, ?_, ?_⟩
    · rw [hports]
      exact mem_map_of_mem hp
    · rw [hsrc]
      exact mem_sorted.mpr hs
    · exact ⟨_, mem_networks.mpr ⟨st, hopen, rfl⟩, hnet.symm, _, mem_map_of_mem hres,
        hqres.symm, haddr⟩

theorem groups_nodup {toLowerCase : String → String} {intent : PeopleAccessIntent} :
    (buildPeopleAccessPlan toLowerCase intent).groups.Nodup :=
  (sorted_perm _).nodup_iff.mpr (Js.nodup_unique _)

/-! ## The condition -/

/-- No two services that somebody may reach have one stack and name, or names of policies in
common, and no rule the apply leaves as it was lets a group reach more than it has been granted. -/
structure NothingElse (toLowerCase : String → String) (S : IdSupply) (intent : PeopleAccessIntent)
    (m : ControlPlane) : Prop where
  resources : intent.members.Pairwise fun a b =>
    a.1.stackId ++ "/" ++ a.2.name ≠ b.1.stackId ++ "/" ++ b.2.name
  policies : intent.members.Pairwise Member.Apart
  left : ∀ g address proto port,
    LeftReach S (buildPeopleAccessPlan toLowerCase intent) m g address proto port →
      ∃ name, groupMap m.groups name = some g ∧ Granted intent name address proto port

/-- Access after an apply is what was granted, by distinct names, exactly where the services are
apart and no rule that is left lets through more. -/
theorem peopleAccess_exact_iff (toLowerCase : String → String) (S : IdSupply)
    (intent : PeopleAccessIntent) (m : Linked S) :
    Exact toLowerCase S intent m ↔ NothingElse toLowerCase S intent m.toControlPlane := by
  have hold : ∀ {g address proto port name},
      LeftReach S (buildPeopleAccessPlan toLowerCase intent) m.toControlPlane g address proto port →
        (groupMap (applyPeopleAccessPlan S (buildPeopleAccessPlan toLowerCase intent)
          m.toControlPlane).groups name = some g ↔ groupMap m.groups name = some g) := by
    rintro g address proto port name ⟨r, ⟨p, hp, -, hleft⟩, hlets, -⟩
    have hr : r ∈ p.rules := by
      rcases hleft with ⟨-, -, hr⟩ | ⟨-, -, -, -, hr⟩
      · exact hr
      · exact mem_of_mem_tail hr
    exact groupMap_phases_iff _ (sources_before hp hr (mem_append_left _ hlets.source))
  constructor
  · rintro ⟨hreach, hN⟩
    refine ⟨nodup_resources_iff.mp hN.resources, nodup_policies_iff.mp hN.policies,
      fun g address proto port hleft => ?_⟩
    obtain ⟨name, hg, hgranted⟩ := (hreach g address proto port).mp
      ((reach_iff wellBuilt hN).mpr (.inr hleft))
    exact ⟨name, (hold hleft).mp hg, hgranted⟩
  · rintro ⟨hres, hpol, hleft⟩
    have hN : NamesDistinct (buildPeopleAccessPlan toLowerCase intent) :=
      ⟨groups_nodup, nodup_resources_iff.mpr hres, nodup_policies_iff.mpr hpol⟩
    refine ⟨fun g address proto port => (reach_iff wellBuilt hN).trans ?_, hN⟩
    simp only [compiled_iff_granted hN]
    refine or_iff_left_of_imp fun h => ?_
    obtain ⟨name, hg, hgranted⟩ := hleft g address proto port h
    exact ⟨name, (hold h).mpr hg, hgranted⟩

theorem serial_plain (k : Nat) : Plain (serial.issue k) := by
  have hlist : (serial.issue k).toList = 'n' :: 'b' :: (toString k).toList := by
    show ("nb" ++ toString k).toList = _
    rw [String.toList_append]
    rfl
  refine ⟨fun h => ?_, fun h => ?_⟩
  · rw [h] at hlist
    cases hlist
  · rw [hlist, Nat.toString_eq_ofList_toDigits, String.toList_ofList] at h
    have hdigit : ',' ∈ Nat.toDigits 10 k := by simpa using h
    exact absurd (Nat.isDigit_of_mem_toDigits (by decide) (by decide) hdigit) (by decide)

theorem serial_given_nil : serial.Given 0 [] := ⟨nodup_nil, forall_mem_nil _⟩

theorem groupsFresh_nil : GroupsFresh serial [] 0 := ⟨nodup_nil, forall_mem_nil _⟩

/-- A mesh without any objects. -/
def bare : Linked serial where
  groups := []
  networks := []
  policies := []
  zones := []
  issued := 0
  groupIds := groupsFresh_nil
  networkIds := serial_given_nil
  resourceIds := serial_given_nil
  policyIds := serial_given_nil
  zoneIds := serial_given_nil
  recordIds := serial_given_nil
  plain := serial_plain
  groupsPlain := forall_mem_nil _
  resourcesNamed := forall_mem_nil _
  refs := forall_mem_nil _
  targets := forall_mem_nil _

/-- A stack with a service `db` on UDP and a service `db-udp` on TCP. -/
def sharedName : PeopleAccessIntent where
  cluster := "lon"
  stackList := [⟨"app", "app", [⟨"db", "10.0.0.2", [⟨53, .udp⟩]⟩,
    ⟨"db-udp", "10.0.0.3", [⟨53, .tcp⟩]⟩],
    true, []⟩]
  nodup := nodup_singleton _

/-- Both services' policies get one name. -/
theorem peopleAccess_shares_policy : ¬ Exact Js.toLowerCase serial sharedName bare := by
  intro h
  have hpolicies := h.names.policies
  revert hpolicies
  decide

end Swarmy.Mesh
