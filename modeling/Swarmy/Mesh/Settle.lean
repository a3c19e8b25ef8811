import Swarmy.Mesh.Kinds
import Swarmy.Mesh.Plan

/-!
# A second run

After one run every group is there, so a second one plans the same networks and zones;
where those are as they are wanted it finds the same resources, and plans the same
policies.
-/

namespace Swarmy.Mesh

open Keyed List Option Nat

/-- A control plane whose objects have ids of their own. -/
structure Numbered (S : IdSupply) extends ControlPlane where
  groupIds : GroupsFresh S groups issued
  networkIds : S.Given issued (networks.map NbNetwork.id)
  resourceIds : S.Given issued (networks.flatMap fun n => n.resources.map NbResource.id)
  policyIds : S.Given issued (policies.map NbPolicy.id)
  zoneIds : S.Given issued (zones.map NbZone.id)
  recordIds : S.Given issued (zones.flatMap fun z => z.records.map NbRecord.id)

section

variable {S : IdSupply} {plan : PeopleAccessPlan} {m : Numbered S}

/-! ## Ids -/

theorem le_groups : m.issued ≤ (phases S plan m.toControlPlane).groups.2 :=
  le_ensureGroups S (m.groups, m.issued) plan.groups

theorem le_networks :
    (phases S plan m.toControlPlane).groups.2 ≤ (phases S plan m.toControlPlane).networks.2 :=
  le_ensure networkKind_lawful

theorem le_policies :
    (phases S plan m.toControlPlane).networks.2 ≤ (phases S plan m.toControlPlane).policies.2 :=
  le_ensure policyKind_lawful

theorem fresh_networks : Fresh S (networkKind S plan.cluster) m.networks
    (phases S plan m.toControlPlane).groups.2 := m.networkIds.fresh le_groups

theorem fresh_policies : Fresh S (policyKind S plan.cluster) m.policies
    (phases S plan m.toControlPlane).networks.2 :=
  m.policyIds.fresh (le_trans le_groups le_networks)

theorem fresh_zones : Fresh S (zoneKind S plan.cluster) m.zones
    (phases S plan m.toControlPlane).policies.2 :=
  m.zoneIds.fresh (le_trans (le_trans le_groups le_networks) le_policies)

theorem fresh_resources {net : NbNetwork} (h : net ∈ m.networks) {n : Nat} (hn : m.issued ≤ n) :
    Fresh S (resourceKind S) net.resources n where
  nodup := (nodup_flatMap.mp m.resourceIds.nodup).1 net h
  before _ hr := (m.resourceIds.before _
    (mem_flatMap.mpr ⟨net, h, mem_map_of_mem hr⟩)).mono hn

theorem fresh_records {z : NbZone} (h : z ∈ m.zones) {n : Nat} (hn : m.issued ≤ n) :
    Fresh S (recordKind S) z.records n where
  nodup := (nodup_flatMap.mp m.recordIds.nodup).1 z h
  before _ hr := (m.recordIds.before _
    (mem_flatMap.mpr ⟨z, h, mem_map_of_mem hr⟩)).mono hn

/-! ## What is dropped is not planned -/

theorem drops_network {groups : List NbGroup} : Disposes (networkKind S plan.cluster)
    (plan.networks.map (networkBody groups)) plan.dropsNetwork where
  key a a' h := by
    unfold PeopleAccessPlan.dropsNetwork
    rw [show a.name = a'.name from h]
  wanted b hb a h := by
    obtain ⟨n, hn, rfl⟩ := mem_map.mp hb
    have hplanned : plan.networks.any (·.name = a.name) = true :=
      any_eq_true.mpr ⟨n, hn, decide_eq_true h.symm⟩
    unfold PeopleAccessPlan.dropsNetwork
    rw [hplanned, Bool.not_true, Bool.and_false]

theorem drops_policy {groups : List NbGroup} {ids : List (String × String)} :
    Disposes (policyKind S plan.cluster) (plan.policies.filterMap (policyBody groups ids))
      plan.dropsPolicy where
  key a a' h := by
    unfold PeopleAccessPlan.dropsPolicy
    rw [show a.name = a'.name from h]
  wanted b hb a h := by
    obtain ⟨p, hp, hbody⟩ := mem_filterMap.mp hb
    obtain ⟨e, -, rfl⟩ := map_eq_some_iff.mp hbody
    have hplanned : plan.policies.any (·.name = a.name) = true :=
      any_eq_true.mpr ⟨p, hp, decide_eq_true h.symm⟩
    unfold PeopleAccessPlan.dropsPolicy
    rw [hplanned, Bool.not_true, Bool.and_false]

theorem drops_zone {groups : List NbGroup} : Disposes (zoneKind S plan.cluster)
    (plan.zones.map (zoneBody groups)) plan.dropsZone where
  key a a' h := by
    unfold PeopleAccessPlan.dropsZone
    rw [show a.name = a'.name from h]
  wanted b hb a h := by
    obtain ⟨z, hz, rfl⟩ := mem_map.mp hb
    have hplanned : plan.zones.any (·.name = a.name) = true :=
      any_eq_true.mpr ⟨z, hz, decide_eq_true h.symm⟩
    unfold PeopleAccessPlan.dropsZone
    rw [hplanned, Bool.not_true, Bool.and_false]

/-! ## Items of one name -/

/-- Where the names differ, items of one key are one item. -/
theorem eq_of_want {α β γ κ : Type} {K : Kind α β κ} {f : γ → β} {name : γ → κ} {xs : List γ}
    (hname : ∀ x, K.want (f x) = name x) (hxs : (xs.map name).Nodup) {b b' : β} (hb : b ∈ xs.map f)
    (hb' : b' ∈ xs.map f) (hkey : K.want b = K.want b') : b = b' := by
  obtain ⟨x, hx, rfl⟩ := mem_map.mp hb
  obtain ⟨x', hx', rfl⟩ := mem_map.mp hb'
  rw [hname, hname] at hkey
  rw [inj_on_of_nodup_map hxs hx hx' hkey]

theorem same_of_nodup {α β γ κ : Type} {K : Kind α β κ} {f : γ → β} {name : γ → κ} {xs : List γ}
    (hname : ∀ x, K.want (f x) = name x) (hxs : (xs.map name).Nodup) : Same K (xs.map f) := by
  intro b hb b' hb' hkey a a' _ _ ha'
  rw [eq_of_want hname hxs hb hb' hkey]
  exact ha'

theorem agree_of_nodup {α β γ κ : Type} {K : Kind α β κ} {f : γ → β} {name : γ → κ} {xs : List γ}
    (hname : ∀ x, K.want (f x) = name x) (hxs : (xs.map name).Nodup) : Agree K (xs.map f) := by
  intro b hb b' hb' hkey a ha
  rw [eq_of_want hname hxs hb hb' hkey]
  exact ha

/-! ## The three kinds settle -/

/-- The networks of the second run are the first's, as it left them. -/
theorem silent_networks_iff (hplan : plan.WellBuilt) : Silent (networkKind S plan.cluster)
    (applyPeopleAccessPlan S plan m.toControlPlane).networks
    (phases S plan m.toControlPlane).networkBodies plan.dropsNetwork ↔
      ∀ b ∈ (phases S plan m.toControlPlane).networkBodies, ResourcesAgree b.resources := by
  have hset : ∀ b, Settles (networkKind S plan.cluster) m.networks
      (phases S plan m.toControlPlane).groups.2 b ↔ ResourcesAgree b.resources :=
    fun b => network_settles_iff fun net hnet => fresh_resources hnet le_groups
  refine (silent_synced_iff networkKind_lawful fresh_networks drops_network
    (same_of_nodup (fun _ => rfl) hplan.networkNames) ?_).trans ?_
  · exact fun b _ a hok => (hset b).mpr (agree_of_networkKind_ok hok)
  · rw [and_iff_right (agree_of_nodup (fun _ => rfl) hplan.networkNames)]
    exact forall₂_congr fun b _ => hset b

theorem silent_policies_iff : Silent (policyKind S plan.cluster)
    (applyPeopleAccessPlan S plan m.toControlPlane).policies
    (phases S plan m.toControlPlane).policyBodies plan.dropsPolicy ↔
      PoliciesAgree (phases S plan m.toControlPlane).policyBodies := by
  refine (silent_synced_iff policyKind_lawful fresh_policies drops_policy (policies_same _)
    fun b _ _ _ => policy_settles m.policies b).trans ?_
  rw [agree_policies]
  exact and_iff_left fun b _ => policy_settles m.policies b

theorem silent_zones_iff (hplan : plan.WellBuilt) : Silent (zoneKind S plan.cluster)
    (applyPeopleAccessPlan S plan m.toControlPlane).zones
    (phases S plan m.toControlPlane).zoneBodies plan.dropsZone ↔
      ∀ b ∈ (phases S plan m.toControlPlane).zoneBodies, RecordsAgree b.records := by
  have hset : ∀ b ∈ (phases S plan m.toControlPlane).zoneBodies,
      (Settles (zoneKind S plan.cluster) m.zones (phases S plan m.toControlPlane).policies.2 b ↔
        RecordsAgree b.records) := by
    intro b hb
    obtain ⟨z, -, rfl⟩ := mem_map.mp hb
    refine zone_settles_iff (sorted_sorted _) fun z' hz' => fresh_records hz' ?_
    exact le_trans (le_trans le_groups le_networks) le_policies
  refine (silent_synced_iff zoneKind_lawful fresh_zones drops_zone
    (same_of_nodup (fun _ => rfl) hplan.zoneNames) ?_).trans ?_
  · exact fun b hb a hok => (hset b hb).mpr (agree_of_zoneKind_ok hok)
  · rw [and_iff_right (agree_of_nodup (fun _ => rfl) hplan.zoneNames)]
    exact forall₂_congr hset

/-! ## What the second run plans -/

theorem phases_groups_again :
    (phases S plan (applyPeopleAccessPlan S plan m.toControlPlane)).groups =
      ((phases S plan m.toControlPlane).groups.1,
        (applyPeopleAccessPlan S plan m.toControlPlane).issued) :=
  ensureGroups_ensureGroups _

theorem phases_networkBodies_again :
    (phases S plan (applyPeopleAccessPlan S plan m.toControlPlane)).networkBodies =
      (phases S plan m.toControlPlane).networkBodies := by
  show plan.networks.map (networkBody
    (phases S plan (applyPeopleAccessPlan S plan m.toControlPlane)).groups.1) = _
  rw [phases_groups_again]
  rfl

theorem phases_zoneBodies_again :
    (phases S plan (applyPeopleAccessPlan S plan m.toControlPlane)).zoneBodies =
      (phases S plan m.toControlPlane).zoneBodies := by
  show plan.zones.map (zoneBody
    (phases S plan (applyPeopleAccessPlan S plan m.toControlPlane)).groups.1) = _
  rw [phases_groups_again]
  rfl

theorem newGroups_again : newGroups plan (applyPeopleAccessPlan S plan m.toControlPlane) = [] := by
  unfold newGroups
  rw [filter_eq_nil_iff]
  intro name hname
  obtain ⟨i, hi⟩ := exists_groupMap_ensureGroups S (m.groups, m.issued) hname
  show ¬(groupMap (ensureGroups S (m.groups, m.issued) plan.groups).1 name).isNone = true
  rw [hi]
  exact Bool.false_ne_true

theorem resourceIds_congr {cluster : String} {l l' : List NbNetwork} {bodies : List NetworkBody}
    (h : ∀ b ∈ bodies, pick (networkKind S cluster) l b.name =
      pick (networkKind S cluster) l' b.name) :
    resourceIds S cluster l bodies = resourceIds S cluster l' bodies := by
  refine flatMap_congr fun b hb => ?_
  rw [h b hb]

/-- The resources of the second run are the first's. -/
theorem resourceIds_again {n : Nat} (h : Silent (networkKind S plan.cluster)
      (applyPeopleAccessPlan S plan m.toControlPlane).networks
      (phases S plan m.toControlPlane).networkBodies plan.dropsNetwork) :
    resourceIds S plan.cluster (ensure (networkKind S plan.cluster)
        (applyPeopleAccessPlan S plan m.toControlPlane).networks
        (phases S plan m.toControlPlane).networkBodies n).1
      (phases S plan m.toControlPlane).networkBodies =
    resourceIds S plan.cluster (phases S plan m.toControlPlane).networks.1
      (phases S plan m.toControlPlane).networkBodies := by
  rw [ensure_of_ok (silent_iff.mp h).1]
  exact resourceIds_congr fun b hb =>
    pick_synced networkKind_lawful fresh_networks drops_network hb

theorem phases_policyBodies_again (h : Silent (networkKind S plan.cluster)
      (applyPeopleAccessPlan S plan m.toControlPlane).networks
      (phases S plan m.toControlPlane).networkBodies plan.dropsNetwork) :
    (phases S plan (applyPeopleAccessPlan S plan m.toControlPlane)).policyBodies =
      (phases S plan m.toControlPlane).policyBodies := by
  show plan.policies.filterMap (policyBody
    (phases S plan (applyPeopleAccessPlan S plan m.toControlPlane)).groups.1
    (resourceIds S plan.cluster (ensure (networkKind S plan.cluster) _
      (phases S plan (applyPeopleAccessPlan S plan m.toControlPlane)).networkBodies _).1
      (phases S plan (applyPeopleAccessPlan S plan m.toControlPlane)).networkBodies)) = _
  rw [phases_networkBodies_again, resourceIds_again h, phases_groups_again]
  rfl

end

end Swarmy.Mesh

/-!
## Whom a policy is for

After a run the resources of the networks have ids of their own, so a policy's rule on
the control plane tells whom it was planned to let in, and where: `policiesAgree_iff`.
-/

namespace Swarmy.Mesh

open Keyed

/-! ## Ids of resources -/

section

variable {S : IdSupply} {cluster : String} {plan : PeopleAccessPlan} {m : Numbered S} {n : Nat}

def NbNetwork.ids (net : NbNetwork) : List String := net.resources.map NbResource.id

theorem id_syncNetwork {b : NetworkBody} {net : NbNetwork} {i : String}
    (h : i ∈ (syncNetwork S n b net).1.ids) :
    i ∈ net.ids ∨ ∃ k, n ≤ k ∧ k < (syncNetwork S n b net).2 ∧ i = S.issue k := by
  obtain ⟨r, hr, rfl⟩ := List.mem_map.mp h
  rw [syncNetwork_resources] at hr
  refine (id_ensure resourceKind_lawful (List.mem_of_mem_filter hr)).imp_right ?_
  rintro ⟨k, hk, hlt, hid⟩
  exact ⟨k, hk, lt_of_lt_of_le hlt le_syncNetwork, hid⟩

theorem networkKind_within : Within S (networkKind S cluster) NbNetwork.ids where
  make n b i hi := by
    have hnew : i ∈ (syncNetwork S (n + 1) b (newNetwork S cluster n b)).1.ids := hi
    rcases id_syncNetwork hnew with hi | ⟨k, hk, hlt, hid⟩
    · cases hi
    · exact ⟨k, Nat.le_of_succ_le hk, hlt, hid⟩
  put n b net i hi := by
    have hput : i ∈ (syncNetwork S n b net).1.ids := hi
    exact id_syncNetwork hput

theorem apart_networks : Apart S (networkKind S plan.cluster) NbNetwork.ids m.networks
    (phases S plan m.toControlPlane).networks := by
  have happart : ∀ a ∈ m.networks, ∀ a' ∈ m.networks, a.id ≠ a'.id → ∀ i ∈ a.ids, i ∉ a'.ids := by
    intro a ha a' ha' hne i hi hi'
    have hpair := (List.nodup_flatMap.mp m.resourceIds.nodup).2
    have hsymm : Std.Symm (Function.onFun List.Disjoint fun n : NbNetwork =>
        n.resources.map NbResource.id) := ⟨fun _ _ h => List.Disjoint.symm h⟩
    exact hpair.forall ha ha' (fun h => hne (congrArg NbNetwork.id h)) hi hi'
  refine apart_ensure networkKind_lawful networkKind_within ⟨fresh_networks, ?_, happart, happart⟩
  intro a ha i hi
  exact (m.resourceIds.before i (List.mem_flatMap.mpr ⟨a, ha, hi⟩)).mono le_groups

theorem nodup_syncNetwork {b : NetworkBody} {net : NbNetwork}
    (hf : Fresh S (resourceKind S) net.resources n) : (syncNetwork S n b net).1.ids.Nodup := by
  unfold NbNetwork.ids
  rw [syncNetwork_resources]
  have hsub : (synced (resourceKind S) net.resources b.resources b.drops n).Sublist
      (ensure (resourceKind S) net.resources b.resources n).1 := List.filter_sublist
  exact (hsub.map NbResource.id).nodup (Fresh.ensure resourceKind_lawful hf).nodup

/-- The resources of a network have ids of their own. -/
theorem nodup_ids {net : NbNetwork} (h : net ∈ (phases S plan m.toControlPlane).networks.1) :
    net.ids.Nodup := by
  obtain ⟨u, news, hE⟩ := exists_ensured (K := networkKind S plan.cluster) networkKind_lawful
    (fresh_networks (m := m)) (phases S plan m.toControlPlane).networkBodies
  have hmem : net ∈ m.networks.map u ++ news := hE.eq ▸ h
  rcases List.mem_append.mp hmem with hmem | hmem
  · obtain ⟨a, ha, rfl⟩ := List.mem_map.mp hmem
    rcases hE.old a ha with ⟨hu, -⟩ | ⟨b, -, -, -, n', hn', hu⟩
    · rw [hu]
      exact (fresh_resources ha (le_refl _)).nodup
    · rw [hu]
      exact nodup_syncNetwork (fresh_resources ha (le_trans le_groups hn'))
  · obtain ⟨b, -, -, n', -, rfl⟩ := hE.new net hmem
    exact nodup_syncNetwork fresh_nil

theorem mem_resourceIds {nets : List NbNetwork} {bodies : List NetworkBody} {e : String × String} :
    e ∈ resourceIds S cluster nets bodies ↔ ∃ b ∈ bodies, ∃ net,
      pick (networkKind S cluster) nets b.name = some net ∧ ∃ r ∈ b.resources, ∃ x,
        pick (resourceKind S) net.resources r.name = some x ∧
          (b.name ++ "/" ++ r.name, x.id) = e := by
  unfold resourceIds
  rw [List.mem_flatMap]
  refine exists_congr fun b => and_congr_right fun _ => ?_
  cases pick (networkKind S cluster) nets b.name with
  | none => simp
  | some net => simp

/-- The resources found for two keys differ. -/
theorem resourceIds_inj {bodies : List NetworkBody} {e e' : String × String}
    (he : e ∈ resourceIds S plan.cluster (phases S plan m.toControlPlane).networks.1 bodies)
    (he' : e' ∈ resourceIds S plan.cluster (phases S plan m.toControlPlane).networks.1 bodies)
    (h : e.2 = e'.2) : e.1 = e'.1 := by
  obtain ⟨b, -, net, hnet, r, -, x, hx, rfl⟩ := mem_resourceIds.mp he
  obtain ⟨b', -, net', hnet', r', -, x', hx', rfl⟩ := mem_resourceIds.mp he'
  have hid : x.id = x'.id := h
  obtain ⟨hmem, hname⟩ := pick_mem hnet
  obtain ⟨hmem', hname'⟩ := pick_mem hnet'
  obtain ⟨hxmem, hxname⟩ := pick_mem hx
  obtain ⟨hxmem', hxname'⟩ := pick_mem hx'
  have hapart : Apart S (networkKind S plan.cluster) NbNetwork.ids m.networks
      (phases S plan m.toControlPlane).networks := apart_networks
  obtain rfl : net = net' := by
    refine List.inj_on_of_nodup_map hapart.nodup hmem hmem' ?_
    by_contra hne
    refine hapart.apart net hmem net' hmem' hne x.id (List.mem_map_of_mem hxmem) ?_
    rw [hid]
    exact List.mem_map_of_mem hxmem'
  obtain rfl : x = x' := List.inj_on_of_nodup_map (nodup_ids hmem) hxmem hxmem' hid
  have hb : b.name = b'.name := hname.symm.trans hname'
  have hr : r.name = r'.name := hxname.symm.trans hxname'
  rw [hb, hr]

end

/-! ## Names, ports and sources -/

/-- Where a text is cut in two at either of two characters, it is cut at one place. -/
theorem cut_unique {N N' R R' X X' : List Char} {c d : Char} (hcd : c ≠ d)
    (hc : N ++ c :: R = N' ++ c :: R') (hd : N ++ d :: X = N' ++ d :: X') : N = N' ∧ R = R' := by
  have hone : ∀ {N N' R R' X X' : List Char}, N ++ c :: R = N' ++ c :: R' →
      N ++ d :: X = N' ++ d :: X' → ∀ T, N' = N ++ T → T = [] := by
    rintro N _ R R' X X' hc hd T rfl
    rw [List.append_assoc, List.append_cancel_left_eq] at hc hd
    cases T with
    | nil => rfl
    | cons t T =>
      rw [List.cons_append, List.cons.injEq] at hc hd
      exact absurd (hc.1.trans hd.1.symm) hcd
  have hN : N = N' := by
    rcases List.append_eq_append_iff.mp hc with ⟨T, hT, -⟩ | ⟨T, hT, -⟩
    · rw [hT, hone hc hd T hT, List.append_nil]
    · rw [hT, hone hc.symm hd.symm T hT, List.append_nil]
  rw [hN, List.append_cancel_left_eq, List.cons.injEq] at hc
  exact ⟨hN, hc.2⟩

/-- The network and the resource of a policy are seen from its name and its key. -/
theorem key_unique {n r n' r' s s' : String} (hkey : n ++ "/" ++ r = n' ++ "/" ++ r')
    (hname : n ++ "-" ++ r ++ s = n' ++ "-" ++ r' ++ s') : n = n' ∧ r = r' := by
  have hslash : "/".toList = ['/'] := rfl
  have hdash : "-".toList = ['-'] := rfl
  rw [← String.toList_inj] at hkey hname
  simp only [String.toList_append, hslash, hdash, List.append_assoc, List.singleton_append]
    at hkey hname
  obtain ⟨hn, hr⟩ := cut_unique (by decide) hkey hname
  exact ⟨String.toList_inj.mp hn, String.toList_inj.mp hr⟩

theorem perm_of_map_perm {α β : Type} {f : α → β} {xs ys : List α}
    (hf : ∀ x ∈ xs, ∀ y ∈ ys, f x = f y → x = y) (h : (xs.map f).Perm (ys.map f)) : xs.Perm ys := by
  classical
  induction xs generalizing ys with
  | nil =>
    have hnil : ys.map f = [] := List.nil_perm.mp h
    rw [List.map_eq_nil_iff.mp hnil]
  | cons x xs ih =>
    have hmem : f x ∈ ys.map f := h.mem_iff.mp (.head _)
    obtain ⟨y, hy, he⟩ := List.mem_map.mp hmem
    obtain rfl : x = y := hf x (.head _) y hy he.symm
    have herase : ys.Perm (x :: ys.erase x) := List.perm_cons_erase hy
    have hrest : (xs.map f).Perm ((ys.erase x).map f) :=
      (h.trans (herase.map f)).cons_inv
    refine ((ih (fun x' hx' y' hy' => ?_) hrest).cons x).trans herase.symm
    exact hf x' (.tail _ hx') y' (List.mem_of_mem_erase hy')

theorem protocol_injective : Function.Injective Proto.protocol := by
  intro a b h
  cases a <;> cases b <;> first | rfl | cases h

theorem eq_of_ports_perm {xs ys : List Nat} (hx : xs.Pairwise (· ≤ ·)) (hy : ys.Pairwise (· ≤ ·))
    (h : (xs.map toString).Perm (ys.map toString)) : xs = ys := by
  refine List.Perm.eq_of_pairwise (fun a b _ _ hab hba => le_antisymm hab hba) hx hy ?_
  exact (List.map_perm_map_iff Js.toString_injective).mp h

/-! ## Policies of one name -/

section

variable {S : IdSupply} {plan : PeopleAccessPlan} {m : Numbered S}

/-- The policies sent for two planned ones do the same only if they are planned alike. -/
theorem eq_of_sameRule (hplan : plan.WellBuilt) {p p' : PlannedPolicy} (hp : p ∈ plan.policies)
    (hp' : p' ∈ plan.policies) (hname : p.name = p'.name) {e e' : String × String}
    (he : e ∈ resourceIds S plan.cluster (phases S plan m.toControlPlane).networks.1
      (phases S plan m.toControlPlane).networkBodies)
    (he' : e' ∈ resourceIds S plan.cluster (phases S plan m.toControlPlane).networks.1
      (phases S plan m.toControlPlane).networkBodies)
    (hk : e.1 = p.network ++ "/" ++ p.resource) (hk' : e'.1 = p'.network ++ "/" ++ p'.resource)
    (h : SameRule (policyRule (phases S plan m.toControlPlane).groups.1 p e.2)
      (policyRule (phases S plan m.toControlPlane).groups.1 p' e'.2)) : p = p' := by
  obtain ⟨hsrc, hsorted, ⟨ports, hports, hpeq⟩, -, -, ⟨s, hs⟩⟩ := hplan.policy p hp
  obtain ⟨hsrc', hsorted', ⟨ports', hports', hpeq'⟩, -, -, ⟨s', hs'⟩⟩ := hplan.policy p' hp'
  have hkey : p.network ++ "/" ++ p.resource = p'.network ++ "/" ++ p'.resource := by
    rw [← hk, ← hk']
    exact resourceIds_inj he he' h.resource
  have hfull : p.network ++ "-" ++ p.resource ++ s = p'.network ++ "-" ++ p'.resource ++ s' := by
    rw [← hs, ← hs', hname]
  obtain ⟨hnet, hres⟩ := key_unique hkey hfull
  have hsources : p.sources = p'.sources := by
    rw [← hsorted, ← hsorted', sorted_eq_iff]
    refine perm_of_map_perm (fun a ha b hb hab => ?_) h.sources
    exact groupId_inj m.groupIds (hsrc a ha) (hsrc' b hb) hab
  have hproto : p.protocol = p'.protocol := protocol_injective h.protocol
  have hps : p.ports = p'.ports := by
    have hperm : p.ports.Perm p'.ports := h.ports
    rw [hpeq, hpeq'] at hperm
    rw [hpeq, hpeq', eq_of_ports_perm hports hports' hperm]
  cases p
  cases p'
  simp_all only

/-- Every planned policy is sent. -/
theorem exists_resourceId (hplan : plan.WellBuilt) (h : Silent (networkKind S plan.cluster)
      (applyPeopleAccessPlan S plan m.toControlPlane).networks
      (phases S plan m.toControlPlane).networkBodies plan.dropsNetwork)
    {p : PlannedPolicy} (hp : p ∈ plan.policies) :
    ∃ e ∈ resourceIds S plan.cluster (phases S plan m.toControlPlane).networks.1
        (phases S plan m.toControlPlane).networkBodies,
      e.1 = p.network ++ "/" ++ p.resource ∧
        (⟨p.name, policyRule (phases S plan m.toControlPlane).groups.1 p e.2⟩ : PolicyBody) ∈
          (phases S plan m.toControlPlane).policyBodies := by
  obtain ⟨net₀, hnet₀, hname, r, hr, hrname⟩ := (hplan.policy p hp).planned
  have hb : networkBody (phases S plan m.toControlPlane).groups.1 net₀ ∈
      (phases S plan m.toControlPlane).networkBodies := List.mem_map_of_mem hnet₀
  obtain ⟨net, hpick, hok⟩ := (silent_iff.mp h).1 _ hb
  have hrb := List.mem_map_of_mem (f := fun r : PlannedResource => (⟨r.name, r.address, groupId
    (phases S plan m.toControlPlane).groups.1 r.group⟩ : ResourceBody)) hr
  obtain ⟨x, hx, -⟩ := (silent_iff.mp (networkKind_ok.mp hok).1).1 _ hrb
  have hpick' := (pick_synced networkKind_lawful fresh_networks drops_network hb).symm.trans hpick
  have hmem := mem_resourceIds.mpr ⟨_, hb, net, hpick', _, hrb, x, hx, rfl⟩
  have hfound : ∃ e, Js.mapGet Prod.fst
      (resourceIds S plan.cluster (phases S plan m.toControlPlane).networks.1
        (phases S plan m.toControlPlane).networkBodies) (p.network ++ "/" ++ p.resource) =
          some e := by
    rw [← hname, ← hrname]
    cases hget : Js.mapGet Prod.fst
        (resourceIds S plan.cluster (phases S plan m.toControlPlane).networks.1
          (phases S plan m.toControlPlane).networkBodies) (net₀.name ++ "/" ++ r.name) with
    | none => exact absurd rfl (Js.mapGet_eq_none.mp hget _ hmem)
    | some e => exact ⟨e, rfl⟩
  obtain ⟨e, he⟩ := hfound
  obtain ⟨hemem, hekey⟩ := Js.mapGet_mem he
  refine ⟨e, hemem, hekey, List.mem_filterMap.mpr ⟨p, hp, ?_⟩⟩
  exact congrArg (Option.map _) he

/-- The policies that are sent agree exactly when those that are planned do. -/
theorem policiesAgree_iff (hplan : plan.WellBuilt) (h : Silent (networkKind S plan.cluster)
      (applyPeopleAccessPlan S plan m.toControlPlane).networks
      (phases S plan m.toControlPlane).networkBodies plan.dropsNetwork) :
    PoliciesAgree (phases S plan m.toControlPlane).policyBodies ↔
      ∀ p ∈ plan.policies, ∀ p' ∈ plan.policies, p.name = p'.name → p = p' := by
  constructor
  · intro hagree p hp p' hp' hname
    obtain ⟨e, he, hk, hbody⟩ := exists_resourceId hplan h hp
    obtain ⟨e', he', hk', hbody'⟩ := exists_resourceId hplan h hp'
    exact eq_of_sameRule hplan hp hp' hname he he' hk hk' (hagree _ hbody _ hbody' hname)
  · intro hagree b hb b' hb' hname
    obtain ⟨p, hp, hbody⟩ := List.mem_filterMap.mp hb
    obtain ⟨p', hp', hbody'⟩ := List.mem_filterMap.mp hb'
    have hpname : p.name = b.name := by
      obtain ⟨e, -, rfl⟩ := Option.map_eq_some_iff.mp hbody
      rfl
    have hpname' : p'.name = b'.name := by
      obtain ⟨e, -, rfl⟩ := Option.map_eq_some_iff.mp hbody'
      rfl
    obtain rfl := hagree p hp p' hp' (hpname.trans (hname.trans hpname'.symm))
    obtain rfl := Option.some.inj (hbody.symm.trans hbody')
    exact SameRule.refl _

end

end Swarmy.Mesh
