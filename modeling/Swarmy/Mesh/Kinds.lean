import Swarmy.Mesh.Netbird

/-!
# The kinds of objects

Each kind of object of the control plane is kept by the rules of keyed listings.  The
nested ones, networks and zones, are as wanted after an update exactly when the items
within them agree.
-/

namespace Swarmy.Mesh

open Keyed List Option Nat

section

variable {S : IdSupply} {cluster : String} {n : Nat}

/-! ## Resources -/

theorem resourceKind_lawful : (resourceKind S).Lawful S where
  key_make _ _ := rfl
  key_put _ _ _ _ := rfl
  id_put _ _ _ := rfl
  id_make n _ := ⟨n, le_refl n, lt_succ_self n, rfl⟩
  le_put n _ _ := le_refl n

theorem resourceKind_ok {r : ResourceBody} {cur : NbResource} :
    (resourceKind S).ok r cur = true ↔ cur.address = r.address ∧ cur.enabled = true ∧
      ",".intercalate (sorted cur.groups) = ",".intercalate [r.group] := by
  simp [resourceKind, and_assoc]

/-- Resources of one name are planned alike. -/
def ResourcesAgree (rs : List ResourceBody) : Prop :=
  ∀ r ∈ rs, ∀ r' ∈ rs, r.name = r'.name → r.address = r'.address ∧ r.group = r'.group

theorem resource_settles (listed : List NbResource) (r : ResourceBody) :
    Settles (resourceKind S) listed n r := by
  constructor
  · intro n' _
    exact resourceKind_ok.mpr ⟨rfl, rfl, rfl⟩
  · intro n' _ a _ _
    exact resourceKind_ok.mpr ⟨rfl, rfl, rfl⟩

theorem agree_resources {rs : List ResourceBody} :
    Agree (resourceKind S) rs ↔ ResourcesAgree rs := by
  constructor
  · intro h r hr r' hr' hname
    have hok := h r hr r' hr' hname ⟨"", r'.name, r'.address, true, [r'.group]⟩
      (resourceKind_ok.mpr ⟨rfl, rfl, rfl⟩)
    obtain ⟨haddr, -, hgroup⟩ := resourceKind_ok.mp hok
    exact ⟨haddr.symm, hgroup.symm⟩
  · intro h r hr r' hr' hname a ha
    obtain ⟨haddr, hgroup⟩ := h r hr r' hr' hname
    rw [resourceKind_ok, haddr, hgroup]
    exact resourceKind_ok.mp ha

theorem resources_same (rs : List ResourceBody) : Same (resourceKind S) rs := by
  intro r _ r' _ _ a a' ha hb hc
  obtain ⟨haddr, -, hgroup⟩ := resourceKind_ok.mp ha
  obtain ⟨haddr', -, hgroup'⟩ := resourceKind_ok.mp hb
  obtain ⟨haddr'', hen, hgroup''⟩ := resourceKind_ok.mp hc
  refine resourceKind_ok.mpr ⟨?_, hen, ?_⟩
  · rw [haddr'', ← haddr', haddr]
  · rw [hgroup'', ← hgroup', hgroup]

theorem drops_resource (b : NetworkBody) : Disposes (resourceKind S) b.resources b.drops where
  key a a' h := by
    show (!b.resources.any _) = !b.resources.any _
    rw [show a.name = a'.name from h]
  wanted r hr a h := by
    show (!b.resources.any _) = false
    rw [Bool.not_eq_false', List.any_eq_true]
    exact ⟨r, hr, decide_eq_true h.symm⟩

/-- The resources of a network have settled exactly when they are planned alike. -/
theorem silent_resources_iff {net : NbNetwork} {b : NetworkBody}
    (hf : Fresh S (resourceKind S) net.resources n) :
    Silent (resourceKind S) (synced (resourceKind S) net.resources b.resources b.drops n)
      b.resources b.drops ↔ ResourcesAgree b.resources := by
  rw [silent_synced_iff resourceKind_lawful hf (drops_resource b) (resources_same b.resources)
    fun r _ _ _ => resource_settles net.resources r, agree_resources]
  exact and_iff_left fun r _ => resource_settles net.resources r

/-! ## Networks -/

section

variable {b : NetworkBody} {net : NbNetwork}

theorem syncNetwork_id : (syncNetwork S n b net).1.id = net.id := by
  unfold syncNetwork
  split <;> rfl

theorem syncNetwork_name : (syncNetwork S n b net).1.name = net.name := by
  unfold syncNetwork
  split <;> rfl

theorem syncNetwork_resources : (syncNetwork S n b net).1.resources =
    synced (resourceKind S) net.resources b.resources b.drops n := by
  unfold syncNetwork
  split <;> rfl

theorem syncNetwork_hasRouter :
    hasRouter (syncNetwork S n b net).1.routers b.routerGroup = true := by
  unfold syncNetwork
  split
  · assumption
  · simp [hasRouter]

theorem le_syncNetwork :
    (ensure (resourceKind S) net.resources b.resources n).2 ≤ (syncNetwork S n b net).2 := by
  unfold syncNetwork
  split
  · exact le_refl _
  · exact le_succ _

theorem networkKind_lawful : (networkKind S cluster).Lawful S where
  key_make n b := by
    show (syncNetwork S (n + 1) b (newNetwork S cluster n b)).1.name = b.name
    exact syncNetwork_name
  key_put _ _ _ h := syncNetwork_name.trans h
  id_put _ _ _ := syncNetwork_id
  id_make n b := by
    refine ⟨n, le_refl n, le_trans (le_ensure resourceKind_lawful) le_syncNetwork, ?_⟩
    show (syncNetwork S (n + 1) b (newNetwork S cluster n b)).1.id = S.issue n
    exact syncNetwork_id
  le_put _ _ _ := le_trans (le_ensure resourceKind_lawful) le_syncNetwork

theorem networkKind_ok : (networkKind S cluster).ok b net = true ↔
    Silent (resourceKind S) net.resources b.resources b.drops ∧
      hasRouter net.routers b.routerGroup = true := by
  rw [Silent, ← List.isEmpty_iff, ← Bool.and_eq_true]
  rfl

/-- An update of a network settles it exactly when its resources are planned alike. -/
theorem networkKind_ok_sync (hf : Fresh S (resourceKind S) net.resources n) :
    (networkKind S cluster).ok b (syncNetwork S n b net).1 = true ↔
      ResourcesAgree b.resources := by
  rw [networkKind_ok, and_iff_left syncNetwork_hasRouter, syncNetwork_resources,
    silent_resources_iff hf]

theorem fresh_nil {α β κ : Type} {K : Kind α β κ} : Fresh S K [] n where
  nodup := nodup_nil
  before _ h := by cases h

/-- A network that is as it is wanted was planned with resources that agree. -/
theorem agree_of_networkKind_ok (h : (networkKind S cluster).ok b net = true) :
    ResourcesAgree b.resources := by
  exact agree_resources.mp (agree_of_silent (resources_same b.resources) (networkKind_ok.mp h).1)

theorem network_settles_iff {listed : List NbNetwork}
    (hf : ∀ net ∈ listed, Fresh S (resourceKind S) net.resources n) :
    Settles (networkKind S cluster) listed n b ↔ ResourcesAgree b.resources := by
  constructor
  · intro h
    exact agree_of_networkKind_ok (h.1 n (le_refl n))
  · intro h
    constructor
    · intro n' _
      exact (networkKind_ok_sync fresh_nil).mpr h
    · intro n' hn' net hnet _
      refine (networkKind_ok_sync ⟨(hf net hnet).nodup, ?_⟩).mpr h
      exact fun r hr => ((hf net hnet).before r hr).mono hn'

end

/-! ## Records -/

theorem recordKind_lawful : (recordKind S).Lawful S where
  key_make _ _ := rfl
  key_put _ _ _ _ := rfl
  id_put _ _ _ := rfl
  id_make n _ := ⟨n, le_refl n, lt_succ_self n, rfl⟩
  le_put n _ _ := le_refl n

theorem recordKind_ok {r : PlannedRecord} {cur : NbRecord} :
    (recordKind S).ok r cur = true ↔ cur.content = r.content ∧ cur.ttl = r.ttl := by
  simp [recordKind]

/-- Records of one name are planned alike. -/
def RecordsAgree (rs : List PlannedRecord) : Prop :=
  ∀ r ∈ rs, ∀ r' ∈ rs, r.name = r'.name → r.content = r'.content ∧ r.ttl = r'.ttl

theorem record_settles (listed : List NbRecord) (r : PlannedRecord) :
    Settles (recordKind S) listed n r := by
  constructor
  · intro n' _
    exact recordKind_ok.mpr ⟨rfl, rfl⟩
  · intro n' _ a _ _
    exact recordKind_ok.mpr ⟨rfl, rfl⟩

theorem agree_records {rs : List PlannedRecord} : Agree (recordKind S) rs ↔ RecordsAgree rs := by
  constructor
  · intro h r hr r' hr' hname
    have hok := h r hr r' hr' (congrArg (·, "A") hname) ⟨"", r'.name, "A", r'.content, r'.ttl⟩
      (recordKind_ok.mpr ⟨rfl, rfl⟩)
    obtain ⟨hcontent, httl⟩ := recordKind_ok.mp hok
    exact ⟨hcontent.symm, httl.symm⟩
  · intro h r hr r' hr' hkey a ha
    obtain ⟨hcontent, httl⟩ := h r hr r' hr' (congrArg Prod.fst hkey)
    rw [recordKind_ok, hcontent, httl]
    exact recordKind_ok.mp ha

theorem records_same (rs : List PlannedRecord) : Same (recordKind S) rs := by
  intro r _ r' _ _ a a' ha hb hc
  obtain ⟨hcontent, httl⟩ := recordKind_ok.mp ha
  obtain ⟨hcontent', httl'⟩ := recordKind_ok.mp hb
  obtain ⟨hcontent'', httl''⟩ := recordKind_ok.mp hc
  refine recordKind_ok.mpr ⟨?_, ?_⟩
  · rw [hcontent'', ← hcontent', hcontent]
  · rw [httl'', ← httl', httl]

theorem drops_record (b : ZoneBody) : Disposes (recordKind S) b.records b.drops where
  key a a' h := by
    have hkey : (a.name, a.type) = (a'.name, a'.type) := h
    show (!b.records.any _) = !b.records.any _
    rw [hkey]
  wanted r hr a h := by
    show (!b.records.any _) = false
    rw [Bool.not_eq_false', List.any_eq_true]
    exact ⟨r, hr, decide_eq_true h.symm⟩

/-! ## Zones -/

section

variable {b : ZoneBody} {z : NbZone}

theorem syncZone_id : (syncZone S n b z).1.id = z.id := by
  unfold syncZone
  split <;> rfl

theorem syncZone_name : (syncZone S n b z).1.name = z.name := by
  unfold syncZone
  split <;> rfl

theorem syncZone_records : (syncZone S n b z).1.records =
    synced (recordKind S) z.records b.records b.drops n := by
  unfold syncZone
  split <;> rfl

theorem zoneKind_lawful : (zoneKind S cluster).Lawful S where
  key_make _ _ := rfl
  key_put n b z h := by
    show (syncZone S n b z).1.name = b.name
    exact syncZone_name.trans h
  id_put n b z := by
    show (syncZone S n b z).1.id = z.id
    exact syncZone_id
  id_make n _ := ⟨n, le_refl n, le_ensure recordKind_lawful, rfl⟩
  le_put n b z := by
    show n ≤ (syncZone S n b z).2
    unfold syncZone
    split <;> exact le_ensure recordKind_lawful

theorem zoneKind_ok : (zoneKind S cluster).ok b z = true ↔
    b.fits z = true ∧ Silent (recordKind S) z.records b.records b.drops := by
  rw [Silent, ← List.isEmpty_iff, ← Bool.and_eq_true]
  rfl

theorem silent_records_iff (hf : Fresh S (recordKind S) z.records n) :
    Silent (recordKind S) (synced (recordKind S) z.records b.records b.drops n)
      b.records b.drops ↔ RecordsAgree b.records := by
  rw [silent_synced_iff recordKind_lawful hf (drops_record b) (records_same b.records)
    fun r _ _ _ => record_settles z.records r, agree_records]
  exact and_iff_left fun r _ => record_settles z.records r

theorem fits_syncZone (hb : sorted b.distributionGroups = b.distributionGroups) :
    b.fits (syncZone S n b z).1 = true := by
  unfold syncZone
  split
  · assumption
  · simp [syncRecords, ZoneBody.fits, hb]

theorem zone_settles_iff {listed : List NbZone}
    (hb : sorted b.distributionGroups = b.distributionGroups)
    (hf : ∀ z ∈ listed, Fresh S (recordKind S) z.records n) :
    Settles (zoneKind S cluster) listed n b ↔ RecordsAgree b.records := by
  constructor
  · intro h
    have hok := h.1 n (le_refl n)
    exact agree_records.mp (agree_of_silent (records_same b.records) (zoneKind_ok.mp hok).2)
  · intro h
    constructor
    · intro n' _
      refine zoneKind_ok.mpr ⟨?_, ?_⟩
      · show b.fits (syncRecords S (n' + 1) b (newZone S cluster n' b)).1 = true
        simp [syncRecords, newZone, ZoneBody.fits, hb]
      · show Silent (recordKind S) (synced (recordKind S) [] b.records b.drops (n' + 1))
          b.records b.drops
        exact (silent_records_iff (z := newZone S cluster n' b) fresh_nil).mpr h
    · intro n' hn' z hz _
      refine zoneKind_ok.mpr ⟨fits_syncZone hb, ?_⟩
      show Silent (recordKind S) (syncZone S n' b z).1.records b.records b.drops
      rw [syncZone_records]
      refine (silent_records_iff ⟨(hf z hz).nodup, ?_⟩).mpr h
      exact fun r hr => ((hf z hz).before r hr).mono hn'

theorem agree_of_zoneKind_ok (h : (zoneKind S cluster).ok b z = true) : RecordsAgree b.records :=
  agree_records.mp (agree_of_silent (records_same b.records) (zoneKind_ok.mp h).2)

end

/-! ## Policies -/

theorem policyKind_lawful : (policyKind S cluster).Lawful S where
  key_make _ _ := rfl
  key_put _ _ _ _ := rfl
  id_put _ _ _ := rfl
  id_make n _ := ⟨n, le_refl n, lt_succ_self n, rfl⟩
  le_put n _ _ := le_refl n

/-- Rules that are for the same, in any order. -/
structure SameRule (a b : NbPolicyRule) : Prop where
  enabled : a.enabled = b.enabled
  action : a.action = b.action
  bidirectional : a.bidirectional = b.bidirectional
  protocol : a.protocol = b.protocol
  ports : a.ports.Perm b.ports
  sources : a.sources.Perm b.sources
  destinations : a.destinations.Perm b.destinations
  resource : a.destinationResource.getD "" = b.destinationResource.getD ""

theorem sameRule_iff {a b : NbPolicyRule} : sameRule a b = true ↔ SameRule a b := by
  simp only [sameRule, Bool.and_eq_true, decide_eq_true_eq, sorted_eq_iff]
  constructor
  · rintro ⟨⟨⟨⟨⟨⟨⟨h₁, h₂⟩, h₃⟩, h₄⟩, h₅⟩, h₆⟩, h₇⟩, h₈⟩
    exact ⟨h₁, h₂, h₃, h₄, h₅, h₆, h₇, h₈⟩
  · rintro ⟨h₁, h₂, h₃, h₄, h₅, h₆, h₇, h₈⟩
    exact ⟨⟨⟨⟨⟨⟨⟨h₁, h₂⟩, h₃⟩, h₄⟩, h₅⟩, h₆⟩, h₇⟩, h₈⟩

theorem SameRule.refl (a : NbPolicyRule) : SameRule a a :=
  ⟨rfl, rfl, rfl, rfl, .refl _, .refl _, .refl _, rfl⟩

theorem SameRule.symm {a b : NbPolicyRule} (h : SameRule a b) : SameRule b a :=
  ⟨h.enabled.symm, h.action.symm, h.bidirectional.symm, h.protocol.symm, h.ports.symm,
    h.sources.symm, h.destinations.symm, h.resource.symm⟩

theorem SameRule.trans {a b c : NbPolicyRule} (h : SameRule a b) (h' : SameRule b c) :
    SameRule a c :=
  ⟨h.enabled.trans h'.enabled, h.action.trans h'.action, h.bidirectional.trans h'.bidirectional,
    h.protocol.trans h'.protocol, h.ports.trans h'.ports, h.sources.trans h'.sources,
    h.destinations.trans h'.destinations, h.resource.trans h'.resource⟩

theorem policyKind_ok {b : PolicyBody} {p : NbPolicy} : (policyKind S cluster).ok b p = true ↔
    (∃ r, p.rules.head? = some r ∧ SameRule r b.rule) ∧ p.enabled = true := by
  show (p.rules.head?.any (sameRule · b.rule) && p.enabled) = true ↔ _
  rw [Bool.and_eq_true, Option.any_eq_true]
  simp only [sameRule_iff]

theorem policy_settles (listed : List NbPolicy) (b : PolicyBody) :
    Settles (policyKind S cluster) listed n b := by
  constructor
  · intro n' _
    exact policyKind_ok.mpr ⟨⟨b.rule, rfl, .refl _⟩, rfl⟩
  · intro n' _ a _ _
    exact policyKind_ok.mpr ⟨⟨b.rule, rfl, .refl _⟩, rfl⟩

/-- Policies of one name are planned alike. -/
def PoliciesAgree (bs : List PolicyBody) : Prop :=
  ∀ b ∈ bs, ∀ b' ∈ bs, b.name = b'.name → SameRule b.rule b'.rule

theorem agree_policies {bs : List PolicyBody} :
    Agree (policyKind S cluster) bs ↔ PoliciesAgree bs := by
  constructor
  · intro h b hb b' hb' hname
    have hok := h b hb b' hb' hname ⟨"", b'.name, true, [b'.rule], .hand⟩
      (policyKind_ok.mpr ⟨⟨b'.rule, rfl, .refl _⟩, rfl⟩)
    obtain ⟨⟨r, hr, hsame⟩, -⟩ := policyKind_ok.mp hok
    cases hr
    exact hsame.symm
  · intro h b hb b' hb' hname a ha
    obtain ⟨⟨r, hr, hsame⟩, hen⟩ := policyKind_ok.mp ha
    exact policyKind_ok.mpr ⟨⟨r, hr, hsame.trans (h b hb b' hb' hname).symm⟩, hen⟩

theorem policies_same (bs : List PolicyBody) : Same (policyKind S cluster) bs := by
  intro b _ b' _ _ a a' ha hb hc
  obtain ⟨⟨r, hr, hsame⟩, -⟩ := policyKind_ok.mp ha
  obtain ⟨⟨r₁, hr₁, hsame₁⟩, -⟩ := policyKind_ok.mp hb
  obtain ⟨⟨r', hr', hsame'⟩, hen⟩ := policyKind_ok.mp hc
  rw [hr, Option.some.injEq] at hr₁
  subst hr₁
  exact policyKind_ok.mpr ⟨⟨r', hr', hsame'.trans (hsame₁.symm.trans hsame)⟩, hen⟩

end

end Swarmy.Mesh

/-!
## Groups of the control plane

`ensureGroups` creates what is missing and changes nothing else, so the id of a name is
the same ever after, and two names have two ids.
-/

namespace Swarmy.Mesh

open Keyed

/-- The ids of the groups are distinct, and not given out again. -/
structure GroupsFresh (S : IdSupply) (groups : List NbGroup) (n : Nat) : Prop where
  nodup : (groups.map NbGroup.id).Nodup
  before : ∀ g ∈ groups, S.Before n g.id

section

variable {S : IdSupply} {groups : List NbGroup} {name a b i : String} {names : List String}
variable {st : List NbGroup × Nat}

theorem groupMap_mem (h : groupMap groups name = some i) :
    ∃ g ∈ groups, g.name = name ∧ g.id = i := by
  obtain ⟨g, hg, hid⟩ := Option.map_eq_some_iff.mp h
  obtain ⟨hmem, hname⟩ := Js.mapGet_mem hg
  exact ⟨g, hmem, hname, hid⟩

theorem groupMap_append_singleton {g : NbGroup} :
    groupMap (groups ++ [g]) name = if g.name = name then some g.id else groupMap groups name := by
  unfold groupMap Js.mapGet
  by_cases h : g.name = name <;> simp [h]

/-- Two names have two ids. -/
theorem groupMap_inj (hg : (groups.map NbGroup.id).Nodup) (ha : groupMap groups a = some i)
    (hb : groupMap groups b = some i) : a = b := by
  obtain ⟨g, hmem, rfl, hid⟩ := groupMap_mem ha
  obtain ⟨g', hmem', rfl, hid'⟩ := groupMap_mem hb
  rw [List.inj_on_of_nodup_map hg hmem hmem' (hid.trans hid'.symm)]

/-! ## One group -/

theorem groupMap_ensureGroup_of_some (h : groupMap st.1 a = some i) :
    groupMap (ensureGroup S st name).1 a = some i := by
  unfold ensureGroup
  cases hname : groupMap st.1 name with
  | some _ => exact h
  | none =>
    rw [groupMap_append_singleton, if_neg]
    · exact h
    · rintro rfl
      rw [hname] at h
      cases h

theorem exists_groupMap_ensureGroup (S : IdSupply) (st : List NbGroup × Nat) (name : String) :
    ∃ i, groupMap (ensureGroup S st name).1 name = some i := by
  unfold ensureGroup
  cases hname : groupMap st.1 name with
  | some i => exact ⟨i, hname⟩
  | none => exact ⟨S.issue st.2, by rw [groupMap_append_singleton, if_pos rfl]⟩

theorem GroupsFresh.ensureGroup (h : GroupsFresh S st.1 st.2) :
    GroupsFresh S (ensureGroup S st name).1 (Mesh.ensureGroup S st name).2 := by
  unfold Mesh.ensureGroup
  cases groupMap st.1 name with
  | some _ => exact h
  | none =>
    constructor
    · rw [List.map_append, List.map_singleton, List.nodup_append]
      refine ⟨h.nodup, List.nodup_singleton _, fun i hi i' hi' he => ?_⟩
      obtain ⟨g, hg, rfl⟩ := List.mem_map.mp hi
      rw [List.mem_singleton.mp hi'] at he
      exact h.before g hg st.2 (le_refl _) he
    · intro g hg
      rcases List.mem_append.mp hg with hg | hg
      · exact (h.before g hg).mono (Nat.le_succ _)
      · rw [List.mem_singleton.mp hg]
        exact IdSupply.before_issue (Nat.lt_succ_self _)

theorem le_ensureGroup : st.2 ≤ (ensureGroup S st name).2 := by
  unfold ensureGroup
  split
  · exact le_refl _
  · exact Nat.le_succ _

/-! ## All groups -/

theorem groupMap_ensureGroups_of_some (names : List String) (h : groupMap st.1 a = some i) :
    groupMap (ensureGroups S st names).1 a = some i := by
  induction names generalizing st with
  | nil => exact h
  | cons name names ih => exact ih (groupMap_ensureGroup_of_some h)

theorem exists_groupMap_ensureGroups (S : IdSupply) (st : List NbGroup × Nat) (h : name ∈ names) :
    ∃ i, groupMap (ensureGroups S st names).1 name = some i := by
  induction names generalizing st with
  | nil => cases h
  | cons name' names ih =>
    rcases List.mem_cons.mp h with rfl | h
    · obtain ⟨i, hi⟩ := exists_groupMap_ensureGroup S st name
      exact ⟨i, groupMap_ensureGroups_of_some names hi⟩
    · exact ih _ h

theorem GroupsFresh.ensureGroups (h : GroupsFresh S st.1 st.2) :
    GroupsFresh S (ensureGroups S st names).1 (Mesh.ensureGroups S st names).2 := by
  induction names generalizing st with
  | nil => exact h
  | cons name names ih => exact ih h.ensureGroup

theorem le_ensureGroups (S : IdSupply) (st : List NbGroup × Nat) (names : List String) :
    st.2 ≤ (ensureGroups S st names).2 := by
  induction names generalizing st with
  | nil => exact le_refl _
  | cons name names ih => exact le_trans le_ensureGroup (ih _)

/-- Where every group is there, nothing changes. -/
theorem ensureGroups_eq_self (h : ∀ name ∈ names, ∃ i, groupMap st.1 name = some i) :
    ensureGroups S st names = st := by
  unfold ensureGroups
  induction names with
  | nil => rfl
  | cons name names ih =>
    obtain ⟨i, hi⟩ := h name (.head _)
    have hstep : ensureGroup S st name = st := by
      unfold ensureGroup
      rw [hi]
    rw [List.foldl_cons, hstep]
    exact ih fun name' h' => h name' (.tail _ h')

theorem ensureGroups_ensureGroups (n : Nat) :
    ensureGroups S ((ensureGroups S st names).1, n) names = ((ensureGroups S st names).1, n) :=
  ensureGroups_eq_self fun _ h => exists_groupMap_ensureGroups S st h

/-- The ids of two names of the plan differ. -/
theorem groupId_inj {n : Nat} (h : GroupsFresh S groups n) (ha : a ∈ names) (hb : b ∈ names)
    (he : groupId (ensureGroups S (groups, n) names).1 a =
      groupId (ensureGroups S (groups, n) names).1 b) : a = b := by
  obtain ⟨i, hi⟩ := exists_groupMap_ensureGroups S (groups, n) ha
  obtain ⟨j, hj⟩ := exists_groupMap_ensureGroups S (groups, n) hb
  have hfresh : GroupsFresh S (groups, n).1 (groups, n).2 := h
  unfold groupId at he
  rw [hi, hj] at he
  obtain rfl : i = j := he
  exact groupMap_inj hfresh.ensureGroups.nodup hi hj

end

end Swarmy.Mesh
