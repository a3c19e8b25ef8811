import Swarmy.Pg.Spec

/-!
# What a rebuild keeps

`rebuilt_iff` says when the spec that the worker builds for a live member keeps its volume,
its node, its password secret, its region and, where it is marked as archived, its archive.
The volume and the node are always kept.  A rebuild that copies the labels of a primary with
an archive copies the mark, and mounts no archive: `placePrimary` and `replicaStorage` need a
member without the mark.
-/

namespace Swarmy.PgMember

open List Option AList

/-- A live member whose labels declare a data volume.  The constraints of its placement are
those of the live service, which the agents do not report. -/
structure Member where
  info : SwarmServiceInfo
  volume : String
  declared : info.labels.lookup dbDataVolumeLabel = some volume
  named : volume ≠ ""
  constraints : List String

namespace Member

variable (m : Member)

def label (k : String) : Option String := given (m.info.labels.lookup k)

/-- The member's password secret: the one it is labelled with, or else one it mounts. -/
def passwordSecret : Option String :=
  given ((m.info.labels.lookup dbPasswordSecretLabel).or (m.info.secrets.find? isDbPasswordSecret))

end Member

namespace Rebuild

variable (c : Cluster) (m : Member)

/-- The volume that is declared for the rebuilt member. -/
def volume : Rebuild → String
  | .regionReplica region _ _ => regionReplicaDataVolumeName c.base region
  | _ => m.volume

/-- The node the rebuilt member is pinned to. -/
def pin : Rebuild → Option String
  | .regionReplica _ _ _ => none
  | .pitr running _ _ =>
    if pgBootRole (envRecord m.info.env) = "primary" then m.label dbPinNodeLabel
    else given ((m.info.labels.lookup dbPinNodeLabel).or running)
  | _ => m.label dbPinNodeLabel

/-- The node the rebuilt member avoids, if it is not pinned. -/
def avoid : Rebuild → Option String
  | .regionReplica _ _ multiNode => if multiNode then m.label dbPinNodeLabel else none
  | .replicaStorage avoid => given avoid
  | .pitr _ _ _ =>
    if pgBootRole (envRecord m.info.env) = "primary" then m.label dbAvoidNodeLabel else none
  | _ => m.label dbAvoidNodeLabel

/-- The region the rebuilt member is to be in: the one it is put in, or the one it was in. -/
def InRegion : Rebuild → String → Prop
  | .regionReplica region _ _ => (· = region)
  | .placePrimary region => (· = region)
  | _ => fun region => regionConstraint region ∈ m.constraints

end Rebuild

/-- The spec keeps a member's storage and its archive wiring. -/
structure ServiceSpec.Keeps (w : Release) (c : Cluster) (volume : String)
    (pin avoid secret : Option String)
    (inRegion : String → Prop) (spec : ServiceSpec) : Prop where
  data : spec.mounts.filter (·.target = managedPgRoot) = [⟨"volume", some volume, managedPgRoot⟩]
  pinned : ∀ n, pin = some n → "node.id==" ++ n ∈ spec.placement.constraints
  away : pin = none → ∀ n, avoid = some n → "node.id!=" ++ n ∈ spec.placement.constraints
  onePerNode : spec.placement.maxReplicasPerNode = some 1
  credential : ∃ s, secret = some s ∧ spec.Carries s
  region : ∀ r, inRegion r → regionConstraint r ∈ spec.placement.constraints
  archived : dbPitrAppliedLabel ∈ spec.labels →
    walArchive c.base ∈ spec.mounts ∧
      ⟨w.pitrConfName c.base, some managedPgPitrConfTarget⟩ ∈ spec.configs

/-- The rebuilt spec keeps what is the member's. -/
def Rebuilt (w : Release) (c : Cluster) (m : Member) (r : Rebuild) (spec : ServiceSpec) : Prop :=
  spec.Keeps w c (r.volume c m) (r.pin m) (r.avoid m) m.passwordSecret (r.InRegion m)

namespace Member

variable (m : Member)

/-- The region a label says is the one the live service is constrained to, if it is. -/
def PlacedBy (k : String) : Prop :=
  ∀ region, regionConstraint region ∈ m.constraints → m.label k = some region

end Member

/-- When a rebuild keeps it all.  `placePrimary`, `stripPitr` and `regionReplica` drop the
secrets, so the label has to name it; `placePrimary` and `replicaStorage` copy the mark and drop
the archive; and `replicaStorage` knows no region, `repoint` only that of a replica, and the two
PITR rebuilds only that of a placed primary. -/
def Rebuild.Fits (m : Member) : Rebuild → Prop
  | .regionReplica _ _ _ => m.label dbPasswordSecretLabel ≠ none
  | .placePrimary _ =>
    m.label dbPasswordSecretLabel ≠ none ∧ dbPitrAppliedLabel ∉ m.info.labels
  | .replicaStorage _ =>
    m.passwordSecret ≠ none ∧ (∀ region, regionConstraint region ∉ m.constraints) ∧
      dbPitrAppliedLabel ∉ m.info.labels
  | .stripPitr => m.label dbPasswordSecretLabel ≠ none ∧ m.PlacedBy dbPlacedRegionLabel
  | .repoint _ _ => m.passwordSecret ≠ none ∧ m.PlacedBy dbRegionLabel
  | .pitr _ _ _ => m.passwordSecret ≠ none ∧ m.PlacedBy dbPlacedRegionLabel

/-! ## Constraints -/

section

variable {r r' n : String} {pin avoid : Option String} {cs : List String}

theorem regionConstraint_injective : Function.Injective regionConstraint := fun a b h => by
  have h' := congrArg String.toList h
  unfold regionConstraint at h'
  rw [String.toList_append, String.toList_append] at h'
  exact String.toList_inj.mp (append_cancel_left h')

theorem isNodeId_regionConstraint (r : String) : isNodeId (regionConstraint r) = false := by
  unfold isNodeId regionConstraint Js.startsWith
  rw [String.toList_append]
  rfl

theorem isNodeId_of_mem (h : n ∈ nodeConstraint pin avoid) : isNodeId n = true := by
  have hpin (n : String) : isNodeId ("node.id==" ++ n) = true := by
    unfold isNodeId Js.startsWith
    rw [String.toList_append]
    rfl
  have havoid (n : String) : isNodeId ("node.id!=" ++ n) = true := by
    unfold isNodeId Js.startsWith
    rw [String.toList_append]
    rfl
  cases pin with
  | some p => exact mem_singleton.mp h ▸ hpin p
  | none =>
    cases avoid with
    | some a => exact mem_singleton.mp h ▸ havoid a
    | none => nomatch h

/-- Storage leaves the constraints on the region alone. -/
theorem regionConstraint_mem :
    regionConstraint r ∈ cs.filter (!isNodeId ·) ++ nodeConstraint pin avoid ↔
      regionConstraint r ∈ cs := by
  rw [mem_append, mem_filter, isNodeId_regionConstraint]
  constructor
  · rintro (h | h)
    · exact h.1
    · exact absurd ((isNodeId_regionConstraint r).symm.trans (isNodeId_of_mem h)) nofun
  · exact fun h => .inl ⟨h, rfl⟩

theorem regionConstraint_mem_placedIn {region : Option String} :
    regionConstraint r ∈ (placedIn region).constraints ↔ given region = some r := by
  unfold placedIn
  rw [List.mem_map, ← Option.mem_toList]
  constructor
  · rintro ⟨r', hr', heq⟩
    exact regionConstraint_injective heq ▸ hr'
  · exact fun h => ⟨r, h, rfl⟩

end

/-! ## What every rebuilt spec has -/

section

variable {w : Release} {c : Cluster} {bare : ServiceSpec} {labels : Record} {v : String}

theorem filter_withDataVolume (ms : List Mount) :
    (withDataVolume v ms).filter (·.target = managedPgRoot) =
    [⟨"volume", some v, managedPgRoot⟩] := by
  unfold withDataVolume
  have hnil : (ms.filter (·.target ≠ managedPgRoot)).filter (·.target = managedPgRoot) = [] := by
    rw [filter_eq_nil_iff]
    intro mount hmem
    rw [mem_filter, decide_eq_true_eq] at hmem
    exact fun h => hmem.2 (of_decide_eq_true h)
  rw [filter_cons, if_pos (decide_eq_true rfl), hnil]

theorem mem_withDataVolume {ms : List Mount} {mount : Mount} (h : mount.target ≠ managedPgRoot) :
    mount ∈ withDataVolume v ms ↔ mount ∈ ms := by
  unfold withDataVolume
  rw [mem_cons, mem_filter]
  constructor
  · rintro (rfl | hm)
    · exact absurd rfl h
    · exact hm.1
  · exact fun hm => .inr ⟨hm, decide_eq_true h⟩

theorem applyPgMember_mounts (hv : given (labels.lookup dbDataVolumeLabel) = some v) :
    (applyPgMember w bare labels).mounts = withDataVolume v bare.mounts := by
  unfold applyPgMember applyPgBoot
  rw [applyPgCredential_rest.1, applyDbStorage_of_declared hv]
  rfl

theorem applyPgMember_placement (hv : given (labels.lookup dbDataVolumeLabel) = some v) :
    (applyPgMember w bare labels).placement =
      ⟨bare.placement.constraints.filter (!isNodeId ·) ++
        nodeConstraint (given (labels.lookup dbPinNodeLabel))
          (given (labels.lookup dbAvoidNodeLabel)),
        some 1⟩ := by
  unfold applyPgMember applyPgBoot
  rw [applyPgCredential_rest.2.1, applyDbStorage_of_declared hv]
  rfl

theorem applyPgMember_configs : (applyPgMember w bare labels).configs = bare.configs := by
  unfold applyPgMember applyPgBoot
  rw [applyPgCredential_rest.2.2.1, applyDbStorage_rest.2.2]

theorem applyPgMember_labels {k : String} (hk : k ≠ dbPasswordSecretLabel) :
    (applyPgMember w bare labels).labels.lookup k = bare.labels.lookup k := by
  unfold applyPgMember applyPgBoot
  rw [applyPgCredential_rest.2.2.2 k hk, applyDbStorage_rest.1]

theorem pgPasswordSecretOf_applyDbStorage (labels' : Record) :
    pgPasswordSecretOf (applyDbStorage bare labels) labels' = pgPasswordSecretOf bare labels' := by
  unfold pgPasswordSecretOf
  rw [applyDbStorage_rest.1, applyDbStorage_rest.2.1]

/-- A spec whose secrets are mounted under their own names carries one secret, if it names one. -/
theorem applyPgMember_carries (bareNames : ∀ r ∈ bare.secrets, r.target = none) {s : String} :
    (applyPgMember w bare labels).Carries s ↔ given (pgPasswordSecretOf bare labels) = some s := by
  have hof := @pgPasswordSecretOf_applyDbStorage bare labels labels
  constructor
  · intro h
    have hmounted := h.mounted
    unfold applyPgMember applyPgBoot at hmounted
    cases hs : given (pgPasswordSecretOf bare labels) with
    | none =>
      rw [applyPgCredential_secrets (by rw [hof, hs]), applyDbStorage_rest.2.1] at hmounted
      exact nomatch bareNames _ hmounted
    | some t =>
      rw [applyPgCredential_secrets_of (by rw [hof, hs]), applyDbStorage_rest.2.1,
        mem_append, mem_singleton] at hmounted
      rcases hmounted with hmem | heq
      · exact nomatch bareNames _ (mem_of_mem_filter hmem)
      · exact congrArg some (congrArg Ref.source heq).symm
  · exact fun h => applyPgCredential_carries (by rw [hof, h])

/-- The volume, the node and the bound on tasks are those of the labels; the rest is as the
spec had it. -/
theorem keeps_applyPgMember_iff {secret : Option String} {inRegion : String → Prop}
    (hv : given (labels.lookup dbDataVolumeLabel) = some v)
    (bareNames : ∀ r ∈ bare.secrets, r.target = none) :
    (applyPgMember w bare labels).Keeps w c v (given (labels.lookup dbPinNodeLabel))
        (given (labels.lookup dbAvoidNodeLabel)) secret inRegion ↔
      (∃ s, secret = some s ∧ given (pgPasswordSecretOf bare labels) = some s) ∧
        (∀ r, inRegion r → regionConstraint r ∈ bare.placement.constraints) ∧
        (dbPitrAppliedLabel ∈ bare.labels → walArchive c.base ∈ bare.mounts ∧
          ⟨w.pitrConfName c.base, some managedPgPitrConfTarget⟩ ∈ bare.configs) := by
  have hmark : dbPitrAppliedLabel ∈ (applyPgMember w bare labels).labels ↔
      dbPitrAppliedLabel ∈ bare.labels := by
    rw [← lookup_isSome, ← lookup_isSome, applyPgMember_labels (by decide)]
  have harchive : walArchive c.base ∈ (applyPgMember w bare labels).mounts ↔
      walArchive c.base ∈ bare.mounts := by
    have htarget : (walArchive c.base).target ≠ managedPgRoot :=
      show walArchiveMount ≠ managedPgRoot by decide
    rw [applyPgMember_mounts hv, mem_withDataVolume htarget]
  have hplace := @applyPgMember_placement w bare _ _ hv
  constructor
  · intro h
    refine ⟨?_, fun r hr => ?_, fun hm => ?_⟩
    · obtain ⟨s, hs, hcarries⟩ := h.credential
      exact ⟨s, hs, (applyPgMember_carries bareNames).mp hcarries⟩
    · have hmem := h.region r hr
      rwa [hplace, regionConstraint_mem] at hmem
    · have harch := h.archived (hmark.mpr hm)
      rwa [harchive, applyPgMember_configs] at harch
  · rintro ⟨⟨s, hs, hsecret⟩, hregion, hpitr⟩
    constructor
    · rw [applyPgMember_mounts hv]
      exact filter_withDataVolume _
    · intro n hn
      rw [hplace, hn]
      exact mem_append_right _ (mem_singleton.mpr rfl)
    · intro hnone n hn
      rw [hplace, hnone, hn]
      exact mem_append_right _ (mem_singleton.mpr rfl)
    · rw [hplace]
    · exact ⟨s, hs, (applyPgMember_carries bareNames).mpr hsecret⟩
    · intro r hr
      rw [hplace, regionConstraint_mem]
      exact hregion r hr
    · intro hm
      rw [harchive, applyPgMember_configs]
      exact hpitr (hmark.mp hm)

/-! ## Each rebuild -/

variable {m : Member} {r : Rebuild}

theorem rebuilt_applyPgMember_iff
    (hv : given (labels.lookup dbDataVolumeLabel) = some (r.volume c m))
    (hpin : given (labels.lookup dbPinNodeLabel) = r.pin m)
    (havoid : given (labels.lookup dbAvoidNodeLabel) = r.avoid m)
    (bareNames : ∀ ref ∈ bare.secrets, ref.target = none) :
    Rebuilt w c m r (applyPgMember w bare labels) ↔
      (∃ s, m.passwordSecret = some s ∧ given (pgPasswordSecretOf bare labels) = some s) ∧
        (∀ region, r.InRegion m region → regionConstraint region ∈ bare.placement.constraints) ∧
        (dbPitrAppliedLabel ∈ bare.labels → walArchive c.base ∈ bare.mounts ∧
          ⟨w.pitrConfName c.base, some managedPgPitrConfTarget⟩ ∈ bare.configs) := by
  unfold Rebuilt
  rw [← hpin, ← havoid]
  exact keeps_applyPgMember_iff hv bareNames

/-- A spec without secrets has the one its labels name. -/
theorem secret_of_label (hlabels : bare.labels = labels) (hsecrets : bare.secrets = [])
    (hl : given (labels.lookup dbPasswordSecretLabel) = m.label dbPasswordSecretLabel) :
    (∃ s, m.passwordSecret = some s ∧ given (pgPasswordSecretOf bare labels) = some s) ↔
      m.label dbPasswordSecretLabel ≠ none := by
  have hof : given (pgPasswordSecretOf bare labels) = m.label dbPasswordSecretLabel := by
    unfold pgPasswordSecretOf
    rw [hlabels, hsecrets, List.find?_nil, Option.map_none, Option.or_none, Option.or_self, hl]
  rw [hof]
  constructor
  · rintro ⟨s, -, hs⟩
    exact fun hnone => nomatch hnone.symm.trans hs
  · intro hne
    obtain ⟨s, hs⟩ := ne_none_iff_exists'.mp hne
    refine ⟨s, ?_, hs⟩
    obtain ⟨hlookup, hnonempty⟩ := given_eq_some.mp hs
    unfold Member.passwordSecret
    rw [hlookup, some_or, given_some hnonempty]

/-- A spec with the member's secrets has the member's. -/
theorem secret_of_refs (hlabels : bare.labels = labels)
    (hsecrets : bare.secrets = refs m.info.secrets)
    (hl : labels.lookup dbPasswordSecretLabel = m.info.labels.lookup dbPasswordSecretLabel) :
    (∃ s, m.passwordSecret = some s ∧ given (pgPasswordSecretOf bare labels) = some s) ↔
      m.passwordSecret ≠ none := by
  have hof : given (pgPasswordSecretOf bare labels) = m.passwordSecret := by
    have hfind : (refs m.info.secrets).find? (fun r => isDbPasswordSecret r.source) =
        (m.info.secrets.find? isDbPasswordSecret).map (⟨·, none⟩) := List.find?_map
    unfold pgPasswordSecretOf Member.passwordSecret
    rw [hlabels, hsecrets, Option.or_self, hl, hfind, Option.map_map]
    congr 2
    exact map_id'
  rw [hof, ne_none_iff_exists']
  exact exists_congr fun s => and_self_iff

theorem refs_target {names : List String} : ∀ ref ∈ refs names, ref.target = none := by
  intro ref href
  obtain ⟨_, _, rfl⟩ := mem_map.mp href
  rfl

theorem label_dbDataVolumeLabel : m.label dbDataVolumeLabel = some m.volume := by
  unfold Member.label
  rw [m.declared, given_some m.named]

theorem lookup_credentialLabel (primary : SwarmServiceInfo) :
    (credentialLabel primary).lookup dbPasswordSecretLabel =
      given (primary.labels.lookup dbPasswordSecretLabel) := by
  unfold credentialLabel
  cases given (primary.labels.lookup dbPasswordSecretLabel) <;> rfl

theorem lookup_credentialLabel_of_ne (primary : SwarmServiceInfo) {k : String}
    (hk : k ≠ dbPasswordSecretLabel) : (credentialLabel primary).lookup k = none := by
  refine Record.lookup_ofEntries_of_ne fun e he => ?_
  obtain ⟨_, _, rfl⟩ := mem_map.mp he
  exact hk

section

variable {region : String} {n : Nat} {multiNode : Bool}

/-- The labels of a regional replica declare a volume of its own and its primary's node to avoid;
of the primary's own labels it has the password secret. -/
theorem lookup_regionReplicaLabels (primary : SwarmServiceInfo) (k : String) :
    (regionReplicaLabels c primary region n multiNode).lookup k =
      (((dbStorageLabels (regionReplicaDataVolumeName c.base region) none
          (if multiNode then primary.labels.lookup dbPinNodeLabel else none)).lookup k).or
        (((Record.ofEntries [(dbRegionLabel, region), (dbReplicasLabel, toString n)]).lookup k).or
          ((credentialLabel primary).lookup k))).or
        ((memberLabels c "replica" "geo" ∅).lookup k) := by
  unfold regionReplicaLabels memberLabels
  rw [Record.lookup_assign, Record.lookup_assign, Record.lookup_assign, Record.lookup_assign]
  rfl

theorem regionReplicaDataVolumeName_ne (base region : String) :
    regionReplicaDataVolumeName base region ≠ "" := fun h => by
  have htext := congrArg String.toList h
  unfold regionReplicaDataVolumeName at htext
  rw [String.toList_append] at htext
  exact cons_ne_nil _ _ (append_eq_nil_iff.mp htext).2

theorem rebuilt_regionReplica_iff : Rebuilt w c m (.regionReplica region n multiNode)
        (regionReplicaSpec w c m.info region n multiNode) ↔
      m.label dbPasswordSecretLabel ≠ none := by
  have hlookup := @lookup_regionReplicaLabels c region n multiNode m.info
  have hstorage := lookup_dbStorageLabels (v := regionReplicaDataVolumeName c.base region) none
    (if multiNode then m.info.labels.lookup dbPinNodeLabel else none)
  have hv : given ((regionReplicaLabels c m.info region n multiNode).lookup dbDataVolumeLabel) =
      some (regionReplicaDataVolumeName c.base region) := by
    rw [hlookup, hstorage.1, some_or, some_or,
      given_some (regionReplicaDataVolumeName_ne _ _)]
  have hpin : given ((regionReplicaLabels c m.info region n multiNode).lookup dbPinNodeLabel) =
      none := by
    rw [hlookup, hstorage.2.1, lookup_credentialLabel_of_ne _ (by decide)]
    rfl
  have havoid : given ((regionReplicaLabels c m.info region n multiNode).lookup dbAvoidNodeLabel) =
      if multiNode then m.label dbPinNodeLabel else none := by
    rw [hlookup, hstorage.2.2, lookup_credentialLabel_of_ne _ (by decide)]
    cases multiNode with
    | false => rfl
    | true =>
      show given (((given _).or none).or none) = m.label dbPinNodeLabel
      rw [or_none, or_none, given_given]
      rfl
  have hsecret : given ((regionReplicaLabels c m.info region n multiNode).lookup
      dbPasswordSecretLabel) = m.label dbPasswordSecretLabel := by
    rw [hlookup, lookup_dbStorageLabels_of_ne _ _ (by decide) (by decide) (by decide),
      lookup_credentialLabel]
    show given ((given _).or none) = m.label dbPasswordSecretLabel
    rw [or_none, given_given]
    rfl
  have hmark : dbPitrAppliedLabel ∉ regionReplicaLabels c m.info region n multiNode := by
    rw [← lookup_eq_none, hlookup,
      lookup_dbStorageLabels_of_ne _ _ (by decide) (by decide) (by decide),
      lookup_credentialLabel_of_ne _ (by decide)]
    rfl
  unfold regionReplicaSpec
  rw [rebuilt_applyPgMember_iff hv hpin havoid (forall_mem_nil _), secret_of_label rfl rfl hsecret]
  refine ⟨fun h => h.1, fun h => ⟨h, ?_, fun hm => absurd hm hmark⟩⟩
  rintro _ rfl
  exact mem_singleton.mpr rfl

end

/-! The rebuilds of a primary, and of a replica. -/

/-- The labels that a builder left as they were. -/
structure Untouched (m : Member) (labels : Record) : Prop where
  dataVolume : labels.lookup dbDataVolumeLabel = m.info.labels.lookup dbDataVolumeLabel
  secret : labels.lookup dbPasswordSecretLabel = m.info.labels.lookup dbPasswordSecretLabel

theorem Untouched.volume (h : Untouched m labels) :
    given (labels.lookup dbDataVolumeLabel) = some m.volume := by
  rw [h.dataVolume]
  exact label_dbDataVolumeLabel

theorem rebuilt_placePrimary_iff {region net : String} :
    Rebuilt w c m (.placePrimary region) (placePrimarySpec w m.info region net) ↔
      m.label dbPasswordSecretLabel ≠ none ∧ dbPitrAppliedLabel ∉ m.info.labels := by
  have hne {k : String} (hk : k ≠ dbPlacedRegionLabel) :
      (m.info.labels.insert dbPlacedRegionLabel region).lookup k = m.info.labels.lookup k :=
    lookup_insert_ne hk
  have hun : Untouched m (m.info.labels.insert dbPlacedRegionLabel region) :=
    ⟨hne (by decide), hne (by decide)⟩
  have hmark : dbPitrAppliedLabel ∈ m.info.labels.insert dbPlacedRegionLabel region ↔
      dbPitrAppliedLabel ∈ m.info.labels := by
    rw [← lookup_isSome, ← lookup_isSome, hne (by decide)]
  unfold placePrimarySpec
  rw [rebuilt_applyPgMember_iff hun.volume (congrArg given (hne (by decide)))
    (congrArg given (hne (by decide))) (forall_mem_nil _),
    secret_of_label rfl rfl (congrArg given hun.secret), hmark]
  refine and_congr_right fun _ => ⟨fun h hm => absurd (h.2 hm).2 not_mem_nil, fun h =>
    ⟨?_, fun hm => absurd hm h⟩⟩
  rintro _ rfl
  exact mem_singleton.mpr rfl

theorem rebuilt_stripPitr_iff : Rebuilt w c m .stripPitr (stripPitrSpec w m.info c) ↔
      m.label dbPasswordSecretLabel ≠ none ∧ m.PlacedBy dbPlacedRegionLabel := by
  have hne {k : String} (hk : k ≠ dbPitrAppliedLabel) (hk' : k ≠ dbPitrArchiveCmdLabel) :
      (strippedLabels m.info).lookup k = m.info.labels.lookup k := by
    unfold strippedLabels
    rw [lookup_erase_ne hk', lookup_erase_ne hk]
  have hun : Untouched m (strippedLabels m.info) :=
    ⟨hne (by decide) (by decide), hne (by decide) (by decide)⟩
  have hmark : dbPitrAppliedLabel ∉ strippedLabels m.info := by
    unfold strippedLabels
    rw [← lookup_eq_none, lookup_erase_ne (by decide), lookup_erase]
  unfold stripPitrSpec
  rw [rebuilt_applyPgMember_iff hun.volume (congrArg given (hne (by decide) (by decide)))
    (congrArg given (hne (by decide) (by decide))) (forall_mem_nil _),
    secret_of_label rfl rfl (congrArg given hun.secret)]
  refine and_congr_right fun _ =>
    ⟨fun h r hr => ?_, fun h => ⟨fun r hr => ?_, fun hm => absurd hm hmark⟩⟩
  · exact regionConstraint_mem_placedIn.mp (h.1 r hr)
  · exact regionConstraint_mem_placedIn.mpr (h r hr)

theorem rebuilt_repoint_iff {promoted epoch net : String} :
    Rebuilt w c m (.repoint promoted epoch) (repointSpec w m.info promoted net epoch) ↔
      m.passwordSecret ≠ none ∧ m.PlacedBy dbRegionLabel := by
  have hne {k : String} (hk : k ∉ [dbRoleLabel, dbLeaderLabel, dbFailoverPendingLabel,
      dbFailoverConfirmLabel, dbSwitchoverLabel, dbPitrAppliedLabel]) :
      (repointedLabels m.info promoted).lookup k = m.info.labels.lookup k := by
    simp only [mem_cons, not_mem_nil, or_false, not_or] at hk
    obtain ⟨hrole, hleader, hpending, hconfirm, hswitchover, hpitr⟩ := hk
    unfold repointedLabels
    rw [lookup_erase_ne hpitr, lookup_erase_ne hswitchover, lookup_erase_ne hconfirm,
      lookup_erase_ne hpending, lookup_insert_ne hleader, lookup_insert_ne hrole]
  have hun : Untouched m (repointedLabels m.info promoted) := ⟨hne (by decide), hne (by decide)⟩
  have hmark : dbPitrAppliedLabel ∉ repointedLabels m.info promoted := by
    unfold repointedLabels
    rw [← lookup_eq_none, lookup_erase]
  unfold repointSpec
  rw [rebuilt_applyPgMember_iff hun.volume (congrArg given (hne (by decide)))
    (congrArg given (hne (by decide))) refs_target, secret_of_refs rfl rfl hun.secret]
  refine and_congr_right fun _ =>
    ⟨fun h r hr => ?_, fun h => ⟨fun r hr => ?_, fun hm => absurd hm hmark⟩⟩
  · exact regionConstraint_mem_placedIn.mp (h.1 r hr)
  · exact regionConstraint_mem_placedIn.mpr (h r hr)

/-- The plan's labels keep the declared volume and change the node to avoid. -/
theorem lookup_convergedLabels {avoid : Option String} {k : String} (ha : k ≠ dbAvoidNodeLabel) :
    (convergedLabels c.base m.info avoid).lookup k = m.info.labels.lookup k := by
  have hassign : (m.info.labels.assign (dbStorageLabels m.volume none avoid)).lookup k =
      m.info.labels.lookup k := by
    rw [Record.lookup_assign]
    by_cases hv : k = dbDataVolumeLabel
    · rw [hv, (lookup_dbStorageLabels _ _).1, m.declared, some_or]
    · by_cases hp : k = dbPinNodeLabel
      · rw [hp, (lookup_dbStorageLabels _ _).2.1, given_none, none_or]
      · rw [lookup_dbStorageLabels_of_ne _ _ hv hp ha, none_or]
  unfold convergedLabels
  simp only [m.declared, getD_some]
  split_ifs with hgiven
  · rw [lookup_erase_ne ha, hassign]
  · exact hassign

theorem lookup_convergedLabels_avoid {avoid : Option String} :
    (convergedLabels c.base m.info avoid).lookup dbAvoidNodeLabel = given avoid := by
  unfold convergedLabels
  split_ifs with hgiven
  · rw [lookup_erase, hgiven]
  · rw [Record.lookup_assign, (lookup_dbStorageLabels _ _).2.2]
    obtain ⟨a, ha⟩ := ne_none_iff_exists'.mp hgiven
    rw [ha, some_or]

theorem rebuilt_replicaStorage_iff {avoid : Option String} {net : String} :
    Rebuilt w c m (.replicaStorage avoid)
        (replicaStorageSpec w m.info (convergedLabels c.base m.info avoid) net) ↔
      m.passwordSecret ≠ none ∧ (∀ region, regionConstraint region ∉ m.constraints) ∧
        dbPitrAppliedLabel ∉ m.info.labels := by
  have hun : Untouched m (convergedLabels c.base m.info avoid) :=
    ⟨lookup_convergedLabels (by decide), lookup_convergedLabels (by decide)⟩
  have hmark : dbPitrAppliedLabel ∈ convergedLabels c.base m.info avoid ↔
      dbPitrAppliedLabel ∈ m.info.labels := by
    rw [← lookup_isSome, ← lookup_isSome, lookup_convergedLabels (by decide)]
  have havoid : given ((convergedLabels c.base m.info avoid).lookup dbAvoidNodeLabel) =
      given avoid := by
    rw [lookup_convergedLabels_avoid, given_given]
  unfold replicaStorageSpec
  rw [rebuilt_applyPgMember_iff hun.volume (congrArg given (lookup_convergedLabels (by decide)))
    havoid refs_target, secret_of_refs rfl rfl hun.secret, hmark]
  refine and_congr_right fun _ => and_congr ?_ ?_
  · exact forall_congr' fun region =>
      ⟨fun h hr => absurd (h hr) not_mem_nil, fun h hr => absurd hr h⟩
  · exact ⟨fun h hm => absurd (h hm).2 not_mem_nil, fun h hm => absurd hm h⟩

theorem rebuilt_pitrPrimarySpec_iff {primary : SwarmServiceInfo}
    {running dataVolume : Option String}
    {version net : String} (hun : Untouched m primary.labels)
    (hplaced : primary.labels.lookup dbPlacedRegionLabel = m.info.labels.lookup dbPlacedRegionLabel)
    (hsecrets : primary.secrets = m.info.secrets)
    (hpin : given (primary.labels.lookup dbPinNodeLabel) =
      Rebuild.pin m (.pitr running version dataVolume))
    (havoid : given (primary.labels.lookup dbAvoidNodeLabel) =
      Rebuild.avoid m (.pitr running version dataVolume)) :
    Rebuilt w c m (.pitr running version dataVolume)
        (pitrPrimarySpec w primary c.base net version dataVolume) ↔
      m.passwordSecret ≠ none ∧ m.PlacedBy dbPlacedRegionLabel := by
  have hne {k : String} (hk : k ≠ dbPitrAppliedLabel) (hk' : k ≠ dbPitrArchiveCmdLabel) :
      (w.archivedLabels primary version).lookup k = primary.labels.lookup k := by
    unfold Release.archivedLabels
    rw [lookup_insert_ne hk', lookup_insert_ne hk]
  have hun' : Untouched m (w.archivedLabels primary version) :=
    ⟨(hne (by decide) (by decide)).trans hun.dataVolume,
      (hne (by decide) (by decide)).trans hun.secret⟩
  have hlabel : given (primary.labels.lookup dbPlacedRegionLabel) = m.label dbPlacedRegionLabel :=
    congrArg given hplaced
  unfold pitrPrimarySpec
  rw [rebuilt_applyPgMember_iff hun'.volume
    ((congrArg given (hne (by decide) (by decide))).trans hpin)
    ((congrArg given (hne (by decide) (by decide))).trans havoid) refs_target,
    secret_of_refs rfl (congrArg refs hsecrets) hun'.secret]
  refine and_congr_right fun _ => ⟨fun h r hr => ?_, fun h => ⟨fun r hr => ?_, fun _ => ⟨?_, ?_⟩⟩⟩
  · exact hlabel ▸ regionConstraint_mem_placedIn.mp (h.1 r hr)
  · exact regionConstraint_mem_placedIn.mpr (hlabel.trans (h r hr))
  · exact .head _
  · exact mem_append_right _ (mem_singleton.mpr rfl)

theorem rebuilt_pitr_iff {spec : ServiceSpec} {running dataVolume : Option String}
    {version : String}
    (h : Rebuild.spec w c m.info (.pitr running version dataVolume) = some spec) :
    Rebuilt w c m (.pitr running version dataVolume) spec ↔
      m.passwordSecret ≠ none ∧ m.PlacedBy dbPlacedRegionLabel := by
  unfold Rebuild.spec preparePitrPrimary at h
  by_cases hrole : pgBootRole (envRecord m.info.env) = "primary"
  · simp only [hrole, if_true] at h
    obtain rfl := (some.inj h).symm
    refine rebuilt_pitrPrimarySpec_iff ⟨rfl, rfl⟩ rfl rfl ?_ ?_
    · exact (if_pos hrole).symm
    · exact (if_pos hrole).symm
  · split_ifs at h
    cases hpin : given ((m.info.labels.lookup dbPinNodeLabel).or running) with
    | none =>
      simp only [hpin] at h
      exact nomatch h
    | some pin =>
      simp only [hpin] at h
      obtain rfl := (some.inj h).symm
      have hne {k : String} (hk : k ≠ dbPinNodeLabel) (hk' : k ≠ dbAvoidNodeLabel) :
          (asWriter m.info pin).labels.lookup k = m.info.labels.lookup k := by
        unfold asWriter
        rw [lookup_erase_ne hk', lookup_insert_ne hk]
      refine rebuilt_pitrPrimarySpec_iff ⟨hne (by decide) (by decide), hne (by decide) (by decide)⟩
        (hne (by decide) (by decide)) rfl ?_ ?_
      · have hpinned : (asWriter m.info pin).labels.lookup dbPinNodeLabel = some pin := by
          unfold asWriter
          rw [lookup_erase_ne (by decide), lookup_insert]
        have hgoal : Rebuild.pin m (.pitr running version dataVolume) = some pin :=
          (if_neg hrole).trans hpin
        rw [hpinned, hgoal, given_some (given_eq_some.mp hpin).2]
      · have hfree : (asWriter m.info pin).labels.lookup dbAvoidNodeLabel = none := by
          unfold asWriter
          rw [lookup_erase]
        rw [hfree, given_none]
        exact (if_neg hrole).symm

/-- A rebuilt spec keeps the member's volume, node, credential, region and archive wiring exactly
when the rebuild fits the member. -/
theorem rebuilt_iff {spec : ServiceSpec} (h : r.spec w c m.info = some spec) :
    Rebuilt w c m r spec ↔ r.Fits m := by
  cases r with
  | regionReplica region n multiNode => exact some.inj h ▸ rebuilt_regionReplica_iff
  | placePrimary region => exact some.inj h ▸ rebuilt_placePrimary_iff
  | replicaStorage avoid => exact some.inj h ▸ rebuilt_replicaStorage_iff
  | stripPitr => exact some.inj h ▸ rebuilt_stripPitr_iff
  | repoint promoted epoch => exact some.inj h ▸ rebuilt_repoint_iff
  | pitr running version dataVolume => exact rebuilt_pitr_iff h

end

/-! ## A primary that is placed -/

def release : Release := ⟨"exec docker-entrypoint.sh postgres", "0a1b2c3d4e", "5f6a7b8c9d"⟩

def shop : Cluster := ⟨"shop", "main", "shop_main"⟩

/-- A pinned primary with a password secret, and with a PITR archive if `archive` is a version. -/
def shopPrimary (archive : Option String) : Member where
  info :=
    { name := "shop_main-primary"
      image := "pgvector/pgvector:pg17"
      desiredReplicas := some 1
      labels := .ofEntries ((archive.toList.map (dbPitrAppliedLabel, ·)) ++
        [(dbPasswordSecretLabel, "shop_main-pg-password__v1"), (dbPinNodeLabel, "node-a"),
          (dbDataVolumeLabel, "shop_main-primary-data")])
      networks := ["shop_main-net"]
      env := ["SWARMY_PG_ROLE=primary"]
      secrets := ["shop_main-pg-password__v1"]
      configs := [] }
  volume := "shop_main-primary-data"
  declared := by cases archive <;> rfl
  named := by decide
  constraints := ["node.id==node-a"]

theorem rebuilt_shopPrimary : Rebuild.Fits (shopPrimary none) (.placePrimary "eu") ∧
      Rebuilt release shop (shopPrimary none) (.placePrimary "eu")
        (placePrimarySpec release (shopPrimary none).info "eu" "shop_main-net") := by
  have fits : Rebuild.Fits (shopPrimary none) (.placePrimary "eu") :=
    show _ ∧ _ from ⟨by decide, by decide⟩
  exact ⟨fits, (rebuilt_iff rfl).mpr fits⟩

/-- Every rebuild of every member keeps it all. -/
def AlwaysRebuilt : Prop :=
  ∀ (w : Release) (c : Cluster) (m : Member) (r : Rebuild) (spec : ServiceSpec),
    r.spec w c m.info = some spec → Rebuilt w c m r spec

/-- A primary that has its archive applied is placed in a region: it keeps the mark, and mounts no
archive. -/
theorem not_alwaysRebuilt : ¬ AlwaysRebuilt := fun h => by
  have hplaced := rebuilt_placePrimary_iff.mp
    (h release shop (shopPrimary (some "v1")) (.placePrimary "eu") _ rfl)
  exact hplaced.2 (by decide)

end Swarmy.PgMember
