import Mathlib.Data.List.Induction
import Swarmy.Js.Value

/-!
# The spec of a database member

`packages/core/src/manageddb-storage.ts` and `manageddb-pg.ts`: what every spec of a
Postgres member goes through before it is deployed.  The labels of a member say its data
volume, the node it is pinned to, the node it avoids and the secret its password is in;
`applyPgMember` derives the mounts, the placement and the credential from them.
-/

namespace Swarmy.PgMember

open List Option AList

/-- Labels, or an environment. -/
abbrev Record := AList fun _ : String => String

/-- `{ ...r, ...extra }`. -/
def Record.assign (r extra : Record) : Record := extra ∪ r

def Record.ofEntries (es : List (String × String)) : Record :=
  es.foldl (fun r e => r.insert e.1 e.2) ∅

/-- A text that is there and not empty. -/
def given : Option String → Option String
  | some s => if s = "" then none else some s
  | none => none

/-! ## Specs -/

structure Mount where
  type : String
  source : Option String
  target : String

/-- A secret or a config of a service. -/
structure Ref where
  source : String
  target : Option String

structure Placement where
  constraints : List String
  maxReplicasPerNode : Option Nat

structure ServiceSpec where
  name : String
  image : String
  replicas : Nat
  command : Option (List String) := none
  env : Record
  labels : Record
  networks : List String
  mounts : List Mount := []
  configs : List Ref := []
  secrets : List Ref := []
  placement : Placement := ⟨[], none⟩

/-! ## Labels and paths -/

def dbDataVolumeLabel : String := "swarmy.db.dataVolume"
def dbPinNodeLabel : String := "swarmy.db.node"
def dbAvoidNodeLabel : String := "swarmy.db.avoidNode"
def dbPasswordSecretLabel : String := "swarmy.db.passwordSecret"

def managedPgRoot : String := "/var/lib/postgresql/data"
def managedPgPgdata : String := managedPgRoot ++ "/pgdata"
def managedPgPitrConfTarget : String := "/etc/swarmy/postgresql.conf.d/swarmy-pitr.conf"

namespace PgEnv

def password : String := "POSTGRES_PASSWORD"
def passwordFile : String := "POSTGRES_PASSWORD_FILE"
def pgdata : String := "PGDATA"
def role : String := "SWARMY_PG_ROLE"
def replicationUser : String := "SWARMY_PG_REPLICATION_USER"
def replicationPassword : String := "SWARMY_PG_REPLICATION_PASSWORD"
def replicationPasswordFile : String := "SWARMY_PG_REPLICATION_PASSWORD_FILE"
def primaryHost : String := "SWARMY_PG_PRIMARY_HOST"
def primaryPort : String := "SWARMY_PG_PRIMARY_PORT"
def rejoin : String := "SWARMY_PG_REJOIN"

end PgEnv

/-! ## Storage -/

/-- Labels that declare a member's storage. -/
def dbStorageLabels (dataVolume : String) (pinNode avoidNode : Option String) : Record :=
  .ofEntries ([(dbDataVolumeLabel, dataVolume)]
    ++ (given pinNode).toList.map (dbPinNodeLabel, ·)
    ++ (given avoidNode).toList.map (dbAvoidNodeLabel, ·))

/-- `/^node\.id\s*[!=]=/`. -/
def isNodeId (c : String) : Bool :=
  Js.startsWith c "node.id" &&
    match (c.toList.drop "node.id".toList.length).dropWhile Js.isSpace with
    | a :: '=' :: _ => a = '!' || a = '='
    | _ => false

/-- The constraint on the node of a member. -/
def nodeConstraint (pin avoid : Option String) : List String :=
  match pin, avoid with
  | some n, _ => ["node.id==" ++ n]
  | none, some n => ["node.id!=" ++ n]
  | none, none => []

/-- The data volume at the data root, whatever was mounted there. -/
def withDataVolume (v : String) (mounts : List Mount) : List Mount :=
  ⟨"volume", some v, managedPgRoot⟩ :: mounts.filter (·.target ≠ managedPgRoot)

/-- A spec with its storage; two tasks of a service on one node would share its volume. -/
def ServiceSpec.withStorage (spec : ServiceSpec) (dataVolume pin avoid : Option String) :
    ServiceSpec :=
  { spec with
    mounts := dataVolume.elim spec.mounts (withDataVolume · spec.mounts)
    placement :=
      { constraints := spec.placement.constraints.filter (!isNodeId ·) ++ nodeConstraint pin avoid
        maxReplicasPerNode := dataVolume.elim spec.placement.maxReplicasPerNode fun _ => some 1 } }

/-- Mounts and placement, as the labels declare them. -/
def applyDbStorage (spec : ServiceSpec) (labels : Record) : ServiceSpec :=
  if given (labels.lookup dbDataVolumeLabel) = none ∧ given (labels.lookup dbPinNodeLabel) = none ∧
      given (labels.lookup dbAvoidNodeLabel) = none then spec
  else
    spec.withStorage (given (labels.lookup dbDataVolumeLabel))
      (given (labels.lookup dbPinNodeLabel))
      (given (labels.lookup dbAvoidNodeLabel))

/-! ## Credentials -/

/-- `.` of a regular expression. -/
def isDot (c : Char) : Bool :=
  !(c = '\n' || c = '\r' || c = Char.ofNat 0x2028 || c = Char.ofNat 0x2029)

/-- `<family>__v<n>`: the family and the version. -/
def parseDbSecretName (name : String) : Option (String × Nat) :=
  let back := name.toList.reverse
  match back.takeWhile Char.isDigit, back.dropWhile Char.isDigit with
  | d :: ds, 'v' :: '_' :: '_' :: c :: family =>
    let version := Nat.ofDigitChars 10 (d :: ds).reverse 0
    if (c :: family).all isDot && 1 ≤ version && version ≤ 9007199254740991 then
      some (.ofList (c :: family).reverse, version)
    else none
  | _, _ => none

def isDbPasswordSecret (name : String) : Bool :=
  match parseDbSecretName name with
  | some p => "-pg-password".toList.isSuffixOf p.1.toList
  | none => false

/-- The file name of a secret under `/run/secrets`. -/
def secretFamily (secret : String) : String :=
  ((parseDbSecretName secret).map (·.1)).getD secret

/-- `/run/secrets/${family}`. -/
def dbPasswordPath (secret : String) : String := "/run/secrets/" ++ secretFamily secret

/-- The member's password secret: its label, or else a mounted one. -/
def pgPasswordSecretOf (spec : ServiceSpec) (labels : Record) : Option String :=
  ((labels.lookup dbPasswordSecretLabel).or (spec.labels.lookup dbPasswordSecretLabel)).or
    ((spec.secrets.find? fun r => isDbPasswordSecret r.source).map (·.source))

/-- A mount of another version of a secret, or of another secret in its place. -/
def replaced (secret : String) (r : Ref) : Bool :=
  r.source = secret || (parseDbSecretName r.source).any (·.1 = secretFamily secret)
    || r.target.getD r.source = secretFamily secret

/-- The password as a mounted file; a spec that names no secret stays as it is. -/
def applyPgCredential (spec : ServiceSpec) (labels : Record) : ServiceSpec :=
  match given (pgPasswordSecretOf spec labels) with
  | none => spec
  | some secret =>
    { spec with
      env := (((spec.env.erase PgEnv.password).erase PgEnv.replicationPassword).insert
        PgEnv.passwordFile (dbPasswordPath secret)).insert
        PgEnv.replicationPasswordFile (dbPasswordPath secret)
      secrets := spec.secrets.filter (!replaced secret ·) ++ [⟨secret, some (secretFamily secret)⟩]
      labels := spec.labels.insert dbPasswordSecretLabel secret }

/-! ## Boot -/

def pgBootRole (env : Record) : String :=
  if env.lookup PgEnv.role = some "replica" then "replica" else "primary"

/-- The environment of a standby of `primaryHost`. -/
def pgReplicaEnv (password : Option String) (replicationUser : String)
    (replicationPassword : Option String) (primaryHost : String) (primaryPort : Nat)
    (rejoin : Option String) : Record :=
  .ofEntries ([(PgEnv.role, "replica")]
    ++ (given password).toList.map (PgEnv.password, ·)
    ++ [(PgEnv.pgdata, managedPgPgdata), (PgEnv.replicationUser, replicationUser)]
    ++ (given replicationPassword).toList.map (PgEnv.replicationPassword, ·)
    ++ [(PgEnv.primaryHost, primaryHost), (PgEnv.primaryPort, toString primaryPort)]
    ++ (given rejoin).toList.map (PgEnv.rejoin, ·))

/-- What a release of swarmy fixes: the boot script, the hash in the name of the PITR conf and
the hash of the archive command. -/
structure Release where
  pgBootScript : String
  pitrConfHash : String
  pitrArchiveCommandHash : String

def Release.pgBootCommand (w : Release) : List String := ["/bin/sh", "-c", w.pgBootScript]

/-- Swarmy's entrypoint, and the data directory it expects. -/
def applyPgBoot (w : Release) (spec : ServiceSpec) : ServiceSpec :=
  { spec with
    command := some w.pgBootCommand
    env := spec.env.insert PgEnv.pgdata managedPgPgdata }

/-- A member's spec: storage and credential from its labels, and the boot layer. -/
def applyPgMember (w : Release) (spec : ServiceSpec) (labels : Record) : ServiceSpec :=
  applyPgBoot w (applyPgCredential (applyDbStorage spec labels) labels)

/-! ## What a member's spec has -/

section

variable {w : Release} {spec : ServiceSpec} {labels : Record} {s v : String}

@[simp] theorem given_none : given none = none := rfl

@[simp] theorem given_some (h : s ≠ "") : given (some s) = some s := if_neg h

theorem given_eq_some {o : Option String} : given o = some s ↔ o = some s ∧ s ≠ "" := by
  cases o with
  | none => exact ⟨nofun, fun h => nomatch h.1⟩
  | some t =>
    simp only [given]
    split_ifs with ht
    · exact ⟨nofun, fun h => absurd (some.inj h.1 ▸ ht) h.2⟩
    · exact ⟨fun h => ⟨h, some.inj h ▸ ht⟩, fun h => h.1⟩

theorem given_given (o : Option String) : given (given o) = given o := by
  cases h : given o with
  | none => rfl
  | some t => exact given_some (given_eq_some.mp h).2

section

variable {k : String} {es : List (String × String)}

theorem Record.lookup_assign (r extra : Record) :
    (r.assign extra).lookup k = (extra.lookup k).or (r.lookup k) := by
  unfold Record.assign
  by_cases hk : k ∈ extra
  · obtain ⟨t, ht⟩ := isSome_iff_exists.mp (lookup_isSome.mpr hk)
    rw [lookup_union_left hk, ht, some_or]
  · rw [lookup_union_right hk, lookup_eq_none.mpr hk, none_or]

theorem Record.lookup_ofEntries_concat (e : String × String) :
    (Record.ofEntries (es ++ [e])).lookup k =
      if k = e.1 then some e.2 else (Record.ofEntries es).lookup k := by
  unfold Record.ofEntries
  rw [foldl_append, foldl_cons, foldl_nil]
  split_ifs with hk
  · rw [hk, lookup_insert]
  · exact lookup_insert_ne hk

theorem Record.lookup_ofEntries_of_ne (h : ∀ e ∈ es, k ≠ e.1) :
    (Record.ofEntries es).lookup k = none := by
  induction es using List.reverseRecOn with
  | nil => rfl
  | append_singleton es e ih =>
    rw [Record.lookup_ofEntries_concat,
      if_neg (h e (mem_append_right _ (mem_singleton.mpr rfl)))]
    exact ih fun e' he' => h e' (mem_append_left _ he')

end

/-- The spec carries the secret as a file, and no password. -/
structure ServiceSpec.Carries (spec : ServiceSpec) (secret : String) : Prop where
  mounted : ⟨secret, some (secretFamily secret)⟩ ∈ spec.secrets
  passwordFile : spec.env.lookup PgEnv.passwordFile = some (dbPasswordPath secret)
  replicationPasswordFile :
    spec.env.lookup PgEnv.replicationPasswordFile = some (dbPasswordPath secret)
  noPassword : spec.env.lookup PgEnv.password = none
  noReplicationPassword : spec.env.lookup PgEnv.replicationPassword = none

theorem lookup_dbStorageLabels (pin avoid : Option String) :
    (dbStorageLabels v pin avoid).lookup dbDataVolumeLabel = some v ∧
      (dbStorageLabels v pin avoid).lookup dbPinNodeLabel = given pin ∧
      (dbStorageLabels v pin avoid).lookup dbAvoidNodeLabel = given avoid := by
  unfold dbStorageLabels
  cases given pin <;> cases given avoid <;> exact ⟨rfl, rfl, rfl⟩

theorem lookup_dbStorageLabels_of_ne {k : String} (pin avoid : Option String)
    (hv : k ≠ dbDataVolumeLabel) (hp : k ≠ dbPinNodeLabel) (ha : k ≠ dbAvoidNodeLabel) :
    (dbStorageLabels v pin avoid).lookup k = none := by
  refine Record.lookup_ofEntries_of_ne fun e he => ?_
  rw [List.mem_append, List.mem_append, List.mem_singleton, List.mem_map, List.mem_map] at he
  rcases he with (rfl | ⟨_, _, rfl⟩) | ⟨_, _, rfl⟩
  exacts [hv, hp, ha]

theorem applyDbStorage_of_declared (hv : given (labels.lookup dbDataVolumeLabel) = some v) :
    applyDbStorage spec labels = spec.withStorage (some v) (given (labels.lookup dbPinNodeLabel))
      (given (labels.lookup dbAvoidNodeLabel)) := by
  unfold applyDbStorage
  rw [hv]
  exact if_neg fun h => some_ne_none v h.1

/-- Storage changes nothing but mounts and placement. -/
theorem applyDbStorage_rest : (applyDbStorage spec labels).labels = spec.labels ∧
    (applyDbStorage spec labels).secrets = spec.secrets ∧
    (applyDbStorage spec labels).configs = spec.configs := by
  unfold applyDbStorage
  split <;> exact ⟨rfl, rfl, rfl⟩

/-- The credential changes nothing but the environment, the secrets and one label. -/
theorem applyPgCredential_rest : (applyPgCredential spec labels).mounts = spec.mounts ∧
    (applyPgCredential spec labels).placement = spec.placement ∧
    (applyPgCredential spec labels).configs = spec.configs ∧
    ∀ k ≠ dbPasswordSecretLabel,
      (applyPgCredential spec labels).labels.lookup k = spec.labels.lookup k := by
  unfold applyPgCredential
  split
  · exact ⟨rfl, rfl, rfl, fun _ _ => rfl⟩
  · exact ⟨rfl, rfl, rfl, fun k hk => lookup_insert_ne hk⟩

theorem applyPgCredential_carries (h : given (pgPasswordSecretOf spec labels) = some s) :
    (applyPgBoot w (applyPgCredential spec labels)).Carries s := by
  unfold applyPgCredential applyPgBoot
  simp only [h]
  constructor
  · exact mem_append_right _ (mem_singleton.mpr rfl)
  · rw [lookup_insert_ne (by decide), lookup_insert_ne (by decide), lookup_insert]
  · rw [lookup_insert_ne (by decide), lookup_insert]
  · rw [lookup_insert_ne (by decide), lookup_insert_ne (by decide),
      lookup_insert_ne (by decide), lookup_erase_ne (by decide), lookup_erase]
  · rw [lookup_insert_ne (by decide), lookup_insert_ne (by decide),
      lookup_insert_ne (by decide), lookup_erase]

theorem applyPgCredential_secrets_of (h : given (pgPasswordSecretOf spec labels) = some s) :
    (applyPgCredential spec labels).secrets =
      spec.secrets.filter (!replaced s ·) ++ [⟨s, some (secretFamily s)⟩] := by
  unfold applyPgCredential
  simp only [h]

theorem applyPgCredential_secrets (h : given (pgPasswordSecretOf spec labels) = none) :
    (applyPgCredential spec labels).secrets = spec.secrets := by
  unfold applyPgCredential
  simp only [h]

end

end Swarmy.PgMember

/-!
## Members built again

`apps/api/src/workers/manageddb-reconcile.ts` and `manageddb-pitr.core.ts`: the specs the
worker builds for the members of a cluster.  What the agents report of a live service is
its name, image, environment, networks and labels, and the names of its secrets and
configs, so a spec is built from these again; placement, and where a config is mounted, are
not reported.  Each spec goes through `applyPgMember` at the end.
-/

namespace Swarmy.PgMember

/-! ## Live services -/

/-- A live service, as the agents report it. -/
structure SwarmServiceInfo where
  name : String
  image : String
  desiredReplicas : Option Nat
  labels : Record
  /-- The names of its networks. -/
  networks : List String
  env : List String
  secrets : List String
  configs : List String

structure Cluster where
  stack : String
  cluster : String
  base : String

def managedLabel : String := "swarmy.managed"
def stackLabel : String := "com.docker.stack.namespace"
def dbEngineLabel : String := "swarmy.db.engine"
def dbClusterLabel : String := "swarmy.db.cluster"
def dbRoleLabel : String := "swarmy.db.role"
def dbTopologyLabel : String := "swarmy.db.topology"
def scaleToZeroExemptLabel : String := "swarmy.scaleToZero.exempt"
def dbReplicasLabel : String := "swarmy.db.replicas"
def dbPlacedRegionLabel : String := "swarmy.db.placedRegion"
def dbRegionLabel : String := "swarmy.db.region"
def dbLeaderLabel : String := "swarmy.db.leader"
def dbFailoverPendingLabel : String := "swarmy.db.failover.pending"
def dbFailoverConfirmLabel : String := "swarmy.db.failover.confirm"
def dbSwitchoverLabel : String := "swarmy.db.switchover"
def dbPitrAppliedLabel : String := "swarmy.db.pitr.applied"
def dbPitrArchiveCmdLabel : String := "swarmy.db.pitr.archiveCommand"

def defaultReplicationUser : String := "repl"
def pgPort : Nat := 5432
def walArchiveMount : String := "/wal-archive"

/-- Labels every member carries. -/
def memberLabels (c : Cluster) (role topology : String) (extra : Record) : Record :=
  (Record.ofEntries [(managedLabel, "true"), (stackLabel, c.stack), (dbEngineLabel, "postgres"),
    (dbClusterLabel, c.cluster), (dbRoleLabel, role), (dbTopologyLabel, topology),
    (scaleToZeroExemptLabel, "true")]).assign extra

def clusterNet (c : Cluster) : String := c.base ++ "-net"

/-- The cluster's password secret, for another member. -/
def credentialLabel (primary : SwarmServiceInfo) : Record :=
  .ofEntries ((given (primary.labels.lookup dbPasswordSecretLabel)).toList.map
    (dbPasswordSecretLabel, ·))

def envEntry (kv : String) : String × String :=
  (.ofList (kv.toList.takeWhile (· ≠ '=')), .ofList ((kv.toList.dropWhile (· ≠ '=')).drop 1))

/-- Env `KEY=value` strings as a record. -/
def envRecord (env : List String) : Record := .ofEntries (env.map envEntry)

def regionConstraint (region : String) : String := "node.labels.swarmy.region==" ++ region

/-- The networks that have a name, or else the cluster's. -/
def SwarmServiceInfo.networksOr (s : SwarmServiceInfo) (net : String) : List String :=
  match s.networks.filter (· ≠ "") with
  | [] => [net]
  | ns => ns

/-- Names of secrets or configs, as references. -/
def refs (names : List String) : List Ref := names.map (⟨·, none⟩)

/-- Where a region, if it is given, places a service. -/
def placedIn (region : Option String) : Placement :=
  ⟨(given region).toList.map regionConstraint, none⟩

/-! ## The builders -/

section

variable (w : Release)

/-- `${base}-replica-${region}-data`. -/
def regionReplicaDataVolumeName (base region : String) : String :=
  base ++ "-replica-" ++ region ++ "-data"

def regionReplicaLabels (c : Cluster) (primary : SwarmServiceInfo) (region : String) (n : Nat)
    (multiNode : Bool) : Record :=
  memberLabels c "replica" "geo"
    (((credentialLabel primary).assign
      (.ofEntries [(dbRegionLabel, region), (dbReplicasLabel, toString n)])).assign
      (dbStorageLabels (regionReplicaDataVolumeName c.base region) none
        (if multiNode then primary.labels.lookup dbPinNodeLabel else none)))

/-- A region-pinned streaming read replica. -/
def regionReplicaSpec (c : Cluster) (primary : SwarmServiceInfo) (region : String) (n : Nat)
    (multiNode : Bool) : ServiceSpec :=
  let env := envRecord primary.env
  let password := (env.lookup PgEnv.password).getD ""
  let labels := regionReplicaLabels c primary region n multiNode
  applyPgMember w
    { name := c.base ++ "-replica-" ++ region
      image := primary.image
      replicas := n
      env := pgReplicaEnv (some password)
        ((env.lookup PgEnv.replicationUser).getD defaultReplicationUser)
        (some ((env.lookup PgEnv.replicationPassword).getD password)) primary.name pgPort none
      labels
      networks := [clusterNet c]
      placement := ⟨[regionConstraint region], none⟩ } labels

/-- The primary on a node in `region`. -/
def placePrimarySpec (primary : SwarmServiceInfo) (region net : String) : ServiceSpec :=
  let labels := primary.labels.insert dbPlacedRegionLabel region
  applyPgMember w
    { name := primary.name
      image := primary.image
      replicas := primary.desiredReplicas.getD 1
      env := envRecord primary.env
      labels
      networks := primary.networksOr net
      placement := ⟨[regionConstraint region], none⟩ } labels

/-- The labels the storage plan gives the base read replica (`convergeReplica`). -/
def convergedLabels (base : String) (replica : SwarmServiceInfo) (avoid : Option String) : Record :=
  let dataVolume := (replica.labels.lookup dbDataVolumeLabel).getD (base ++ "-replica-data")
  let labels := replica.labels.assign (dbStorageLabels dataVolume none avoid)
  if given avoid = none then labels.erase dbAvoidNodeLabel else labels

/-- The base read replica, with its storage from `labels`. -/
def replicaStorageSpec (replica : SwarmServiceInfo) (labels : Record) (net : String) :
    ServiceSpec :=
  applyPgMember w
    { name := replica.name
      image := replica.image
      replicas := replica.desiredReplicas.getD 0
      env := envRecord replica.env
      labels
      networks := replica.networksOr net
      secrets := refs replica.secrets } labels

def strippedLabels (primary : SwarmServiceInfo) : Record :=
  (primary.labels.erase dbPitrAppliedLabel).erase dbPitrArchiveCmdLabel

/-- The primary with the PITR bits dropped. -/
def stripPitrSpec (primary : SwarmServiceInfo) (c : Cluster) : ServiceSpec :=
  let labels := strippedLabels primary
  applyPgMember w
    { name := primary.name
      image := primary.image
      replicas := primary.desiredReplicas.getD 1
      env := envRecord primary.env
      labels
      networks := primary.networksOr (clusterNet c)
      placement := placedIn (primary.labels.lookup dbPlacedRegionLabel) } labels

/-- The labels of a member that follows the promoted writer: no failover is pending, and it has no
archive. -/
def repointedLabels (s : SwarmServiceInfo) (promoted : String) : Record :=
  (((((s.labels.insert dbRoleLabel "replica").insert dbLeaderLabel promoted).erase
    dbFailoverPendingLabel).erase dbFailoverConfirmLabel).erase dbSwitchoverLabel).erase
    dbPitrAppliedLabel

/-- A member repointed at the promoted writer. -/
def repointSpec (s : SwarmServiceInfo) (promoted net epoch : String) : ServiceSpec :=
  let env := envRecord s.env
  let password := (env.lookup PgEnv.password).getD ""
  let labels := repointedLabels s promoted
  applyPgMember w
    { name := s.name
      image := s.image
      replicas := s.desiredReplicas.getD 1
      env := env.assign (pgReplicaEnv (some password)
        ((env.lookup PgEnv.replicationUser).getD defaultReplicationUser)
        (some ((env.lookup PgEnv.replicationPassword).getD password)) promoted pgPort (some epoch))
      labels
      networks := s.networksOr net
      secrets := refs s.secrets
      configs := refs s.configs
      placement := placedIn (s.labels.lookup dbRegionLabel) } labels

inductive PitrPrimaryPrep where
  | ready (primary : SwarmServiceInfo) (promoted : Bool)
  | wait (reason : String)

/-- The primary as a writer, pinned to the node it runs on. -/
def asWriter (primary : SwarmServiceInfo) (pin : String) : SwarmServiceInfo :=
  let writerEnv := ((((envRecord primary.env).insert PgEnv.role "primary").erase
    PgEnv.primaryHost).erase PgEnv.primaryPort).erase PgEnv.rejoin
  { primary with
    labels := (primary.labels.insert dbPinNodeLabel pin).erase dbAvoidNodeLabel
    env := writerEnv.entries.map fun e => e.1 ++ "=" ++ e.2 }

/-- Whether, and how, the PITR spec can be applied to the primary; `runningOnSwarmNode` is the
node of its running task. -/
def preparePitrPrimary (primary : SwarmServiceInfo) (runningOnSwarmNode : Option String) :
    PitrPrimaryPrep :=
  if pgBootRole (envRecord primary.env) = "primary" then .ready primary false
  else if primary.desiredReplicas.getD 1 > 1 then
    .wait (primary.name ++ " runs " ++ toString (primary.desiredReplicas.getD 1)
      ++ " tasks; a writer must run one")
  else
    match given ((primary.labels.lookup dbPinNodeLabel).or runningOnSwarmNode) with
    | none => .wait (primary.name ++ " has no running task to pin its data volume to")
    | some pin => .ready (asWriter primary pin) true

def Release.pitrConfName (base : String) : String := base ++ "-pitr-conf-" ++ w.pitrConfHash

/-- Any generation of a cluster's PITR conf. -/
def isPitrConf (base name : String) : Bool :=
  name = base ++ "-pitr-conf" || Js.startsWith name (base ++ "-pitr-conf-")

def walArchive (base : String) : Mount := ⟨"volume", some (base ++ "-wal-archive"), walArchiveMount⟩

def Release.archivedLabels (primary : SwarmServiceInfo) (version : String) : Record :=
  (primary.labels.insert dbPitrAppliedLabel version).insert dbPitrArchiveCmdLabel
    w.pitrArchiveCommandHash

/-- The PITR-enabled primary. -/
def pitrPrimarySpec (primary : SwarmServiceInfo) (base net version : String)
    (dataVolume : Option String) : ServiceSpec :=
  let labels := w.archivedLabels primary version
  applyPgMember w
    { name := primary.name
      image := primary.image
      replicas := primary.desiredReplicas.getD 1
      env := envRecord primary.env
      labels
      networks := primary.networksOr net
      mounts := walArchive base ::
        (given dataVolume).toList.map fun v => ⟨"volume", some v, managedPgRoot⟩
      configs := refs (primary.configs.filter (!isPitrConf base ·))
        ++ [⟨w.pitrConfName base, some managedPgPitrConfTarget⟩]
      secrets := refs primary.secrets
      placement := placedIn (primary.labels.lookup dbPlacedRegionLabel) } labels

/-- The rebuilds of the worker, with what each is told besides the member. -/
inductive Rebuild where
  | regionReplica (region : String) (n : Nat) (multiNode : Bool)
  | placePrimary (region : String)
  | replicaStorage (avoid : Option String)
  | stripPitr
  | repoint (promoted epoch : String)
  | pitr (runningOnSwarmNode : Option String) (version : String) (dataVolume : Option String)

/-- The spec that is deployed, if there is one this tick. -/
def Rebuild.spec (c : Cluster) (s : SwarmServiceInfo) : Rebuild → Option ServiceSpec
  | .regionReplica region n multiNode => some (regionReplicaSpec w c s region n multiNode)
  | .placePrimary region => some (placePrimarySpec w s region (clusterNet c))
  | .replicaStorage avoid =>
    some (replicaStorageSpec w s (convergedLabels c.base s avoid) (clusterNet c))
  | .stripPitr => some (stripPitrSpec w s c)
  | .repoint promoted epoch => some (repointSpec w s promoted (clusterNet c) epoch)
  | .pitr running version dataVolume =>
    match preparePitrPrimary s running with
    | .ready primary _ => some (pitrPrimarySpec w primary c.base (clusterNet c) version dataVolume)
    | .wait _ => none

end

end Swarmy.PgMember
