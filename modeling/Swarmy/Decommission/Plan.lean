import Mathlib
import Swarmy.Decommission.Picker

/-!
# The plan that retires a server

`packages/trpc/src/services/node-decommission.plan.ts`: `planDecommission`, section by
section.  Each section adds to what the planner has so far: steps, blockers, warnings and
what the picker has given away.
-/

namespace Swarmy.Decommission

/-! ## Inputs and plans -/

structure Mount where
  type : Option String
  source : Option String
  target : String

/-- A container on the target. -/
structure DecomContainerInput where
  serviceName : Option String
  labels : Labels
  mounts : List Mount

structure DecomVolumeInput where
  name : String
  driver : Option String
  sizeBytes : Option Nat

structure DecommissionInput where
  targetNodeId : String
  /-- Every enrolled server, the target included. -/
  nodes : List DecomNodeInput
  services : List DecomServiceInput
  containers : List DecomContainerInput
  volumes : List DecomVolumeInput
  /-- The last backup of a volume that succeeded. -/
  lastBackupAt : List (String × Int)
  backupsConfigured : Bool
  garageReplicationFactor : Option Int
  now : Int
  /-- The servers are rows of a table with their id as its key. -/
  enrolled : (nodes.map (·.nodeId)).Nodup

inductive DrainStepKind where
  | safetyBackup
  | cordon
  | managerPromote
  | edgeHandover
  | garageAddMember
  | garageLeave
  | dbSwitchover
  | dbStandbySwitchover
  | dbFailover
  | volumeCopy
  | volumeFollow
  | volumeRestore
  | drain
  | garageAwaitResync
  | managerDemote
  | swarmLeave
  | meshRemove
  | forget

inductive Downtime where
  | none
  | seconds
  | short
  | unknown

structure Destination where
  nodeId : String
  hostname : String

structure DrainStep where
  id : String
  kind : DrainStepKind
  subject : Option String := none
  volumes : Option (List String) := none
  destination : Option Destination := none
  downtime : Downtime := .none
  bytes : Option Nat := none

inductive BlockerCode where
  | unknownNode
  | notInSwarm
  | controllerHost
  | lastNode
  | noManagerCandidate
  | noDestination
  | dataUnreachable
  | unsupportedTopology
  | garageNoReplacement
  | edgeNoReplacement

structure Blocker where
  code : BlockerCode
  subject : Option String := none

/-- A warning, by what its text is about. -/
inductive Warning where
  | cacheRestarts (cluster : String) (replica : Bool)
  | folder (service source : String)
  | scratchVolume (service : String)
  | copies (service : String) (replicas : Nat)
  | domains (hostname : String)
  | evenManagers (remaining : Nat)
  | noBackups
  | replicas (service : String) (wanted : Nat) (slots : Int)
deriving DecidableEq

structure Totals where
  databases : Nat := 0
  volumes : Nat := 0
  statelessServices : Nat := 0
  bytesToMove : Nat := 0
  unknownSizes : Nat := 0

structure Header where
  nodeId : String
  hostname : String
  role : Role
  online : Bool

structure DecommissionPlan where
  node : Header
  steps : List DrainStep
  blockers : List Blocker
  warnings : List Warning
  totals : Totals
  runnable : Bool

def emptyPlan (node : Header) (blockers : List Blocker) : DecommissionPlan where
  node := node
  steps := []
  blockers := blockers
  warnings := []
  totals := {}
  runnable := false

def dest (n : DecomNodeInput) : Destination := ⟨n.nodeId, n.hostname⟩

/-! ## What the planner has so far -/

structure Draft where
  picker : DestinationPicker
  blockers : List Blocker
  warnings : List Warning := []
  dataSteps : List DrainStep := []
  volumeSteps : List DrainStep := []
  edgeSteps : List DrainStep := []
  needsBackup : List String := []
  stateless : List String := []
  handled : List String := []
  csiFollow : List String := []
  databases : Nat := 0
  volumeCount : Nat := 0
  bytesToMove : Nat := 0
  unknownSizes : Nat := 0

namespace Draft

variable (d : Draft)

def block (code : BlockerCode) (subject : Option String) : Draft :=
  { d with blockers := d.blockers ++ [⟨code, subject⟩] }

def warn (w : Warning) : Draft := { d with warnings := d.warnings ++ [w] }

def dataStep (s : DrainStep) : Draft := { d with dataSteps := d.dataSteps ++ [s] }

def volumeStep (s : DrainStep) : Draft := { d with volumeSteps := d.volumeSteps ++ [s] }

def edgeStep (s : DrainStep) : Draft := { d with edgeSteps := d.edgeSteps ++ [s] }

def addStateless (name : String) : Draft := { d with stateless := d.stateless ++ [name] }

def handle (name : String) : Draft := { d with handled := name :: d.handled }

/-- The volumes without a fresh backup are to be backed up first. -/
def backUp (vols : List String) : Draft :=
  { d with needsBackup := d.needsBackup ++ vols.filter (· ∉ d.needsBackup) }

def pickedBy (picker : DestinationPicker) : Draft := { d with picker := picker }

def countDatabase : Draft := { d with databases := d.databases + 1 }

def countVolumes (n : Nat) : Draft := { d with volumeCount := d.volumeCount + n }

/-- Volumes of the cluster, which follow their tasks. -/
def follow (vols : List String) : Draft := { d with csiFollow := d.csiFollow ++ vols }

/-- Count what a step copies. -/
def count (bytes : Option Nat) (unknown : Nat) : Draft :=
  match bytes with
  | some bytes => { d with bytesToMove := d.bytesToMove + bytes }
  | none => { d with unknownSizes := d.unknownSizes + unknown }

end Draft

/-! ## What runs on the target -/

/-- `map.set(key, f(map.get(key)))`, in the order of the keys' first entries. -/
def update {α : Type} (f : Option α → α) (key : String) : List (String × α) → List (String × α)
  | [] => [(key, f none)]
  | (k, v) :: rest =>
    if k = key then (k, f (some v)) :: rest else (k, v) :: update f key rest

section

variable (lib : Lib) (input : DecommissionInput) (target : DecomNodeInput)

def DecommissionInput.others : List DecomNodeInput :=
  input.nodes.filter (·.nodeId ≠ target.nodeId)

/-- Some data label of a service pins it to the target. -/
def pinnedHere (s : DecomServiceInput) : Bool :=
  match target.swarm.map (·.swarmNodeId) with
  | some id => id ≠ "" && PINNED_DATA_LABELS.any fun k => s.labels.lookup k = some id
  | none => false

/-- The services that run on the target, or are declared to, with their mounts. -/
def onTarget : List (String × List Mount) :=
  let running := input.containers.foldl (fun (m : List (String × List Mount)) c =>
    match (c.serviceName.or (c.labels.lookup SERVICE_NAME_LABEL)).filter (· ≠ "") with
    | none => m
    | some svc => update (fun mounts => mounts.getD [] ++ c.mounts) svc m) []
  input.services.foldl (fun m s =>
    if pinnedHere target s && (m.lookup s.name).isNone then
      m ++ [(s.name, match s.labels.truthy DB_DATA_VOLUME_LABEL with
        | some vol => [⟨some "volume", some vol, "/data"⟩]
        | none => [])]
    else m) running

def sizeOf (v : String) : Option Nat :=
  (input.volumes.reverse.find? (·.name = v)).bind (·.sizeBytes)

def SAFETY_BACKUP_MAX_AGE_MS : Int := 24 * 60 * 60000

def hasFreshBackup (vol : String) : Bool :=
  (input.lastBackupAt.lookup vol).any fun at' => input.now - at' ≤ SAFETY_BACKUP_MAX_AGE_MS

def regionOf : Option String := target.labels.lookup NODE_REGION

def Draft.pick (d : Draft) (bytes : Option Nat) : Option (DecomNodeInput × DestinationPicker) :=
  d.picker.pick lib input.nodes target.nodeId (regionOf target) bytes

def Draft.pickRoleHost (d : Draft) (exclude : List String) (filter : DecomNodeInput → Bool) :
    RoleHostPick :=
  d.picker.pickRoleHost lib input.nodes target.nodeId (regionOf target) exclude filter

/-! ## Managed Postgres -/

/-- The members of each cluster, by stack and name. -/
def clusters : List (String × List DecomServiceInput) :=
  input.services.foldl (fun m s =>
    match s.labels.truthy DB_CLUSTER with
    | none => m
    | some c =>
      if (s.labels.lookup DB_ROLE).isNone then m
      else update (fun members => members.getD [] ++ [s])
        ((s.labels.lookup STACK_NAMESPACE).getD "" ++ "/" ++ c) m) []

/-- `key.split('/').pop()`. -/
def clusterOf (key : String) : String :=
  String.ofList (key.toList.reverse.takeWhile (· ≠ '/')).reverse

/-- `Number(label ?? replicas ?? 0) > 0`. -/
def wantsReplica (m : DecomServiceInput) (replicaSvc : Option DecomServiceInput) : Bool :=
  match m.labels.lookup DB_REPLICAS with
  | some text => lib.positive text
  | none => 0 < ((replicaSvc.bind (·.desiredReplicas)).getD 0)

/-- A primary on the target. -/
def postgresPrimary (cluster : String) (members : List DecomServiceInput) (m : DecomServiceInput)
    (d : Draft) : Draft :=
  let d := d.countDatabase
  let vol := m.labels.truthy DB_DATA_VOLUME_LABEL
  if m.labels.lookup DB_TOPOLOGY = some "active-active" || (m.labels.truthy DB_MEMBER).isSome then
    d.block .unsupportedTopology (some m.name)
  else
    let replicaSvc := members.find? fun x => x.labels.lookup DB_ROLE = some "replica"
    let hasReplica := wantsReplica lib m replicaSvc &&
      replicaSvc.any fun r => 0 < r.desiredReplicas.getD 0
    let bytes := vol.bind (sizeOf input)
    if !target.online then
      if hasReplica then
        d.dataStep { id := "db-failover:" ++ m.name, kind := .dbFailover, subject := m.name,
                     downtime := .seconds }
      else
        match vol with
        | some vol =>
          if (input.lastBackupAt.lookup vol).isSome then
            match d.pick lib input target bytes with
            | none => d.block .noDestination (some cluster)
            | some (n, picker) =>
              (d.pickedBy picker).dataStep {
                id := "volume-restore:" ++ m.name, kind := .volumeRestore, subject := m.name,
                volumes := some [vol], destination := dest n, downtime := .unknown }
          else d.block .dataUnreachable (some m.name)
        | none => d.block .dataUnreachable (some m.name)
    else
      let d := d.backUp (vol.toList.filter fun v => !hasFreshBackup input v)
      if hasReplica then
        d.dataStep { id := "db-switchover:" ++ m.name, kind := .dbSwitchover, subject := m.name,
                     downtime := .seconds }
      else
        match d.pick lib input target bytes with
        | none => d.block .noDestination (some cluster)
        | some (n, picker) =>
          ((d.pickedBy picker).count bytes 1).dataStep {
            id := "db-standby-switchover:" ++ m.name, kind := .dbStandbySwitchover,
            subject := m.name, volumes := vol.map ([·]), destination := dest n, bytes := bytes,
            downtime := .seconds }

/-- One member of a cluster. -/
def postgresMember (cluster : String) (members : List DecomServiceInput) (d : Draft)
    (m : DecomServiceInput) : Draft :=
  if ((onTarget input target).lookup m.name).isNone then d
  else
    let d := d.handle m.name
    let r := m.labels.lookup DB_ROLE
    if r = some "replica" ∨ r = some "dcs" then d.addStateless m.name
    else if r ≠ some "primary" then d
    else postgresPrimary lib input target cluster members m d

def postgres (d : Draft) : Draft :=
  (clusters input).foldl (fun d (key, members) =>
    members.foldl (postgresMember lib input target (clusterOf key) members) d) d

/-! ## Managed caches -/

/-- A cache; the primary on an online target is left to the volumes. -/
def cache (d : Draft) (s : DecomServiceInput) : Draft :=
  match s.labels.truthy CACHE_CLUSTER with
  | none => d
  | some cluster =>
    if ((onTarget input target).lookup s.name).isNone || s.name ∈ d.handled then d
    else if s.labels.lookup CACHE_ROLE ≠ some "primary" then
      (d.handle s.name).addStateless s.name
    else if !target.online then
      ((d.handle s.name).warn (.cacheRestarts cluster
        ((s.labels.lookup CACHE_REPLICAS).any lib.positive))).addStateless s.name
    else d

def caches (d : Draft) : Draft := input.services.foldl (cache lib input target) d

/-! ## The Garage member -/

def isMember (n : DecomNodeInput) : Bool := n.labels.lookup GARAGE_MEMBER_NODE_LABEL = some "true"

def garageMembers : List DecomNodeInput := input.nodes.filter isMember

def replicationFactor : Int := max 1 (input.garageReplicationFactor.getD 1)

/-- The share of a member goes to another server, if the copies need one. -/
def garageAdd (d : Draft) : List DrainStep × Draft :=
  let remaining : Int := (garageMembers input).length - 1
  if remaining < replicationFactor input ∨ remaining = 0 then
    match (d.pickRoleHost lib input target ((garageMembers input).map (·.nodeId)) fun _ =>
      true).chosen with
    | none => ([], d.block .garageNoReplacement none)
    | some n => ([{ id := "garage-add-member:" ++ n.nodeId, kind := .garageAddMember,
                    destination := dest n }], d)
  else ([], d)

/-- The steps of the member, the wait for its data, and what is drafted. -/
def garage (d : Draft) : List DrainStep × List DrainStep × Draft :=
  if isMember target then
    let (add, d) := garageAdd lib input target d
    let d :=
      if !target.online && replicationFactor input ≤ 1 then
        d.block .dataUnreachable (some "object storage")
      else d
    (add ++ [{ id := "garage-leave:" ++ target.nodeId, kind := .garageLeave }],
      [{ id := "garage-await-resync:" ++ target.nodeId, kind := .garageAwaitResync }], d)
  else ([], [], d)

/-! ## Volumes -/

def isHex (c : Char) : Bool := c.isDigit || ('a' ≤ c && c ≤ 'f')

/-- `ANON_VOLUME_RE.test(v)`. -/
def isAnonymous (v : String) : Bool := v.toList.length = 64 && v.toList.all isHex

/-- `/garage/.test(name)`. -/
def namesGarage (name : String) : Bool := "garage".toList <:+: name.toList

def driverOf (v : String) : Option String :=
  (input.volumes.reverse.find? (·.name = v)).bind (·.driver)

/-- Volumes that stay on the target's disk. -/
def copyVolumes (svcName : String) (localVols : List String) (d : Draft) : Draft :=
  let d := d.countVolumes localVols.length
  let known := localVols.map (sizeOf input)
  let bytes := if known.all Option.isSome then some (known.map (·.getD 0)).sum else none
  if !target.online then
    if localVols.any fun v => (input.lastBackupAt.lookup v).isNone then
      d.block .dataUnreachable (some svcName)
    else
      match d.pick lib input target bytes with
      | none => d.block .noDestination (some svcName)
      | some (n, picker) =>
        (d.pickedBy picker).volumeStep {
          id := "volume-restore:" ++ svcName, kind := .volumeRestore, subject := svcName,
          volumes := localVols, destination := dest n, bytes := bytes, downtime := .unknown }
  else
    let d := d.backUp (localVols.filter fun v => !hasFreshBackup input v)
    match d.pick lib input target bytes with
    | none => d.block .noDestination (some svcName)
    | some (n, picker) =>
      ((d.pickedBy picker).count bytes (known.filter Option.isNone).length).volumeStep {
        id := "volume-copy:" ++ svcName, kind := .volumeCopy, subject := svcName,
        volumes := localVols, destination := dest n, bytes := bytes, downtime := .short }

/-- The named volumes of a service on the target. -/
def namedVolumes (svcName : String) (svc : Option DecomServiceInput) (named : List String)
    (d : Draft) : Draft :=
  let d := d.handle svcName
  if named = [] then d.addStateless svcName
  else
    let localVols := named.filter fun v => driverOf input v = none ∨ driverOf input v = some "local"
    let d := d.follow (named.filter (· ∉ localVols))
    let replicas := (svc.bind (·.desiredReplicas)).getD 1
    if localVols = [] then d.addStateless svcName
    else if !svc.any (pinnedHere target) && 1 < replicas then
      (d.warn (.copies svcName replicas)).addStateless svcName
    else copyVolumes lib input target svcName localVols d

/-- The folders of the server itself that a service uses. -/
def folders (mounts : List Mount) : List String :=
  mounts.filterMap fun m =>
    m.source.filter fun s => m.type = some "bind" && s ≠ "" && s ≠ "/var/run/docker.sock"

/-- One service on the target. -/
def volume (d : Draft) (entry : String × List Mount) : Draft :=
  let (svcName, mounts) := entry
  let svc := input.services.reverse.find? (·.name = svcName)
  let vols := (mounts.filterMap fun m =>
    m.source.filter fun s => m.type = some "volume" && s ≠ "").reverse.dedup.reverse
  if svcName ∈ d.handled then d
  else if svc.any (·.mode = .global) then d.handle svcName
  else if isMember target && svc.any (fun s => s.labels.lookup STACK_NAMESPACE =
    some "swarmy-system") &&
      namesGarage svcName then d.handle svcName
  else
    let d := (folders mounts).foldl (fun d source => d.warn (.folder svcName source)) d
    let named := vols.filter fun v => !isAnonymous v
    let d := if named.length < vols.length then d.warn (.scratchVolume svcName) else d
    namedVolumes lib input target svcName svc named d

/-- Texts in order, each once. -/
def sorted (texts : List String) : List String := texts.dedup.mergeSort fun a b => a ≤ b

def volumes (d : Draft) : Draft :=
  let d := (onTarget input target).foldl (volume lib input target) d
  if d.csiFollow = [] then d
  else d.volumeStep { id := "volume-follow:csi", kind := .volumeFollow,
                      volumes := sorted d.csiFollow, downtime := .seconds }

/-! ## Edge and outlet -/

/-- The edge or the outlet goes to another public server, unless others have it. -/
def edge (d : Draft) (label : String) : Draft :=
  if target.labels.lookup label ≠ some "true" then d
  else if (input.others target).any fun n => n.labels.lookup label = some "true" &&
    isSchedulable n then
    d.edgeStep { id := "edge-handover:" ++ label, kind := .edgeHandover }
  else
    match (d.pickRoleHost lib input target [] hasPublicIp).chosen with
    | none => d.block .edgeNoReplacement none
    | some n =>
      let d := d.edgeStep { id := "edge-handover:" ++ label, kind := .edgeHandover,
                            destination := dest n, downtime := .seconds }
      if label = NODE_INGRESS then d.warn (.domains n.hostname) else d

def edges (d : Draft) : Draft := [NODE_INGRESS, NODE_OUTLET].foldl (edge lib input target) d

/-! ## Managers -/

def managers : List DecomNodeInput := input.nodes.filter fun n => n.role = some .manager

/-- The steps that promote another server, and what is drafted. -/
def managerSteps (d : Draft) : List DrainStep × Draft :=
  if target.role = some .manager then
    let remaining := (managers input).length - 1
    let worker := (d.pickRoleHost lib input target [] fun n => n.role = some .worker).chosen
    if remaining = 0 ∨ (remaining % 2 = 0 ∧ worker.isSome) then
      match worker with
      | none => ([], d.block .noManagerCandidate none)
      | some n => ([{ id := "manager-promote:" ++ n.nodeId, kind := .managerPromote,
                      destination := dest n }], d)
    else if remaining % 2 = 0 then ([], d.warn (.evenManagers remaining))
    else ([], d)
  else ([], d)

def demote : List DrainStep :=
  if target.role = some .manager then
    [{ id := "manager-demote:" ++ target.nodeId, kind := .managerDemote }]
  else []

/-! ## The plan -/

def backupStep (d : Draft) : List DrainStep :=
  if target.online && input.backupsConfigured && d.needsBackup ≠ [] then
    [{ id := "safety-backup", kind := .safetyBackup, volumes := sorted d.needsBackup }]
  else []

/-- A warning for each replica that will want more servers than there are. -/
def replicaWarnings : List Warning :=
  input.services.filterMap fun s =>
    let wanted : Nat := s.desiredReplicas.getD 0
    let primaryNodes := (input.services.filter fun p =>
      p.labels.lookup DB_CLUSTER = s.labels.lookup DB_CLUSTER &&
        p.labels.lookup DB_ROLE = some "primary" &&
          (p.labels.truthy DB_PIN_NODE_LABEL).isSome).length
    let slots : Int := ((input.others target).filter isSchedulable).length - min 1 primaryNodes
    if s.labels.lookup DB_ROLE = some "replica" && ((onTarget input target).lookup s.name).isSome &&
        0 < wanted && slots < (wanted : Int) then
      some (.replicas s.name wanted (max 0 slots))
    else none

def cordon : List DrainStep :=
  if target.online then [{ id := "cordon:" ++ target.nodeId, kind := .cordon }] else []

def meshRemove : List DrainStep :=
  if target.meshPeer then [{ id := "mesh-remove:" ++ target.nodeId, kind := .meshRemove }] else []

/-- What stands in the way before anything is planned. -/
def firstBlockers : List Blocker :=
  (if target.hostsController then [⟨.controllerHost, none⟩] else []) ++
    if (input.others target).any isSchedulable then [] else [⟨.lastNode, none⟩]

def header : Header := ⟨target.nodeId, target.hostname, target.role.getD .worker, target.online⟩

/-- What is drafted before the object store is looked at. -/
def dataDraft : Draft :=
  caches lib input target (postgres lib input target
    { picker := .new input.services, blockers := firstBlockers input target })

/-- What is drafted before the managers are looked at. -/
def edgeDraft : Draft :=
  edges lib input target (volumes lib input target
    (garage lib input target (dataDraft lib input target)).2.2)

def finalDraft : Draft :=
  let d := (managerSteps lib input target (edgeDraft lib input target)).2
  if target.online && !input.backupsConfigured && (d.dataSteps ≠ [] || d.volumeSteps ≠ []) then
    d.warn .noBackups
  else d

/-- The plan for a server that is known. -/
def planFor : DecommissionPlan :=
  let (garageSteps, garageResync, _) := garage lib input target (dataDraft lib input target)
  let (promote, _) := managerSteps lib input target (edgeDraft lib input target)
  let d := finalDraft lib input target
  { node := header target
    steps := backupStep input target d ++ cordon target ++ promote ++ d.edgeSteps ++ garageSteps ++
      d.dataSteps ++ d.volumeSteps ++ [{ id := "drain:" ++ target.nodeId, kind := .drain }] ++
      garageResync ++ demote target ++
      [{ id := "swarm-leave:" ++ target.nodeId, kind := .swarmLeave }] ++ meshRemove target ++
      [{ id := "forget:" ++ target.nodeId, kind := .forget }]
    blockers := d.blockers
    warnings := (d.warnings ++ replicaWarnings input target).reverse.dedup.reverse
    totals := { databases := d.databases, volumes := d.volumeCount,
                statelessServices := d.stateless.dedup.length,
                bytesToMove := d.bytesToMove, unknownSizes := d.unknownSizes }
    runnable := d.blockers = [] }

def planDecommission : DecommissionPlan :=
  match input.nodes.find? (·.nodeId = input.targetNodeId) with
  | none =>
    emptyPlan ⟨input.targetNodeId, input.targetNodeId, .worker, false⟩ [⟨.unknownNode, none⟩]
  | some target =>
    if target.swarm.isNone && target.online then emptyPlan (header target) [⟨.notInSwarm, none⟩]
    else planFor lib input target

end

end Swarmy.Decommission
