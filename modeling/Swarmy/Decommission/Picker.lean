import Mathlib.Tactic.Common
import Mathlib.Data.List.Sort

/-!
# Where a retiring server's roles and data go

`packages/trpc/src/services/node-decommission.plan.ts`: the inputs of a plan, how
reachable a server is, and the picker that chooses a host for a role or for data.  The
texts that a plan shows are left out.
-/

namespace Swarmy.Decommission

/-! ## Inputs -/

/-- A record of texts. -/
abbrev Labels := List (String × String)

/-- A label that counts as true: one that is set, and not to the empty text. -/
def Labels.truthy (labels : Labels) (key : String) : Option String :=
  (labels.lookup key).filter (· ≠ "")

def DB_CLUSTER : String := "swarmy.db.cluster"
def DB_ROLE : String := "swarmy.db.role"
def DB_TOPOLOGY : String := "swarmy.db.topology"
def DB_REPLICAS : String := "swarmy.db.replicas"
def DB_MEMBER : String := "swarmy.db.member"
def DB_DATA_VOLUME_LABEL : String := "swarmy.db.dataVolume"
def DB_PIN_NODE_LABEL : String := "swarmy.db.node"
def CACHE_CLUSTER : String := "swarmy.cache.cluster"
def CACHE_ROLE : String := "swarmy.cache.role"
def CACHE_REPLICAS : String := "swarmy.cache.replicas"
def NODE_INGRESS : String := "swarmy.node.ingress"
def NODE_OUTLET : String := "swarmy.node.outlet"
def NODE_REGION : String := "swarmy.region"
def NODE_PUBLIC_IP : String := "swarmy.node.public-ip"
def NODE_PUBLIC_IP_OVERRIDE : String := "swarmy.node.public-ip.override"
def NODE_REACHABILITY : String := "swarmy.node.reachability"
def NODE_REACHABILITY_OVERRIDE : String := "swarmy.node.reachability.override"
def GARAGE_MEMBER_NODE_LABEL : String := "swarmy.garage.member"
def SERVICE_NAME_LABEL : String := "com.docker.swarm.service.name"
def STACK_NAMESPACE : String := "com.docker.stack.namespace"

/-- Every label that pins a data member to a node. -/
def PINNED_DATA_LABELS : List String :=
  [DB_PIN_NODE_LABEL, "swarmy.cache.node", "swarmy.search.node", "swarmy.vector.node"]

/-- A disk may not pass this after a move lands on it. -/
def DESTINATION_MAX_USED_PCT : Int := 85

inductive Role where
  | manager
  | worker
deriving DecidableEq

inductive Availability where
  | active
  | pause
  | drain
deriving DecidableEq

inductive NodeStatus where
  | unknown
  | down
  | ready
  | disconnected
deriving DecidableEq

structure SwarmNodeInfo where
  swarmNodeId : String
  role : Role
  availability : Availability
  status : NodeStatus
  addr : Option String
  labels : Labels

structure Disk where
  usedBytes : Nat
  totalBytes : Nat

structure DecomNodeInput where
  /-- Enrollment id. -/
  nodeId : String
  hostname : String
  online : Bool
  /-- `none` is not reported. -/
  swarm : Option SwarmNodeInfo
  /-- Runs the controller's task. -/
  hostsController : Bool
  disk : Option Disk
  /-- Is a peer on the mesh. -/
  meshPeer : Bool

/-- `n.swarm?.labels ?? {}`. -/
def DecomNodeInput.labels (n : DecomNodeInput) : Labels := (n.swarm.map (·.labels)).getD []

def DecomNodeInput.role (n : DecomNodeInput) : Option Role := n.swarm.map (·.role)

inductive Mode where
  | replicated
  | global
deriving DecidableEq

structure DecomServiceInput where
  name : String
  mode : Mode
  desiredReplicas : Option Nat
  labels : Labels

/-! ## Reachability -/

def isSchedulable (n : DecomNodeInput) : Bool :=
  n.online && n.swarm.any fun s => s.status = .ready && s.availability = .active

/-- `l[NODE_PUBLIC_IP_OVERRIDE] || l[NODE_PUBLIC_IP]`, if it is true. -/
def publicIp (n : DecomNodeInput) : Option String :=
  (n.labels.truthy NODE_PUBLIC_IP_OVERRIDE).or (n.labels.truthy NODE_PUBLIC_IP)

def hasPublicIp (n : DecomNodeInput) : Bool := (publicIp n).isSome

inductive Reachability where
  | public_
  | probablyPublic
  | unknown
  /-- It can dial out, but nothing can dial in. -/
  | nat
deriving DecidableEq

def REACH_RANK : Reachability → Int
  | .public_ => 0
  | .probablyPublic => 1
  | .unknown => 2
  | .nat => 3

/-- A server's reachability. -/
def nodeReachability (n : DecomNodeInput) : Reachability :=
  let override := n.labels.lookup NODE_REACHABILITY_OVERRIDE
  let reported := n.labels.lookup NODE_REACHABILITY
  if override = some "public" then .public_
  else if override = some "nat" then .nat
  else if reported = some "nat" then .nat
  else if reported = some "public" then .public_
  else
    match publicIp n with
    | some ip => if n.swarm.bind (·.addr) = some ip then .public_ else .probablyPublic
    | none => .unknown

/-! ## The picker -/

/-- What the language does with texts. -/
structure Lib where
  /-- `a.localeCompare(b)` is not positive. -/
  localeLe : String → String → Bool
  /-- `Number(s)` is positive. -/
  positive : String → Bool

/-- `d₁ || d₂ || … || a.localeCompare(b)` is not positive. -/
def notAfter (differences : List Int) (tie : Bool) : Bool :=
  match differences.find? (· ≠ 0) with
  | some d => d < 0
  | none => tie

/-- What a picker keeps over one plan: the bytes that it has promised on a node, and the
data members that are pinned to one. -/
structure DestinationPicker where
  reserved : String → Nat
  pinned : String → Nat

structure RoleHostPick where
  chosen : Option DecomNodeInput
  /-- The candidates left out because they sit behind NAT. -/
  natSkipped : List DecomNodeInput

namespace DestinationPicker

def new (services : List DecomServiceInput) : DestinationPicker where
  reserved := fun _ => 0
  pinned := fun id =>
    (services.flatMap fun s => PINNED_DATA_LABELS.filterMap s.labels.truthy).count id

variable (lib : Lib) (nodes : List DecomNodeInput) (targetNodeId : String)
  (region : Option String) (p : DestinationPicker)

/-- Headroom of a node, in hundredths of a byte, or `none` when its disk is unknown. -/
def room (n : DecomNodeInput) : Option Int :=
  match n.disk with
  | none => none
  | some disk =>
    if 0 < disk.totalBytes then
      some (disk.totalBytes * DESTINATION_MAX_USED_PCT - 100 * disk.usedBytes -
        100 * p.reserved n.nodeId)
    else none

/-- `this.room(n) ?? -1`. -/
def roomOr (n : DecomNodeInput) : Int := (p.room n).getD (-100)

/-- `Number(sameRegion(n))`. -/
def sameRegion (n : DecomNodeInput) : Int :=
  if region.isSome && n.labels.lookup NODE_REGION = region then 1 else 0

def pinnedOn (n : DecomNodeInput) : Int :=
  p.pinned ((n.swarm.map (·.swarmNodeId)).getD "")

/-- Who may take a role, NAT apart. -/
def rolePool (exclude : List String) (filter : DecomNodeInput → Bool) : List DecomNodeInput :=
  nodes.filter fun n => n.nodeId ∉ targetNodeId :: exclude && isSchedulable n && filter n

/-- Host for a platform role: publicly reachable first, then in the region, then by free
capacity and by load. -/
def pickRoleHost (exclude : List String) (filter : DecomNodeInput → Bool) : RoleHostPick :=
  let pool := rolePool nodes targetNodeId exclude filter
  let eligible := pool.filter fun n => nodeReachability n ≠ .nat
  let sorted := eligible.mergeSort fun a b =>
    notAfter [REACH_RANK (nodeReachability a) - REACH_RANK (nodeReachability b),
      sameRegion region b - sameRegion region a, p.roomOr b - p.roomOr a,
      p.pinnedOn a - p.pinnedOn b] (lib.localeLe a.nodeId b.nodeId)
  { chosen := sorted.head?
    natSkipped := pool.filter fun n => nodeReachability n = .nat }

/-- Whether a node has room for some data; an unknown size or disk fits. -/
def fits (bytes : Option Nat) (n : DecomNodeInput) : Bool :=
  match p.room n, bytes with
  | some room, some bytes => 100 * bytes ≤ room
  | _, _ => true

/-- Destination of some data, and what the picker then keeps. -/
def pick (bytes : Option Nat) : Option (DecomNodeInput × DestinationPicker) :=
  let candidates := nodes.filter fun n => n.nodeId ≠ targetNodeId && isSchedulable n &&
      p.fits bytes n
  let sorted := candidates.mergeSort fun a b =>
    notAfter [sameRegion region b - sameRegion region a, p.pinnedOn a - p.pinnedOn b,
      p.roomOr b - p.roomOr a] (lib.localeLe a.nodeId b.nodeId)
  sorted.head?.map fun chosen => (chosen,
    { reserved := fun id => p.reserved id + if id = chosen.nodeId then bytes.getD 0 else 0
      pinned := fun id => p.pinned id +
        if id ≠ "" ∧ chosen.swarm.map (·.swarmNodeId) = some id then 1 else 0 })

end DestinationPicker

/-! ## Who is chosen -/

section

variable {lib : Lib} {nodes : List DecomNodeInput} {targetNodeId : String}
  {region : Option String} {p : DestinationPicker}
  {exclude : List String} {filter : DecomNodeInput → Bool} {n : DecomNodeInput}

/-- Who may take a role. -/
structure MayHost (targetNodeId : String) (exclude : List String)
    (filter : DecomNodeInput → Bool) (n : DecomNodeInput) : Prop where
  other : n.nodeId ≠ targetNodeId
  allowed : n.nodeId ∉ exclude
  schedulable : isSchedulable n
  filter : filter n
  reachable : nodeReachability n ≠ .nat

theorem mem_eligible : n ∈ (DestinationPicker.rolePool nodes targetNodeId exclude filter).filter
      (fun n => nodeReachability n ≠ .nat) ↔ n ∈ nodes ∧ MayHost targetNodeId exclude filter n := by
  simp only [DestinationPicker.rolePool, List.mem_filter, Bool.and_eq_true, decide_eq_true_eq,
    List.mem_cons, not_or]
  constructor
  · rintro ⟨⟨hmem, ⟨⟨hother, hallowed⟩, hsched⟩, hfilter⟩, hreach⟩
    exact ⟨hmem, hother, hallowed, hsched, hfilter, hreach⟩
  · rintro ⟨hmem, hother, hallowed, hsched, hfilter, hreach⟩
    exact ⟨⟨hmem, ⟨⟨hother, hallowed⟩, hsched⟩, hfilter⟩, hreach⟩

/-- Whom a role goes to may have it. -/
theorem mayHost_of_chosen (h : (p.pickRoleHost lib nodes targetNodeId region exclude filter).chosen
    = some n) : n ∈ nodes ∧ MayHost targetNodeId exclude filter n := by
  rw [← mem_eligible]
  exact List.mem_mergeSort.mp (List.mem_of_mem_head? h)

/-- A role goes to nobody only when nobody may have it. -/
theorem chosen_eq_none :
    (p.pickRoleHost lib nodes targetNodeId region exclude filter).chosen = none ↔
      ∀ n ∈ nodes, ¬MayHost targetNodeId exclude filter n := by
  unfold DestinationPicker.pickRoleHost
  rw [List.head?_eq_none_iff, ← List.length_eq_zero_iff, List.length_mergeSort,
    List.length_eq_zero_iff, List.eq_nil_iff_forall_not_mem]
  constructor
  · intro h n hmem hmay
    exact h n (mem_eligible.mpr ⟨hmem, hmay⟩)
  · intro h n hmem
    obtain ⟨hmem, hmay⟩ := mem_eligible.mp hmem
    exact h n hmem hmay

end

end Swarmy.Decommission
