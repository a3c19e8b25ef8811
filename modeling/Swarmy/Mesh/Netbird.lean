import Swarmy.Keyed.Sync
import Swarmy.Mesh.People

/-!
# Applying the plan

The control plane lists groups, networks with their resources and routers, policies,
and zones with their records; every object has an id.  `applyPeopleAccessPlan` brings
them in line with the plan, kind by kind, and `applyUserSync` does the same for the
people.  Who made an object is not in the control plane; the model notes it, and no
definition reads it.
-/

namespace Swarmy.Mesh

open Keyed

/-! ## The control plane -/

structure NbGroup where
  id : String
  name : String

structure NbResource where
  id : String
  name : String
  address : String
  enabled : Bool
  groups : List String

structure NbRouter where
  id : String
  peerGroups : List String
  masquerade : Bool
  metric : Nat
  enabled : Bool

/-- Who made an object: a cluster's controller, or somebody by hand. -/
inductive Maker where
  | cluster (name : String)
  | hand
deriving DecidableEq

structure NbNetwork where
  id : String
  name : String
  description : String
  resources : List NbResource
  routers : List NbRouter
  maker : Maker

inductive NbAction where
  | accept
  | drop
deriving DecidableEq

inductive NbProtocol where
  | tcp
  | udp
  | icmp
  | all
deriving DecidableEq

structure NbPolicyRule where
  enabled : Bool
  action : NbAction
  bidirectional : Bool
  protocol : NbProtocol
  ports : List String
  sources : List String
  destinations : List String
  destinationResource : Option String

structure NbPolicy where
  id : String
  name : String
  enabled : Bool
  rules : List NbPolicyRule
  maker : Maker

structure NbRecord where
  id : String
  name : String
  type : String
  content : String
  ttl : Nat

structure NbZone where
  id : String
  name : String
  domain : String
  enabled : Bool
  enableSearchDomain : Bool
  distributionGroups : List String
  records : List NbRecord
  maker : Maker

/-- The objects, and how many ids have been given out. -/
structure ControlPlane where
  groups : List NbGroup
  networks : List NbNetwork
  policies : List NbPolicy
  zones : List NbZone
  issued : Nat

/-! ## Groups -/

section

variable (S : IdSupply)

def groupMap (groups : List NbGroup) (name : String) : Option String :=
  (Js.mapGet NbGroup.name groups name).map NbGroup.id

def ensureGroup (st : List NbGroup × Nat) (name : String) : List NbGroup × Nat :=
  match groupMap st.1 name with
  | some _ => st
  | none => (st.1 ++ [⟨S.issue st.2, name⟩], st.2 + 1)

def ensureGroups (st : List NbGroup × Nat) (names : List String) : List NbGroup × Nat :=
  names.foldl (ensureGroup S) st

/-! ## Networks -/

structure ResourceBody where
  name : String
  address : String
  group : String

def resourceKind : Kind NbResource ResourceBody String where
  id := NbResource.id
  key := NbResource.name
  want := ResourceBody.name
  ok r cur := cur.address = r.address && cur.enabled &&
    ",".intercalate (sorted cur.groups) = ",".intercalate [r.group]
  make n r := (⟨S.issue n, r.name, r.address, true, [r.group]⟩, n + 1)
  put n r cur := (⟨cur.id, r.name, r.address, true, [r.group]⟩, n)
  first := false

structure NetworkBody where
  name : String
  description : String
  resources : List ResourceBody
  routerGroup : String

/-- The resource is none of the network's in the plan. -/
def NetworkBody.drops (b : NetworkBody) (cur : NbResource) : Bool :=
  !b.resources.any (·.name = cur.name)

/-- A network has a router of the group. -/
def hasRouter (routers : List NbRouter) (group : String) : Bool :=
  routers.any fun r => group ∈ r.peerGroups

/-- The resources and the router of a network. -/
def syncNetwork (n : Nat) (b : NetworkBody) (net : NbNetwork) : NbNetwork × Nat :=
  let done := ensure (resourceKind S) net.resources b.resources n
  let resources := prune (resourceKind S) net.resources b.drops done.1
  if hasRouter net.routers b.routerGroup then ({ net with resources }, done.2)
  else
    ({ net with resources
                routers := net.routers ++ [⟨S.issue done.2, [b.routerGroup], true, 9999, true⟩] },
      done.2 + 1)

variable (cluster : String)

/-- `api.createNetwork`. -/
def newNetwork (n : Nat) (b : NetworkBody) : NbNetwork :=
  ⟨S.issue n, b.name, b.description, [], [], .cluster cluster⟩

def networkKind : Kind NbNetwork NetworkBody String where
  id := NbNetwork.id
  key := NbNetwork.name
  want := NetworkBody.name
  ok b net := (writes (resourceKind S) net.resources b.resources b.drops).isEmpty &&
    hasRouter net.routers b.routerGroup
  make n b := syncNetwork S (n + 1) b (newNetwork S cluster n b)
  put := syncNetwork S
  first := false

/-- `groups.get(name)!`. -/
def groupId (groups : List NbGroup) (name : String) : String := (groupMap groups name).getD ""

def networkBody (groups : List NbGroup) (n : PlannedNetwork) : NetworkBody where
  name := n.name
  description := n.description
  resources := n.resources.map fun r => ⟨r.name, r.address, groupId groups r.group⟩
  routerGroup := groupId groups n.routerGroup

/-- The ids of the planned resources, by `<network>/<resource>`. -/
def resourceIds (networks : List NbNetwork) (bodies : List NetworkBody) : List (String × String) :=
  bodies.flatMap fun b =>
    match pick (networkKind S cluster) networks b.name with
    | none => []
    | some net => b.resources.filterMap fun r =>
        (pick (resourceKind S) net.resources r.name).map fun x => (b.name ++ "/" ++ r.name, x.id)

/-! ## Policies -/

structure PolicyBody where
  name : String
  rule : NbPolicyRule

def sameRule (a b : NbPolicyRule) : Bool :=
  a.enabled = b.enabled && a.action = b.action && a.bidirectional = b.bidirectional &&
    a.protocol = b.protocol && sorted a.ports = sorted b.ports &&
    sorted a.sources = sorted b.sources && sorted a.destinations = sorted b.destinations &&
    a.destinationResource.getD "" = b.destinationResource.getD ""

def policyKind : Kind NbPolicy PolicyBody String where
  id := NbPolicy.id
  key := NbPolicy.name
  want := PolicyBody.name
  ok b cur := cur.rules.head?.any (sameRule · b.rule) && cur.enabled
  make n b := (⟨S.issue n, b.name, true, [b.rule], .cluster cluster⟩, n + 1)
  put n b cur := (⟨cur.id, b.name, true, [b.rule], cur.maker⟩, n)
  first := false

def Proto.protocol : Proto → NbProtocol
  | .tcp => .tcp
  | .udp => .udp

def policyRule (groups : List NbGroup) (p : PlannedPolicy) (resId : String) : NbPolicyRule where
  enabled := true
  action := .accept
  bidirectional := false
  protocol := p.protocol.protocol
  ports := p.ports
  sources := p.sources.map (groupId groups)
  destinations := []
  destinationResource := some resId

/-- The policy as it is sent; one without a resource is passed over. -/
def policyBody (groups : List NbGroup) (ids : List (String × String)) (p : PlannedPolicy) :
    Option PolicyBody :=
  (Js.mapGet Prod.fst ids (p.network ++ "/" ++ p.resource)).map fun e =>
    ⟨p.name, policyRule groups p e.2⟩

/-! ## Zones -/

def recordKind : Kind NbRecord PlannedRecord (String × String) where
  id := NbRecord.id
  key r := (r.name, r.type)
  want r := (r.name, "A")
  ok r cur := cur.content = r.content && cur.ttl = r.ttl
  make n r := (⟨S.issue n, r.name, "A", r.content, r.ttl⟩, n + 1)
  put n r cur := (⟨cur.id, r.name, "A", r.content, r.ttl⟩, n)
  first := true

structure ZoneBody where
  name : String
  domain : String
  distributionGroups : List String
  records : List PlannedRecord

def ZoneBody.drops (b : ZoneBody) (cur : NbRecord) : Bool :=
  !b.records.any fun r => (r.name, "A") = (cur.name, cur.type)

/-- The zone itself is as it is wanted. -/
def ZoneBody.fits (b : ZoneBody) (z : NbZone) : Bool :=
  z.domain = b.domain && z.enabled &&
    ",".intercalate (sorted z.distributionGroups) = ",".intercalate b.distributionGroups

/-- The records of a zone. -/
def syncRecords (n : Nat) (b : ZoneBody) (z : NbZone) : NbZone × Nat :=
  let done := ensure (recordKind S) z.records b.records n
  ({ z with records := prune (recordKind S) z.records b.drops done.1 }, done.2)

def syncZone (n : Nat) (b : ZoneBody) (z : NbZone) : NbZone × Nat :=
  syncRecords S n b
    (if b.fits z then z
     else { z with domain := b.domain, enabled := true, enableSearchDomain := false,
                   distributionGroups := b.distributionGroups })

/-- `api.createZone`. -/
def newZone (n : Nat) (b : ZoneBody) : NbZone :=
  ⟨S.issue n, b.name, b.domain, true, false, b.distributionGroups, [], .cluster cluster⟩

def zoneKind : Kind NbZone ZoneBody String where
  id := NbZone.id
  key := NbZone.name
  want := ZoneBody.name
  ok b z := b.fits z && (writes (recordKind S) z.records b.records b.drops).isEmpty
  make n b := syncRecords S (n + 1) b (newZone S cluster n b)
  put := syncZone S
  first := false

def zoneBody (groups : List NbGroup) (z : PlannedZone) : ZoneBody where
  name := z.name
  domain := z.domain
  distributionGroups := sorted (z.distributionGroups.map (groupId groups))
  records := z.records

end

/-! ## The plan, applied -/

section

variable (S : IdSupply) (plan : PeopleAccessPlan)

def PeopleAccessPlan.dropsNetwork (n : NbNetwork) : Bool :=
  isSwarmyManaged plan.cluster n.name && !plan.networks.any (·.name = n.name)

def PeopleAccessPlan.dropsPolicy (p : NbPolicy) : Bool :=
  p.name ≠ nodesPolicyName plan.cluster && isSwarmyManaged plan.cluster p.name &&
    !plan.policies.any (·.name = p.name)

def PeopleAccessPlan.dropsZone (z : NbZone) : Bool :=
  isSwarmyManaged plan.cluster z.name && !plan.zones.any (·.name = z.name)

/-- What the plan comes to on a control plane, phase by phase. -/
structure Phases where
  groups : List NbGroup × Nat
  networkBodies : List NetworkBody
  networks : List NbNetwork × Nat
  policyBodies : List PolicyBody
  policies : List NbPolicy × Nat
  zoneBodies : List ZoneBody
  zones : List NbZone × Nat

def phases (m : ControlPlane) : Phases :=
  let groups := ensureGroups S (m.groups, m.issued) plan.groups
  let networkBodies := plan.networks.map (networkBody groups.1)
  let networks := ensure (networkKind S plan.cluster) m.networks networkBodies groups.2
  let ids := resourceIds S plan.cluster networks.1 networkBodies
  let policyBodies := plan.policies.filterMap (policyBody groups.1 ids)
  let policies := ensure (policyKind S plan.cluster) m.policies policyBodies networks.2
  let zoneBodies := plan.zones.map (zoneBody groups.1)
  let zones := ensure (zoneKind S plan.cluster) m.zones zoneBodies policies.2
  ⟨groups, networkBodies, networks, policyBodies, policies, zoneBodies, zones⟩

/-- The control plane after the plan has been applied. -/
def applyPeopleAccessPlan (m : ControlPlane) : ControlPlane :=
  let done := phases S plan m
  { groups := done.groups.1
    networks := prune (networkKind S plan.cluster) m.networks plan.dropsNetwork done.networks.1
    policies := prune (policyKind S plan.cluster) m.policies plan.dropsPolicy done.policies.1
    zones := prune (zoneKind S plan.cluster) m.zones plan.dropsZone done.zones.1
    issued := done.zones.2 }

/-- A write of an apply.  A change of a resource, a router or a record is a change of
its network or zone. -/
inductive MeshWrite where
  | group (name : String)
  | network (w : Write NbNetwork NetworkBody)
  | policy (w : Write NbPolicy PolicyBody)
  | zone (w : Write NbZone ZoneBody)

/-- The groups an apply creates. -/
def newGroups (m : ControlPlane) : List String :=
  plan.groups.filter fun name => (groupMap m.groups name).isNone

def applyWrites (m : ControlPlane) : List MeshWrite :=
  let done := phases S plan m
  (newGroups plan m).map .group ++
    (writes (networkKind S plan.cluster) m.networks done.networkBodies plan.dropsNetwork).map
      .network ++
    (writes (policyKind S plan.cluster) m.policies done.policyBodies plan.dropsPolicy).map
      .policy ++
    (writes (zoneKind S plan.cluster) m.zones done.zoneBodies plan.dropsZone).map .zone

end

/-! ## People -/

structure NbUser where
  id : String
  email : String
  role : String
  autoGroups : List String
  isBlocked : Bool
  isServiceUser : Bool
  idpId : Option String

structure NbPeer where
  id : String
  userId : Option String

/-- A member, and the groups they should be in. -/
structure PersonAccess where
  userId : String
  email : Option String
  groups : List String

structure UserSyncAction where
  nbUserId : String
  autoGroups : List String
  block : Bool
  deletePeers : Bool

section

variable (toLowerCase : String → String) (dexSubject : String → Option String)

/-- The member a person of the mesh is: by subject, else by email. -/
def personOf (people : List PersonAccess) (u : NbUser) : Option PersonAccess :=
  let byId := ((dexSubject u.id).filter (· ≠ "")).bind (Js.mapGet PersonAccess.userId people)
  let withEmail := people.filter fun p => (p.email.filter (· ≠ "")).isSome
  let byEmail := if u.email = "" then none else
    Js.mapGet (fun p => p.email.map toLowerCase) withEmail (some (toLowerCase u.email))
  byId.or byEmail

/-- What one person should look like, if that is a change; `autoGroups` are names. -/
def userSyncAction (cluster : String) (people : List PersonAccess) (u : NbUser)
    (autoGroups : List String) : Option UserSyncAction :=
  if u.isServiceUser || u.idpId = some "local" || u.role = "owner" then none
  else
    let kept := autoGroups.filter fun g => !Js.startsWith g (swarmyPrefix cluster)
    match personOf toLowerCase dexSubject people u with
    | none =>
      let next := sorted kept
      if u.isBlocked && sorted autoGroups = next then none
      else some ⟨u.id, next, true, true⟩
    | some person =>
      let next := sorted (Js.unique (kept ++ person.groups))
      if !u.isBlocked && sorted autoGroups = next then none
      else some ⟨u.id, next, false, false⟩

/-- The people of a control plane. -/
structure People where
  groups : List NbGroup
  users : List NbUser
  peers : List NbPeer
  issued : Nat

/-- The name of a group by its id, among the groups that are found by their names. -/
def nameOf (groups : List NbGroup) (id : String) : String :=
  ((groups.filter fun g => groupMap groups g.name = some g.id).find?
    (·.id = id)).elim id NbGroup.name

def planUserSync (cluster : String) (people : List PersonAccess) (groups : List NbGroup)
    (users : List NbUser) : List UserSyncAction :=
  (users.insertionSort (·.id ≤ ·.id)).filterMap fun u =>
    userSyncAction toLowerCase dexSubject cluster people u (u.autoGroups.map (nameOf groups))

/-- `api.updateUser`, and the peers of somebody who has left. -/
def applyUserAction (p : People) (a : UserSyncAction) : People :=
  { p with
    users := p.users.map fun u => if u.id = a.nbUserId then
      { u with role := if u.role = "" then "user" else u.role
               autoGroups := a.autoGroups.map fun n => (groupMap p.groups n).getD n
               isBlocked := a.block } else u
    peers := if a.deletePeers then p.peers.filter (·.userId ≠ some a.nbUserId) else p.peers }

def applyUserSync (S : IdSupply) (cluster : String) (people : List PersonAccess) (p : People) :
    People :=
  let groups := ensureGroups S (p.groups, p.issued) (people.flatMap PersonAccess.groups)
  let p₁ := { p with groups := groups.1, issued := groups.2 }
  (planUserSync toLowerCase dexSubject cluster people p₁.groups p₁.users).foldl applyUserAction p₁

end

end Swarmy.Mesh
