import Swarmy.Js.Value

/-!
# People on the mesh

Who may reach which service, rendered into named objects of the mesh: groups of people,
a network and a zone for each stack with its services as resources and records, and
policies that let groups reach a resource's ports.  Names are functions of the cluster,
the stack's id and the service.
-/

namespace Swarmy.Mesh

/-! ## Names -/

def swarmyPrefix (cluster : String) : String := "swarmy:" ++ cluster ++ ":"

def nodesGroup (cluster : String) : String := "swarmy:" ++ cluster ++ ":nodes"

def accessGroup (cluster stackId : String) : String := "swarmy:" ++ cluster ++ ":access:" ++ stackId

def grantGroup (cluster routeId : String) : String := "swarmy:" ++ cluster ++ ":grant:" ++ routeId

def routerGroup (cluster stackId : String) : String := "swarmy:" ++ cluster ++ ":router:" ++ stackId

def resourceGroup (cluster stackId : String) : String := "swarmy:" ++ cluster ++ ":res:" ++ stackId

def networkName (cluster stackId : String) : String := "swarmy-" ++ cluster ++ "-" ++ stackId

def policyName (cluster stackId service : String) : String :=
  "swarmy-" ++ cluster ++ "-" ++ stackId ++ "-" ++ service

/-- The policy between nodes that the bootstrap creates. -/
def nodesPolicyName (cluster : String) : String := "swarmy-" ++ cluster ++ "-nodes"

def zoneName (cluster stackId : String) : String := "swarmy-" ++ cluster ++ "-" ++ stackId

/-- Is this a name swarmy manages for the cluster? -/
def isSwarmyManaged (cluster name : String) : Bool :=
  Js.startsWith name (swarmyPrefix cluster) || Js.startsWith name ("swarmy-" ++ cluster ++ "-")

section

variable (toLowerCase : String → String)

def isLabelChar (c : Char) : Bool := c.isLower || c.isDigit || c = '-'

/-- One hyphen for every run of other characters. -/
def hyphenate : List Char → List Char
  | [] => []
  | c :: cs =>
    if isLabelChar c then c :: hyphenate cs
    else
      match cs with
      | [] => ['-']
      | c' :: _ => if isLabelChar c' then '-' :: hyphenate cs else hyphenate cs

/-- No hyphens at the end. -/
def trimHyphens (cs : List Char) : List Char := (cs.reverse.dropWhile (· = '-')).reverse

/-- A DNS label: at most 63 characters, none a hyphen at its ends. -/
def dnsLabel (s : String) : String :=
  let cs := trimHyphens ((hyphenate (toLowerCase s).toList).dropWhile (· = '-'))
  let l := trimHyphens (cs.take 63)
  if l = [] then "x" else String.ofList l

def clusterDomain (cluster : String) : String := dnsLabel toLowerCase cluster ++ ".swarmy.internal"

def stackDomain (cluster stackName : String) : String :=
  dnsLabel toLowerCase stackName ++ "." ++ clusterDomain toLowerCase cluster

def serviceFqdn (cluster stackName service : String) : String :=
  dnsLabel toLowerCase service ++ "." ++ stackDomain toLowerCase cluster stackName

end

/-! ## What is to be reached by whom -/

inductive Proto where
  | tcp
  | udp
deriving DecidableEq

structure DeclaredPort where
  port : Nat
  proto : Proto
deriving DecidableEq

structure PeopleServiceIntent where
  name : String
  vip : String
  ports : List DeclaredPort
deriving DecidableEq

/-- A personal grant; without a service it is for every service of the stack, without
ports for every port. -/
structure PersonalGrantIntent where
  routeId : String
  ports : Option (List Nat)
  service : Option String
deriving DecidableEq

structure PeopleStackIntent where
  stackId : String
  stackName : String
  services : List PeopleServiceIntent
  ruleAccess : Bool
  grants : List PersonalGrantIntent
deriving DecidableEq

/-- The stacks of a cluster, each once. -/
structure PeopleAccessIntent where
  cluster : String
  stackList : List PeopleStackIntent
  nodup : (stackList.map PeopleStackIntent.stackId).Nodup

/-! ## The plan -/

structure PlannedResource where
  name : String
  address : String
  group : String
deriving DecidableEq

structure PlannedNetwork where
  name : String
  description : String
  routerGroup : String
  resources : List PlannedResource
deriving DecidableEq

structure PlannedPolicy where
  name : String
  sources : List String
  network : String
  resource : String
  protocol : Proto
  ports : List String
deriving DecidableEq

/-- A record of a zone, of type `A`. -/
structure PlannedRecord where
  name : String
  content : String
  ttl : Nat
deriving DecidableEq

structure PlannedZone where
  name : String
  domain : String
  distributionGroups : List String
  records : List PlannedRecord
deriving DecidableEq

structure PeopleAccessPlan where
  cluster : String
  groups : List String
  networks : List PlannedNetwork
  policies : List PlannedPolicy
  zones : List PlannedZone
deriving DecidableEq

/-- `/^(\d{1,3})(\.\d{1,3}){3}$/`. -/
def isIpv4 (s : String) : Bool :=
  let parts := s.toList.splitOn '.'
  parts.length = 4 && parts.all fun p => 1 ≤ p.length && p.length ≤ 3 && p.all (·.isDigit)

def sorted (xs : List String) : List String := xs.insertionSort (· ≤ ·)

theorem sorted_perm (xs : List String) : (sorted xs).Perm xs := List.perm_insertionSort _ xs

theorem mem_sorted {x : String} {xs : List String} : x ∈ sorted xs ↔ x ∈ xs :=
  (sorted_perm xs).mem_iff

theorem sorted_eq_iff {xs ys : List String} : sorted xs = sorted ys ↔ xs.Perm ys := by
  constructor
  · intro h
    exact (sorted_perm xs).symm.trans (h ▸ sorted_perm ys)
  · intro h
    refine List.Perm.eq_of_pairwise (fun a b _ _ hab hba => String.le_antisymm hab hba)
      (List.pairwise_insertionSort (· ≤ ·) xs) (List.pairwise_insertionSort (· ≤ ·) ys) ?_
    exact (sorted_perm xs).trans (h.trans (sorted_perm ys).symm)

theorem sorted_sorted (xs : List String) : sorted (sorted xs) = sorted xs :=
  sorted_eq_iff.mpr (sorted_perm xs)

/-- `[...new Set(ports)].sort((a, b) => a - b)`. -/
def portSet (ports : List Nat) : List Nat := ports.dedup.insertionSort (· ≤ ·)

def portKey (ports : List Nat) : String := ",".intercalate (ports.map toString)

/-- Sources by the set of ports they reach; a source that reaches none is left out. -/
def addSource (source : String) (ports : List Nat) (bySet : List (List Nat × List String)) :
    List (List Nat × List String) :=
  match portSet ports with
  | [] => bySet
  | key =>
    if bySet.any (·.1 = key) then
      bySet.map fun e => if e.1 = key then (e.1, e.2 ++ [source]) else e
    else bySet ++ [(key, [source])]

section

variable (cluster : String) (st : PeopleStackIntent)

/-- Nobody may reach the stack. -/
def PeopleStackIntent.isClosed : Bool := !st.ruleAccess && st.grants.isEmpty

def PeopleStackIntent.sortedGrants : List PersonalGrantIntent :=
  st.grants.insertionSort (·.routeId ≤ ·.routeId)

/-- The services that become resources. -/
def PeopleStackIntent.resources : List PeopleServiceIntent :=
  (st.services.filter fun s => isIpv4 s.vip && s.ports.length > 0).insertionSort (·.name ≤ ·.name)

def stackGroups : List String :=
  routerGroup cluster st.stackId :: resourceGroup cluster st.stackId ::
    ((if st.ruleAccess then [accessGroup cluster st.stackId] else []) ++
      st.sortedGrants.map fun g => grantGroup cluster g.routeId)

def planNetwork : PlannedNetwork where
  name := networkName cluster st.stackId
  description := "swarmy stack " ++ st.stackName
  routerGroup := routerGroup cluster st.stackId
  resources := st.resources.map fun s => ⟨s.name, s.vip ++ "/32", resourceGroup cluster st.stackId⟩

/-- The ports of a service, of one protocol. -/
def PeopleServiceIntent.portsOf (svc : PeopleServiceIntent) (proto : Proto) : List Nat :=
  (svc.ports.filter (·.proto = proto)).map (·.port)

/-- The ports of a service a grant is for. -/
def PersonalGrantIntent.allowed (g : PersonalGrantIntent) (svcPorts : List Nat) : List Nat :=
  match g.ports with
  | none | some [] => svcPorts
  | some ports => svcPorts.filter (· ∈ ports)

/-- The grant is for the service: it names it, or none. -/
def PersonalGrantIntent.covers (g : PersonalGrantIntent) (svc : PeopleServiceIntent) : Bool :=
  g.service.all fun s => s = "" || s = svc.name

/-- Who reaches which ports of a service. -/
def sourceSets (svc : PeopleServiceIntent) (proto : Proto) : List (List Nat × List String) :=
  let svcPorts := svc.portsOf proto
  let byRule := if st.ruleAccess then addSource (accessGroup cluster st.stackId) svcPorts [] else []
  (st.sortedGrants.filter (·.covers svc)).foldl
    (fun bySet g => addSource (grantGroup cluster g.routeId) (g.allowed svcPorts) bySet) byRule

def policySuffix (proto : Proto) (i : Nat) : String :=
  (match proto with | .udp => "-udp" | .tcp => "") ++ (if i > 0 then "-" ++ toString i else "")

def planPolicies (svc : PeopleServiceIntent) (proto : Proto) : List PlannedPolicy :=
  if svc.portsOf proto = [] then []
  else
    ((sourceSets cluster st svc proto).insertionSort (portKey ·.1 ≤ portKey ·.1)).mapIdx fun i e =>
      { name := policyName cluster st.stackId svc.name ++ policySuffix proto i
        sources := sorted e.2
        network := networkName cluster st.stackId
        resource := svc.name
        protocol := proto
        ports := e.1.map toString }

def stackPolicies : List PlannedPolicy :=
  st.resources.flatMap fun svc =>
    planPolicies cluster st svc .tcp ++ planPolicies cluster st svc .udp

def planZone (toLowerCase : String → String) : PlannedZone where
  name := zoneName cluster st.stackId
  domain := stackDomain toLowerCase cluster st.stackName
  distributionGroups := sorted
    ((if st.ruleAccess then [accessGroup cluster st.stackId] else []) ++
      st.sortedGrants.map fun g => grantGroup cluster g.routeId)
  records := (st.resources.map fun s =>
    ⟨serviceFqdn toLowerCase cluster st.stackName s.name, s.vip, 60⟩).insertionSort
      (·.name ≤ ·.name)

end

/-- The stacks somebody may reach. -/
def PeopleAccessIntent.openStacks (intent : PeopleAccessIntent) : List PeopleStackIntent :=
  (intent.stackList.insertionSort (·.stackId ≤ ·.stackId)).filter fun st => !st.isClosed

def buildPeopleAccessPlan (toLowerCase : String → String) (intent : PeopleAccessIntent) :
    PeopleAccessPlan where
  cluster := intent.cluster
  groups := sorted (Js.unique (intent.openStacks.flatMap (stackGroups intent.cluster)))
  networks := (intent.openStacks.map (planNetwork intent.cluster)).insertionSort (·.name ≤ ·.name)
  policies := (intent.openStacks.flatMap (stackPolicies intent.cluster)).insertionSort
    (·.name ≤ ·.name)
  zones := (intent.openStacks.map fun st => planZone intent.cluster st toLowerCase).insertionSort
    (·.name ≤ ·.name)

end Swarmy.Mesh
