import Swarmy.Coop.Logic
import Swarmy.Js.Value

/-!
# The agent gateway

An agent connects by a socket, registers as a node and then reports the node's state.
The handlers of the gateway run without interruption except at the database calls of
`handleRegister`: messages and closes of any sockets may come in between.  What the
database answers is up to the environment.
-/

namespace Swarmy.Gateway

open Coop Function

/-- A socket, by number. -/
abbrev Sock := Nat

/-! ## Messages -/

inductive SwarmState where
  | active
  | pending
  | locked
  | error
  | inactive

inductive RegisterAuth where
  | join (joinToken : String)
  | session (nodeId sessionSecret : String)

structure NodeFacts where
  hostname : String
  cpuCount : Nat

structure RegisterPayload where
  auth : RegisterAuth
  facts : NodeFacts

/-- The messages of an agent.  A relayed one is handed on: a command's result, a log
chunk, a terminal's output, a deploy's progress, the state of the ingress or the mesh. -/
inductive Frame where
  | register (payload : RegisterPayload)
  | heartbeat
  | metrics (node : Js.Value) (containers : List Js.Value)
  | containerList (containers : List Js.Value)
  | serviceState (isManager : Bool) (swarmState : Option SwarmState) (services : List Js.Value)
  | swarmLeft (swarmState : SwarmState)
  | nodeList (nodes : List Js.Value)
  | relayed

def Frame.isRegister : Frame → Bool
  | .register _ => true
  | _ => false

/-! ## The store -/

/-- A `Map` keyed by node id. -/
abbrev NodeMap (β : Type) := String → Option β

namespace NodeMap

variable {β : Type}

def set (m : NodeMap β) (n : String) (x : β) : NodeMap β := update m n (some x)

def delete (m : NodeMap β) (n : String) : NodeMap β := update m n none

variable {m : NodeMap β} {n n' : String} {x : β}

@[simp] theorem set_self : m.set n x n = some x := update_self ..

@[simp] theorem delete_self : m.delete n n = none := update_self ..

theorem set_of_ne (h : n' ≠ n) : m.set n x n' = m n' := update_of_ne h ..

theorem delete_of_ne (h : n' ≠ n) : m.delete n n' = m n' := update_of_ne h ..

end NodeMap

structure NodeStats where
  sample : Js.Value
  cpuCount : Nat

structure GatewayStore where
  nodeStats : NodeMap NodeStats
  containers : NodeMap (List Js.Value)
  containerStats : NodeMap (List Js.Value)
  serviceInfo : NodeMap (List Js.Value)
  managers : NodeMap Bool
  swarmStates : NodeMap SwarmState
  swarmNodes : NodeMap (List Js.Value)
  nodeHostname : NodeMap String
  nodeOrg : NodeMap String
  nodeCpuCount : NodeMap Nat
  lastSeen : NodeMap Nat
  lastKnownSwarmNodes : NodeMap (List Js.Value)
  lastKnownServices : NodeMap (List Js.Value)

/-- The live telemetry of one node. -/
structure Telemetry where
  managers : Option Bool
  serviceInfo : Option (List Js.Value)
  swarmNodes : Option (List Js.Value)
  swarmStates : Option SwarmState
  containers : Option (List Js.Value)

/-- Nothing has been reported. -/
def Telemetry.none : Telemetry := ⟨.none, .none, .none, .none, .none⟩

/-- What is known after a report. -/
def Telemetry.hear (t : Telemetry) : Frame → Telemetry
  | .containerList containers => { t with containers := some containers }
  | .serviceState isManager swarmState services =>
    { t with serviceInfo := some services, managers := some isManager,
             swarmStates := some (swarmState.getD .active) }
  | .swarmLeft swarmState =>
    { t with swarmStates := some swarmState, managers := some false, swarmNodes := some [] }
  | .nodeList nodes => { t with swarmNodes := some nodes }
  | .register _ | .heartbeat | .metrics _ _ | .relayed => t

namespace GatewayStore

def telemetry (st : GatewayStore) (n : String) : Telemetry :=
  ⟨st.managers n, st.serviceInfo n, st.swarmNodes n, st.swarmStates n, st.containers n⟩

/-- The effect of a message of a registered node. -/
def hear (st : GatewayStore) (n : String) (now : Nat) : Frame → GatewayStore
  | .heartbeat => { st with lastSeen := st.lastSeen.set n now }
  | .metrics node containers =>
    -- `nodeCpuCount.get(nodeId) || 1`
    let cpuCount := ((st.nodeCpuCount n).filter (· ≠ 0)).getD 1
    { st with nodeStats := st.nodeStats.set n ⟨node, cpuCount⟩,
              containerStats := st.containerStats.set n containers }
  | .containerList containers => { st with containers := st.containers.set n containers }
  | .serviceState isManager swarmState services =>
    { st with serviceInfo := st.serviceInfo.set n services,
              managers := st.managers.set n isManager,
              swarmStates := st.swarmStates.set n (swarmState.getD .active) }
  | .swarmLeft swarmState =>
    { st with swarmStates := st.swarmStates.set n swarmState,
              managers := st.managers.set n false,
              swarmNodes := st.swarmNodes.set n [] }
  | .nodeList nodes => { st with swarmNodes := st.swarmNodes.set n nodes }
  | .register _ | .relayed => st

/-- Keep what was last known of a node and drop its live telemetry. -/
def forget (st : GatewayStore) (n : String) (now : Nat) : GatewayStore :=
  { st with
    lastKnownSwarmNodes :=
      (st.swarmNodes n).elim st.lastKnownSwarmNodes (st.lastKnownSwarmNodes.set n)
    lastKnownServices := (st.serviceInfo n).elim st.lastKnownServices (st.lastKnownServices.set n)
    lastSeen := st.lastSeen.set n now
    nodeStats := st.nodeStats.delete n
    containers := st.containers.delete n
    containerStats := st.containerStats.delete n
    serviceInfo := st.serviceInfo.delete n
    managers := st.managers.delete n
    swarmStates := st.swarmStates.delete n
    swarmNodes := st.swarmNodes.delete n }

variable {st : GatewayStore} {n n' : String} {now : Nat} {f : Frame}

theorem telemetry_hear : (st.hear n now f).telemetry n = (st.telemetry n).hear f := by
  cases f <;> simp [hear, telemetry, Telemetry.hear]

theorem telemetry_hear_of_ne (h : n' ≠ n) : (st.hear n now f).telemetry n' = st.telemetry n' := by
  cases f <;> simp [hear, telemetry, NodeMap.set_of_ne h]

theorem telemetry_forget : (st.forget n now).telemetry n = .none := by
  simp [forget, telemetry, Telemetry.none]

theorem telemetry_forget_of_ne (h : n' ≠ n) : (st.forget n now).telemetry n' = st.telemetry n' := by
  simp [forget, telemetry, NodeMap.delete_of_ne h]

end GatewayStore

/-! ## The state of the gateway -/

inductive SessionState where
  | awaitRegister
  | ready
deriving DecidableEq

structure AgentWsData where
  state : SessionState
  nodeId : Option String
  orgId : Option String

inductive CloseCode where
  | unauthorized
  | forbidden
  | duplicateSession
  | messageTooLarge

/-- What has happened: a socket has completed its registration as a node, or has had a
message handled as the node's. -/
inductive Event where
  | registered (s : Sock) (n : String)
  | heard (s : Sock) (n : String) (f : Frame)

/-- The registry, the sockets and the store.  `told` are the sockets `close` has been
called on, `gone` those whose close event has come, and `log` is what has happened,
newest first; no handler reads these three. -/
structure World where
  byNode : NodeMap Sock
  ws : Sock → AgentWsData
  store : GatewayStore
  now : Nat
  told : List (Sock × CloseCode)
  gone : List Sock
  log : List Event

/-- A gateway that has just started. -/
def World.initial : World where
  byNode _ := none
  ws _ := ⟨.awaitRegister, none, none⟩
  store := ⟨fun _ => none, fun _ => none, fun _ => none, fun _ => none,
    fun _ => none, fun _ => none,
    fun _ => none, fun _ => none, fun _ => none, fun _ => none, fun _ => none, fun _ => none,
    fun _ => none⟩
  now := 0
  told := []
  gone := []
  log := []

namespace World

/-- `ws.close(code)`. -/
def close (w : World) (s : Sock) (code : CloseCode) : World :=
  { w with told := (s, code) :: w.told }

/-- `registry.add`, the newest wins; the socket it replaces is told to close. -/
def add (w : World) (n : String) (s : Sock) : World :=
  let added := { w with byNode := w.byNode.set n s }
  match w.byNode n with
  | none => added
  | some existing => if existing = s then added else added.close existing .duplicateSession

/-- `registry.remove`, if the node's socket is this one. -/
def remove (w : World) (n : String) (s : Sock) : World :=
  if w.byNode n = some s then { w with byNode := w.byNode.delete n } else w

/-- The last part of `handleRegister`. -/
def register (w : World) (s : Sock) (n orgId : String) (facts : NodeFacts) : World :=
  let stored := { w with store := { w.store with
    nodeOrg := w.store.nodeOrg.set n orgId
    nodeCpuCount := w.store.nodeCpuCount.set n facts.cpuCount
    nodeHostname := w.store.nodeHostname.set n facts.hostname } }
  let added := stored.add n s
  { added with ws := update added.ws s ⟨.ready, some n, some orgId⟩
               log := .registered s n :: added.log }

/-- A message of a socket that is ready. -/
def hear (w : World) (s : Sock) (f : Frame) : World :=
  match (w.ws s).nodeId with
  | none => w
  | some n => { w with store := w.store.hear n w.now f, log := .heard s n f :: w.log }

def handleAgentClose (w : World) (s : Sock) : World :=
  match (w.ws s).nodeId with
  | none => w
  | some n =>
    let removed := w.remove n s
    { removed with store := removed.store.forget n removed.now }

end World

/-! ## Handlers -/

structure JoinToken where
  id : String
  orgId : String
  revoked : Bool
  expiresAt : Option Nat
  maxUses : Option Nat
  uses : Nat

structure OwnerNode where
  id : String
  joinTokenId : Option String

structure NodeRow where
  id : String
  orgId : String
  sessionSecretHash : Option String

/-- The calls into the database. -/
inductive DbCall where
  | findToken (tokenHash : String)
  | findOwner (orgId hostname : String)
  | upsertNode (orgId hostname joinTokenId : String)
  | countUse (tokenId : String)
  | findNode (nodeId : String)
  | rotateSecret (nodeId : String)

/-- What a call answers; it may also be rejected. -/
def DbCall.Row : DbCall → Type
  | .findToken _ => Option JoinToken
  | .findOwner _ _ => Option OwnerNode
  | .upsertNode _ _ _ => String
  | .countUse _ => Unit
  | .findNode _ => Option NodeRow
  | .rotateSecret _ => Nat

def dbSig : Sig := ⟨DbCall, fun c => Except String c.Row⟩

abbrev GatewayProg := Prog dbSig World String

/-- Await a database call. -/
def db (c : DbCall) : GatewayProg c.Row :=
  (Prog.perform (S := dbSig) c).bind Prog.ofExcept

inductive JoinAuthDecision where
  | reject (code : CloseCode)
  | readopt (nodeId : String)
  | enroll

def decideJoinAuth (token : Option JoinToken) (owner : Option OwnerNode) (now : Nat) :
    JoinAuthDecision :=
  match token with
  | none => .reject .unauthorized
  | some token =>
    if token.revoked then .reject .unauthorized
    else match owner.filter (·.joinTokenId = some token.id) with
      | some owner => .readopt owner.id
      | none =>
        if token.expiresAt.any (· < now) then .reject .unauthorized
        else if token.maxUses.any (· ≤ token.uses) then .reject .forbidden
        else .enroll

/-- What the decision about a join token leads to. -/
def joinWith (s : Sock) (facts : NodeFacts) (token : Option JoinToken) (owner : Option OwnerNode)
    (now : Nat) : GatewayProg (Option (String × String)) :=
  match token, decideJoinAuth token owner now with
  | some token, .readopt nodeId => return some (nodeId, token.orgId)
  | some token, .enroll => do
      let nodeId ← db (.upsertNode token.orgId facts.hostname token.id)
      let _ ← db (.countUse token.id)
      return some (nodeId, token.orgId)
  | _, .reject code => do
      Prog.modify fun w => w.close s code
      return none
  | none, _ => return none

/-- The first part of `handleRegister`: the node and organisation the credentials are
good for, or none if the socket has been told to close. -/
def authenticate (sha256 : String → String) (s : Sock) (payload : RegisterPayload) :
    GatewayProg (Option (String × String)) :=
  match payload.auth with
  | .join joinToken => do
      let token ← db (.findToken (sha256 joinToken))
      let owner ← match token with
        | none => (pure none : GatewayProg (Option OwnerNode))
        | some token => db (.findOwner token.orgId payload.facts.hostname)
      let now ← Prog.read World.now
      joinWith s payload.facts token owner now
  | .session nodeId secret => do
      let node ← db (.findNode nodeId)
      match node with
      | some row =>
        if row.sessionSecretHash.filter (· ≠ "") = some (sha256 secret) then
          return some (row.id, row.orgId)
        else
          Prog.modify fun w => w.close s .forbidden
          return none
      | none =>
        Prog.modify fun w => w.close s .forbidden
        return none

def handleRegister (sha256 : String → String) (s : Sock) (payload : RegisterPayload) :
    GatewayProg Unit := do
  match ← authenticate sha256 s payload with
  | none => return
  | some (nodeId, orgId) =>
    if nodeId = "" ∨ orgId = "" then
      Prog.modify fun w => w.close s .unauthorized
    else
      let _ ← db (.rotateSecret nodeId)
      Prog.modify fun w => w.register s nodeId orgId payload.facts

/-- A message; none if it does not parse. -/
def handleAgentMessage (sha256 : String → String) (s : Sock) : Option Frame → GatewayProg Unit
  | none => Prog.modify fun w => w.close s .messageTooLarge
  | some f => do
      let data ← Prog.read fun w => w.ws s
      if data.state = .awaitRegister ∧ f.isRegister = false then
        Prog.modify fun w => w.close s .unauthorized
      else match f with
        | .register payload => handleRegister sha256 s payload
        | f => Prog.modify fun w => w.hear s f

/-! ## The gateway as a system -/

/-- What the runtime calls the gateway for. -/
inductive Job where
  | message (s : Sock) (raw : Option Frame)
  | close (s : Sock)

/-- How the database answers. -/
inductive DbAnswer where
  | token (t : Option JoinToken)
  | owner (o : Option OwnerNode)
  | upserted (nodeId : String)
  | counted
  | node (row : Option NodeRow)
  | rotated (sessionVersion : Nat)
  | rejected (message : String)

def answer : DbAnswer → (c : DbCall) → World → Option (Except String c.Row × World)
  | .token t, .findToken _, w => some (.ok t, w)
  | .owner o, .findOwner _ _, w => some (.ok o, w)
  | .upserted nodeId, .upsertNode _ _ _, w => some (.ok nodeId, w)
  | .counted, .countUse _, w => some (.ok (), w)
  | .node row, .findNode _, w => some (.ok row, w)
  | .rotated version, .rotateSecret _, w => some (.ok version, w)
  | .rejected message, _, w => some (.error message, w)
  | _, _, _ => none

/-- The handlers over any number of sockets.  After its close event nothing comes from a
socket any more; the environment lets time pass. -/
def gateway (sha256 : String → String) : System dbSig World String Unit where
  Job := Job
  Choice := DbAnswer
  Env := Nat
  body _
    | .message s raw => handleAgentMessage sha256 s raw
    | .close s => Prog.modify fun w => { w with gone := s :: w.gone }.handleAgentClose s
  ready
    | .message s _, w | .close s, w => s ∉ w.gone
  exec := answer
  env dt w := some { w with now := w.now + dt }

end Swarmy.Gateway
