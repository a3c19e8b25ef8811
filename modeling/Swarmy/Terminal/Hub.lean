import Mathlib.Data.List.Nodup
import Mathlib.Logic.Function.Basic
import Mathlib.Tactic.Common

/-!
# The terminal hub

A ticket is minted for a user and a node, a browser's socket presents it, and the hub relays the
frames of the session between the socket and the node's agent.  `onBrowserOpen` waits for the
organisation's policy between the claim of the ticket and the start of the shell.
-/

namespace Terminal

open Function

/-! ## Tickets -/

def TICKET_TTL_MS : Nat := 30000

structure TicketClaims where
  sessionId : Nat
  nodeId : Nat
  orgId : Nat
  userId : Nat
deriving DecidableEq

/-! ## Sessions -/

structure LiveSession where
  sessionId : Nat
  nodeId : Nat
  orgId : Nat
  userId : Nat
  /-- Its browser's socket. -/
  ws : Nat
  startedAt : Nat
  lastInputAt : Nat
  idleTimeoutMs : Nat
  maxSessionMs : Nat

/-- `terminalLimitExpired`. -/
def terminalLimitExpired (x : LiveSession) (now : Nat) : Bool :=
  (0 < x.maxSessionMs && x.startedAt + x.maxSessionMs ≤ now) ||
    (0 < x.idleTimeoutMs && x.lastInputAt + x.idleTimeoutMs ≤ now)

/-- A socket that was let in by `authorizeTermUpgrade`. -/
structure TermSocket where
  /-- The user of the session cookie. -/
  user : Nat
  ticket : Nat
  /-- `onBrowserOpen` waits for the policy of these claims, that it claimed at that time. -/
  opening : Option (TicketClaims × Nat)
  closed : Bool

/-- A frame of an agent. -/
inductive FrameKind where
  | started (ok : Bool)
  | data
  | exit

/-- Does the frame end the session? -/
def FrameKind.ends : FrameKind → Bool
  | .started ok => !ok
  | .data => false
  | .exit => true

/-! ## The hub -/

/-- A shell that an agent was told to start. -/
structure Start where
  ticket : Nat
  claims : TicketClaims
  ws : Nat
  claimedAt : Nat
deriving DecidableEq

structure State where
  /-- Every ticket with its claims and its expiry, in the order they were minted. -/
  minted : List (TicketClaims × Nat)
  /-- The tickets that the store still has. -/
  tickets : Nat → Bool
  sockets : List TermSocket
  sessions : Nat → Option LiveSession
  byTicket : Nat → Option Nat
  /-- The agents that are connected. -/
  isOnline : Nat → Bool
  now : Nat
  starts : List Start
  /-- The sessions that an agent was told to close after their start. -/
  closeTold : Nat → Bool
  /-- The sessions that ended by a frame. -/
  reported : Nat → Bool
  /-- Sessions, with the nodes whose frames have reached their browsers or ended them. -/
  effects : List (Nat × Nat)

inductive Step where
  | wait (ms : Nat)
  /-- The session of a new ticket has a row of its own. -/
  | mint (claims : TicketClaims)
  | connection (node : Nat) (online : Bool)
  /-- A browser's upgrade, with the user of its cookie. -/
  | connect (user : Option Nat) (ticket : Nat)
  /-- The policy that `onBrowserOpen` waits for. -/
  | policy (ws : Nat) (idleTimeoutMs maxSessionMs : Nat)
  | policyFails (ws : Nat)
  | input (ws : Nat)
  | closed (ws : Nat)
  | sweep
  | kill (sessionId : Nat)
  /-- A frame of the agent of a node; the browser's socket may be closing. -/
  | frame (node : Nat) (kind : FrameKind) (sessionId : Nat) (ready : Bool)

namespace State

def start (now : Nat) : State where
  minted := []
  tickets := fun _ => false
  sockets := []
  sessions := fun _ => none
  byTicket := fun _ => none
  isOnline := fun _ => false
  now := now
  starts := []
  closeTold := fun _ => false
  reported := fun _ => false
  effects := []

/-- The claims of a ticket that is claimed now. -/
def claim (s : State) (ticket : Nat) : Option TicketClaims :=
  if s.tickets ticket then
    match s.minted[ticket]? with
    | none => none
    | some (claims, expiresAt) => if expiresAt < s.now then none else some claims
  else none

/-- What `onBrowserOpen` waits with. -/
def opening (s : State) (ticket : Nat) : Option (TicketClaims × Nat) :=
  (s.claim ticket).bind fun claims =>
    if s.isOnline claims.nodeId then some (claims, s.now) else none

/-- A session is taken off the table, and its agent is told to close it. -/
def drop (s : State) (x : LiveSession) : State :=
  { s with
    sessions := update s.sessions x.sessionId none
    closeTold := update s.closeTold x.sessionId (s.closeTold x.sessionId || s.isOnline x.nodeId) }

def close (s : State) (ws : Nat) (k : TermSocket) : State :=
  { s with
    sockets := s.sockets.set ws { k with closed := true }
    byTicket := update s.byTicket k.ticket none }

/-- The session of a ticket that was claimed. -/
def session (s : State) (ws : Nat) (c : TicketClaims) (idleTimeoutMs maxSessionMs : Nat) :
    LiveSession :=
  ⟨c.sessionId, c.nodeId, c.orgId, c.userId, ws, s.now, s.now, idleTimeoutMs, maxSessionMs⟩

/-- The rest of `onBrowserOpen`. -/
def resume (s : State) (ws : Nat) (k : TermSocket) (c : TicketClaims)
    (claimedAt idleTimeoutMs maxSessionMs : Nat) :
    State :=
  { s with
    sockets := s.sockets.set ws { k with opening := none }
    sessions := update s.sessions c.sessionId (some (s.session ws c idleTimeoutMs maxSessionMs))
    byTicket := update s.byTicket k.ticket (some c.sessionId)
    starts := if s.isOnline c.nodeId then ⟨k.ticket, c, ws, claimedAt⟩ :: s.starts else s.starts
    closeTold := update s.closeTold c.sessionId false
    reported := update s.reported c.sessionId false }

/-- The sessions past their limits. -/
def expired (s : State) (sessionId : Nat) : Bool :=
  (s.sessions sessionId).any (terminalLimitExpired · s.now)

def onAgentTermFrame (s : State) (node : Nat) (kind : FrameKind) (ready : Bool) (x : LiveSession) :
    State :=
  if kind.ends then
    { s with
      sessions := update s.sessions x.sessionId none
      reported := update s.reported x.sessionId true
      effects := (x.sessionId, node) :: s.effects }
  else if ready then { s with effects := (x.sessionId, node) :: s.effects }
  else s

def step (s : State) : Step → State
  | .wait ms => { s with now := s.now + ms }
  | .mint claims =>
    if s.minted.any (·.1.sessionId = claims.sessionId) then s
    else { s with
      minted := s.minted ++ [(claims, s.now + TICKET_TTL_MS)]
      tickets := update s.tickets s.minted.length true }
  | .connection node online => { s with isOnline := update s.isOnline node online }
  | .connect none _ => s
  | .connect (some user) ticket =>
    { s with
      tickets := update s.tickets ticket false
      sockets := s.sockets ++ [⟨user, ticket, s.opening ticket, false⟩] }
  | .policy ws idleTimeoutMs maxSessionMs =>
    match s.sockets[ws]? with
    | none => s
    | some k =>
      match k.opening with
      | none => s
      | some (c, claimedAt) => s.resume ws k c claimedAt idleTimeoutMs maxSessionMs
  | .policyFails ws =>
    match s.sockets[ws]? with
    | none => s
    | some k => { s with sockets := s.sockets.set ws { k with opening := none } }
  | .input ws =>
    match s.sockets[ws]?.bind fun k => (s.byTicket k.ticket).bind s.sessions with
    | none => s
    | some x =>
      { s with sessions := update s.sessions x.sessionId (some { x with lastInputAt := s.now }) }
  | .closed ws =>
    match s.sockets[ws]? with
    | none => s
    | some k =>
      if k.closed then s
      else
        match (s.byTicket k.ticket).bind s.sessions with
        | none => s.close ws k
        | some x => (s.close ws k).drop x
  | .sweep =>
    { s with
      sessions := fun id => if s.expired id then none else s.sessions id
      closeTold := fun id => s.closeTold id || (s.sessions id).any fun x =>
        terminalLimitExpired x s.now && s.isOnline x.nodeId }
  | .kill sessionId =>
    match s.sessions sessionId with
    | none => s
    | some x => s.drop x
  | .frame node kind sessionId ready =>
    match s.sessions sessionId with
    | none => s
    | some x => s.onAgentTermFrame node kind ready x

def run (s : State) (steps : List Step) : State := steps.foldl step s

end State

end Terminal
