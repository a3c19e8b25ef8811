import Swarmy.Machine.Run
import Swarmy.Js.Value

/-!
# The agent's link to its controller

The agent dials the controller, and dials again when its socket ends, when a dial takes
too long or when the link has gone silent.  Sockets, timers and the resolution of the
controller's address answer in any order: a timer that is set may fire at any later time,
and a socket that was closed may report its end late or never.
-/

namespace Swarmy.Agent

/-! ## The state of a connection -/

inductive ReadyState where
  | connecting
  | open
  | closing
  | closed
deriving DecidableEq

/-- A socket that was dialled, with the variables of its dial. -/
structure Socket where
  readyState : ReadyState
  settled : Bool
  dialTimer : Bool

/-- `AgentConnection`.  Sockets and timers are known by number; `resolving` counts the
resolutions under way, `reconnects` the reconnects that are scheduled, and `stableTimers`
are the timers that are set.  `registers` are the sockets a register was sent over. -/
structure Connection where
  now : Nat
  started : Bool
  ws : Option Nat
  attempt : Nat
  stableTimer : Option Nat
  closed : Bool
  lastInboundAt : Nat
  livenessArmed : Bool
  lastAliveAt : Nat
  strandedReported : Bool
  watchdog : Bool
  abandonCurrent : Option Nat
  droppedInARow : Nat
  sockets : List Socket
  resolving : Nat
  reconnects : Nat
  stableTimers : List Nat
  nextTimer : Nat
  registers : List Nat

def Connection.initial : Connection where
  now := 0
  started := false
  ws := none
  attempt := 0
  stableTimer := none
  closed := false
  lastInboundAt := 0
  livenessArmed := false
  lastAliveAt := 0
  strandedReported := false
  watchdog := false
  abandonCurrent := none
  droppedInARow := 0
  sockets := []
  resolving := 0
  reconnects := 0
  stableTimers := []
  nextTimer := 0
  registers := []

structure ConnectionOpts where
  resolveUrl : Bool
  idleMs : Nat
  strandedMs : Nat

def linkIsDead (armed : Bool) (lastInboundAt now idleMs : Nat) : Bool :=
  armed && idleMs < now - lastInboundAt

def MAX_DROPPED_COMMANDS : Nat := 3

namespace Connection

variable (c : Connection)

/-- An assignment to the variables of a socket. -/
def setSocket (k : Nat) (f : Socket → Socket) : Connection :=
  { c with sockets := c.sockets.modify k f }

/-- `ws.close()`. -/
def closeSocket (k : Nat) : Connection :=
  c.setSocket k fun s => { s with
    readyState := if s.readyState = .closed then .closed else .closing }

/-- `clearTimeout(this.stableTimer); this.stableTimer = null`. -/
def clearStable : Connection :=
  match c.stableTimer with
  | none => c
  | some t => { c with stableTimer := none, stableTimers := c.stableTimers.filter (· ≠ t) }

def scheduleReconnect : Connection :=
  { c with attempt := c.attempt + 1, reconnects := c.reconnects + 1 }

def dial : Connection :=
  { c with
    ws := some c.sockets.length
    lastInboundAt := c.now
    livenessArmed := false
    abandonCurrent := some c.sockets.length
    sockets := c.sockets ++ [⟨.connecting, false, true⟩] }

def connect (opts : ConnectionOpts) : Connection :=
  if opts.resolveUrl then { c with resolving := c.resolving + 1 } else c.dial

/-- `if (this.ws === ws) this.ws = null; if (!this.closed) this.scheduleReconnect()`. -/
def letGo (k : Nat) : Connection :=
  let dropped := if c.ws = some k then { c with ws := none } else c
  if c.closed then dropped else dropped.scheduleReconnect

/-- The `abandon` of a dial. -/
def abandon (k : Nat) : Connection :=
  match c.sockets[k]? with
  | none => c
  | some s =>
    if s.settled then c
    else
      let settled := c.setSocket k fun s => { s with settled := true, dialTimer := false }
      (settled.clearStable.closeSocket k).letGo k

/-- `this.abandonCurrent?.(…)`. -/
def dropLink : Connection := c.abandonCurrent.elim c c.abandon

/-- `send('register', …)`, over the current socket if that is open. -/
def sendRegister : Connection :=
  match c.ws with
  | none => c
  | some k =>
    if (c.sockets[k]?).any (·.readyState = .open) then { c with registers := k :: c.registers }
      else c

def onOpen (k : Nat) : Connection :=
  let opened := c.setSocket k fun s => { s with readyState := .open, dialTimer := false }
  let registered := { opened with droppedInARow := 0 }.sendRegister
  { registered with
    stableTimer := some registered.nextTimer
    stableTimers := registered.nextTimer :: registered.stableTimers
    nextTimer := registered.nextTimer + 1 }

/-- What an agent makes of a frame: an echo of its heartbeat or another ping, the answer
to its register, a command, or nothing it can read, with or without the id of a command. -/
inductive ControllerFrame where
  | ping (heartbeat : Bool)
  | registerAck
  | command
  | unreadable (commandId : Option String)

def onDroppedFrame (commandId : Option String) : Connection :=
  match commandId with
  | none => c
  | some _ =>
    if MAX_DROPPED_COMMANDS ≤ c.droppedInARow + 1 then { c with droppedInARow := 0 }.dropLink
    else { c with droppedInARow := c.droppedInARow + 1 }

def onMessage (k : Nat) (f : ControllerFrame) : Connection :=
  if c.ws ≠ some k then c
  else
    let alive := { c with lastInboundAt := c.now, lastAliveAt := c.now, strandedReported := false }
    match f with
    | .unreadable commandId => alive.onDroppedFrame commandId
    | .ping true => { alive with livenessArmed := true }
    | .ping false => { alive with livenessArmed := true, droppedInARow := 0 }
    | .registerAck => alive
    | .command => { alive with droppedInARow := 0 }

def onClose (k : Nat) : Connection :=
  let ended := (c.setSocket k fun s =>
    { s with readyState := .closed, dialTimer := false }).clearStable
  match c.sockets[k]? with
  | none => ended
  | some s =>
    if s.settled then ended
    else (ended.setSocket k fun s => { s with settled := true }).letGo k

def dialTimeout (k : Nat) : Connection :=
  match c.sockets[k]? with
  | none => c
  | some s => if s.readyState = .open ∨ s.settled then c else c.abandon k

def checkLink (opts : ConnectionOpts) : Connection :=
  if c.closed then c
  else
    let isOpen := c.ws.any fun k => (c.sockets[k]?).any (·.readyState = .open)
    let checked :=
      if isOpen ∧ linkIsDead c.livenessArmed c.lastInboundAt c.now opts.idleMs then
        c.dropLink else c
    if checked.strandedReported = false ∧ opts.strandedMs < checked.now - checked.lastAliveAt then
      { checked with strandedReported := true }
    else checked

def start (opts : ConnectionOpts) : Connection :=
  { c with started := true, lastAliveAt := c.now, watchdog := true }.connect opts

/-- The current socket, while it is being dialled or open. -/
def usable : Option Nat :=
  c.ws.filter fun k => (c.sockets[k]?).any fun s =>
    s.readyState = .connecting || s.readyState = .open

def redial (opts : ConnectionOpts) : Connection :=
  let reset := { c with attempt := 0 }
  match c.usable with
  | some k => reset.closeSocket k
  | none => reset.connect opts

def stop : Connection :=
  let stopped := { c with closed := true, watchdog := false }
  c.ws.elim stopped stopped.closeSocket

end Connection

/-! ## Runs -/

inductive LinkMove where
  | start
  | redial
  | stop
  | watchdog
  | elapse (ms : Nat)
  | resolved
  | reconnect
  | dialTimer (k : Nat)
  | stableTimer (t : Nat)
  | opened (k : Nat)
  | message (k : Nat) (f : Connection.ControllerFrame)
  | ended (k : Nat)

/-- One move.  A socket opens while it is being dialled, delivers while it is open, and
ends once. -/
def step (opts : ConnectionOpts) (c : Connection) : LinkMove → Option Connection
  | .start => if c.started then none else some (c.start opts)
  | .redial => some (c.redial opts)
  | .stop => some c.stop
  | .watchdog => if c.watchdog then some (c.checkLink opts) else none
  | .elapse ms => some { c with now := c.now + ms }
  | .resolved =>
    match c.resolving with
    | 0 => none
    | n + 1 =>
      let resolved := { c with resolving := n }
      some (if c.closed then resolved else resolved.dial)
  | .reconnect =>
    match c.reconnects with
    | 0 => none
    | n + 1 =>
      let fired := { c with reconnects := n }
      some (if c.closed then fired else fired.connect opts)
  | .dialTimer k => if (c.sockets[k]?).any (·.dialTimer) then some (c.dialTimeout k) else none
  | .stableTimer t =>
    if t ∈ c.stableTimers then
      some { c with attempt := 0, stableTimers := c.stableTimers.filter (· ≠ t) }
    else none
  | .opened k => if (c.sockets[k]?).any (·.readyState = .connecting) then
    some (c.onOpen k) else none
  | .message k f => if (c.sockets[k]?).any (·.readyState = .open) then
    some (c.onMessage k f) else none
  | .ended k => if (c.sockets[k]?).any (·.readyState ≠ .closed) then some (c.onClose k) else none

end Swarmy.Agent
