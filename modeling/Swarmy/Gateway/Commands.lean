import Swarmy.Machine.Run
import Swarmy.Js.Value

/-!
# Commands and their results

The hub sends a command to a node under a command id and settles its promise by the frame
that comes back under this id, or by a timer.  Chunks of logs are handed to whoever
listens to their id.  A frame says under which id it answers; which command its sender was
really answering is known to nobody but the environment.
-/

namespace Swarmy.Gateway

open Function

/-! ## The state of the hub -/

inductive CommandStatus where
  | accepted
  | running
  | succeeded
  | failed
  | timeout
  | rejected
  | canceled
deriving DecidableEq

structure CommandProgress where
  phase : String
  message : Option String

/-- What is shown of a deploy in progress. -/
structure DeployProgress where
  phase : String
  message : Option String
  startedAt : Nat
  atMs : Nat

/-- An entry of `pending`.  `dispatch` stands for the promise its functions settle. -/
structure Pending where
  dispatch : Nat
  timer : Nat
  timeoutMs : Nat
  dispatchedAt : Nat
  deploy : Option (String × String)

/-- A timer that has been set: it calls `expire` with its command id. -/
structure Timer where
  handle : Nat
  due : Nat
  commandId : String

/-- A command that was sent: to which node, under which id, and whether it asked for a
stream of log lines. -/
structure Sent where
  node : String
  commandId : String
  streams : Bool
deriving DecidableEq

/-- What has happened: a promise was settled, by a frame of this sender that answered this
command, or by its timer; or a line of this sender was handed to a listener. -/
inductive HubEvent where
  | settled (d : Nat) (ok : Bool) (cause : Option (String × Option Nat))
  | delivered (k : Nat) (sender : String)
deriving DecidableEq

/-- The hub.  `sent` and `log`, newest last and newest first, are only recorded. -/
structure HubState where
  now : Nat
  pending : String → Option Pending
  timers : List Timer
  nextHandle : Nat
  deployProgress : String × String → Option DeployProgress
  /-- The streams of log lines that are still open. -/
  listeners : List Nat
  sent : List Sent
  log : List HubEvent

def HubState.initial : HubState := ⟨0, fun _ => none, [], 0, fun _ => none, [], [], []⟩

def FALLBACK_COMMAND_TIMEOUT_MS : Int := 15000

def MAX_TIMER_MS : Nat := 2147483647

def PROGRESS_IDLE_TIMEOUT_MS : Nat := 300000

def PROGRESS_MAX_TIMEOUT_MS : Nat := 45 * 60000

/-- How long a command may take: the caller's value, or that of its type. -/
def commandTimeoutMs (default explicit : Option Int) : Nat :=
  let ms := (explicit <|> default).getD FALLBACK_COMMAND_TIMEOUT_MS
  if ms ≤ 0 then MAX_TIMER_MS else min ms.toNat MAX_TIMER_MS

/-- The deadline after a sign of progress. -/
def progressDeadlineMs (baseMs dispatchedAt now : Nat) : Nat :=
  let idle := max baseMs PROGRESS_IDLE_TIMEOUT_MS
  let ceilingAt := dispatchedAt + max baseMs PROGRESS_MAX_TIMEOUT_MS
  min (min idle (ceilingAt - now)) MAX_TIMER_MS

/-- The id a command is sent under: the caller's, unless that is in flight. -/
def pickCommandId (supplied : Option String) (inFlight : String → Bool) (uuid : String) : String :=
  match supplied with
  | some id => if id ≠ "" ∧ inFlight id = false then id else uuid
  | none => uuid

namespace HubState

variable (w : HubState)

def clearTimeout (handle : Nat) : HubState :=
  { w with timers := w.timers.filter (·.handle ≠ handle) }

def setTimeout (ms : Nat) (commandId : String) : HubState :=
  { w with
    timers := ⟨w.nextHandle, w.now + ms, commandId⟩ :: w.timers, nextHandle := w.nextHandle + 1 }

def clearDeployProgress (p : Pending) : HubState :=
  match p.deploy with
  | none => w
  | some key => { w with deployProgress := update w.deployProgress key none }

/-- `resolve` or `reject`. -/
def settle (p : Pending) (ok : Bool) (cause : Option (String × Option Nat)) : HubState :=
  { w with log := .settled p.dispatch ok cause :: w.log }

def drop (commandId : String) : HubState :=
  { w with pending := update w.pending commandId none }

def commandProgress (commandId : String) (progress : CommandProgress) : HubState :=
  match w.pending commandId with
  | none => w
  | some p =>
    let armed := (w.clearTimeout p.timer).setTimeout
      (progressDeadlineMs p.timeoutMs p.dispatchedAt w.now) commandId
    let kept := { armed with
      pending := update w.pending commandId (some { p with timer := w.nextHandle }) }
    match p.deploy with
    | none => kept
    | some key =>
      let shown := ⟨progress.phase, progress.message, p.dispatchedAt, w.now⟩
      { kept with deployProgress := update w.deployProgress key (some shown) }

def expire (commandId : String) : HubState :=
  match w.pending commandId with
  | none => w
  | some p => ((w.drop commandId).clearDeployProgress p).settle p false none

def settleCommand (commandId : String) (ok : Bool) (cause : String × Option Nat) : HubState :=
  match w.pending commandId with
  | none => w
  | some p => (((w.drop commandId).clearTimeout p.timer).clearDeployProgress p).settle p ok
    (some cause)

/-- Who listens to an id: an open stream, and for any other command the log of builds. -/
def listensTo (commandId : String) (k : Nat) : Bool :=
  (w.sent[k]?).any fun c => c.commandId = commandId && (!c.streams || k ∈ w.listeners)

def emitLog (commandId sender : String) : HubState :=
  let handed := (List.range w.sent.length).filter (w.listensTo commandId)
  { w with log := handed.map (HubEvent.delivered · sender) ++ w.log }

/-- The part of `dispatch` behind its checks, when the hub sends the command. -/
def dispatch (node : String) (supplied : Option String) (uuid : String)
    (defaultMs explicitMs : Option Int) (deploy : Option (String × String)) : HubState :=
  let commandId := pickCommandId supplied (fun id => (w.pending id).isSome) uuid
  let timeoutMs := commandTimeoutMs defaultMs explicitMs
  let armed := w.setTimeout timeoutMs commandId
  { armed with
    pending := update w.pending commandId
      (some ⟨w.sent.length, w.nextHandle, timeoutMs, w.now, deploy⟩)
    sent := w.sent ++ [⟨node, commandId, false⟩] }

def subscribeLogLines (node uuid : String) : HubState :=
  { w with listeners := w.sent.length :: w.listeners, sent := w.sent ++ [⟨node, uuid, true⟩] }

end HubState

/-! ## Runs -/

/-- The frames of an agent that are about a command. -/
inductive AgentFrame where
  | commandResult (commandId : String) (status : CommandStatus) (progress : Option CommandProgress)
  | logChunk (commandId : String)

def AgentFrame.commandId : AgentFrame → String
  | .commandResult commandId _ _ | .logChunk commandId => commandId

/-- A frame that arrives from `sender` and answers the command of number `answers`. -/
def HubState.receive (w : HubState) (sender : String) (answers : Option Nat) : AgentFrame → HubState
  | .commandResult commandId status progress =>
    if status = .running ∨ status = .accepted then
      match progress with
      | some progress => w.commandProgress commandId progress
      | none => w
    else w.settleCommand commandId (status = .succeeded) (sender, answers)
  | .logChunk commandId => w.emitLog commandId sender

inductive HubMove where
  | dispatch (node : String) (supplied : Option String) (uuid : String)
      (defaultMs explicitMs : Option Int) (deploy : Option (String × String))
  | subscribe (node uuid : String)
  | unsubscribe (k : Nat)
  | frame (sender : String) (answers : Option Nat) (f : AgentFrame)
  | fire (handle : Nat)
  | tick (ms : Nat)

/-- One move.  A random id is one that nothing was sent under before, and a timer fires
once, when it is due. -/
def HubState.step (w : HubState) : HubMove → Option HubState
  | .dispatch node supplied uuid defaultMs explicitMs deploy =>
    if w.sent.all (·.commandId ≠ uuid) then
      some (w.dispatch node supplied uuid defaultMs explicitMs deploy)
    else none
  | .subscribe node uuid =>
    if w.sent.all (·.commandId ≠ uuid) then some (w.subscribeLogLines node uuid) else none
  | .unsubscribe k => some { w with listeners := w.listeners.filter (· ≠ k) }
  | .frame sender answers f => some (w.receive sender answers f)
  | .fire handle =>
    match w.timers.find? (·.handle = handle) with
    | some t => if t.due ≤ w.now then some ((w.clearTimeout handle).expire t.commandId) else none
    | none => none
  | .tick ms => some { w with now := w.now + ms }

end Swarmy.Gateway
