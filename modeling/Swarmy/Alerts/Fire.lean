import Swarmy.Machine.Run
import Mathlib.Data.List.Nodup

/-!
# Alert events of level signals

An alert event is opened for each rule of a signal, refreshed while it fires, and closed when
the signal clears; its notification is sent, or held and sent later.  Several operations run at
a time, each suspended at its calls of the database and at its notifications.  Which
notifications went out is kept beside the rows.
-/

namespace Alerts

/-- Signals whose every firing notifies; here are the others. -/
def EVENT_ALERT_SIGNALS : List String :=
  ["build-failed", "deploy-failed", "deploy-rolled-back", "error-new-issue", "error-regression"]

inductive Severity where
  | info
  | warning
  | critical
deriving DecidableEq

structure Rule where
  id : String
  signal : String
  enabled : Bool
  selectorJson : String
  mutedUntil : Option Nat

structure QuietHours where
  enabled : Bool
  start : String
  «end» : String
  timeZone : String
  criticalPages : Bool

inductive EventStatus where
  | firing
  | resolved
deriving DecidableEq

inductive NotifyState where
  | sent
  | held
  | muted
  | skipped
deriving DecidableEq

structure AlertEvent where
  id : String
  ruleId : Option String
  signal : String
  severity : Severity
  resource : String
  message : String
  status : EventStatus
  notify : NotifyState
deriving DecidableEq

structure FireEventInput where
  signal : String
  severity : Severity
  resource : String
  message : String
  ruleId : Option String

/-- `inQuietHours`, which asks the time zone database, and `selectorMatches` of a rule's
selector and the subject of a resource. -/
structure Env where
  inQuietHours : QuietHours → Nat → Bool
  covers : Rule → String → Bool

/-! ## The decision -/

inductive NotifyDecision where
  | send
  | hold
  | mute
deriving DecidableEq

def notifyDecision (env : Env) (severity : Severity) (mutedUntil : Option Nat)
    (quiet : Option QuietHours) (now : Nat) : NotifyDecision :=
  if mutedUntil.any (now < ·) then .mute
  else if quiet.any (env.inQuietHours · now) then
    if severity = .critical && quiet.any (·.criticalPages) then .send else .hold
  else .send

def NOTIFY_STATE : NotifyDecision → NotifyState
  | .send => .sent
  | .hold => .held
  | .mute => .muted

/-! ## Operations -/

/-- The row of a rule, or none for an event without a rule. -/
abbrev Target := Option Rule

/-- Where `fireEvent` is suspended, at a target and before those that follow. -/
inductive Fire where
  | rules
  | quiet (targets : List Target)
  | lookup (target : Target) (rest : List Target) (quiet : Option QuietHours) (now : Nat)
  | refresh (id : String) (rest : List Target) (quiet : Option QuietHours) (now : Nat)
  | create (target : Target) (rest : List Target) (quiet : Option QuietHours) (now : Nat)
  | send (target : Target) (id : String) (rest : List Target)
    (quiet : Option QuietHours) (now : Nat)

/-- An event as it was read, with its rule. -/
abbrev Read := AlertEvent × Target

/-- Where `resolveEvent` is suspended. -/
inductive Resolve where
  | find
  | quiet (opened : List Read)
  | close (opened : List Read) (quiet : Option QuietHours) (now : Nat)
  | skip (opened : List Read) (quiet : Option QuietHours) (now : Nat)
  | notify (opened : List Read) (quiet : Option QuietHours) (now : Nat)

/-- Where `releaseHeld` is suspended; `now` is when it was called. -/
inductive Release where
  | find
  | quiet (waiting : List Read)
  | flip (waiting todo : List Read) (quiet : Option QuietHours)
  | send (waiting : List Read) (read : Read) (todo : List Read) (quiet : Option QuietHours)

inductive Op where
  | fire (input : FireEventInput) (p : Fire)
  | resolve (signal resource : String) (ruleId : Option String) (p : Resolve)
  | release (now : Nat) (p : Release)
  /-- A `releaseHeld` that went through. -/
  | released (now : Nat) (waiting : List Read) (quiet : Option QuietHours)
  | done

structure State where
  now : Nat
  rules : List Rule
  quiet : Option QuietHours
  events : List AlertEvent
  ops : List Op
  /-- The events whose firing was notified, once for each time. -/
  sent : List String
  /-- Those that were at a moment when they should not be. -/
  untimely : List String
  /-- The events whose recovery was notified. -/
  recovered : List String

inductive Move where
  | fire (input : FireEventInput)
  | resolve (signal resource : String) (ruleId : Option String)
  | releaseHeld
  /-- An operation goes on at its call. -/
  | next (i : Nat)
  /-- The query for the open event is answered. -/
  | found (i : Nat) (id : Option String)
  | created (i : Nat) (id : String)
  | fails (i : Nat)
  | setRules (rules : List Rule)
  | setQuietHours (quiet : Option QuietHours)
  | wait (ms : Nat)

namespace State

def start : State := ⟨0, [], none, [], [], [], [], []⟩

variable (env : Env) (s : State)

def goto (i : Nat) (op : Op) : State := { s with ops := s.ops.set i op }

def rule? (id : String) : Option Rule := s.rules.find? (·.id = id)

/-- What `notifyDecision` says of an event as things are. -/
def decision (e : AlertEvent) : NotifyDecision :=
  notifyDecision env e.severity ((e.ruleId.bind s.rule?).bind Rule.mutedUntil) s.quiet s.now

/-- The firing of an event is notified. -/
def notified (id : String) : State :=
  { s with
    sent := id :: s.sent
    untimely :=
      if s.events.any (fun e => e.id = id && s.decision env e ≠ .send) then id :: s.untimely
      else s.untimely }

/-- `targetRules`. -/
def targetRules (input : FireEventInput) : List Target :=
  match input.ruleId with
  | some id => ((s.rule? id).filter Rule.enabled).toList.map some
  | none =>
    let rules := s.rules.filter (·.signal = input.signal)
    if rules = [] then [none]
    else (rules.filter fun r => r.enabled && env.covers r input.resource).map some

/-- The event is open for the target. -/
def isOpen (input : FireEventInput) (target : Target) (e : AlertEvent) : Bool :=
  e.resource = input.resource && e.status = .firing &&
    match target with
    | some r => e.ruleId = some r.id
    | none => e.ruleId = none && e.signal = input.signal

/-- `fireForRule` for the targets that are left. -/
def fireNext (input : FireEventInput) (quiet : Option QuietHours) (now : Nat) : List Target → Op
  | [] => .done
  | target :: rest => .fire input (.lookup target rest quiet now)

/-- An event with the rule that it has. -/
def read (e : AlertEvent) : Read := (e, e.ruleId.bind s.rule?)

def open_ (signal resource : String) (ruleId : Option String) : List Read :=
  (s.events.filter fun e => e.signal = signal && e.resource = resource && e.status = .firing &&
    (ruleId = none || e.ruleId = ruleId)).map s.read

def waiting : List Read :=
  (s.events.filter fun e => e.status =
    .firing && (e.notify = .held || e.notify = .muted)).map s.read

def mutedUntil (target : Target) : Option Nat := target.bind Rule.mutedUntil

def update (p : AlertEvent → Bool) (f : AlertEvent → AlertEvent) : State :=
  { s with events := s.events.map fun e => if p e then f e else e }

def isUnsent (r : Read) : Bool := r.1.notify ≠ .sent && r.1.notify ≠ .skipped

/-- The recoveries that `resolveEvent` notifies. -/
def recoveries (opened : List Read) (quiet : Option QuietHours) (now : Nat) : List String :=
  (opened.filter fun r => r.1.notify = .sent &&
    notifyDecision env r.1.severity (mutedUntil r.2) quiet now = .send).map (·.1.id)

/-- `releaseHeld` at its next event. -/
def flip (i now : Nat) (waiting : List Read) (quiet : Option QuietHours) : List Read → State
  | [] => s.goto i (.released now waiting quiet)
  | r :: todo =>
    let decision := notifyDecision env r.1.severity (mutedUntil r.2) quiet now
    if NOTIFY_STATE decision = r.1.notify then s.goto i (.release now (.flip waiting todo quiet))
    else
      let hit := fun e : AlertEvent => e.id = r.1.id && e.notify = r.1.notify && e.status = .firing
      (s.update hit fun e => { e with notify := NOTIFY_STATE decision }).goto i
        (if s.events.any hit && decision = .send then .release now (.send waiting r todo quiet)
        else .release now (.flip waiting todo quiet))

def next (i : Nat) : Option State :=
  match s.ops[i]? with
  | some (.fire input .rules) =>
    some (s.goto i (match s.targetRules env input with
      | [] => .done
      | targets => .fire input (.quiet targets)))
  | some (.fire input (.quiet targets)) => some (s.goto i (fireNext input s.quiet s.now targets))
  | some (.fire input (.refresh id rest quiet now)) =>
    some ((s.update (·.id = id)
      fun e => { e with message := input.message, severity := input.severity }).goto i
        (fireNext input quiet now rest))
  | some (.fire input (.send _ id rest quiet now)) =>
    some ((s.notified env id).goto i (fireNext input quiet now rest))
  | some (.resolve signal resource ruleId .find) =>
    some (s.goto i (match s.open_ signal resource ruleId with
      | [] => .done
      | opened => .resolve signal resource ruleId (.quiet opened)))
  | some (.resolve signal resource ruleId (.quiet opened)) =>
    some (s.goto i (.resolve signal resource ruleId (.close opened s.quiet s.now)))
  | some (.resolve signal resource ruleId (.close opened quiet now)) =>
    some ((s.update (fun e => opened.any (·.1.id = e.id))
      fun e => { e with status := .resolved }).goto i
        (.resolve signal resource ruleId (.skip opened quiet now)))
  | some (.resolve signal resource ruleId (.skip opened quiet now)) =>
    some ((s.update (fun e => (opened.filter isUnsent).any (·.1.id = e.id))
      fun e => { e with notify := .skipped }).goto i
        (.resolve signal resource ruleId (.notify opened quiet now)))
  | some (.resolve _ _ _ (.notify opened quiet now)) =>
    -- one after another, which nothing here depends on
    some ({ s with recovered := recoveries env opened quiet now ++ s.recovered }.goto i .done)
  | some (.release now .find) =>
    some (s.goto i (match s.waiting with
      | [] => .released now [] s.quiet
      | waiting => .release now (.quiet waiting)))
  | some (.release now (.quiet waiting)) =>
    some (s.goto i (.release now (.flip waiting waiting s.quiet)))
  | some (.release now (.flip waiting todo quiet)) => some (s.flip env i now waiting quiet todo)
  | some (.release now (.send waiting r todo quiet)) =>
    some ((s.notified env r.1.id).goto i (.release now (.flip waiting todo quiet)))
  | _ => none

/-- An event is created for a target. -/
def create (i : Nat) (input : FireEventInput) (target : Target) (rest : List Target)
    (quiet : Option QuietHours) (now : Nat) (id : String) : State :=
  let decision := notifyDecision env input.severity (mutedUntil target) quiet now
  { s with
    events := s.events ++ [⟨id, target.map Rule.id, input.signal, input.severity, input.resource,
      input.message, .firing, NOTIFY_STATE decision⟩]
    ops := s.ops.set i
      (if decision = .send then .fire input (.send target id rest quiet now)
      else fireNext input quiet now rest) }

def step (s : State) : Move → Option State
  | .fire input =>
    if input.signal ∈ EVENT_ALERT_SIGNALS then none
    else some { s with ops := s.ops ++ [.fire input .rules] }
  | .resolve signal resource ruleId =>
    some { s with ops := s.ops ++ [.resolve signal resource ruleId .find] }
  | .releaseHeld => some { s with ops := s.ops ++ [.release s.now .find] }
  | .next i => s.next env i
  | .found i id =>
    match s.ops[i]? with
    | some (.fire input (.lookup target rest quiet now)) =>
      match id with
      | none =>
        if s.events.any (isOpen input target) then none
        else some (s.goto i (.fire input (.create target rest quiet now)))
      | some id =>
        if s.events.any (fun e => e.id = id && isOpen input target e) then
          some (s.goto i (.fire input (.refresh id rest quiet now)))
        else none
    | _ => none
  | .created i id =>
    match s.ops[i]? with
    | some (.fire input (.create target rest quiet now)) =>
      if s.events.any (·.id = id) then none
      else some (s.create env i input target rest quiet now id)
    | _ => none
  | .fails i =>
    -- notifications fail in silence
    match s.ops[i]? with
    | some (.fire _ (.send _ _ _ _ _)) | some (.resolve _ _ _ (.notify _ _ _))
    | some (.release _ (.send _ _ _ _)) | some (.released _ _ _) | some .done | none => none
    | _ => some (s.goto i .done)
  | .setRules rules =>
    -- the events of a rule that is deleted stay, without a rule
    if (rules.map Rule.id).Nodup then
      some { s with
        rules
        events := s.events.map fun e =>
          { e with ruleId := e.ruleId.filter (· ∈ rules.map Rule.id) } }
    else none
  | .setQuietHours quiet => some { s with quiet }
  | .wait ms => some { s with now := s.now + ms }

end State

end Alerts
