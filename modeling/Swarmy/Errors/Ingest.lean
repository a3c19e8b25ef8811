import Swarmy.Machine.Run
import Swarmy.Sql.Page
import Mathlib.Logic.Function.Basic

/-!
# Issues of a project

Events are grouped into issues by their fingerprint.  Ingest asks for the state of the issues
of a batch, decides what each event does to its issue, and appends what is new; an operator
resolves, ignores and reopens.  Each is suspended between its query and its insert.
-/

namespace Errors

inductive IssueStatus where
  | unresolved
  | resolved
  | resolvedNextRelease
  | ignored
deriving DecidableEq

/-- A row of the issues table; a time that is missing is `none`. -/
structure IssueRow where
  fingerprint : String
  title : String
  culprit : String
  excType : String
  level : String
  platform : String
  status : IssueStatus
  resolvedInRelease : String
  statusChangedAt : Option Int
  statusBy : String
  firstSeen : Option Int
  firstRelease : String
  regressedAt : Option Int
  version : Nat

/-- An event behind its normalisation, with the fingerprint of its group. -/
structure Event where
  fingerprint : String
  title : String
  culprit : String
  excType : String
  level : String
  platform : String
  release : String
  timestamp : Int

/-! ## The lifecycle -/

inductive Transition where
  | new
  | regression (previous : IssueStatus)
  | none
deriving DecidableEq

def decideTransition (state : Option IssueRow) (release : String) (timestamp : Int) : Transition :=
  match state with
  | .none => .new
  | some state =>
    match state.status with
    | .resolved =>
      if state.statusChangedAt.all (· < timestamp) then .regression .resolved else .none
    | .resolvedNextRelease =>
      if release ≠ "" ∧ release ≠ state.resolvedInRelease then .regression .resolvedNextRelease
      else .none
    | .unresolved | .ignored => .none

/-! ## A batch -/

inductive AlertKind where
  | new
  | regression
deriving DecidableEq

/-- A row to write, with the event that it is for and the alert to raise. -/
structure Planned where
  row : IssueRow
  event : Event
  kind : AlertKind

/-- `Date.now() * 1000` and a random number below. -/
def versionAt (now : Nat) (random : Nat) : Nat := now * 1000 + random % 1000

/-- The row that an event writes. -/
def rowOf (ev : Event) (kind : AlertKind) (state : Option IssueRow) (at_ : Nat) (version : Nat) :
    IssueRow where
  fingerprint := ev.fingerprint
  title := ev.title
  culprit := ev.culprit
  excType := ev.excType
  level := ev.level
  platform := ev.platform
  status := .unresolved
  resolvedInRelease := ""
  statusChangedAt := some at_
  statusBy := if kind = .new then "" else "system:regression"
  firstSeen :=
    if kind = .new then some ev.timestamp
    else match state.bind IssueRow.firstSeen with
      | none => some ev.timestamp
      | some t => if t = 0 then some ev.timestamp else some t
  firstRelease := if kind = .new then ev.release else (state.map IssueRow.firstRelease).getD ""
  regressedAt := some (if kind = .regression then at_ else 0)
  version := version

/-- What later events of the batch see of the issue. -/
def seenAs (row : IssueRow) : IssueRow :=
  { row with statusChangedAt := none, firstSeen := none, regressedAt := none, version := 0 }

/-- The loop of `storeEvents` over its events: `byFp` is the state that is known of each issue,
`at_` when the batch came in, and `now` when the loop runs. -/
def plan (at_ now : Nat) : List Nat → (String → Option IssueRow) → List Event → List Planned
  | _, _, [] => []
  | randoms, byFp, ev :: events =>
    match decideTransition (byFp ev.fingerprint) ev.release ev.timestamp with
    | .none => plan at_ now randoms byFp events
    | t =>
      let kind := if t = .new then AlertKind.new else .regression
      let row := rowOf ev kind (byFp ev.fingerprint) at_ (versionAt now (randoms.headD 0))
      ⟨row, ev, kind⟩ :: plan at_ now randoms.tail
        (fun fp => if fp = ev.fingerprint then some (seenAs row) else byFp fp) events

/-- The fingerprints of a batch, each once. -/
def fingerprints (events : List Event) : List String := (events.map Event.fingerprint).dedup

/-- Most fingerprints of a state query. -/
def QUERY_LIMIT : Nat := 500

/-! ## Operations -/

/-- Where an operation is suspended: ingest at its query or one of its inserts, the operator
likewise. -/
inductive Op where
  | query (at_ : Nat) (events : List Event)
  | insertEvents (planned : List Planned)
  | insertIssues (planned : List Planned)
  | insertReleases (planned : List Planned)
  | read (fingerprint : String) (status : IssueStatus)
  | insert (row : IssueRow)
  | done

/-- How the state query ends: with the rows there are, with none, or it fails. -/
inductive Answer where
  | rows
  | nothing
  | failed

structure State where
  now : Nat
  rows : List IssueRow
  ops : List Op
  /-- What an operator last decided of an issue, and was stored. -/
  triage : String → Option IssueStatus
  /-- The issues whose state ingest wrote over though the event was no regression. -/
  forgot : List String
  /-- The issues that an operation opened. -/
  opened : List (Nat × String)
  /-- The alerts that it raised. -/
  alerts : List (Nat × String)

inductive Move where
  | ingest (events : List Event)
  | answered (i : Nat) (answer : Answer) (randoms : List Nat)
  | inserted (i : Nat)
  | insertFails (i : Nat)
  /-- An insert is carried out, and reported as failed. -/
  | insertLost (i : Nat)
  | setIssueStatus (fingerprint : String) (status : IssueStatus)
  /-- The issue with the release it was last seen in, or nothing. -/
  | found (i : Nat) (lastRelease : Option String) (by_ : String) (random : Nat)
  | wait (ms : Nat)

namespace State

def start : State := ⟨0, [], [], fun _ => none, [], [], []⟩

variable (s : State)

/-- The state of an issue: `FINAL`. -/
def issue (fingerprint : String) : Option IssueRow :=
  Sql.final IssueRow.fingerprint IssueRow.version s.rows fingerprint

def goto (i : Nat) (op : Op) : State := { s with ops := s.ops.set i op }

/-- What the state query says of an issue. -/
def known (answer : Answer) (events : List Event) (fingerprint : String) : Option IssueRow :=
  match answer with
  | .rows => if fingerprint ∈ (fingerprints events).take QUERY_LIMIT then
    s.issue fingerprint else none
  | .nothing | .failed => none

/-- The row is not written over another, or its event is a regression of the issue. -/
def warranted (p : Planned) : Bool :=
  match decideTransition (s.issue p.event.fingerprint) p.event.release p.event.timestamp with
  | .new | .regression _ => true
  | .none => false

/-- What an operation does to its issues. -/
def tagged (i : Nat) (planned : List Planned) : List (Nat × String) :=
  planned.map fun p => (i, p.event.fingerprint)

/-- Rows are appended by ingest. -/
def write (i : Nat) (planned : List Planned) : State :=
  { s with
    rows := s.rows ++ planned.map Planned.row
    forgot := s.forgot ++ (planned.filter (!s.warranted ·)).map (·.event.fingerprint)
    opened := s.opened ++ tagged i planned }

/-- `setIssueStatus` behind its query. -/
def decided (cur : IssueRow) (status : IssueStatus) (lastRelease by_ : String) (random : Nat) :
    Option IssueRow :=
  let resolvedInRelease :=
    if status = .resolvedNextRelease then
      if lastRelease ≠ "" then lastRelease else cur.firstRelease
    else ""
  if status = .resolvedNextRelease ∧ resolvedInRelease = "" then none
  else some { cur with
    status, resolvedInRelease, statusBy := by_, statusChangedAt := some s.now,
    firstSeen := some (cur.firstSeen.getD 0), regressedAt := some (cur.regressedAt.getD 0),
    version := versionAt s.now random }

def step (s : State) : Move → Option State
  | .ingest events => some { s with ops := s.ops ++ [.query s.now events] }
  | .answered i answer randoms =>
    match s.ops[i]? with
    | some (.query at_ events) =>
      some (s.goto i (.insertEvents (plan at_ s.now randoms (s.known answer events) events)))
    | _ => none
  | .inserted i =>
    match s.ops[i]? with
    | some (.insertEvents planned) => some (s.goto i (.insertIssues planned))
    | some (.insertIssues planned) => some ((s.write i planned).goto i (.insertReleases planned))
    | some (.insertReleases planned) =>
      -- the alerts are raised one after another, and not awaited
      some ({ s with alerts := s.alerts ++ tagged i planned }.goto i .done)
    | some (.insert row) =>
      some ({ s with
        rows := s.rows ++ [row]
        triage := Function.update s.triage row.fingerprint (some row.status) }.goto i .done)
    | _ => none
  | .insertFails i =>
    match s.ops[i]? with
    | some (.insertEvents _) | some (.insertIssues _) | some (.insertReleases _)
    | some (.insert _) => some (s.goto i .done)
    | _ => none
  | .insertLost i =>
    match s.ops[i]? with
    | some (.insertEvents _) | some (.insertReleases _) => some (s.goto i .done)
    | some (.insertIssues planned) => some ((s.write i planned).goto i .done)
    | some (.insert row) =>
      some ({ s with
        rows := s.rows ++ [row]
        triage := Function.update s.triage row.fingerprint (some row.status) }.goto i .done)
    | _ => none
  | .setIssueStatus fingerprint status => some { s with ops := s.ops ++ [.read fingerprint status] }
  | .found i lastRelease by_ random =>
    match s.ops[i]? with
    | some (.read fingerprint status) =>
      match s.issue fingerprint, lastRelease with
      | some cur, some lastRelease =>
        some (s.goto i (match s.decided cur status lastRelease by_ random with
          | some row => .insert row
          | none => .done))
      | _, _ => some (s.goto i .done)
    | _ => none
  | .wait ms => some { s with now := s.now + ms }

end State

end Errors
