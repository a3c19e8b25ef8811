import Mathlib.Data.List.Basic
import Mathlib.Tactic.Common

/-!
# The backup scheduler

A tick starts every minute, reads the schedules and the last runs, and works through the ones that
are due.  Every call it waits for is a step of its own, so ticks interleave.
-/

namespace Backup

abbrev Text := List Char

/-! ## Slots -/

inductive IntervalUnit where
  | minutes
  | hours
  | days
deriving DecidableEq

def UNIT_MS : IntervalUnit → Nat
  | .minutes => 60000
  | .hours => 3600000
  | .days => 86400000

/-- A row of a schedule that is not paused; another unit is none. -/
structure BackupSchedule where
  id : Text
  targetId : Text
  secondaryTargetId : Option Text
  nodeId : Option Text
  every : Nat
  unit : Option IntervalUnit
  createdAt : Nat
  anchorAt : Option Nat
deriving DecidableEq

def nextRun (step anchor from_ : Nat) : Nat :=
  if from_ < anchor then anchor else anchor + ((from_ - anchor) / step + 1) * step

namespace BackupSchedule

variable (x : BackupSchedule)

/-- The interval in milliseconds, of a schedule that has one. -/
def stepMs : Option Nat := x.unit.bind fun unit =>
    if 0 < x.every then some (x.every * UNIT_MS unit) else none

def anchor : Nat := x.anchorAt.getD x.createdAt

def nextIntervalRun (step : Nat) (lastRunAt : Option Nat) : Nat :=
  nextRun step x.anchor (lastRunAt.getD x.createdAt)

/-- Is the schedule due? -/
def due (now : Nat) (lastRunAt : Option Nat) : Bool :=
  x.stepMs.any fun step => x.nextIntervalRun step lastRunAt ≤ now

/-- The number of the slot that a time is in. -/
def slot (at_ : Nat) : Nat := (at_ - x.anchor) / x.stepMs.getD 0

end BackupSchedule

/-! ## Jobs -/

inductive Status where
  | RUNNING
  | SUCCEEDED
  | FAILED
deriving DecidableEq

structure BackupJob where
  scheduleId : Text
  startedAt : Nat
  status : Status
deriving DecidableEq

/-- What the history says of a job. -/
def BackupJob.key (j : BackupJob) : Text × Nat := (j.scheduleId, j.startedAt)

/-- The `_max` of the times that the jobs of a schedule were started at. -/
def lastRun (id : Text) : List (Text × Nat) → Option Nat
  | [] => none
  | (scheduleId, startedAt) :: rest =>
    if scheduleId = id then some (max startedAt ((lastRun id rest).getD 0)) else lastRun id rest

/-! ## Ticks -/

def pickNode (online : Text → Bool) (managers : List Text) : Option Text → Option Text
  | none | some [] => managers.head?
  | some preferred => if online preferred then some preferred else managers.head?

/-- Where `runOne` is. -/
inductive RunPhase where
  | target
  | create (node : Text)
  | backup (node : Text) (job : Nat)
  | finish (node : Text) (job : Nat) (ok : Bool)
  | second (node : Text)
  | copy (node : Text)
  | dump

/-- The job that has yet to be finished. -/
def RunPhase.job : RunPhase → Option Nat
  | .target | .create _ | .second _ | .copy _ | .dump => none
  | .backup _ job | .finish _ job _ => some job

/-- Has the run yet to create its job? -/
def RunPhase.early : RunPhase → Bool
  | .target | .create _ => true
  | .backup _ _ | .finish _ _ _ | .second _ | .copy _ | .dump => false

inductive Phase where
  | listing
  | listed (active : List BackupSchedule)
  | counted (active : List BackupSchedule) (lastRunOf : Text → Option Nat)
  | run (x : BackupSchedule) (phase : RunPhase) (rest : List BackupSchedule)
  | ended

structure Tick where
  now : Nat
  phase : Phase

structure State where
  ticks : List Tick
  inFlight : List Text
  jobs : List BackupJob
  now : Nat

namespace State

def start (now : Nat) : State := ⟨[], [], [], now⟩

def put (s : State) (n : Nat) (at_ : Nat) (phase : Phase) : State :=
  { s with ticks := s.ticks.set n ⟨at_, phase⟩ }

/-- The next schedule of a tick's list. -/
def enter (s : State) (n at_ : Nat) : List BackupSchedule → State
  | [] => s.put n at_ .ended
  | x :: rest => { s.put n at_ (.run x .target rest) with inFlight := x.id :: s.inFlight }

/-- `finally`. -/
def release (s : State) (x : BackupSchedule) : State :=
  { s with inFlight := s.inFlight.filter (· ≠ x.id) }

def leave (s : State) (n at_ : Nat) (x : BackupSchedule) (rest : List BackupSchedule) : State :=
  (s.release x).enter n at_ rest

def dueList (s : State) (now : Nat) (active : List BackupSchedule) (lastRunOf : Text → Option Nat) :
    List BackupSchedule :=
  active.filter fun x => !s.inFlight.contains x.id && x.due now (lastRunOf x.id)

end State

/-- The schedules that are stored, each with an id of its own. -/
structure Table where
  rows : List BackupSchedule
  nodup : (rows.map (·.id)).Nodup

inductive Step where
  | wait (ms : Nat)
  /-- The timer starts a tick. -/
  | start
  /-- The rows of the organisations that are connected. -/
  | rows (n : Nat) (seen : Text → Bool)
  | last (n : Nat)
  | due (n : Nat)
  /-- Whether the target is there, and which nodes are. -/
  | found (n : Nat) (target : Bool) (online : Text → Bool) (managers : List Text)
  | create (n : Nat)
  | backup (n : Nat) (ok : Bool)
  | finish (n : Nat)
  | second (n : Nat) (target : Bool)
  | copied (n : Nat)
  | dumped (n : Nat)
  /-- The call that a tick waits for fails. -/
  | fails (n : Nat)

namespace State

def step (t : Table) (s : State) : Step → State
  | .wait ms => { s with now := s.now + ms }
  | .start => { s with ticks := s.ticks ++ [⟨s.now, .listing⟩] }
  | .rows n seen =>
    match s.ticks[n]? with
    | some ⟨at_, .listing⟩ =>
      let active := t.rows.filter fun x => seen x.id
      s.put n at_ (if active = [] then .ended else .listed active)
    | _ => s
  | .last n =>
    match s.ticks[n]? with
    | some ⟨at_, .listed active⟩ =>
      s.put n at_ (.counted active fun id => lastRun id (s.jobs.map BackupJob.key))
    | _ => s
  | .due n =>
    match s.ticks[n]? with
    | some ⟨at_, .counted active lastRunOf⟩ => s.enter n at_ (s.dueList at_ active lastRunOf)
    | _ => s
  | .found n target online managers =>
    match s.ticks[n]? with
    | some ⟨at_, .run x .target rest⟩ =>
      match pickNode online managers x.nodeId with
      | some node => if target then s.put n at_ (.run x (.create node) rest)
        else s.leave n at_ x rest
      | none => s.leave n at_ x rest
    | _ => s
  | .create n =>
    match s.ticks[n]? with
    | some ⟨at_, .run x (.create node) rest⟩ =>
      { s.put n at_ (.run x (.backup node s.jobs.length) rest) with
        jobs := s.jobs ++ [⟨x.id, at_, .RUNNING⟩] }
    | _ => s
  | .backup n ok =>
    match s.ticks[n]? with
    | some ⟨at_, .run x (.backup node job) rest⟩ => s.put n at_ (.run x (.finish node job ok) rest)
    | _ => s
  | .finish n =>
    match s.ticks[n]? with
    | some ⟨at_, .run x (.finish node job ok) rest⟩ =>
      let phase := match x.secondaryTargetId with
        | none | some [] => .dump
        | some id => if id = x.targetId then .dump else .second node
      { s.put n at_ (.run x phase rest) with
        jobs := s.jobs.modify job fun j => { j with status := if ok then .SUCCEEDED else .FAILED } }
    | _ => s
  | .second n target =>
    match s.ticks[n]? with
    | some ⟨at_, .run x (.second node) rest⟩ =>
      s.put n at_ (.run x (if target then .copy node else .dump) rest)
    | _ => s
  | .copied n =>
    match s.ticks[n]? with
    | some ⟨at_, .run x (.copy _) rest⟩ => s.put n at_ (.run x .dump rest)
    | _ => s
  | .dumped n =>
    match s.ticks[n]? with
    | some ⟨at_, .run x .dump rest⟩ => s.leave n at_ x rest
    | _ => s
  | .fails n =>
    match s.ticks[n]? with
    | some ⟨at_, .listing⟩ | some ⟨at_, .listed _⟩ => s.put n at_ .ended
    | some ⟨at_, .run x .dump rest⟩ => s.leave n at_ x rest
    | some ⟨at_, .run x _ _⟩ => (s.release x).put n at_ .ended
    | _ => s

def run (t : Table) (s : State) (steps : List Step) : State := steps.foldl (step t) s

end State

end Backup
