import Mathlib.Logic.Function.Basic
import Mathlib.Data.List.Basic
import Mathlib.Tactic.Common

/-!
# The upgrade of the object store's engine

`driveEngineUpgrade` stops Garage on every member, copies the metadata, deploys the new engine and
verifies it; any failure rolls back.  The run is saved after every step, so that a controller that
stopped resumes it.  Meanwhile Swarm starts and ends tasks, agents come and go, and objects are
written.
-/

namespace EngineUpgrade

open Function

/-- The engine before and after the upgrade, `run.from` and `run.to`. -/
inductive Engine where
  | old
  | new
deriving DecidableEq

/-- A member's metadata volume. -/
structure Meta where
  /-- The newest engine that opened it. -/
  opened : Engine
  /-- It has a write that was acknowledged after a redeploy had finished. -/
  written : Bool

/-- A volume that was not there before. -/
def Meta.empty : Meta := ⟨.old, false⟩

/-- The metadata when an engine starts on it: a new engine migrates what it finds. -/
def Meta.start (d : Meta) : Engine → Meta
  | .old => d
  | .new => { d with opened := .new }

inductive EngineUpgradeStep where
  | preflight
  | stop
  | backup
  | deploy
  | verify
  | done
  | rollback

inductive EngineUpgradeStatus where
  | running
  | done
  | failed
  | rolledBack
deriving DecidableEq

/-- The run as it is saved; what the controller has in memory is the same at every call. -/
structure EngineUpgradeRun where
  status : EngineUpgradeStatus
  step : EngineUpgradeStep
  backedUp : List Nat

/-- Where `driveEngineUpgrade` is: the call that it makes next, or a save. -/
inductive Phase where
  | idle
  | preflight
  | remove
  /-- `stopStore` waits for the tasks. -/
  | wait
  | backup
  /-- The copy of a member is done, and not saved. -/
  | backedUp (member : Nat)
  | engineImage
  | redeploy
  /-- The redeploy is done, and not saved. -/
  | deployed
  | verify
  | rollbackRemove
  | rollbackWait
  /-- `rollback` has these members to restore. -/
  | restore (todo : List Nat)
  | rollbackRedeploy
  /-- The status of the rollback is not saved. -/
  | ended (status : EngineUpgradeStatus)
deriving DecidableEq

/-- How a call ends. -/
inductive Outcome where
  | done
  /-- An error or a timeout, after it took effect. -/
  | late
  | failed
  /-- No manager is connected: an error before the call. -/
  | refused
  /-- It took effect, and the controller stopped. -/
  | cut
deriving DecidableEq

def Outcome.took : Outcome → Bool
  | .done | .late | .cut => true
  | .failed | .refused => false

structure State where
  /-- The engine of the service `swarmy-garage`, when there is one. -/
  service : Option Engine
  /-- The engine recorded for the store. -/
  engineImage : Engine
  meta_ : Nat → Meta
  /-- The backup volume of the run. -/
  copy : Nat → Option Meta
  /-- The Garage task that runs on a member. -/
  task : Nat → Option Engine
  /-- The members whose containers the inventory shows: their agents are connected, and have said
  what runs. -/
  isOnline : Nat → Bool
  run : EngineUpgradeRun
  phase : Phase
  /-- The run was resumed in its rollback. -/
  resumed : Bool
  /-- A redeploy of the run has finished. -/
  redeployed : Bool

inductive Step where
  /-- Swarm starts a task of the service on a member. -/
  | taskStarts (member : Nat)
  | taskEnds (member : Nat)
  | agent (member : Nat) (online : Bool)
  /-- An object write is acknowledged and is in the metadata of this member. -/
  | write (member : Nat)
  /-- The next call of the run. -/
  | call (outcome : Outcome)
  /-- The next look at the tasks, before or after the deadline. -/
  | poll (late : Bool)
  /-- The next save. -/
  | save
  | controllerStops
  | resumeEngineUpgrade

namespace State

/-- No store is being upgraded yet, and Garage runs where it runs. -/
def start (task : Nat → Bool) (isOnline : Nat → Bool) : State where
  service := some .old
  engineImage := .old
  meta_ _ := ⟨.old, false⟩
  copy _ := none
  task m := if task m then some .old else none
  isOnline := isOnline
  run := ⟨.running, .preflight, []⟩
  phase := .preflight
  resumed := false
  redeployed := false

variable (members : List Nat) (s : State)

/-- `storeTasksRunning`: the inventory has the containers of the nodes that are connected. -/
def storeTasksRunning : Bool := members.any fun m => (s.task m).isSome && s.isOnline m

/-- `rollback` begins with a save. -/
def rollback : State := { s with run := { s.run with step := .rollback }, phase := .rollbackRemove }

/-- The run ends with this status. -/
def finish (status : EngineUpgradeStatus) : State :=
  { s with run := { s.run with status }, phase := .idle }

/-- The next step begins, and is saved. -/
def enter (step : EngineUpgradeStep) (phase : Phase) : State :=
  { s with run := { s.run with step }, phase }

/-- Go on after a call. -/
def after (outcome : Outcome) (next thrown : State → State) : State :=
  match outcome with
  | .done => next s
  | .late | .failed | .refused => thrown s
  | .cut => { s with phase := .idle }

def goTo (phase : Phase) (s : State) : State := { s with phase }

/-- `service.remove`. -/
def removeService : State := { s with service := none }

/-- The one-shot that copies the metadata to the backup volume. -/
def copyMeta (m : Nat) : State := { s with copy := update s.copy m (some (s.meta_ m)) }

/-- The one-shot that copies the backup volume to the metadata. -/
def restoreMeta (m : Nat) : State :=
  { s with meta_ := update s.meta_ m ((s.copy m).getD .empty) }

theorem copyMeta_copy (m m' : Nat) :
    (s.copyMeta m).copy m' = if m' = m then some (s.meta_ m) else s.copy m' :=
  update_apply s.copy m _ m'

theorem restoreMeta_meta (m m' : Nat) :
    (s.restoreMeta m).meta_ m' = if m' = m then (s.copy m).getD .empty else s.meta_ m' :=
  update_apply s.meta_ m _ m'

/-- The engine is recorded for the store. -/
def record (engine : Engine) : State := { s with engineImage := engine }

/-- The redeploy of the store on the engine that is recorded. -/
def redeployStore : State := { s with service := some s.engineImage }

/-- `enable` returned. -/
def finishRedeploy (phase : Phase) (s : State) : State := { s with redeployed := true, phase }

def call (outcome : Outcome) : State :=
  match s.phase with
  | .preflight =>
    s.after outcome (fun s => if members = [] then s.finish .failed else s.enter .stop .remove)
      fun s => s.finish .failed
  | .remove => (if outcome.took then s.removeService else s).after outcome (goTo .wait) rollback
  | .backup =>
    match members.find? fun m => !s.run.backedUp.contains m with
    | none => s.enter .deploy .engineImage
    | some m => (if outcome.took then s.copyMeta m else s).after outcome
      (goTo (.backedUp m)) rollback
  | .engineImage =>
    (if outcome.took then s.record .new else s).after outcome (goTo .redeploy) rollback
  | .redeploy =>
    (if outcome.took then s.redeployStore else s).after outcome (finishRedeploy .deployed) rollback
  | .verify =>
    -- Garage reports as many connected nodes as there are members only when each runs the engine.
    s.after (if outcome = .done ∧ ¬ ∀ m ∈ members, s.task m = some .new then .failed else outcome)
      (fun s => (s.enter .done .idle).finish .done) rollback
  | .rollbackRemove =>
    -- The error of the call is ignored, that of the look for a manager is not.
    if outcome = .refused then s.goTo (.ended .failed)
    else (if outcome.took then s.removeService else s).after outcome (goTo .rollbackWait)
      (goTo .rollbackWait)
  | .restore [] =>
    (if outcome.took then s.record .old else s).after outcome (goTo .rollbackRedeploy)
      (goTo (.ended .failed))
  | .restore (m :: todo) =>
    (if outcome.took then s.restoreMeta m else s).after outcome (goTo (.restore todo))
      (goTo (.ended .failed))
  | .rollbackRedeploy =>
    (if outcome.took then s.redeployStore else s).after outcome
      (finishRedeploy (.ended .rolledBack))
      (goTo (.ended .failed))
  | .idle | .wait | .backedUp _ | .deployed | .rollbackWait | .ended _ => s

def poll (late : Bool) : State :=
  match s.phase with
  | .wait =>
    if !s.storeTasksRunning members then s.enter .backup .backup
    else if late then s.rollback
    else s
  | .rollbackWait =>
    if !s.storeTasksRunning members || late then s.goTo (.restore s.run.backedUp) else s
  | _ => s

def save : State :=
  match s.phase with
  | .backedUp m =>
    { s with run := { s.run with backedUp := s.run.backedUp ++ [m] }, phase := .backup }
  | .deployed => s.enter .verify .verify
  | .ended status => s.finish status
  | _ => s

/-- Where a run goes on after a restart. -/
def resumeEngineUpgrade : State :=
  if s.phase = .idle ∧ s.run.status = .running then
    match s.run.step with
    | .preflight => s.goTo .preflight
    | .stop => s.goTo .remove
    | .backup => s.goTo .backup
    | .deploy => s.goTo .engineImage
    | .verify => s.goTo .verify
    | .done => s
    | .rollback => { s.rollback with resumed := true }
  else s

def taskStarts (m : Nat) : State :=
  match s.service with
  | some e =>
    if m ∈ members ∧ s.task m = none then
      { s with
        task := update s.task m (some e)
        meta_ := update s.meta_ m ((s.meta_ m).start e) }
    else s
  | none => s

/-- Only a member that runs Garage takes part in a write. -/
def write (m : Nat) : State :=
  if (s.task m).isSome then
    { s with
      meta_ := update s.meta_ m ⟨(s.meta_ m).opened, (s.meta_ m).written || s.redeployed⟩ }
  else s

def step : Step → State
  | .taskStarts m => s.taskStarts members m
  | .taskEnds m => { s with task := update s.task m none }
  | .agent m online => { s with isOnline := update s.isOnline m online }
  | .write m => s.write m
  | .call outcome => s.call members outcome
  | .poll late => s.poll members late
  | .save => s.save
  | .controllerStops => s.goTo .idle
  | .resumeEngineUpgrade => s.resumeEngineUpgrade

end State

end EngineUpgrade
