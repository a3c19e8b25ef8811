import Mathlib.Logic.Function.Basic
import Mathlib.Data.List.Basic
import Mathlib.Tactic.Common

/-!
# The upgrade of the platform

A run goes through its steps, saves itself after every transition and every unit of work, and is
driven again after the controller restarted, by the tick, or when it is retried after a failure.
Every handler keeps its progress in the data of its step.
-/

namespace PlatformUpgrade

open Function

abbrev Text := List Char

/-! ## Images -/

def isHex (c : Char) : Bool := c.isDigit || ('a' ≤ c && c ≤ 'f')

/-- `digestOf`: what follows the last `@`, where it is a digest. -/
def digestOf (image : Text) : Option Text :=
  if image.contains '@' then
    let d := (image.reverse.takeWhile (· ≠ '@')).reverse
    if "sha256:".toList.isPrefixOf d && (d.drop 7).length == 64 && (d.drop 7).all isHex then
      some d else none
  else none

/-- The text without its tag: the last `:` counts when it is after the last `/`. -/
def cutTag (r : Text) : Text :=
  if (r.reverse.takeWhile (· ≠ '/')).contains ':' then
    ((r.reverse.dropWhile (· ≠ ':')).drop 1).reverse else r

/-- What follows the first place of a text. -/
def afterFirst (ns : Text) : Text → Option Text
  | [] => if ns.isEmpty then some [] else none
  | c :: r => if ns.isPrefixOf (c :: r) then some ((c :: r).drop ns.length) else afterFirst ns r

def repoOf (image : Text) : Text :=
  let r := cutTag (image.takeWhile (· ≠ '@'))
  let r := (afterFirst "/swarmy-system/".toList r).getD r
  let first := r.takeWhile (· ≠ '/')
  let hasHost := r.contains '/' &&
      (first.contains '.' || first.contains ':' || first == "localhost".toList)
  if hasHost then r
  else if r.contains '/' then "docker.io/".toList ++ r
  else "docker.io/library/".toList ++ r

/-! ## System services -/

structure ManifestComponent where
  ref : Text
  image : Text
  digest : Option Text

/-- The target manifest. -/
structure Manifest where
  version : Text
  commit : Option Text
  components : List (Text × ManifestComponent)
  /-- `components.controller?.digest`. -/
  controller : Option Text
  /-- The platforms of its agent binaries. -/
  agentBinaries : List Text

inductive UpdateStatus where
  | updating
  | completed
  | rollbackStarted
  | rollbackCompleted
deriving DecidableEq

structure LiveService where
  name : Text
  image : Text
  labels : List (Text × Text)
  updateStatus : Option UpdateStatus

def SYSTEM_ORDER : List (Text × Nat) :=
  [("dns".toList, 1), ("caddySwarmy".toList, 2), ("caddy".toList, 2), ("otelCollector".toList, 3),
    ("clickhouse".toList, 4)]

def CONTROLLER_SERVICE : Text := "swarmy_controller".toList

def SYSTEM_STEP_EXCLUDED : List Text := [CONTROLLER_SERVICE, "swarmy-garage".toList]

structure SystemServiceUpdate where
  service : Text
  key : Text
  from_ : Text
  to_ : Text
deriving DecidableEq

/-- `byRepo`, in the order in which it is filled: the last entry of a repository counts. -/
def byRepo (components : List (Text × ManifestComponent)) : List (Text × Text) :=
  components.flatMap fun (key, c) =>
    if (c.digest.getD []).isEmpty || (SYSTEM_ORDER.lookup key).isNone then []
    else [(repoOf c.ref, key), (repoOf c.image, key)]

def isSystem (s : LiveService) : Bool :=
  "swarmy-".toList.isPrefixOf s.name ||
    s.labels.lookup "swarmy.system".toList == some "true".toList ||
    s.labels.lookup "com.docker.stack.namespace".toList == some "swarmy-system".toList

/-- The update of a service, if it needs one. -/
def updateFor (components : List (Text × ManifestComponent))
    (refFor : Text → ManifestComponent → Text)
    (s : LiveService) : Option SystemServiceUpdate :=
  if SYSTEM_STEP_EXCLUDED.contains s.name || !isSystem s then none
  else do
    let key ← (byRepo components).reverse.lookup (repoOf s.image)
    let c ← components.lookup key
    if digestOf s.image = c.digest then none else some ⟨s.name, key, s.image, refFor key c⟩

/-- `a.service.localeCompare(b.service)` is not positive. -/
abbrev LocaleLe := Text → Text → Bool

def before (localeLe : LocaleLe) (a b : SystemServiceUpdate) : Bool :=
  let i := (SYSTEM_ORDER.lookup a.key).getD 0
  let j := (SYSTEM_ORDER.lookup b.key).getD 0
  i < j || (i == j && localeLe a.service b.service)

def planSystemUpdates (localeLe : LocaleLe) (services : List LiveService)
    (components : List (Text × ManifestComponent)) (refFor : Text → ManifestComponent → Text) :
    List SystemServiceUpdate :=
  (services.filterMap (updateFor components refFor)).mergeSort (before localeLe)

/-! ## Builds of agents -/

structure AgentBuild where
  version : Text
  commit : Option Text
deriving DecidableEq

def isSameAgentBuild (build release : AgentBuild) : Bool :=
  if build.version ≠ release.version then false
  else if release.commit.getD [] = [] then true
  else build.commit = release.commit

/-- The build of a release's agents, where the release carries one. -/
def Manifest.agentBuild (m : Manifest) : Option AgentBuild :=
  if (m.components.lookup "agent".toList).any (·.digest.isSome) || !m.agentBinaries.isEmpty then
    some ⟨m.version, m.commit⟩
  else none

/-! ## The controller's step -/

structure ControllerDecisionInput where
  target : Option Text
  liveImage : Option Text
  liveUpdateState : Option UpdateStatus
  inventoryReady : Bool
  dispatchedAt : Option Nat
  processStartedAt : Nat
  now : Nat
  selfCommit : Option Text
  targetCommit : Option Text
  fromCommit : Option Text

inductive ControllerDecision where
  | skip
  | done
  | dispatch
  | wait
  | fail
deriving DecidableEq

def CONTROLLER_TIMEOUT_MS : Nat := 15 * 60000

/-- An empty commit is as none. -/
def commitMoved (i : ControllerDecisionInput) : Bool :=
  i.targetCommit.isSome && i.targetCommit ≠ some [] && i.selfCommit =
    i.targetCommit && i.fromCommit ≠ i.targetCommit

def controllerStepDecision (i : ControllerDecisionInput) : ControllerDecision :=
  let live := i.liveImage.bind digestOf
  let target := i.target.getD []
  if target = [] then .skip
  else match i.dispatchedAt with
    | none =>
      if i.liveImage = none then if i.inventoryReady then .skip else .wait
      else if live = some target then .done
      else .dispatch
    | some dispatchedAt =>
      let restarted := dispatchedAt < i.processStartedAt
      if restarted ∧ (live = some target ∨ commitMoved i = true) then .done
      else if i.liveUpdateState = some .rollbackStarted ∨
        i.liveUpdateState = some .rollbackCompleted then .fail
      else if restarted ∧ i.liveImage ≠ none ∧ live ≠ some target then .fail
      else if restarted ∧ i.liveImage = none then .wait
      else if dispatchedAt + CONTROLLER_TIMEOUT_MS < i.now then .fail
      else .wait

/-! ## Runs -/

inductive StepKey where
  | preflight
  | controller
  | agents
  | system
  | engines
  | verify
deriving DecidableEq

def STEP_ORDER : List StepKey := [.preflight, .controller, .agents, .system, .engines, .verify]

inductive StepStatus where
  | pending
  | running
  | waiting
  | done
  | skipped
  | failed
  | rolledBack
deriving DecidableEq

def StepStatus.isOver (st : StepStatus) : Bool := st = .done || st = .skipped

inductive RunStatus where
  | running
  | done
  | failed
deriving DecidableEq

inductive NodeProgress where
  | done
  | upgraded
  | dispatched

structure RunState where
  status : RunStatus
  step : StepKey
  steps : StepKey → StepStatus
  /-- Of the controller's step. -/
  dispatchedAt : Option Nat
  /-- Of the agents' step. -/
  nodes : Nat → Option NodeProgress
  /-- Of the system step. -/
  updated : List Text

def newRunState : RunState := ⟨.running, .preflight, fun _ => .pending, none, fun _ => none, []⟩

/-- The step that the loop of `driveRun` comes to. -/
def RunState.next (run : RunState) : Option StepKey :=
  (STEP_ORDER.drop (STEP_ORDER.idxOf run.step)).find? fun key => !(run.steps key).isOver

def RunState.setStep (run : RunState) (key : StepKey) (st : StepStatus) : RunState :=
  { run with steps := update run.steps key st }

theorem RunState.steps_setStep (run : RunState) (key k : StepKey) (st : StepStatus) :
    (run.setStep key st).steps k = if k = key then st else run.steps k :=
  update_apply run.steps key st k

/-- `retryRun`. -/
def retryRun (run : RunState) : RunState :=
  { run.setStep run.step .pending with status := .running }

/-! ## The driver -/

inductive Phase where
  | idle
  /-- At the head of the loop. -/
  | loop
  /-- In the handler of a step that is not followed further. -/
  | handler (key : StepKey)
  | controller
  /-- The update of the controller was announced, and is not sent. -/
  | send
  | agents (todo : List Nat)
  | agentsWait (node : Nat) (todo : List Nat)
  | system (todo : List SystemServiceUpdate)
  /-- In the rollback of a step. -/
  | rollback (key : StepKey)
deriving DecidableEq

/-- How a call ends. -/
inductive Outcome where
  | done
  /-- Docker refuses the command. -/
  | refused
  | failed
  /-- There is nothing to do. -/
  | skipped
deriving DecidableEq

structure State where
  run : RunState
  saved : RunState
  phase : Phase
  /-- The nodes in the database. -/
  nodes : List Nat
  isOnline : Nat → Bool
  /-- The agents that registered since the controller started. -/
  known : Nat → Bool
  /-- What each agent reported when it last registered. -/
  builds : Nat → AgentBuild
  live : List LiveService
  inventoryReady : Bool
  now : Nat
  processStartedAt : Nat
  selfCommit : Option Text
  /-- `agentRelease()`, the agents that this controller hands out. -/
  release : Option AgentBuild
  /-- The controller's step was retried, and has not sent the update since. -/
  retried : Bool

/-- What a run is about. -/
structure Upgrade where
  target : Manifest
  fromCommit : Option Text
  refFor : Text → ManifestComponent → Text
  localeLe : LocaleLe

inductive Step where
  | wait (ms : Nat)
  | node (id : Nat) (there : Bool)
  /-- An agent registers with its build, or goes away. -/
  | agent (id : Nat) (build : Option AgentBuild)
  | inventory (live : List LiveService) (ready : Bool)
  /-- The controller stops, and starts as another process, perhaps with another agent release: no
  agent is connected, and there is no inventory. -/
  | restart (selfCommit : Option Text) (release : Option AgentBuild)
  /-- `drivePlatformUpgrade`, by the tick or after a retry. -/
  | drive
  | retry
  /-- The head of the loop, or the next part of a handler without a call. -/
  | advance
  /-- The next call, with the inventory after it. -/
  | call (outcome : Outcome) (live : List LiveService)
  /-- A look at a node's agent, before or after the deadline. -/
  | poll (late : Bool)

namespace State

variable (up : Upgrade) (s : State)

def plan (live : List LiveService) : List SystemServiceUpdate :=
  planSystemUpdates up.localeLe live up.target.components up.refFor

def checkpoint : State := { s with saved := s.run }

def goTo (phase : Phase) : State := { s with phase }

/-- The handler of a step returned, or was told to wait. -/
def finishStep (key : StepKey) (st : StepStatus) (phase : Phase) : State :=
  { s with run := s.run.setStep key st, saved := s.run.setStep key st, phase }

/-- The step failed; two of them have a rollback, after which the failure is saved. -/
def failStep (key : StepKey) : State :=
  if key = .agents ∨ key = .system then
    { s with run := s.run.setStep key .failed, phase := .rollback key }
  else
    let run := { s.run.setStep key .failed with status := .failed }
    { s with run, saved := run, phase := .idle }

def agentBuildFor (n : Nat) : Option AgentBuild := if s.known n then some (s.builds n) else none

/-- The agent reports the build that this controller hands out. -/
def isUpToDate (n : Nat) : Bool :=
  s.release.any fun release => (s.agentBuildFor n).any (isSameAgentBuild · release)

def controllerInput : ControllerDecisionInput where
  target := up.target.controller
  liveImage := (s.live.find? fun x => x.name = CONTROLLER_SERVICE).map (·.image)
  liveUpdateState := (s.live.find? fun x => x.name = CONTROLLER_SERVICE).bind (·.updateStatus)
  inventoryReady := s.inventoryReady
  dispatchedAt := s.run.dispatchedAt
  processStartedAt := s.processStartedAt
  now := s.now
  selfCommit := s.selfCommit
  targetCommit := up.target.commit
  fromCommit := up.fromCommit

/-- The phase in which a step's handler starts. -/
def enterPhase : StepKey → Phase
  | .controller => .controller
  | .agents => .agents s.nodes
  | .system => .system ((plan up s.live).filter fun u => !s.run.updated.contains u.service)
  | key => .handler key

def enterStep (key : StepKey) : State :=
  let run := { s.run.setStep key .running with step := key }
  { s with run, saved := run, phase := s.enterPhase up key }

/-- The run is over. -/
def finish : State :=
  let run := { s.run with status := .done }
  { s with run, saved := run, phase := .idle }

def setNode (n : Nat) (p : NodeProgress) : State :=
  { s with run := { s.run with nodes := update s.run.nodes n (some p) } }

def advance : State :=
  match s.phase with
  | .loop => match s.run.next with
      | none => s.finish
      | some key => s.enterStep up key
  | .controller => match controllerStepDecision (s.controllerInput up) with
      | .skip => s.finishStep .controller .skipped .loop
      | .done => s.finishStep .controller .done .loop
      | .wait => s.finishStep .controller .waiting .idle
      | .fail => s.failStep .controller
      | .dispatch =>
        { s with
          run := { s.run with dispatchedAt := some s.now }, retried := false }.checkpoint.goTo .send
  | .agents [] => s.finishStep .agents (if s.release.isSome then .done else .skipped) .loop
  | .agents (n :: todo) =>
    if s.release = none then s.finishStep .agents .skipped .loop
    else match s.run.nodes n with
      | some .done | some .upgraded => s.goTo (.agents todo)
      | some .dispatched => s.goTo (.agentsWait n todo)
      | none =>
        if s.isUpToDate n then (s.setNode n .done).goTo (.agents todo)
        else if s.isOnline n then s
        else s.failStep .agents
  | .system [] => s.finishStep .system .done .loop
  | _ => s

/-- `call` in a phase that makes one. -/
def call (outcome : Outcome) (live : List LiveService) : State :=
  match s.phase with
  | .handler key => match outcome with
      | .done => s.finishStep key .done .loop
      | .skipped => if key = .engines then s.finishStep key .skipped .loop else s.failStep key
      | .refused | .failed => s.failStep key
  | .send => match outcome with
      | .done => { s with live }.finishStep .controller .waiting .idle
      | .refused => { s with run := { s.run with dispatchedAt := none } }.failStep .controller
      | .failed | .skipped => s.failStep .controller
  | .agents (n :: todo) =>
    if s.release ≠ none ∧ s.run.nodes n = none ∧ s.isUpToDate n = false ∧ s.isOnline n = true then
      match outcome with
      | .done => (s.setNode n .dispatched).checkpoint.goTo (.agentsWait n todo)
      | _ => s.failStep .agents
    else s
  | .system (u :: todo) => match outcome with
      | .done =>
        { s with live, run := { s.run with updated := s.run.updated ++
          [u.service] } }.checkpoint.goTo
          (.system todo)
      | _ => { s with live }.failStep .system
  | .rollback key =>
    let run := { s.run.setStep key (if outcome = .done then .rolledBack
        else .failed) with status := .failed }
    { s with live, run, saved := run, phase := .idle }
  | _ => s

def poll (late : Bool) : State :=
  match s.phase with
  | .agentsWait n todo =>
    if s.isOnline n && s.isUpToDate n then (s.setNode n .upgraded).checkpoint.goTo (.agents todo)
    else if late then s.failStep .agents
    else s
  | _ => s

def step : Step → State
  | .wait ms => { s with now := s.now + ms }
  | .node id there => { s with nodes := if there then s.nodes ++ [id] else s.nodes.filter (· ≠ id) }
  | .agent id (some build) =>
    { s with
      isOnline := update s.isOnline id true, known := update s.known id true
      builds := update s.builds id build }
  | .agent id none => { s with isOnline := update s.isOnline id false }
  | .inventory live ready => { s with live, inventoryReady := ready }
  | .restart selfCommit release =>
    { s with
      run := s.saved, phase := .idle, processStartedAt := s.now, selfCommit, release
      isOnline := fun _ => false, known := fun _ => false, live := [], inventoryReady := false }
  | .drive =>
    if s.phase = .idle ∧ s.saved.status = .running then { s with run := s.saved, phase := .loop }
      else s
  | .retry =>
    if s.phase = .idle ∧ s.saved.status = .failed then
      { s with
        run := retryRun s.saved, saved := retryRun s.saved
        retried := decide (s.saved.step = .controller) }
    else s
  | .advance => s.advance up
  | .call outcome live => s.call outcome live
  | .poll late => s.poll late

/-- What a controller has to do with, besides the run. -/
structure Site where
  nodes : List Nat
  isOnline : Nat → Bool
  known : Nat → Bool
  builds : Nat → AgentBuild
  live : List LiveService
  inventoryReady : Bool
  now : Nat
  processStartedAt : Nat
  selfCommit : Option Text
  release : Option AgentBuild

/-- A run that was started and is not driven yet. -/
def start (site : Site) : State :=
  ⟨newRunState, newRunState, .idle, site.nodes, site.isOnline, site.known, site.builds, site.live,
    site.inventoryReady, site.now, site.processStartedAt, site.selfCommit, site.release, false⟩

end State

end PlatformUpgrade
