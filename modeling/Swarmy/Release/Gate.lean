import Swarmy.Machine.Run
import Swarmy.Sql.Page

/-!
# Releases and the health gate

Deploys record a release, manual rollbacks redeploy an old one, and the gate judges the
releases that are still deploying.  Each of them is suspended at its calls, and the controller
may stop at any time.  What is not in the database is kept beside the rows: what ever ended,
which releases the gate made, and what it redeployed.
-/

namespace Releases

inductive ReleaseStatus where
  | deploying
  | healthy
  | failed
  | rolledBack
  | superseded
deriving DecidableEq

/-- A health gate as `parseHealthGate` reads it off a label. -/
structure HealthGate where
  windowSec : Nat
  autoRollback : Bool
deriving DecidableEq

structure Stack where
  orgId : String
  name : String
deriving DecidableEq

structure Release where
  id : String
  stack : Stack
  composeSource : String
  status : ReleaseStatus
  healthGateJson : Option HealthGate
  notes : Option String
  createdAt : Nat
deriving DecidableEq

/-! ## The decision -/

def DEFAULT_SETTLE_SEC : Nat := 120

inductive Health where
  | healthy
  | degraded
  | down
  | unknown

inductive GateDecision where
  | wait
  | healthy
  | failed

def decideGate (health : Health) (elapsedMs windowSec : Nat) : GateDecision :=
  if elapsedMs < windowSec * 1000 then .wait
  else match health with
    | .healthy => .healthy
    | .degraded | .down => .failed
    | .unknown => if elapsedMs < windowSec * 2 * 1000 then .wait else .healthy

def isAutoRollbackRelease (notes : Option String) : Bool :=
  "Automatic rollback".toList.isPrefixOf (notes.getD "").toList

/-- A window that was rounded to nothing is as if there was no gate. -/
def gateOf (healthGateJson : Option HealthGate) : HealthGate :=
  match healthGateJson with
  | some g => if 0 < g.windowSec then g else ⟨DEFAULT_SETTLE_SEC, false⟩
  | none => ⟨DEFAULT_SETTLE_SEC, false⟩

/-! ## Operations -/

/-- Where `deployFromCompose` is suspended: before its plan, with services left to dispatch, or
at the two calls of `recordRelease`. -/
inductive DeployPhase where
  | plan
  | dispatch (gate : Option HealthGate) (left : Nat)
  | supersede (gate : Option HealthGate)
  | create (gate : Option HealthGate)
deriving DecidableEq

structure Deploy where
  stack : Stack
  composeSource : String
  phase : DeployPhase
deriving DecidableEq

/-- Where `rollbackTo` is suspended. -/
inductive Rollback where
  | target (releaseId : String)
  | head (target : Release)
  | deploy (target : Release) (head : Option String) (d : Deploy)
  | mark (target : Release) (head : String) (new : Option String)
  | note (target : Release) (new : String)
deriving DecidableEq

/-- Where `healthGateTick` is suspended: at the query, between two releases, or in
`judgeRelease` for a release, with the releases that follow. -/
inductive Gate where
  | list
  | next (todo : List Release)
  | summary (r : Release) (todo : List Release) (elapsedMs : Nat)
  | demote (r : Release) (todo : List Release)
  | promote (r : Release) (todo : List Release)
  /-- The alert and the incident event of a failed gate. -/
  | alarm (r : Release) (todo : List Release)
  | previous (r : Release) (todo : List Release)
  | fail (r : Release) (todo : List Release)
  | abandon (r : Release) (todo : List Release) (previous : Release)
  | redeploy (r : Release) (todo : List Release) (previous : Release) (d : Deploy)
  | note (r : Release) (todo : List Release) (previous : Release) (new : String)
deriving DecidableEq

inductive Op where
  | deploy (d : Deploy)
  | rollback (p : Rollback)
  | gate (g : Gate)
  | done
deriving DecidableEq

namespace Op

/-- The deploy that an operation is in. -/
def deploy? : Op → Option Deploy
  | .deploy d | .rollback (.deploy _ _ d) | .gate (.redeploy _ _ _ d) => some d
  | _ => none

def withDeploy (d : Deploy) : Op → Op
  | .deploy _ => .deploy d
  | .rollback (.deploy target head _) => .rollback (.deploy target head d)
  | .gate (.redeploy r todo previous _) => .gate (.redeploy r todo previous d)
  | op => op

/-- The deploy returned, with the id of its release when that was recorded. -/
def returned (new : Option String) : Op → Op
  | .rollback (.deploy target head _) =>
    match head.filter (some · ≠ new), new with
    | some h, new => .rollback (.mark target h new)
    | none, some new => .rollback (.note target new)
    | none, none => .done
  | .gate (.redeploy r todo previous _) =>
    match new with
    | some new => .gate (.note r todo previous new)
    | none => .gate (.next todo)
  | _ => .done

/-- The deploy threw: the gate goes on with the next release. -/
def threw : Op → Op
  | .gate (.redeploy _ todo _ _) => .gate (.next todo)
  | _ => .done

/-- The release whose failure the deploy of an operation is for. -/
def judged? : Op → Option Release
  | .gate (.redeploy r _ _ _) => some r
  | _ => none

end Op

/-! ## The system -/

structure State where
  now : Nat
  /-- In the order of their creation. -/
  rows : List Release
  ops : List Op
  /-- The releases that were ever superseded or rolled back. -/
  ended : List String
  /-- The releases that the gate made. -/
  autos : List String
  /-- The releases that the gate gave up, and what was the healthy one then. -/
  abandoned : List (String × Release)
  /-- What the gate dispatched, in full, and for which release. -/
  redeployed : List (String × String)
  /-- The releases for which it dispatched over a later one. -/
  overtaken : List String
deriving DecidableEq

inductive Move where
  | deploy (stack : Stack) (composeSource : String)
  | rollback (releaseId : String)
  | tick
  /-- What a query for one release answers. -/
  | found (i : Nat) (row : Option Release)
  | listed (i : Nat) (todo : List Release)
  | judge (i : Nat)
  | summarized (i : Nat) (health : Health)
  | alarmed (i : Nat) (reached : Bool)
  /-- The labels of the stack, and how many services there are to dispatch. -/
  | planned (i : Nat) (gate : Option HealthGate) (services : Nat)
  | dispatched (i : Nat)
  | deployFails (i : Nat)
  | superseded (i : Nat)
  | created (i : Nat) (id : String)
  | recordFails (i : Nat)
  | written (i : Nat) (reasons : String)
  | stop
  | wait (ms : Nat)

/-- The most recent release with a property, or none. -/
def IsLatest (rows : List Release) (p : Release → Bool) (row : Option Release) : Prop :=
  match row with
  | none => ∀ r ∈ rows, p r = false
  | some r => r ∈ rows ∧ p r = true ∧ ∀ r' ∈ rows, p r' = true → r'.createdAt ≤ r.createdAt

instance (rows : List Release) (p : Release → Bool) (row : Option Release) :
    Decidable (IsLatest rows p row) :=
  match row with
  | none => inferInstanceAs (Decidable (∀ r ∈ rows, p r = false))
  | some r => inferInstanceAs (Decidable (r ∈ rows ∧ p r = true ∧ _))

/-- What the query for deploying releases may answer. -/
def IsTodo (rows todo : List Release) : Prop :=
  Sql.IsPage (·.status = .deploying) Release.createdAt 100 rows todo

instance (rows todo : List Release) : Decidable (IsTodo rows todo) :=
  inferInstanceAs (Decidable (Sql.IsPage _ _ _ _ _))

namespace State

def start : State := ⟨0, [], [], [], [], [], [], []⟩

variable (s : State)

def goto (i : Nat) (op : Op) : State := { s with ops := s.ops.set i op }

/-- A release of the stack was recorded after this one. -/
def later (r : Release) : Bool :=
  (s.rows.filter (·.stack = r.stack)).getLast?.any (·.id ≠ r.id)

/-- Update the releases with a property. -/
def update (p : Release → Bool) (f : Release → Release) : State :=
  { s with rows := s.rows.map fun r => if p r then f r else r }

/-- Releases with a property come to an end. -/
def close (p : Release → Bool) (f : Release → Release) : State :=
  { s.update p f with ended := s.ended ++ (s.rows.filter p).map Release.id }

def setStatus (status : ReleaseStatus) (r : Release) : Release := { r with status }

/-- A service is dispatched. -/
def dispatch (i : Nat) (op : Op) (d : Deploy) (gate : Option HealthGate) (left : Nat) : State :=
  let s' := match op.judged? with
    | none => s
    | some r => { s with overtaken := if s.later r then r.id :: s.overtaken else s.overtaken }
  s'.goto i (op.withDeploy { d with phase := .dispatch gate left })

/-- All are: the release is to be recorded. -/
def dispatchedAll (i : Nat) (op : Op) (d : Deploy) (gate : Option HealthGate) : State :=
  let s' := match op.judged? with
    | none => s
    | some r => { s with redeployed := (r.id, d.composeSource) :: s.redeployed }
  s'.goto i (op.withDeploy { d with phase := .supersede gate })

def create (i : Nat) (op : Op) (d : Deploy) (gate : Option HealthGate) (id : String) : State :=
  { s with
    rows := s.rows ++ [⟨id, d.stack, d.composeSource, .deploying, gate, none, s.now⟩]
    autos := if op.judged?.isSome then id :: s.autos else s.autos
    ops := s.ops.set i (op.returned (some id)) }

/-- `judgeRelease` behind the summary. -/
def decide (r : Release) (todo : List Release) (elapsedMs : Nat) (health : Health) : Gate :=
  match decideGate health elapsedMs (gateOf r.healthGateJson).windowSec with
  | .wait => .next todo
  | .healthy => .demote r todo
  | .failed => .alarm r todo

/-- `judgeRelease` behind the query for the healthy release. -/
def consider (r : Release) (todo : List Release) : Option Release → Gate
  | none => .fail r todo
  | some previous =>
    if isAutoRollbackRelease r.notes then .fail r todo else .abandon r todo previous

/-- What a query for one release goes on with. -/
def find (i : Nat) (row : Option Release) : Option State :=
  match s.ops[i]? with
  | some (.rollback (.target releaseId)) =>
    match row with
    | none => some (s.goto i .done)
    | some r =>
      if r ∈ s.rows ∧ r.id = releaseId then some (s.goto i (.rollback (.head r))) else none
  | some (.rollback (.head target)) =>
    if IsLatest s.rows (fun r => r.stack = target.stack &&
        (r.status = .deploying || r.status = .healthy || r.status = .failed)) row then
      some (s.goto i (.rollback (.deploy target (row.map Release.id)
        ⟨target.stack, target.composeSource, .plan⟩)))
    else none
  | some (.gate (.previous r todo)) =>
    if IsLatest s.rows (fun r' => r'.stack = r.stack && r'.status = .healthy) row then
      some (s.goto i (.gate (consider r todo row)))
    else none
  | _ => none

/-- A write to the releases. -/
def write (i : Nat) (reasons : String) : Option State :=
  match s.ops[i]? with
  | some (.rollback (.mark target head new)) =>
    some ((s.close (·.id = head) (setStatus .rolledBack)).goto i
      (match new with
        | some new => .rollback (.note target new)
        | none => .done))
  | some (.rollback (.note target new)) =>
    some ((s.update (·.id = new)
      fun r => { r with notes := some ("Rollback to release " ++ target.id) }).goto i .done)
  | some (.gate (.demote r todo)) =>
    some ((s.close (fun r' => r'.stack = r.stack && r'.status = .healthy && r'.id ≠ r.id)
      (setStatus .superseded)).goto i (.gate (.promote r todo)))
  | some (.gate (.promote r todo)) =>
    some ((s.update (·.id = r.id) (setStatus .healthy)).goto i (.gate (.next todo)))
  | some (.gate (.fail r todo)) =>
    some ((s.update (·.id = r.id) fun r =>
      { r with status := .failed, notes := some ("Health gate failed: " ++ reasons) }).goto i
        (.gate (.next todo)))
  | some (.gate (.abandon r todo previous)) =>
    some ({ s.close (·.id = r.id) fun r => { r with
          status := .rolledBack, notes := some ("Health gate failed: " ++ reasons) } with
        abandoned := (r.id, previous) :: s.abandoned }.goto i
      (.gate (.redeploy r todo previous ⟨r.stack, previous.composeSource, .plan⟩)))
  | some (.gate (.note r todo previous new)) =>
    some ((s.update (·.id = new) fun r' => { r' with
        notes := some ("Automatic rollback to release " ++ previous.id ++
          " (failed gate on " ++ r.id ++ ")") }).goto i (.gate (.next todo)))
  | _ => none

def step (s : State) : Move → Option State
  | .deploy stack composeSource =>
    some { s with ops := s.ops ++ [.deploy ⟨stack, composeSource, .plan⟩] }
  | .rollback releaseId => some { s with ops := s.ops ++ [.rollback (.target releaseId)] }
  | .tick =>
    -- a tick does not overlap a slow one
    if s.ops.any (fun op => op matches .gate _) then none
    else some { s with ops := s.ops ++ [.gate .list] }
  | .found i row => s.find i row
  | .listed i todo =>
    match s.ops[i]? with
    | some (.gate .list) => if IsTodo s.rows todo then some (s.goto i (.gate (.next todo)))
      else none
    | _ => none
  | .judge i =>
    match s.ops[i]? with
    | some (.gate (.next [])) => some (s.goto i .done)
    | some (.gate (.next (r :: todo))) =>
      if s.now - r.createdAt < (gateOf r.healthGateJson).windowSec * 1000 then
        some (s.goto i (.gate (.next todo)))
      else some (s.goto i (.gate (.summary r todo (s.now - r.createdAt))))
    | _ => none
  | .summarized i health =>
    match s.ops[i]? with
    | some (.gate (.summary r todo elapsedMs)) =>
      some (s.goto i (.gate (decide r todo elapsedMs health)))
    | _ => none
  | .alarmed i reached =>
    match s.ops[i]? with
    | some (.gate (.alarm r todo)) =>
      some (s.goto i (.gate
        (if reached = false then .next todo
        else if (gateOf r.healthGateJson).autoRollback then .previous r todo
        else .fail r todo)))
    | _ => none
  | .planned i gate services =>
    match s.ops[i]?.bind fun op => op.deploy?.map (op, ·) with
    | some (op, ⟨stack, compose, .plan⟩) =>
      some (s.goto i (op.withDeploy ⟨stack, compose, .dispatch gate services⟩))
    | _ => none
  | .dispatched i =>
    match s.ops[i]?.bind fun op => op.deploy?.map (op, ·) with
    | some (op, ⟨stack, compose, .dispatch gate (left + 1)⟩) =>
      some (s.dispatch i op ⟨stack, compose, .dispatch gate (left + 1)⟩ gate left)
    | some (op, ⟨stack, compose, .dispatch gate 0⟩) =>
      some (s.dispatchedAll i op ⟨stack, compose, .dispatch gate 0⟩ gate)
    | _ => none
  | .deployFails i =>
    match s.ops[i]?.bind fun op => op.deploy?.map (op, ·) with
    | some (op, ⟨_, _, .plan⟩) | some (op, ⟨_, _, .dispatch _ _⟩) => some (s.goto i op.threw)
    | _ => none
  | .superseded i =>
    match s.ops[i]?.bind fun op => op.deploy?.map (op, ·) with
    | some (op, ⟨stack, compose, .supersede gate⟩) =>
      some ((s.close (fun r => r.stack = stack && r.status = .deploying)
        (setStatus .superseded)).goto i (op.withDeploy ⟨stack, compose, .create gate⟩))
    | _ => none
  | .created i id =>
    match s.ops[i]?.bind fun op => op.deploy?.map (op, ·) with
    | some (op, ⟨stack, compose, .create gate⟩) =>
      if s.rows.any (·.id = id) then none
      else some (s.create i op ⟨stack, compose, .create gate⟩ gate id)
    | _ => none
  | .recordFails i =>
    -- `deployFromCompose` goes on without a release
    match s.ops[i]?.bind fun op => op.deploy?.map (op, ·) with
    | some (op, ⟨_, _, .supersede _⟩) | some (op, ⟨_, _, .create _⟩) =>
      some (s.goto i (op.returned none))
    | _ => none
  | .written i reasons => s.write i reasons
  | .stop => some { s with ops := [] }
  | .wait ms => some { s with now := s.now + ms }

end State

end Releases
