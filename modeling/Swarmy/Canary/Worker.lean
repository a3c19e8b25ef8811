import Swarmy.Canary.Spec
import Swarmy.Keyed.Cells
import Mathlib.Data.Rat.Floor

/-!
# The canary watcher

Each tick judges the canaries of the inventory it was given, and promotes them or rolls them back.
A judgement works with the labels of that inventory to its end, while anyone may change the
services; each of its calls may fail, before or after it took effect.
-/

namespace Canary

open Js

def CANARY_OF_LABEL : String := "swarmy.canary.of"

def CANARY_PARAMS_LABEL : String := "swarmy.canary.params"

def INGRESS_ROUTES_LABEL : String := "swarmy.ingress.routes"

def STACK_LABEL : String := "com.docker.stack.namespace"

/-- A canary whose tasks are all dead counts as down after so many minutes. -/
def DOWN_GRACE_MIN : Rat := 2

/-- The functions of JavaScript on texts and numbers. -/
structure Lib where
  /-- `JSON.parse`, `none` where it throws. -/
  parse : String → Option Value
  /-- `JSON.stringify`. -/
  stringify : Value → String
  /-- `Number(v)`, `none` where it is not finite. -/
  number : Value → Option Rat
  /-- `Date.parse`, `none` for `NaN`. -/
  dateParse : String → Option Int

variable (lib : Lib)

/-- `Math.round`. -/
def round (x : Rat) : Rat := ⌊x + 1 / 2⌋

/-! ## Labels -/

structure CanaryParams where
  trafficPct : Rat
  durationMin : Rat
  rollbackOnErrorRatePct : Option Rat
  stableImage : String
  startedAt : String
deriving DecidableEq

def numberOf (v : Option Value) : Option Rat := v.bind lib.number

def parseCanaryParams (raw : Option String) : Option CanaryParams := do
  let raw ← raw
  if raw = "" then none
  else
    let v ← lib.parse raw
    let trafficPct ← numberOf lib (v.field "trafficPct")
    let durationMin ← numberOf lib (v.field "durationMin")
    let startedAt ← asStr (v.field "startedAt")
    let _ ← lib.dateParse startedAt
    if trafficPct ≤ 0 ∨ 100 < trafficPct ∨ durationMin ≤ 0 then none
    else some ⟨round trafficPct, round durationMin,
      (numberOf lib (v.field "rollbackOnErrorRatePct")).filter fun rb => 0 < rb,
      (asStr (v.field "stableImage")).getD "", startedAt⟩

/-- An object of the routes' list, or a list. -/
abbrev LabelRoute := Value

def isObject : Value → Bool
  | .obj _ | .arr _ => true
  | _ => false

def parseRoutesLabel (raw : Option String) : List LabelRoute :=
  match raw.bind fun raw => if raw = "" then none else lib.parse raw with
  | some (.arr elems) => elems.filter isObject
  | _ => []

def truthy : Option Value → Bool
  | none | some .null => false
  | some (.bool b) => b
  | some (.num x) => x ≠ .int 0 && x ≠ .other "NaN"
  | some (.str s) => s ≠ ""
  | some (.arr _) | some (.obj _) => true

def LabelRoute.canary (r : LabelRoute) : Option Value := Value.field r "canary"

/-- Is a part of the route's traffic sent to the service? -/
def LabelRoute.Names (r : LabelRoute) (service : String) : Prop :=
  ((LabelRoute.canary r).bind fun c => c.field "service") = some (.str service)

/-- `({ canary: _drop, ...rest }) => rest`; of a list, `rest` has the elements by their places. -/
def stripRoute : LabelRoute → LabelRoute
  | .obj fields => .obj (fields.filter fun field => field.1 ≠ "canary")
  | .arr elems => .obj (elems.mapIdx fun i elem => (toString i, elem))
  | v => v

def stripCanaryFromRoutes (routes : List LabelRoute) : List LabelRoute := routes.map stripRoute

/-! ## Decision -/

/-- A service as the hub's inventory has it. -/
structure ServiceInfo where
  name : String
  image : String
  labels : Record
  networks : List String
  desiredReplicas : Option Nat
  runningReplicas : Nat

def errorRatePctFor (rates : Option (List (String × Rat))) (stack : Option String) (name : String) :
    Option Rat := do
  let rates ← rates
  let short := match stack with
    | some stack => if stack ≠ "" ∧
      startsWith name (stack ++ "_") then [slice name (stack.length + 1)] else []
    | none => []
  let rate ← (name :: short).findSome? fun c => rates.lookup c
  some (round (rate * 10000) / 100)

inductive CanaryDecision where
  | wait
  | promote
  | rollback

def decideCanary (elapsedMin durationMin : Rat)
    (rollbackOnErrorRatePct canaryErrorRatePct : Option Rat)
    (canaryDown : Bool) : CanaryDecision :=
  if canaryDown then .rollback
  else
    let breached := match rollbackOnErrorRatePct, canaryErrorRatePct with
      | some ceiling, some rate => decide (ceiling < rate)
      | _, _ => false
    if breached then .rollback
    else if durationMin ≤ elapsedMin then .promote
    else .wait

/-- What one judgement looks at, with the time in milliseconds. -/
structure Look where
  services : List ServiceInfo
  canary : ServiceInfo
  rates : Option (List (String × Rat))
  now : Int

namespace Look

variable (look : Look)

def params : Option CanaryParams :=
  parseCanaryParams lib (look.canary.labels.lookup CANARY_PARAMS_LABEL)

def stable : Option ServiceInfo :=
  look.services.find? fun s => some s.name = look.canary.labels.lookup CANARY_OF_LABEL

/-- The date of the parameters was checked when they were read. -/
def elapsedMin (params : CanaryParams) : Rat :=
  ((look.now - (lib.dateParse params.startedAt).getD 0 : Int) : Rat) / 60000

def errorRatePct : Option Rat :=
  errorRatePctFor look.rates (look.canary.labels.lookup STACK_LABEL) look.canary.name

/-- None of the tasks the canary should have is running. -/
def TasksDown : Prop := 0 < look.canary.desiredReplicas.getD 0 ∧ look.canary.runningReplicas = 0

instance : Decidable look.TasksDown := by unfold TasksDown; infer_instance

def decision (params : CanaryParams) : CanaryDecision :=
  decideCanary (look.elapsedMin lib params) params.durationMin params.rollbackOnErrorRatePct
    look.errorRatePct
    (decide look.TasksDown && decide (DOWN_GRACE_MIN ≤ look.elapsedMin lib params))

end Look

/-! ## Services and judgements -/

/-- A live service; `rest` is what else `Spec` has of it. -/
structure Service where
  labels : Record
  rest : Fields

/-- What `docker service inspect` prints. -/
def Service.inspect (name : String) (x : Service) : Value :=
  .obj [("Spec", .obj (("Name", .str name) :: ("Labels", .obj (x.labels.map fun l =>
    (l.1, .str l.2))) ::
    x.rest))]

/-- The call that a judgement makes next. -/
inductive Phase where
  | inspect
  | deploy (inspect : Option Value)
  | restore
  | remove
  | ended

structure Judgement where
  stable : ServiceInfo
  canary : ServiceInfo
  phase : Phase

/-- The routes of the inventory that the judgement has. -/
def Judgement.routes (j : Judgement) : List LabelRoute :=
  parseRoutesLabel lib (j.stable.labels.lookup INGRESS_ROUTES_LABEL)

/-- `restoreStableRoutes` makes no call when there is nothing to drop. -/
def Judgement.restore (j : Judgement) : Judgement :=
  if (j.routes lib).any fun r => truthy (LabelRoute.canary r) then { j with phase := .restore }
  else { j with phase := .remove }

structure State where
  live : String → Option Service
  judgements : List Judgement

/-- How a call ends: with its result, with an error after it took effect, or without effect. -/
inductive Outcome where
  | done
  | late
  | failed
deriving DecidableEq

/-- An agent adds labels of the shim to a service it deploys, and Docker the rest. -/
structure Answer where
  outcome : Outcome
  shim : Record
  rest : Fields

inductive Step where
  /-- Someone else creates, changes or removes a service. -/
  | change (name : String) (service : Option Service)
  /-- A turn of the tick's loop. -/
  | judge (look : Look)
  | call (i : Nat) (answer : Answer)

namespace State

def start (live : String → Option Service) : State := ⟨live, []⟩

variable (s : State)

def set (name : String) (service : Option Service) : State :=
  { s with live := Function.update s.live name service }

def put (i : Nat) (j : Judgement) : State := { s with judgements := s.judgements.set i j }

/-- The routes that a service has now. -/
def routes (name : String) : List LabelRoute :=
  parseRoutesLabel lib ((s.live name).bind fun x => x.labels.lookup INGRESS_ROUTES_LABEL)

def judge (look : Look) : State :=
  match look.stable, look.params lib with
  | some stable, some params =>
    match look.decision lib params with
    | .wait => s
    | .promote => { s with judgements := s.judgements ++ [⟨stable, look.canary, .inspect⟩] }
    | .rollback =>
      { s with judgements := s.judgements ++
        [Judgement.restore lib ⟨stable, look.canary, .restore⟩] }
  | _, _ => s

def isShimLabel (k : String) : Bool := k == SECRET_ENV_ARGV_LABEL || k == SECRET_ENV_FILE_LABEL

/-- `service.deploy`. -/
def deploy (spec : ServiceSpec) (answer : Answer) : State :=
  s.set spec.name (some ⟨(answer.shim.filter fun l => isShimLabel l.1) ++
    (spec.labels.getD []).filter (fun l => !isShimLabel l.1), answer.rest⟩)

/-- `service.updateLabels` with the routes of the inventory, stripped. -/
def restoreRoutes (j : Judgement) : State :=
  s.set j.stable.name ((s.live j.stable.name).map fun x => { x with
    labels := x.labels.set INGRESS_ROUTES_LABEL
      (lib.stringify (.arr (stripCanaryFromRoutes (j.routes lib)))) })

/-- The spec that the worker sends. -/
def specOf (j : Judgement) (inspect : Option Value) : Option ServiceSpec :=
  Worker.promoteSpecFrom inspect j.canary.image j.stable.networks

def call (i : Nat) (j : Judgement) (answer : Answer) : State :=
  match j.phase with
  | .inspect =>
    s.put i { j with
      phase := if answer.outcome = .done then
          .deploy ((s.live j.stable.name).map (Service.inspect j.stable.name))
        else .ended }
  | .deploy inspect =>
    match specOf j inspect with
    | none => s.put i { j with phase := .ended }
    | some spec =>
      (if answer.outcome ≠ .failed then s.deploy spec answer else s).put i
        (if answer.outcome = .done then j.restore lib else { j with phase := .ended })
  | .restore =>
    (if answer.outcome ≠ .failed then s.restoreRoutes lib j else s).put i
      { j with phase := if answer.outcome = .done then .remove else .ended }
  | .remove =>
    (if answer.outcome ≠ .failed then s.set j.canary.name none else s).put i
      { j with phase := .ended }
  | .ended => s

def step : Step → State
  | .change name service => s.set name service
  | .judge look => s.judge lib look
  | .call i answer =>
    match s.judgements[i]? with
    | some j => s.call lib i j answer
    | none => s

def run (s : State) : List Step → State
  | [] => s
  | e :: steps => run (s.step lib e) steps

end State

end Canary
