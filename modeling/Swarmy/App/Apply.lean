import Swarmy.App.Plan
import Swarmy.Coop.Kill

/-!
# The ledger, the live app and the executor

`live.ts` and `apply.ts` of the apps service.  The ledger is what swarmy has
applied; what exists is on the cluster, and `readLiveApp` intersects the two.
`applyPlan` is a program over the executor's port: each operation of the port is a
call, which may throw.  The first that does stops every later phase.

A ledger's routes are kept under their own key and its services' applied specs under
their own name; a `Record` is a list of entries with different keys.
-/

namespace Swarmy.App

open Coop AList

/-! ## The ledger -/

structure LedgerService where
  sig : String
  buildKey : Option String
  image : String
  volumes : List String
  applied : Option DesiredService

structure LedgerResource where
  resource : DesiredResource
  bucketId : Option String

structure LedgerJob where
  sig : String
  jobId : String

/-- A `Record` with values in `α`. -/
abbrev Record (α : Type) := AList fun _ : String => α

/-- Swarmy's record of what it has applied for one environment of an app.  A service's
applied spec is that service's, and a route is kept under its own key. -/
structure AppLedger where
  services : Record LedgerService
  resources : Record LedgerResource
  routes : Record LiveRoute
  jobs : Record LedgerJob
  connect : List String
  /-- Attachments done per service. -/
  attached : Record (List String)
  services_keyed : ∀ n e, services.lookup n = some e → ∀ s, e.applied = some s → s.name = n
  routes_keyed : ∀ k r, routes.lookup k = some r → r.key = k

def emptyLedger : AppLedger where
  services := ∅
  resources := ∅
  routes := ∅
  jobs := ∅
  connect := []
  attached := ∅
  services_keyed _ _ h := by cases h
  routes_keyed _ _ h := by cases h

/-- What an operation says about what it did. -/
structure OpResult where
  image : Option String
  jobId : Option String
  bucketId : Option String

def noResult : OpResult := ⟨none, none, none⟩

section

variable {α : Type} {P : String → α → Prop} {xs : Record α}

/-- What holds of every entry still holds with another that has it. -/
theorem forall_lookup_insert {k : String} {v : α} (hv : P k v)
    (h : ∀ n e, xs.lookup n = some e → P n e) :
    ∀ n e, (xs.insert k v).lookup n = some e → P n e := by
  intro n e hn
  by_cases hk : n = k
  · subst hk
    rw [lookup_insert] at hn
    exact Option.some.inj hn ▸ hv
  · rw [lookup_insert_ne hk] at hn
    exact h n e hn

theorem forall_lookup_erase {k : String} (h : ∀ n e, xs.lookup n = some e → P n e) :
    ∀ n e, (xs.erase k).lookup n = some e → P n e := by
  intro n e hn
  by_cases hk : n = k
  · rw [hk, lookup_erase] at hn
    cases hn
  · rw [lookup_erase_ne hk] at hn
    exact h n e hn

end

namespace AppLedger

variable (ledger : AppLedger)

def setService (s : DesiredService) (image : String) : AppLedger :=
  { ledger with
    services := ledger.services.insert s.name
      { sig := s.sig, buildKey := s.source.buildKey, image, volumes := s.volumes
        applied := some s }
    services_keyed := forall_lookup_insert (fun _ h => congrArg _ (Option.some.inj h).symm)
      ledger.services_keyed }

def dropService (name : String) : AppLedger :=
  { ledger with
    services := ledger.services.erase name
    attached := ledger.attached.erase name
    services_keyed := forall_lookup_erase ledger.services_keyed }

def setResource (r : DesiredResource) (bucketId : Option String) : AppLedger :=
  { ledger with resources := ledger.resources.insert r.name ⟨r, bucketId⟩ }

def setRoute (r : DesiredRoute) : AppLedger :=
  { ledger with
    routes := ledger.routes.insert r.key ⟨r.addr, r.service, r.sig⟩
    routes_keyed := forall_lookup_insert rfl ledger.routes_keyed }

def dropRoute (addr : Address) : AppLedger :=
  { ledger with
    routes := ledger.routes.erase addr.key
    routes_keyed := forall_lookup_erase ledger.routes_keyed }

end AppLedger

/-- Folds one successful action into the ledger; an update keeps the id of a bucket. -/
def ledgerAfter (ledger : AppLedger) (action : Action) (result : OpResult) : AppLedger :=
  match action with
  | .resourceCreate r => ledger.setResource r result.bucketId
  | .resourceUpdate r =>
    ledger.setResource r
      (result.bucketId.orElse fun _ => (ledger.resources.lookup r.name).bind (·.bucketId))
  | .resourceDelete name _ => { ledger with resources := ledger.resources.erase name }
  | .serviceDeploy _ image s =>
    ledger.setService s
      (result.image.getD (match image with | .image i => i | .fromBuild _ => ""))
  | .serviceRemove name => ledger.dropService name
  | .routeAdd r | .routeUpdate r => ledger.setRoute r
  | .routeRemove addr => ledger.dropRoute addr
  | .jobCreate j | .jobUpdate j =>
    { ledger with
      jobs := ledger.jobs.insert j.name
        ⟨j.sig, (result.jobId.orElse fun _ => (ledger.jobs.lookup j.name).map (·.jobId)).getD ""⟩ }
  | .jobRemove name => { ledger with jobs := ledger.jobs.erase name }
  | .linkAdd peer =>
    { ledger with connect := (Js.unique (ledger.connect ++ [peer])).insertionSort (· ≤ ·) }
  | .linkRemove peer => { ledger with connect := ledger.connect.filter (· ≠ peer) }
  | .build _ _ => ledger

/-! ## The cluster -/

/-- A route on a service's label, with what a git app sets of it; `path` is empty where
the label has none. -/
structure Route where
  host : String
  path : String
  port : Nat
  stripPrefix : Bool
  protection : Option String
  /-- "Require login", an operator's toggle. -/
  access : Bool

/-- A swarm service: its image, the labels the apps service reads, and the variables
attached to it. -/
structure SwarmService where
  image : String
  /-- `swarmy.app.stack`. -/
  appStack : Option String
  /-- `swarmy.app.service`. -/
  appService : Option String
  /-- `swarmy.app.sig`. -/
  appSig : Option String
  /-- `swarmy.app.build`. -/
  appBuild : Option String
  /-- `swarmy.ingress.routes`. -/
  routes : List Route
  replicas : Nat
  env : List String

/-- A scheduled job of the stack, as the database has it. -/
structure JobRow where
  id : String
  name : String

/-- What exists: the services by their swarm names, and the stack's jobs. -/
structure Cluster where
  services : Record SwarmService
  jobs : List JobRow

/-- `<stack>_<name>`. -/
def svcName (stack name : String) : String := stack ++ "_" ++ name

def primaryServiceName (stack cluster : String) : String := svcName stack cluster ++ "-primary"

def replicaServiceName (stack cluster : String) : String := svcName stack cluster ++ "-replica"

def cachePrimaryName (stack cluster : String) : String := svcName stack cluster ++ "-cache"

def cacheReplicaName (stack cluster : String) : String := svcName stack cluster ++ "-cache-replica"

def cacheSentinelName (stack cluster : String) : String :=
  svcName stack cluster ++ "-cache-sentinel"

def searchServiceName (stack name : String) : String := svcName stack name ++ "-search"

def vectorServiceName (stack name : String) : String := svcName stack name ++ "-vector"

/-- The swarm service that proves a managed resource exists. -/
def resourceServiceName (stack : String) (r : DesiredResource) : Option String :=
  match r.spec with
  | .postgres .. => some (primaryServiceName stack r.name)
  | .cache .. => some (cachePrimaryName stack r.name)
  | .search _ => some (searchServiceName stack r.name)
  | .vector .pgvector _ => none
  | .vector .qdrant _ => some (vectorServiceName stack r.name)
  | .bucket .. => none

/-- Does the live service's label serve host and path? -/
def routeIsLive (svc : Option SwarmService) (addr : Address) : Bool :=
  svc.any fun s => s.routes.any fun r =>
    Js.toLowerCase r.host == addr.host && r.path == (if addr.path = "/" then "" else addr.path)

/-- A name without the first occurrence of a text. -/
def removeFirst (text : List Char) : List Char → List Char
  | [] => []
  | c :: cs => if text.isPrefixOf (c :: cs) then (c :: cs).drop text.length
      else c :: removeFirst text cs

/-- The app's name for one of its services. -/
def shortName (stack name : String) (s : SwarmService) : String :=
  s.appService.getD (.ofList (removeFirst (stack ++ "_").toList name.toList))

/-- The app's name for one of the stack's jobs, as the caller of `readLiveApp` reads it. -/
def jobName (stack : String) (row : JobRow) : String :=
  if Js.startsWith row.name (stack ++ "-") then Js.slice row.name (stack ++ "-").length
  else row.name

section ReadLiveApp

variable (stack : String) (cluster : Cluster) (ledger : AppLedger)
  (desiredResources : List DesiredResource)

/-- The services that carry the app's label. -/
def readServices : List LiveService :=
  (cluster.services.entries.filter fun e => e.2.appStack = some stack).map fun e =>
    let short := shortName stack e.1 e.2
    let led := ledger.services.lookup short
    { name := short
      image := e.2.image
      sig := e.2.appSig.orElse fun _ => led.map (·.sig)
      buildKey := e.2.appBuild.orElse fun _ => led.bind (·.buildKey)
      volumes := (led.map (·.volumes)).getD [] }

/-- Docker has the resource's service, if it has one of its own. -/
def resourceExists (r : DesiredResource) : Bool :=
  (resourceServiceName stack r).all fun svc => (cluster.services.lookup svc).isSome

/-- The ledger's resources that exist. -/
def ledgerResources : List LiveResource :=
  (ledger.resources.entries.filter fun e => resourceExists stack cluster e.2.resource).map fun e =>
    { name := e.1
      type := e.2.resource.type
      sig := some e.2.resource.sig
      applied := some e.2.resource }

/-- Desired resources that exist though the ledger does not know them. -/
def adopted : List LiveResource :=
  (desiredResources.filter fun d =>
    !((ledgerResources stack cluster ledger).map (·.name)).contains d.name &&
      (resourceServiceName stack d).any fun svc =>
        (cluster.services.lookup svc).isSome).map fun d =>
    { name := d.name, type := d.type, sig := none, applied := none }

/-- What is live of an app. -/
def readLiveApp : LiveApp where
  services := (readServices stack cluster ledger).insertionSort fun a b => a.name ≤ b.name
  resources := ledgerResources stack cluster ledger ++ adopted stack cluster ledger desiredResources
  routes := (ledger.routes.entries.map (·.2)).filter fun r =>
    routeIsLive (cluster.services.lookup (svcName stack r.service)) r.addr
  jobs := (ledger.jobs.entries.filter fun e =>
    (cluster.jobs.map (jobName stack)).contains e.1).map fun e => ⟨e.1, e.2.sig⟩
  connect := ledger.connect

end ReadLiveApp

/-! ## The executor's port -/

/-- A credential to wire into a service: its id for the ledger, and the variable it
shows in where it shows in one. -/
structure Attachment where
  service : String
  key : String
  envVar : Option String

/-- Does the live service prove this attachment is in place?  `none` when nothing can be
told. -/
def attachmentLive (a : Attachment) (liveEnv : Option (List String)) : Option Bool :=
  liveEnv.bind fun env => a.envVar.map fun v => env.contains v

/-- A service of the compose file the executor deploys. -/
structure ComposeService where
  name : String
  image : String
  sig : String
  buildKey : Option String
  replicas : Nat

/-- The operations of the port. -/
inductive AppOp where
  | createResource (r : DesiredResource)
  | updateResource (r : DesiredResource) (before : Option DesiredResource)
  | deleteResource (name : String) (type : ResourceType) (before : Option LedgerResource)
  | build (b : BuildSource)
  | deploy (compose : List ComposeService)
  | attach (a : Attachment)
  | runRelease (service image : String) (command : List String)
  | setRoutes (service : String) (routes : List DesiredRoute)
  | upsertJob (job : DesiredJob) (existingId : Option String)
  | removeJob (jobId : String)
  | link (peer : String)
  | unlink (peer : String)
  | removeService (name : String)

/-- What an operation returns: the id of a bucket, a digest, the id of a job. -/
def AppOp.Ret : AppOp → Type
  | .createResource _ => Option String
  | .build _ => String
  | .upsertJob _ _ => String
  | _ => Unit

/-- Every operation may throw. -/
def appSig : Sig where
  Call := AppOp
  Ans op := Except String op.Ret

abbrev AppProg := Prog appSig Cluster String

/-- Await an operation. -/
def perform (op : AppOp) : AppProg op.Ret := .call op Prog.ofExcept

/-! ## Running a plan -/

inductive Outcome where
  | done | held | failed | skipped

/-- Where a run has got to. -/
structure Progress where
  ledger : AppLedger
  outcomes : Record Outcome
  /-- The first error. -/
  failed : Option String
  /-- The images built, by their key. -/
  built : Record String

namespace Progress

def mark (p : Progress) (o : Outcome) (a : PlanAction) : Progress :=
  { p with outcomes := p.outcomes.insert a.action.id o }

def record (p : Progress) (a : PlanAction) (result : OpResult) : Progress :=
  { p with ledger := ledgerAfter p.ledger a.action result }

/-- An attachment is in place. -/
def attach (p : Progress) (a : Attachment) : Progress :=
  { p with
    ledger := { p.ledger with
      attached := p.ledger.attached.insert a.service
        (Js.unique (((p.ledger.attached.lookup a.service).getD []) ++ [a.key])) } }

end Progress

/-- Confirmed actions run, and automatic ones. -/
def runnable (confirmed : List String) (a : PlanAction) : Bool :=
  a.gate = .auto || (a.gate = .confirm && confirmed.contains a.action.id)

/-- Unless a step has failed before: take one, and remember its error. -/
def attempt {α : Type} (fn : AppProg α) (ok : α → Progress → Progress) (p : Progress) :
    AppProg Progress :=
  if p.failed.isSome then .ret p
  else (fn.bind fun a => .ret (ok a p)).handle fun e => .ret { p with failed := some e }

section Run

variable (confirmed : List String)

/-- What a step that was not skipped leaves for its action. -/
def settled (a : PlanAction) (p : Progress) : Progress :=
  p.mark (if p.failed.isSome then .failed else .done) a

/-- Runs one action, if it is runnable and nothing has failed. -/
def run {α : Type} (a : PlanAction) (fn : AppProg α) (ok : α → Progress → Progress)
    (p : Progress) : AppProg Progress :=
  if runnable confirmed a = false then .ret p
  else if p.failed.isSome then .ret (p.mark .skipped a)
  else (attempt fn ok p).bind fun p' => .ret (settled a p')

/-! ### Resources and builds -/

def resourceStep (a : PlanAction) (p : Progress) : AppProg Progress :=
  match a.action with
  | .resourceCreate r =>
    run confirmed a (perform (.createResource r))
      (fun bucketId p => p.record a { noResult with bucketId }) p
  | .resourceUpdate r =>
    run confirmed a
      (perform (.updateResource r ((p.ledger.resources.lookup r.name).map (·.resource))))
      (fun _ p => p.record a noResult) p
  | _ => .ret p

def buildStep (a : PlanAction) (p : Progress) : AppProg Progress :=
  match a.action with
  | .build b _ =>
    run confirmed a (perform (.build b))
      (fun image p => { p with built := p.built.insert b.key image }) p
  | _ => .ret p

/-! ### One compose deploy -/

/-- What the compile of a service's environment asks for: credentials to attach, and
errors. -/
structure Wiring where
  attachments : List Attachment
  issues : List String

/-- A service of the rollout, and the image for the desired service it stands for. -/
structure RolloutService where
  name : String
  service : DesiredService
  image : Option String

variable (desired : DesiredApp) (plan : Plan) (wire : DesiredService → Wiring)

def isDeployOf (name : String) (a : PlanAction) : Bool :=
  match a.action with
  | .serviceDeploy _ _ s => s.name = name
  | _ => false

/-- The deploys that run now. -/
def deployNow : List PlanAction :=
  plan.actions.filter fun a =>
    match a.action with
    | .serviceDeploy _ _ _ => runnable confirmed a
    | _ => false

/-- The image a deploy action asks for. -/
def actionImage (built : Record String) (a : PlanAction) : Option String :=
  match a.action with
  | .serviceDeploy _ (.fromBuild key) _ => built.lookup key
  | .serviceDeploy _ (.image i) _ => some i
  | _ => none

/-- The image of a service without an action of its own. -/
def standingImage (ledger : AppLedger) (liveImage : Option String) (s : DesiredService) :
    Option String :=
  (liveImage.orElse fun _ => (ledger.services.lookup s.name).map (·.image)).orElse fun _ =>
    match s.source with
    | .image i => some i
    | .build _ => none

/-- A service's place in the rollout: changed ones get their new spec, a held one keeps
the last applied one, and a held new one stays out. -/
def rolloutOf (p : Progress) (cluster : Cluster) (s : DesiredService) : Option RolloutService :=
  let liveImage := (cluster.services.lookup (svcName desired.stack s.name)).map (·.image)
  match (deployNow confirmed plan).find? (isDeployOf s.name) with
  | some a => some ⟨s.name, s, actionImage p.built a⟩
  | none =>
    if plan.actions.any (isDeployOf s.name) then
      (p.ledger.services.lookup s.name).bind fun prev =>
        prev.applied.map fun applied => ⟨s.name, applied, some (liveImage.getD prev.image)⟩
    else some ⟨s.name, s, standingImage p.ledger liveImage s⟩

/-- The rollout and the images, by the service they are for. -/
def rollout (p : Progress) (cluster : Cluster) : List RolloutService :=
  desired.services.filterMap (rolloutOf confirmed desired plan p cluster)

/-- The image of a service; an empty one is none. -/
def imageOf (ro : List RolloutService) (name : String) : Option String :=
  ((ro.reverse.find? (·.name = name)).bind (·.image)).filter (· ≠ "")

/-- The services to compile, each with its image. -/
def compiled (ro : List RolloutService) : List (DesiredService × String) :=
  ro.filterMap fun x => (imageOf ro x.service.name).map fun i => (x.service, i)

/-- What keeps the compose from being deployed. -/
def compileIssues (ro : List RolloutService) : List String :=
  ((ro.filter fun x => (imageOf ro x.service.name).isNone).map fun x =>
    "services." ++ x.service.name ++ ": no image for " ++ x.service.name ++ " (build missing)") ++
  (compiled ro).flatMap fun x => (wire x.1).issues

def compileAttachments (ro : List RolloutService) : List Attachment :=
  (compiled ro).flatMap fun x => (wire x.1).attachments

/-- The compose; the services named start without replicas. -/
def compose (ro : List RolloutService) (withoutReplicas : List String) : List ComposeService :=
  (compiled ro).map fun x =>
    { name := x.1.name
      image := x.2
      sig := x.1.sig
      buildKey := x.1.source.buildKey
      replicas := if withoutReplicas.contains x.1.name then 0 else x.1.replicas }

/-- The release command of a deploy. -/
def releaseOf (op : DeployOp) (a : PlanAction) : Option (String × List String) :=
  match a.action with
  | .serviceDeploy op' _ s =>
    if op' = op then (s.release.filter (· ≠ [])).map fun cmd => (s.name, cmd) else none
  | _ => none

def releaseStep (ro : List RolloutService) (r : String × List String) (p : Progress) :
    AppProg Progress :=
  attempt (perform (.runRelease r.1 ((imageOf ro r.1).getD "") r.2)) (fun _ p => p) p

def deployOp (c : List ComposeService) (p : Progress) : AppProg Progress :=
  attempt (perform (.deploy c)) (fun _ p => p) p

/-- The ledger says so, and the live environment does not prove otherwise. -/
def alreadyAttached (p : Progress) (a : Attachment) (liveEnv : Option (List String)) : Bool :=
  ((p.ledger.attached.lookup a.service).getD []).contains a.key &&
    attachmentLive a liveEnv ≠ some false

/-- Wires a credential the compose must never carry, once. -/
def attachStep (a : Attachment) (p : Progress) : AppProg Progress :=
  .act id fun cluster =>
    if alreadyAttached p a
        ((cluster.services.lookup (svcName desired.stack a.service)).map (·.env)) then .ret p
    else attempt (perform (.attach a)) (fun _ p => p.attach a) p

/-- The second deploy, which gives the new services their replicas. -/
def scaleUp (c : List ComposeService) (first : List (String × List String)) (p : Progress) :
    AppProg Progress :=
  if first.isEmpty then .ret p else deployOp c p

/-- Releases of updates, the deploy, the attachments, releases of new services and their
scale-up. -/
def deploySteps (ro : List RolloutService) (p : Progress) : AppProg Progress :=
  let now := deployNow confirmed plan
  let first := now.filterMap (releaseOf .create)
  (Prog.fold (releaseStep ro) (now.filterMap (releaseOf .update)) p).bind fun p =>
  (deployOp (compose ro (first.map (·.1))) p).bind fun p =>
  (Prog.fold (attachStep desired) (compileAttachments wire ro) p).bind fun p =>
  (Prog.fold (releaseStep ro) first p).bind (scaleUp (compose ro []) first)

/-- The deploy step, unless the compile has found an error. -/
def deployStep (ro : List RolloutService) (p : Progress) : AppProg Progress :=
  if (compileIssues wire ro).isEmpty then deploySteps confirmed desired plan wire ro p
  else .ret { p with failed := some ("; ".intercalate (compileIssues wire ro)) }

/-- The deployed services, once the step is over. -/
def deployed (ro : List RolloutService) (p : Progress) (a : PlanAction) : Progress :=
  match a.action with
  | .serviceDeploy _ _ s =>
    settled a (if p.failed.isSome then p
      else p.record a { noResult with image := imageOf ro s.name })
  | _ => p

def deployPhase (p : Progress) : AppProg Progress :=
  .act id fun cluster =>
    if p.failed.isSome || (deployNow confirmed plan).isEmpty then .ret p
    else
      let ro := rollout confirmed desired plan p cluster
      (deployStep confirmed desired plan wire ro p).bind fun p =>
        .ret ((deployNow confirmed plan).foldl (deployed ro) p)

/-! ### Routes -/

/-- The service a route action belongs to. -/
def routeService (ledger : AppLedger) (a : PlanAction) : Option String :=
  match a.action with
  | .routeAdd r | .routeUpdate r => some r.service
  | .routeRemove addr => (ledger.routes.lookup addr.key).map (·.service)
  | _ => none

/-- The route actions of a service. -/
def routeActs (ledger : AppLedger) (svc : String) : List PlanAction :=
  plan.actions.filter fun a => routeService ledger a = some svc

/-- The services with a route action, each once. -/
def touched (ledger : AppLedger) : List String :=
  Js.unique (plan.actions.filterMap (routeService ledger))

def isDesired (svc : String) : Bool := desired.services.any (·.name = svc)

def desiredRoutes (svc : String) : List DesiredRoute := desired.routes.filter (·.service = svc)

/-- The whole route set of a service, if it is still wanted. -/
def setRoutesOf (svc : String) : AppProg Unit :=
  if isDesired desired svc then perform (.setRoutes svc (desiredRoutes desired svc)) else .ret ()

/-- What the actions of a service come to when they cannot all run. -/
def waiting (acts : List PlanAction) (p : Progress) : Progress :=
  (acts.filter (runnable confirmed)).foldl
    (fun q a => q.mark (if p.failed.isSome then .skipped else .held) a) p

/-- The route actions of a service run together or not at all. -/
def routeStep (acts : String → List PlanAction) (svc : String) (p : Progress) :
    AppProg Progress :=
  if p.failed.isSome || (acts svc).any (fun a => !runnable confirmed a) then
    .ret (waiting confirmed (acts svc) p)
  else
    (attempt (setRoutesOf desired svc)
      (fun _ p => (acts svc).foldl (fun q a => q.record a noResult) p) p).bind fun p =>
        .ret ((acts svc).foldl (fun q a => settled a q) p)

def routePhase (p : Progress) : AppProg Progress :=
  Prog.fold (routeStep confirmed desired (routeActs plan p.ledger)) (touched plan p.ledger) p

/-! ### Jobs, links and removals -/

def jobStep (a : PlanAction) (p : Progress) : AppProg Progress :=
  match a.action with
  | .jobCreate j | .jobUpdate j =>
    run confirmed a (perform (.upsertJob j ((p.ledger.jobs.lookup j.name).map (·.jobId))))
      (fun jobId p => p.record a { noResult with jobId := some jobId }) p
  | .linkAdd peer => run confirmed a (perform (.link peer)) (fun _ p => p.record a noResult) p
  | _ => .ret p

def removeJobOf (jobId : Option String) : AppProg Unit :=
  match jobId.filter (· ≠ "") with
  | some id => perform (.removeJob id)
  | none => .ret ()

def removalStep (a : PlanAction) (p : Progress) : AppProg Progress :=
  match a.action with
  | .jobRemove name =>
    run confirmed a (removeJobOf ((p.ledger.jobs.lookup name).map (·.jobId)))
      (fun _ p => p.record a noResult) p
  | .linkRemove peer => run confirmed a (perform (.unlink peer)) (fun _ p => p.record a noResult) p
  | .serviceRemove name =>
    run confirmed a (perform (.removeService name)) (fun _ p => p.record a noResult) p
  | _ => .ret p

def deleteStep (a : PlanAction) (p : Progress) : AppProg Progress :=
  match a.action with
  | .resourceDelete name type =>
    run confirmed a (perform (.deleteResource name type (p.ledger.resources.lookup name)))
      (fun _ p => p.record a noResult) p
  | _ => .ret p

/-! ### The run -/

/-- Every action that may not run is held. -/
def start (ledger : AppLedger) : Progress :=
  (plan.actions.filter fun a => !runnable confirmed a).foldl (Progress.mark · .held)
    { ledger, outcomes := ∅, failed := none, built := ∅ }

/-- An action nothing was said of has been skipped. -/
def finished (p : Progress) : Progress :=
  (plan.actions.filter fun a => (p.outcomes.lookup a.action.id).isNone).foldl
    (Progress.mark · .skipped) p

/-- Runs a plan. -/
def applyPlan (ledger : AppLedger) : AppProg Progress :=
  (Prog.fold (resourceStep confirmed) plan.actions (start confirmed plan ledger)).bind fun p =>
  (Prog.fold (buildStep confirmed) plan.actions p).bind fun p =>
  (deployPhase confirmed desired plan wire p).bind fun p =>
  (routePhase confirmed desired plan p).bind fun p =>
  (Prog.fold (jobStep confirmed) plan.actions p).bind fun p =>
  (Prog.fold (removalStep confirmed) plan.actions p).bind fun p =>
  (Prog.fold (deleteStep confirmed) plan.actions p).bind fun p => .ret (finished plan p)

end Run

end Swarmy.App
