import Swarmy.App.Config

/-!
# The planner

`packages/app-config/src/plan.ts`: what an app should be and what it is, and the
ordered, gated actions from one to the other.  Of the desired units the model has
what the planner, the executor and the ledger read; a unit's signature is a value
of its own, as `toDesired` stamped it.  The texts for people (an action's reason,
the field-level changes) are left out.
-/

namespace Swarmy.App

/-! ## What an app should be -/

/-- The inputs of a build. -/
structure BuildSource where
  /-- Signature of the inputs: services sharing a key share one build. -/
  key : String
  context : String
  dockerfile : String
  /-- Changed paths under any of these trigger a rebuild. -/
  watch : List String
deriving DecidableEq

inductive Source where
  | build (b : BuildSource)
  | image (image : String)
deriving DecidableEq

/-- The key of a build; `none` for a pinned image. -/
def Source.buildKey : Source → Option String
  | .build b => some b.key
  | .image _ => none

structure DesiredService where
  name : String
  source : Source
  /-- Pre-deploy one-shot, run in the new image. -/
  release : Option (List String)
  replicas : Nat
  /-- Names of the volumes. -/
  volumes : List String
  sig : String
deriving DecidableEq

inductive PostgresHa where
  | single | primaryReplica | failover | geo | activeActive
deriving DecidableEq

/-- The place in `POSTGRES_HA`. -/
def haRank : PostgresHa → Nat
  | .single => 0
  | .primaryReplica => 1
  | .failover => 2
  | .geo => 3
  | .activeActive => 4

inductive VectorEngine where
  | qdrant | pgvector
deriving DecidableEq

inductive BucketAccess where
  | internal | mesh | publicRead
deriving DecidableEq

/-- What a resource is, by its type. -/
inductive ResourceSpec where
  | postgres (version : Nat) (ha : PostgresHa) (replicas : Nat) (database : String)
      (backups : Option (String × Nat))
  | cache (engine ha : String) (replicas memoryMb : Nat) (queue : Bool)
  | search (engine : String)
  | vector (engine : VectorEngine) (on : Option String)
  | bucket (access : BucketAccess) (quotaMb : Option Nat)
deriving DecidableEq

def ResourceSpec.type : ResourceSpec → ResourceType
  | .postgres .. => .postgres
  | .cache .. => .cache
  | .search .. => .search
  | .vector .. => .vector
  | .bucket .. => .bucket

structure DesiredResource where
  name : String
  spec : ResourceSpec
  sig : String
deriving DecidableEq

def DesiredResource.type (r : DesiredResource) : ResourceType := r.spec.type

/-- A host and a path in the shape a route of an app has. -/
structure Address where
  host : String
  path : String
  host_lower : Js.toLowerCase host = host
  host_slash : '/' ∉ host.toList
  path_slash : path.toList.head? = some '/'
deriving DecidableEq

/-- A route's key: its host and path in one text. -/
def Address.key (a : Address) : String := if a.path = "/" then a.host else a.host ++ a.path

/-- A route of the app; its service is one of the app's. -/
structure DesiredRoute where
  addr : Address
  service : String
  port : Nat
  stripPath : Bool
  /-- The edge protections, as JSON. -/
  protection : Option String
  sig : String
deriving DecidableEq

/-- What a key has behind the host. -/
def Address.tail (a : Address) : List Char := if a.path = "/" then [] else a.path.toList

theorem Address.key_toList (a : Address) : a.key.toList = a.host.toList ++ a.tail := by
  unfold Address.key Address.tail
  split <;> simp

/-- The host is what stands before the first slash of a key. -/
theorem Address.host_of_key (a : Address) : a.key.toList.takeWhile (· ≠ '/') = a.host.toList ∧
      a.key.toList.dropWhile (· ≠ '/') = a.tail := by
  have hall : ∀ c ∈ a.host.toList, decide (c ≠ '/') = true := fun c hc => by
    simpa using fun e : c = '/' => a.host_slash (e ▸ hc)
  have htail : a.tail = [] ∨ ∃ cs, a.tail = '/' :: cs := by
    unfold Address.tail
    split
    · exact .inl rfl
    · obtain ⟨cs, hcs⟩ := List.head?_eq_some_iff.mp a.path_slash
      exact .inr ⟨cs, hcs⟩
  rw [a.key_toList, List.takeWhile_append_of_pos hall, List.dropWhile_append_of_pos hall]
  rcases htail with h | ⟨cs, h⟩ <;> rw [h] <;> simp

/-- Addresses of one key are one address. -/
theorem Address.key_injective : Function.Injective Address.key := by
  intro a b h
  have hhost : a.host = b.host := by
    rw [← String.toList_inj, ← a.host_of_key.1, ← b.host_of_key.1, h]
  have htail : a.tail = b.tail := by rw [← a.host_of_key.2, ← b.host_of_key.2, h]
  have hpath : a.path = b.path := by
    unfold Address.tail at htail
    split at htail <;> split at htail
    · rename_i ha hb
      rw [ha, hb]
    · have := b.path_slash
      rw [← htail] at this
      cases this
    · have := a.path_slash
      rw [htail] at this
      cases this
    · exact String.toList_inj.mp htail
  obtain ⟨ha, pa, _, _, _⟩ := a
  obtain ⟨hb, pb, _, _, _⟩ := b
  obtain rfl : ha = hb := hhost
  obtain rfl : pa = pb := hpath
  rfl

def DesiredRoute.key (r : DesiredRoute) : String := r.addr.key

structure DesiredJob where
  name : String
  schedule : String
  sig : String
deriving DecidableEq

/-- What `toDesired` makes of a validated config.  Units of a kind have names of their
own, as the config's records have keys, a route leads to a service of the app, and a
service has one route at an address. -/
structure DesiredApp where
  stack : String
  services : List DesiredService
  resources : List DesiredResource
  routes : List DesiredRoute
  jobs : List DesiredJob
  connect : List String
  services_nodup : (services.map (·.name)).Nodup
  resources_nodup : (resources.map (·.name)).Nodup
  jobs_nodup : (jobs.map (·.name)).Nodup
  routes_service : ∀ r ∈ routes, r.service ∈ services.map (·.name)
  routes_nodup : (routes.map fun r => (r.service, r.addr)).Nodup

/-! ## What an app is -/

structure LiveService where
  name : String
  image : String
  sig : Option String
  buildKey : Option String
  /-- Names of the volumes mounted today. -/
  volumes : List String

structure LiveResource where
  name : String
  type : ResourceType
  sig : Option String
  applied : Option DesiredResource

structure LiveRoute where
  addr : Address
  service : String
  sig : String

def LiveRoute.key (r : LiveRoute) : String := r.addr.key

structure LiveJob where
  name : String
  sig : String

structure LiveApp where
  services : List LiveService
  resources : List LiveResource
  routes : List LiveRoute
  jobs : List LiveJob
  /-- Peer apps this stack is linked to today. -/
  connect : List String

/-! ## Plans -/

inductive Gate where
  | auto | confirm | blocked
deriving DecidableEq

inductive DeployOp where
  | create | update
deriving DecidableEq

/-- The image a service is deployed with. -/
inductive ImageRef where
  | fromBuild (key : String)
  | image (image : String)
deriving DecidableEq

inductive Action where
  | resourceCreate (resource : DesiredResource)
  | resourceUpdate (resource : DesiredResource)
  | resourceDelete (name : String) (resourceType : ResourceType)
  | build (source : BuildSource) (services : List String)
  | serviceDeploy (op : DeployOp) (image : ImageRef) (service : DesiredService)
  | serviceRemove (name : String)
  | routeAdd (route : DesiredRoute)
  | routeUpdate (route : DesiredRoute)
  | routeRemove (addr : Address)
  | jobCreate (job : DesiredJob)
  | jobUpdate (job : DesiredJob)
  | jobRemove (name : String)
  | linkAdd (peer : String)
  | linkRemove (peer : String)
deriving DecidableEq

namespace Action

/-- Stable id: the dashboard confirms by id. -/
def id : Action → String
  | resourceCreate r => "resource.create:" ++ r.name
  | resourceUpdate r => "resource.update:" ++ r.name
  | resourceDelete name _ => "resource.delete:" ++ name
  | build b _ => "build:" ++ b.key
  | serviceDeploy _ _ s => "service.deploy:" ++ s.name
  | serviceRemove name => "service.remove:" ++ name
  | routeAdd r => "route.add:" ++ r.key
  | routeUpdate r => "route.update:" ++ r.key
  | routeRemove addr => "route.remove:" ++ addr.key
  | jobCreate j => "job.create:" ++ j.name
  | jobUpdate j => "job.update:" ++ j.name
  | jobRemove name => "job.remove:" ++ name
  | linkAdd peer => "link.add:" ++ peer
  | linkRemove peer => "link.remove:" ++ peer

/-- Lower phases first; removals last, data deletes very last. -/
def phase : Action → Nat
  | resourceCreate _ | resourceUpdate _ => 1
  | build _ _ => 2
  | serviceDeploy _ _ _ => 3
  | routeAdd _ | routeUpdate _ | jobCreate _ | jobUpdate _ | linkAdd _ => 4
  | routeRemove _ | jobRemove _ | linkRemove _ | serviceRemove _ => 5
  | resourceDelete _ _ => 6

/-- The place in `KIND_ORDER`. -/
def kindRank : Action → Nat
  | resourceCreate _ => 0
  | resourceUpdate _ => 1
  | build _ _ => 2
  | serviceDeploy _ _ _ => 3
  | routeAdd _ => 4
  | routeUpdate _ => 5
  | jobCreate _ => 6
  | jobUpdate _ => 7
  | linkAdd _ => 8
  | routeRemove _ => 9
  | jobRemove _ => 10
  | linkRemove _ => 11
  | serviceRemove _ => 12
  | resourceDelete _ _ => 13

end Action

/-- An action and who has to agree to it. -/
structure PlanAction where
  gate : Gate
  action : Action

inductive PlanStatus where
  | noop | ready | needsConfirmation | blocked

structure Plan where
  status : PlanStatus
  actions : List PlanAction

structure PlanOptions where
  /-- Repo paths the triggering commits changed; `none` builds everything. -/
  changedPaths : Option (List String)
  /-- Every change waits for a human, not only the destructive ones. -/
  requireApproval : Bool

/-! ## Gating rules for in-place resource changes -/

/-- Whether the change of a resource of the same type needs a human; `none` for a change
that is impossible. -/
def needsConfirm : ResourceSpec → ResourceSpec → Option Bool
  | .postgres version ha _ database backups, .postgres version' ha' _ database' backups' =>
    if version' < version then none
    else some (version < version' || haRank ha' < haRank ha || database' != database ||
      (backups.isSome && backups'.isNone))
  | .cache engine _ _ memoryMb queue, .cache engine' _ _ memoryMb' queue' =>
    some (queue' != queue || engine' != engine || memoryMb' < memoryMb)
  | .search engine, .search engine' => some (engine' != engine)
  | .vector engine on, .vector engine' on' => some (engine' != engine || on' != on)
  | .bucket access quotaMb, .bucket access' quotaMb' =>
    some ((access' == .publicRead && access != .publicRead) ||
      quotaMb.any fun q => quotaMb'.any fun q' => q' < q)
  | _, _ => some false

/-- Whether an in-place resource change may apply on its own. -/
def gateResourceUpdate (before : Option DesiredResource) (after : DesiredResource) : Gate :=
  match before with
  | none => .confirm
  | some b =>
    match needsConfirm b.spec after.spec with
    | none => .blocked
    | some true => .confirm
    | some false => .auto

/-! ## The plan -/

def configFiles : List String := ["swarmy.yaml", "swarmy.yml"]

/-- Does any changed path fall under any watched path?  `.` watches everything. -/
def touches (changed watch : List String) : Bool :=
  changed.any fun c => watch.any fun w => w == "." || c == w || Js.startsWith c (w ++ "/")

def typeRank : ResourceType → Nat
  | .postgres => 0
  | .vector => 2
  | _ => 1

section

variable (desired : DesiredApp) (live : LiveApp)

def liveService (name : String) : Option LiveService := Js.mapGet (·.name) live.services name

def liveResource (name : String) : Option LiveResource := Js.mapGet (·.name) live.resources name

def liveRoute (key : String) : Option LiveRoute := Js.mapGet (·.key) live.routes key

def liveJob (name : String) : Option LiveJob := Js.mapGet (·.name) live.jobs name

/-- The actions for one desired resource. -/
def resourceActions (r : DesiredResource) : List PlanAction :=
  match liveResource live r.name with
  | none => [⟨.auto, .resourceCreate r⟩]
  | some l =>
    if l.type ≠ r.type then
      [⟨.confirm, .resourceDelete r.name l.type⟩, ⟨.confirm, .resourceCreate r⟩]
    else if l.sig = some r.sig then []
    else [⟨gateResourceUpdate l.applied r, .resourceUpdate r⟩]

/-- Postgres before vector: pgvector installs onto it. -/
def resOrder : List DesiredResource :=
  desired.resources.insertionSort fun a b =>
    typeRank a.type < typeRank b.type ∨ typeRank a.type = typeRank b.type ∧ a.name ≤ b.name

/-- The services built from the inputs of a key. -/
def servicesOfKey (key : String) : List DesiredService :=
  desired.services.filter fun s => s.source.buildKey = some key

/-- The build inputs of the services, each once. -/
def buildSources : List BuildSource :=
  (Js.unique (desired.services.filterMap (·.source.buildKey))).filterMap fun key =>
    desired.services.findSome? fun s =>
      match s.source with
      | .build b => if b.key = key then some b else none
      | .image _ => none

/-- A service that runs no image of this build. -/
def outdated (key : String) (s : DesiredService) : Bool :=
  match liveService live s.name with
  | none => true
  | some l => l.buildKey != some key

/-- There is a reason to build; swarmy.yaml itself never is one. -/
def needsBuild (opts : PlanOptions) (b : BuildSource) : Bool :=
  (servicesOfKey desired b.key).any (outdated live b.key) ||
    match opts.changedPaths with
    | none => true
    | some paths => touches (paths.filter fun p => !configFiles.contains p) b.watch

/-- The builds of the plan. -/
def building (opts : PlanOptions) : List BuildSource :=
  (buildSources desired).filter (needsBuild desired live opts)

def buildActions (opts : PlanOptions) : List PlanAction :=
  (building desired live opts).map fun b =>
    ⟨.auto, .build b ((servicesOfKey desired b.key).map (·.name))⟩

/-- The service gets a new build. -/
def rebuilt (opts : PlanOptions) (s : DesiredService) : Bool :=
  match s.source with
  | .build b => ((building desired live opts).map (·.key)).contains b.key
  | .image _ => false

/-- The image a service is to run. -/
def imageFor (s : DesiredService) (l : Option LiveService) (isRebuilt : Bool) : ImageRef :=
  match s.source, l with
  | .image i, _ => .image i
  | .build b, none => .fromBuild b.key
  | .build b, some l => if isRebuilt then .fromBuild b.key else .image l.image

/-- The action for one desired service. -/
def deployActions (opts : PlanOptions) (s : DesiredService) : List PlanAction :=
  match liveService live s.name with
  | none =>
    [⟨.auto, .serviceDeploy .create (imageFor s none (rebuilt desired live opts s)) s⟩]
  | some l =>
    if l.sig = some s.sig ∧ rebuilt desired live opts s = false then []
    else
      let dropped := l.volumes.filter fun v => !s.volumes.contains v
      [⟨if dropped.isEmpty then .auto else .confirm,
        .serviceDeploy .update (imageFor s (some l) (rebuilt desired live opts s)) s⟩]

/-- The action for one desired route. -/
def routeActions (r : DesiredRoute) : List PlanAction :=
  match liveRoute live r.key with
  | none => [⟨.auto, .routeAdd r⟩]
  | some l => if l.sig ≠ r.sig then [⟨.auto, .routeUpdate r⟩] else []

/-- The action for one desired job. -/
def jobActions (j : DesiredJob) : List PlanAction :=
  match liveJob live j.name with
  | none => [⟨.auto, .jobCreate j⟩]
  | some l => if l.sig ≠ j.sig then [⟨.auto, .jobUpdate j⟩] else []

def linkAdds : List PlanAction :=
  (desired.connect.filter fun p => !live.connect.contains p).map fun p => ⟨.auto, .linkAdd p⟩

def routeRemovals : List PlanAction :=
  (live.routes.filter fun l => !(desired.routes.map (·.key)).contains l.key).map fun l =>
    ⟨.auto, .routeRemove l.addr⟩

def jobRemovals : List PlanAction :=
  (live.jobs.filter fun l => !(desired.jobs.map (·.name)).contains l.name).map fun l =>
    ⟨.auto, .jobRemove l.name⟩

def linkRemovals : List PlanAction :=
  (live.connect.filter fun p => !desired.connect.contains p).map fun p => ⟨.auto, .linkRemove p⟩

/-- A service that mounts a volume is removed by a human only. -/
def serviceRemovals : List PlanAction :=
  (live.services.filter fun l => !(desired.services.map (·.name)).contains l.name).map fun l =>
    ⟨if l.volumes.isEmpty then .auto else .confirm, .serviceRemove l.name⟩

/-- Never automatic. -/
def resourceDeletes : List PlanAction :=
  (live.resources.filter fun l => !(desired.resources.map (·.name)).contains l.name).map fun l =>
    ⟨.confirm, .resourceDelete l.name l.type⟩

/-- The actions, as they are collected. -/
def collected (opts : PlanOptions) : List PlanAction :=
  (resOrder desired).flatMap (resourceActions live) ++ buildActions desired live opts ++
    desired.services.flatMap (deployActions desired live opts) ++
    desired.routes.flatMap (routeActions live) ++ desired.jobs.flatMap (jobActions live) ++
    linkAdds desired live ++ routeRemovals desired live ++ jobRemovals desired live ++
    linkRemovals desired live ++ serviceRemovals desired live ++ resourceDeletes desired live

/-- By phase, then by kind. -/
def sortActions (actions : List PlanAction) : List PlanAction :=
  actions.insertionSort fun a b =>
    a.action.phase < b.action.phase ∨
      a.action.phase = b.action.phase ∧ a.action.kindRank ≤ b.action.kindRank

/-- The app's "require approval" toggle. -/
def withApproval (requireApproval : Bool) (a : PlanAction) : PlanAction :=
  if requireApproval ∧ a.gate = .auto then { a with gate := .confirm } else a

def planStatus (actions : List PlanAction) : PlanStatus :=
  if actions.any (·.gate = .blocked) then .blocked
  else if actions.any (·.gate = .confirm) then .needsConfirmation
  else if actions.isEmpty then .noop
  else .ready

/-- From what the app should be and what it is to the actions between. -/
def planApp (opts : PlanOptions) : Plan :=
  let actions := (sortActions (collected desired live opts)).map (withApproval opts.requireApproval)
  { status := planStatus actions, actions }

end

/-! ## What is in a plan -/

section

variable {desired : DesiredApp} {live : LiveApp} {opts : PlanOptions}

variable {a : PlanAction}

theorem mem_sortActions {actions : List PlanAction} :
    a ∈ sortActions actions ↔ a ∈ actions := (List.perm_insertionSort _ _).mem_iff

/-- Approval changes nothing but the gate. -/
@[simp] theorem withApproval_action (b : Bool) (a : PlanAction) :
    (withApproval b a).action = a.action := by
  unfold withApproval
  split <;> rfl

/-- The actions of a plan are those that were collected. -/
theorem mem_planApp {c : Action} : (∃ a ∈ (planApp desired live opts).actions, a.action = c) ↔
      ∃ a ∈ collected desired live opts, a.action = c := by
  constructor
  · rintro ⟨a, ha, rfl⟩
    obtain ⟨b, hb, rfl⟩ := List.mem_map.mp ha
    exact ⟨b, mem_sortActions.mp hb, (withApproval_action _ _).symm⟩
  · rintro ⟨a, ha, rfl⟩
    exact ⟨_, List.mem_map_of_mem (mem_sortActions.mpr ha), withApproval_action _ _⟩

theorem mem_resOrder {r : DesiredResource} : r ∈ resOrder desired ↔ r ∈ desired.resources :=
  (List.perm_insertionSort _ _).mem_iff

/-- Where an action of a plan comes from. -/
theorem mem_collected : a ∈ collected desired live opts ↔
    (∃ r ∈ desired.resources, a ∈ resourceActions live r) ∨ a ∈ buildActions desired live opts ∨
    (∃ s ∈ desired.services, a ∈ deployActions desired live opts s) ∨
    (∃ r ∈ desired.routes, a ∈ routeActions live r) ∨
    (∃ j ∈ desired.jobs, a ∈ jobActions live j) ∨ a ∈ linkAdds desired live ∨
    a ∈ routeRemovals desired live ∨ a ∈ jobRemovals desired live ∨
    a ∈ linkRemovals desired live ∨ a ∈ serviceRemovals desired live ∨
    a ∈ resourceDeletes desired live := by
  simp only [collected, List.mem_append, List.mem_flatMap, mem_resOrder, or_assoc]

theorem resourceActions_kind {r : DesiredResource} (h : a ∈ resourceActions live r) :
    a.action = .resourceCreate r ∨ a.action = .resourceUpdate r ∨
      ∃ type, a.action = .resourceDelete r.name type := by
  unfold resourceActions at h
  split at h
  · simp_all
  · split at h
    · simp only [List.mem_cons, List.not_mem_nil, or_false] at h
      rcases h with rfl | rfl
      · exact .inr (.inr ⟨_, rfl⟩)
      · exact .inl rfl
    · split at h <;> simp_all

theorem deployActions_kind {s : DesiredService} (h : a ∈ deployActions desired live opts s) :
    ∃ op image, a.action = .serviceDeploy op image s := by
  unfold deployActions at h
  split at h
  · simp_all
  · split at h <;> simp_all

theorem routeActions_kind {r : DesiredRoute} (h : a ∈ routeActions live r) :
    a.action = .routeAdd r ∨ a.action = .routeUpdate r := by
  unfold routeActions at h
  split at h
  · simp_all
  · split at h <;> simp_all

theorem jobActions_kind {j : DesiredJob} (h : a ∈ jobActions live j) :
    a.action = .jobCreate j ∨ a.action = .jobUpdate j := by
  unfold jobActions at h
  split at h
  · simp_all
  · split at h <;> simp_all

/-- A service is removed because the app does not want it. -/
theorem collected_serviceRemove {n : String} (h : a ∈ collected desired live opts)
    (ha : a.action = .serviceRemove n) : a ∈ serviceRemovals desired live := by
  rcases mem_collected.mp h with
    ⟨r, _, h⟩ | h | ⟨s, _, h⟩ | ⟨r, _, h⟩ | ⟨j, _, h⟩ | h | h | h | h | h | h
  · rcases resourceActions_kind h with h | h | ⟨t, h⟩ <;> cases ha ▸ h
  · obtain ⟨b, -, rfl⟩ := List.mem_map.mp h
    cases ha
  · obtain ⟨op, image, h⟩ := deployActions_kind h
    cases ha ▸ h
  · rcases routeActions_kind h with h | h <;> cases ha ▸ h
  · rcases jobActions_kind h with h | h <;> cases ha ▸ h
  · obtain ⟨b, -, rfl⟩ := List.mem_map.mp h
    cases ha
  · obtain ⟨b, -, rfl⟩ := List.mem_map.mp h
    cases ha
  · obtain ⟨b, -, rfl⟩ := List.mem_map.mp h
    cases ha
  · obtain ⟨b, -, rfl⟩ := List.mem_map.mp h
    cases ha
  · exact h
  · obtain ⟨b, -, rfl⟩ := List.mem_map.mp h
    cases ha

end

end Swarmy.App
