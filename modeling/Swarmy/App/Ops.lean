import Swarmy.App.Apply

/-!
# What the executor's operations do

The operations of the port as `realOps` wires them, by what they do to the cluster as
far as `readLiveApp` and the ingress see it: which swarm services there are, their app
labels, routes and attached variables, and the stack's jobs.  A deploy rebuilds a
service's labels from the compose and carries its routes and attachments; what the
operations do inside a service (a topology, a dump, a release command) is not seen.
-/

namespace Swarmy.App

open Coop AList

/-- What the services behind the port answer: digests of builds and fresh ids. -/
structure Answers where
  image : BuildSource → String
  bucketId : Cluster → String
  jobId : Cluster → String

/-- A service of a managed resource carries none of the app's labels. -/
def managedService : SwarmService where
  image := ""
  appStack := none
  appService := none
  appSig := none
  appBuild := none
  routes := []
  replicas := 1
  env := []

/-- The services that provisioning a resource deploys. -/
def createdMembers (stack : String) (r : DesiredResource) : List String :=
  match r.spec with
  | .postgres .. => [primaryServiceName stack r.name, replicaServiceName stack r.name]
  | .cache _ ha replicas _ _ =>
    [cachePrimaryName stack r.name] ++
      (if ha ≠ "single" ∧ 0 < replicas then [cacheReplicaName stack r.name] else []) ++
      (if ha = "sentinel" then [cacheSentinelName stack r.name] else [])
  | .search _ => [searchServiceName stack r.name]
  | .vector .pgvector (some _) => []
  | .vector _ _ => [vectorServiceName stack r.name]
  | .bucket .. => []

def isPgvector (r : DesiredResource) : Bool :=
  match r.spec with
  | .vector .pgvector _ => true
  | _ => false

/-- The services that deleting a resource removes. -/
def deletedMembers (stack name : String) (type : ResourceType) (before : Option DesiredResource) :
    List String :=
  match type with
  | .postgres => [primaryServiceName stack name, replicaServiceName stack name]
  | .cache | .queue =>
    [cachePrimaryName stack name, cacheReplicaName stack name, cacheSentinelName stack name]
  | .search => [searchServiceName stack name]
  | .vector => if before.any isPgvector then [] else [vectorServiceName stack name]
  | .bucket => []

/-- A route of the app as it goes onto the label. -/
def ingressRoute (r : DesiredRoute) : Route where
  host := r.addr.host
  path := if r.addr.path = "/" then "" else r.addr.path
  port := r.port
  stripPrefix := r.stripPath
  protection := r.protection
  access := false

/-- What a route is replaced by. -/
def Route.key (r : Route) : String × String := (r.host, r.path)

/-- Replaces all routes of a service: the last of a host and path counts, and "require
login" is kept from the live one. -/
def setServiceRoutes (live routes : List Route) : List Route :=
  (Js.unique (routes.map Route.key)).filterMap fun k =>
    (Js.mapGet Route.key routes k).map fun r =>
      { r with access := (Js.mapGet Route.key live k).any (·.access) }

namespace Cluster

variable (cl : Cluster)

/-- The routes on a service's label. -/
def routesAt (x : String) : List Route := ((cl.services.lookup x).map (·.routes)).getD []

def put (x : String) (s : SwarmService) : Cluster := { cl with services := cl.services.insert x s }

def remove (x : String) : Cluster := { cl with services := cl.services.erase x }

/-- A service rolled out from the compose; routes and attachments are carried. -/
def rollOut (stack : String) (c : ComposeService) : Cluster :=
  let old := cl.services.lookup (svcName stack c.name)
  cl.put (svcName stack c.name)
    { image := c.image
      appStack := some stack
      appService := some c.name
      appSig := some c.sig
      appBuild := c.buildKey
      routes := (old.map (·.routes)).getD []
      replicas := c.replicas
      env := (old.map (·.env)).getD [] }

end Cluster

section

variable (stack : String) (answers : Answers)

/-- An in-place change that only a person can make. -/
def updateRefused (r : DesiredResource) (before : Option DesiredResource) : Option String :=
  match r.spec, before.map DesiredResource.spec with
  | .postgres version .., some (.postgres version' ..) =>
    if version = version' then none
    else some ("postgres " ++ toString version' ++ " → " ++ toString version ++
      " needs a dump + restore")
  | .cache _ _ _ _ queue, some (.cache _ _ _ _ queue') =>
    if queue = queue' then none
    else some (r.name ++ ": changes its eviction policy — declare a new resource instead")
  | _, _ => none

/-- The name a job has in the database. -/
def jobRowName (name : String) : String := String.ofList ((stack ++ "-" ++ name).toList.take 63)

/-- A job's row, new or updated. -/
def upsertRow (cl : Cluster) (name : String) (existingId : Option String) :
    Except String String × Cluster :=
  match existingId.filter (· ≠ "") with
  | some id =>
    if cl.jobs.any (·.id = id) then
      (.ok id, { cl with jobs := cl.jobs.map fun row =>
        if row.id = id then { row with name := jobRowName stack name } else row })
    else (.error ("job not found: " ++ id), cl)
  | none =>
    (.ok (answers.jobId cl),
      { cl with jobs := cl.jobs ++ [⟨answers.jobId cl, jobRowName stack name⟩] })

def unseen (cl : Cluster) (name : String) : Except String Unit × Cluster :=
  (.error ("service " ++ svcName stack name ++ " did not appear in the live inventory"), cl)

/-- Carry out an operation. -/
def carryOut : (op : AppOp) → Cluster → Except String op.Ret × Cluster
  | .createResource r, cl =>
    (.ok (if r.type = .bucket then some (answers.bucketId cl) else none),
      (createdMembers stack r).foldl (·.put · managedService) cl)
  | .updateResource r before, cl =>
    match updateRefused r before with
    | some e => (.error e, cl)
    | none => (.ok (), cl)
  | .deleteResource name type before, cl =>
    (.ok (), (deletedMembers stack name type (before.map (·.resource))).foldl Cluster.remove cl)
  | .build b, cl => (.ok (answers.image b), cl)
  | .deploy compose, cl => (.ok (), compose.foldl (Cluster.rollOut · stack) cl)
  | .attach a, cl =>
    match cl.services.lookup (svcName stack a.service) with
    | some s => (.ok (), cl.put (svcName stack a.service)
        { s with env := s.env ++ a.envVar.toList })
    | none => unseen stack cl a.service
  | .runRelease service _ _, cl =>
    if (cl.services.lookup (svcName stack service)).isSome then (.ok (), cl)
    else unseen stack cl service
  | .setRoutes service routes, cl =>
    match cl.services.lookup (svcName stack service) with
    | some s => (.ok (), cl.put (svcName stack service)
        { s with routes := setServiceRoutes s.routes (routes.map ingressRoute) })
    | none => unseen stack cl service
  | .upsertJob job existingId, cl => upsertRow stack answers cl job.name existingId
  | .removeJob id, cl =>
    if cl.jobs.any (·.id = id) then
      (.ok (), { cl with jobs := cl.jobs.filter fun row => row.id ≠ id })
    else (.error ("job not found: " ++ id), cl)
  | .link _, cl | .unlink _, cl => (.ok (), cl)
  | .removeService name, cl =>
    if (cl.services.lookup (svcName stack name)).any (·.appStack = some stack) then
      (.ok (), cl.remove (svcName stack name))
    else (.ok (), cl)

example (peer : String) (cl : Cluster) : (carryOut stack answers (.link peer) cl).2 = cl := by
  simp [carryOut]

end

/-! ## What is at a name -/

/-- Services of one stack differ in their names. -/
theorem svcName_injective (stack : String) : Function.Injective (svcName stack) := by
  intro a b h
  simp only [svcName, ← String.toList_inj, String.toList_append] at h
  exact String.toList_inj.mp (List.append_cancel_left h)

/-- What decides which routes a service has: whether it is the app's, and its label. -/
def Cluster.view (cl : Cluster) (x : String) : Option (Option String × List Route) :=
  (cl.services.lookup x).map fun s => (s.appStack, s.routes)

theorem Cluster.routesAt_eq (cl : Cluster) (x : String) :
    cl.routesAt x = ((cl.view x).map (·.2)).getD [] := by
  rw [routesAt, view, Option.map_map]
  rfl

@[simp] theorem Cluster.view_put (cl : Cluster) (x y : String) (s : SwarmService) :
    (cl.put x s).view y = if y = x then some (s.appStack, s.routes) else cl.view y := by
  unfold view put
  split
  · next h => rw [h, lookup_insert]; rfl
  · next h => rw [lookup_insert_ne h]

@[simp] theorem Cluster.view_remove (cl : Cluster) (x y : String) :
    (cl.remove x).view y = if y = x then none else cl.view y := by
  unfold view remove
  split
  · next h => rw [h, lookup_erase]; rfl
  · next h => rw [lookup_erase_ne h]

theorem Cluster.view_removeAll (cl : Cluster) (xs : List String) (y : String) :
    (xs.foldl Cluster.remove cl).view y = if y ∈ xs then none else cl.view y := by
  induction xs generalizing cl with
  | nil => simp
  | cons x xs ih =>
    rw [List.foldl_cons, ih, view_remove]
    by_cases hy : y ∈ xs <;> by_cases hx : y = x <;> simp [hy, hx]

theorem Cluster.view_provision (cl : Cluster) (xs : List String) (y : String) :
    (xs.foldl (fun cl x => cl.put x managedService) cl).view y =
      if y ∈ xs then some (none, []) else cl.view y := by
  induction xs generalizing cl with
  | nil => simp
  | cons x xs ih =>
    rw [List.foldl_cons, ih, view_put]
    by_cases hy : y ∈ xs <;> by_cases hx : y = x <;> simp [hy, hx, managedService]

/-- A deploy carries the routes. -/
theorem Cluster.routesAt_rollOut (cl : Cluster) (stack : String) (c : ComposeService)
    (y : String) : (cl.rollOut stack c).routesAt y = cl.routesAt y := by
  rw [routesAt_eq, rollOut, view_put]
  split
  · next h => rw [h]; rfl
  · rw [← routesAt_eq]

theorem Cluster.view_rollOut (cl : Cluster) (stack : String) (c : ComposeService) {y : String}
    (hy : y ≠ svcName stack c.name) : (cl.rollOut stack c).view y = cl.view y := by
  rw [rollOut, view_put, if_neg hy]

theorem Cluster.routesAt_deploy (cl : Cluster) (stack : String) (cs : List ComposeService)
    (y : String) : (cs.foldl (fun cl c => cl.rollOut stack c) cl).routesAt y = cl.routesAt y := by
  induction cs generalizing cl with
  | nil => rfl
  | cons c cs ih => rw [List.foldl_cons, ih, routesAt_rollOut]

theorem Cluster.view_deploy (cl : Cluster) (stack : String) (cs : List ComposeService)
    {y : String} (hy : ∀ c ∈ cs, y ≠ svcName stack c.name) :
    (cs.foldl (fun cl c => cl.rollOut stack c) cl).view y = cl.view y := by
  induction cs generalizing cl with
  | nil => rfl
  | cons c cs ih =>
    rw [List.foldl_cons, ih _ fun d hd => hy d (List.mem_cons_of_mem _ hd),
      view_rollOut _ _ _ (hy c List.mem_cons_self)]

section

variable {stack : String} {answers : Answers}

theorem carryOut_updateResource (r : DesiredResource) (before : Option DesiredResource)
    (cl : Cluster) : (carryOut stack answers (.updateResource r before) cl).2 = cl := by
  simp only [carryOut]
  split <;> rfl

theorem carryOut_runRelease (service image : String) (command : List String) (cl : Cluster) :
    (carryOut stack answers (.runRelease service image command) cl).2 = cl := by
  by_cases h : (cl.services.lookup (svcName stack service)).isSome = true
  · exact congrArg Prod.snd (if_pos h)
  · exact congrArg Prod.snd (if_neg h)

/-- An attachment leaves label and routes alone. -/
theorem view_attach (a : Attachment) (cl : Cluster) (y : String) :
    (carryOut stack answers (.attach a) cl).2.view y = cl.view y := by
  simp only [carryOut]
  split
  · next s hs =>
      rw [Cluster.view_put]
      split
      · next hy => rw [hy, Cluster.view, hs]; rfl
      · rfl
  · rfl

/-- Where a route set has been written, it is what the service has, and nothing else has
changed. -/
theorem setRoutes_ok {service : String} {routes : List DesiredRoute} {cl : Cluster} {x : Unit}
    (h : (carryOut stack answers (.setRoutes service routes) cl).1 = .ok x) :
    (∃ live, (carryOut stack answers (.setRoutes service routes) cl).2.routesAt
        (svcName stack service) = setServiceRoutes live (routes.map ingressRoute)) ∧
      ∀ y, y ≠ svcName stack service →
        (carryOut stack answers (.setRoutes service routes) cl).2.view y = cl.view y := by
  cases hs : cl.services.lookup (svcName stack service) with
  | none =>
    simp only [carryOut, hs] at h
    cases h
  | some s =>
    simp only [carryOut, hs]
    refine ⟨⟨s.routes, ?_⟩, fun y hy => by rw [Cluster.view_put, if_neg hy]⟩
    rw [Cluster.routesAt_eq, Cluster.view_put, if_pos rfl]
    rfl

/-- Jobs are rows of the database. -/
theorem services_upsertJob (job : DesiredJob) (existingId : Option String) (cl : Cluster) :
    (carryOut stack answers (.upsertJob job existingId) cl).2.services = cl.services := by
  simp only [carryOut, upsertRow]
  split
  · split <;> rfl
  · rfl

theorem services_removeJob (id : String) (cl : Cluster) :
    (carryOut stack answers (.removeJob id) cl).2.services = cl.services := by
  by_cases h : cl.jobs.any (·.id = id) = true
  · have hcl : (carryOut stack answers (.removeJob id) cl).2 =
        { cl with jobs := cl.jobs.filter fun row => row.id ≠ id } := congrArg Prod.snd (if_pos h)
    rw [hcl]
  · have hcl : (carryOut stack answers (.removeJob id) cl).2 = cl := congrArg Prod.snd (if_neg h)
    rw [hcl]

/-- A service is removed if it is the app's. -/
theorem view_removeService (name : String) (cl : Cluster) (y : String) :
    (carryOut stack answers (.removeService name) cl).2.view y =
      if y = svcName stack name ∧ (cl.view y).any (·.1 = some stack) then none
      else cl.view y := by
  have hany : (cl.services.lookup (svcName stack name)).any (·.appStack = some stack) =
      (cl.view (svcName stack name)).any (·.1 = some stack) := by
    unfold Cluster.view
    cases cl.services.lookup (svcName stack name) <;> rfl
  by_cases h : (cl.services.lookup (svcName stack name)).any (·.appStack = some stack) = true
  · have hview : (carryOut stack answers (.removeService name) cl).2 =
        cl.remove (svcName stack name) := congrArg Prod.snd (if_pos h)
    rw [hview, Cluster.view_remove]
    rw [hany] at h
    by_cases hy : y = svcName stack name
    · rw [if_pos hy, if_pos ⟨hy, hy ▸ h⟩]
    · rw [if_neg hy, if_neg fun hc => hy hc.1]
  · have hview : (carryOut stack answers (.removeService name) cl).2 = cl :=
      congrArg Prod.snd (if_neg h)
    rw [hview, if_neg]
    rintro ⟨rfl, hc⟩
    exact h (hany ▸ hc)

end

end Swarmy.App
