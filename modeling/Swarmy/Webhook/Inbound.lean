import Swarmy.Machine.Run
import Swarmy.Sql.Page
import Swarmy.Webhook.Push

/-!
# The inbound webhook worker

Every ten seconds a drain takes the deliveries that are due and gives them to the targets of
their endpoints, one after another.  A drain is suspended at its query, at the call to a target
and at the write of the outcome.  What was tried, and after how many tries a replay was asked
for, is not in the database.
-/

namespace Inbound

open Shell (Text)

/-- Most deliveries of a drain. -/
def BATCH : Nat := 25

def BACKOFF_MS : List Nat := [60000, 300000, 900000, 3600000, 21600000]

def MAX_ATTEMPTS : Nat := BACKOFF_MS.length + 1

def backoffMs (attempts : Nat) : Nat :=
  BACKOFF_MS.getD (min (attempts - 1) (BACKOFF_MS.length - 1)) 0

inductive DeliveryStatus where
  | pending
  | delivered
  | dead
  /-- The signature was not verified. -/
  | failed
deriving DecidableEq

structure DeliveryRow where
  id : String
  endpointId : String
  receivedAt : Nat
  headers : List (String × String)
  bodyText : Text
  verifyOk : Bool
  status : DeliveryStatus
  attempts : Nat
  lastError : Option String
  nextAttemptAt : Option Nat
deriving DecidableEq

structure EndpointRow where
  id : String
  slug : String
  targetJson : Js.Value
  transformTemplate : Option Text

/-! ## Targets -/

inductive Target where
  | queue (target : QueueTarget)
  | forward (url : String)

/-- A property that is a text, and not the empty one. -/
def textOf (json : Js.Value) (key : String) : Option String :=
  match json.field key with
  | some (.str s) => if s = "" then none else some s
  | _ => none

def parseTarget (json : Js.Value) : Option Target :=
  match textOf json "kind" with
  | some kind =>
    if kind = "queue" then
      match textOf json "cacheCluster", textOf json "queue" with
      | some cacheCluster, some queue =>
        some (.queue ⟨cacheCluster, queue.toList,
          if textOf json "convention" = some "bullmq" then .bullmq else .list⟩)
      | _, _ => none
    else if kind = "forward" then
      match textOf json "url" with
      | some url =>
        if Js.startsWith url "http://" || Js.startsWith url "https://" then some (.forward url)
        else none
      | none => none
    else none
  | none => none

/-- What `JSON.stringify` is given for a job. -/
structure JobData where
  deliveryId : String
  endpoint : String
  receivedAt : Nat
  headers : List (String × String)
  body : Text

/-- `JSON.stringify` and the template of an endpoint. -/
structure Library where
  stringify : JobData → Text
  renderInboundTemplate : Text → Text → List (String × String) → String → String → Text

variable (lib : Library)

/-- The body that the target is given. -/
def effective (row : DeliveryRow) (endpoint : EndpointRow) : Text :=
  match endpoint.transformTemplate with
  | none | some [] => row.bodyText
  | some template => lib.renderInboundTemplate template row.bodyText row.headers
    endpoint.slug row.id

/-- How a request ends. -/
inductive Response where
  | status (n : Nat)
  | error (message : String)

/-- `res.ok`. -/
def Response.ok : Response → Bool
  | .status n => 200 ≤ n && n ≤ 299
  | .error _ => false

def deliverToForward : Response → Option String
  | .status n => if (Response.status n).ok then none else some ("HTTP " ++ toString n)
  | .error message => some message

/-- What a delivery meets: the container of the queue, how the script runs there, and when it was
begun; or how the request ends. -/
structure World where
  place : Place
  exec : Exec
  timestampMs : Nat
  response : Response

/-- What is stored after a delivery, the error if there is one, and whether the target took the
body. -/
def deliver (row : DeliveryRow) (endpoint : EndpointRow) (target : Target) (w : World) (db : Db) :
    Option (Db × Option String × Bool) :=
  match target with
  | .queue target =>
    let text := match target.convention with
      | .bullmq =>
        lib.stringify ⟨row.id, endpoint.slug, row.receivedAt, row.headers,
          effective lib row endpoint⟩
      | .list => effective lib row endpoint
    (deliverToQueue target text w.timestampMs w.place w.exec db).map fun x =>
      (x.1, x.2, took target.convention target.queue text db x.1)
  | .forward _ => some (db, deliverToForward w.response, w.response.ok)

/-! ## Writes -/

/-- What a drain writes to a row. -/
inductive Write where
  | malformed (attempts : Nat)
  | markDelivered (attempts : Nat)
  | markFailed (attempts : Nat) (error : String) (now : Nat)

def Write.apply (w : Write) (r : DeliveryRow) : DeliveryRow :=
  match w with
  | .malformed attempts =>
    { r with status := .dead, attempts, lastError := some "malformed endpoint target",
             nextAttemptAt := none }
  | .markDelivered attempts =>
    { r with status := .delivered, attempts, lastError := none, nextAttemptAt := none }
  | .markFailed attempts error now =>
    { r with
      status := if attempts ≥ MAX_ATTEMPTS then .dead else .pending
      attempts
      lastError := some (String.ofList (error.toList.take 2000))
      nextAttemptAt := if attempts ≥ MAX_ATTEMPTS then none else some (now + backoffMs attempts) }

@[simp]
theorem Write.apply_id (w : Write) (r : DeliveryRow) : (w.apply r).id = r.id := by cases w <;> rfl

/-! ## Drains -/

/-- A row that is due, with its endpoint as it was read. -/
structure Due where
  row : DeliveryRow
  endpoint : EndpointRow

/-- Where a drain is suspended. -/
inductive Drain where
  | query
  | send (due : Due) (rest : List Due)
  | write (due : Due) (rest : List Due) (w : Write)
  | done

/-- The next row of a drain. -/
def Drain.next : List Due → Drain
  | [] => .done
  | due :: rest => .send due rest

/-- A call to a target, when it was over. -/
structure Attempt where
  id : String
  took : Bool
  at_ : Nat

/-- The rows and what the worker does with them, the queues, the attempts, the last first, and
the replays that were asked for.  `used` are the ids that rows were ever given. -/
structure State where
  now : Nat
  rows : List DeliveryRow
  endpoints : List EndpointRow
  used : List String
  drains : List Drain
  db : Db
  log : List Attempt
  asked : List (String × Nat)

def DeliveryRow.due (r : DeliveryRow) (now : Nat) : Bool :=
  r.status = .pending && r.nextAttemptAt.any (· ≤ now)

/-- What the query for due rows may answer. -/
def IsBatch (rows : List DeliveryRow) (now : Nat) (batch : List DeliveryRow) : Prop :=
  Sql.IsPage (·.due now) (·.nextAttemptAt.getD 0) BATCH rows batch

instance (rows : List DeliveryRow) (now : Nat) (batch : List DeliveryRow) :
    Decidable (IsBatch rows now batch) :=
  inferInstanceAs (Decidable (Sql.IsPage _ _ _ _ _))

/-- A move: of the timer, of a drain whose call is answered, or of what is around. -/
inductive Move where
  | tick
  | fetched (n : Nat) (batch : List DeliveryRow)
  | queryFails (n : Nat)
  | answered (n : Nat) (w : World)
  | written (n : Nat)
  | writeFails (n : Nat)
  | receive (id endpointId : String) (headers : List (String × String)) (bodyText : Text)
    (verifyOk : Bool)
  | replay (id : String)
  | setEndpoint (e : EndpointRow)
  | removeEndpoint (id : String)
  /-- The rows of an endpoint that were received before its retention. -/
  | prune (endpointId : String) (cutoff : Nat)
  /-- Another client of the server writes. -/
  | store (key : Text) (value : Option Value)
  | wait (ms : Nat)

/-- How often the target of a row was called. -/
def tries (log : List Attempt) (id : String) : Nat := log.countP (·.id = id)

def last? (log : List Attempt) (id : String) : Option Attempt := log.find? (·.id = id)

def Drain.sends (id : String) : Drain → Bool
  | .send due _ => due.row.id = id
  | _ => false

namespace State

def start : State := ⟨0, [], [], [], [], fun _ => none, [], []⟩

variable (s : State)

def endpoint? (id : String) : Option EndpointRow := s.endpoints.find? (·.id = id)

/-- The rows with their endpoints: each row has one. -/
def dues (batch : List DeliveryRow) : List Due :=
  batch.filterMap fun r => (s.endpoint? r.endpointId).map (⟨r, ·⟩)

/-- The calls for a row, with those that are not over. -/
def begun (id : String) : Nat := tries s.log id + s.drains.countP (Drain.sends id)

def goto (n : Nat) (d : Drain) : State := { s with drains := s.drains.set n d }

def update (id : String) (f : DeliveryRow → DeliveryRow) : State :=
  { s with rows := s.rows.map fun r => if r.id = id then f r else r }

/-- `deliverOne`, when the target is called. -/
def attempt (due : Due) (target : Target) (w : World) : Option (State × Write) :=
  (deliver lib due.row due.endpoint target w s.db).map fun x =>
    ({ s with db := x.1, log := ⟨due.row.id, x.2.2, s.now⟩ :: s.log },
      match x.2.1 with
      | none => .markDelivered (due.row.attempts + 1)
      | some error => .markFailed (due.row.attempts + 1) error s.now)

def step (s : State) : Move → Option State
  | .tick => some { s with drains := s.drains ++ [.query] }
  | .fetched n batch =>
    match s.drains[n]? with
    | some .query => if IsBatch s.rows s.now batch then some (s.goto n (.next (s.dues batch)))
      else none
    | _ => none
  | .queryFails n =>
    match s.drains[n]? with
    | some .query => some (s.goto n .done)
    | _ => none
  | .answered n w =>
    match s.drains[n]? with
    | some (.send due rest) =>
      match parseTarget due.endpoint.targetJson with
      | none => some (s.goto n (.write due rest (.malformed (due.row.attempts + 1))))
      | some target => (s.attempt lib due target w).map fun x => x.1.goto n (.write due rest x.2)
    | _ => none
  | .written n =>
    match s.drains[n]? with
    | some (.write due rest w) =>
      if s.rows.any (·.id = due.row.id) then
        some ((s.update due.row.id w.apply).goto n (.next rest))
      else none
    | _ => none
  | .writeFails n =>
    match s.drains[n]? with
    | some (.write _ rest _) => some (s.goto n (.next rest))
    | _ => none
  | .receive id endpointId headers bodyText verifyOk =>
    if id ∈ s.used ∨ (s.endpoint? endpointId).isNone then none
    else some { s with
      used := id :: s.used
      rows := s.rows ++ [⟨id, endpointId, s.now, headers, bodyText, verifyOk,
        if verifyOk then .pending else .failed, 0,
        if verifyOk then none else some "signature verification failed",
        if verifyOk then some s.now else none⟩] }
  | .replay id =>
    -- only of a delivery that was verified
    if s.rows.any (fun r => r.id = id && r.verifyOk) then
      some { s.update id fun r => { r with status := .pending, nextAttemptAt := some s.now } with
        asked := (id, s.begun id) :: s.asked }
    else none
  | .setEndpoint e => some { s with endpoints := e :: s.endpoints.filter (·.id ≠ e.id) }
  | .removeEndpoint id =>
    -- the rows of an endpoint go with it
    some { s with
      endpoints := s.endpoints.filter (·.id ≠ id)
      rows := s.rows.filter (·.endpointId ≠ id) }
  | .prune endpointId cutoff =>
    some { s with rows := s.rows.filter fun r =>
      !(r.endpointId = endpointId && r.receivedAt < cutoff) }
  | .store key value => some { s with db := Function.update s.db key value }
  | .wait ms => some { s with now := s.now + ms }

end State

end Inbound
