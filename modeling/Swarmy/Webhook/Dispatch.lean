import Swarmy.Machine.Run
import Swarmy.Sql.Page
import Mathlib.Logic.Function.Basic

/-!
# The outbound webhook worker

Every few seconds a drain takes the pending deliveries that are due and posts them one after
another.  A drain is suspended at each call: the query for the due rows, the lookup of an
endpoint, the request, and the write of its outcome.  What is counted beside the rows (how
often each was posted, and whether a request was answered with 2xx) is not in the database.
-/

namespace Webhook

open Function

/-- Most attempts of a delivery. -/
def MAX_ATTEMPTS : Nat := 6

/-- Most deliveries of a drain. -/
def BATCH : Nat := 50

def backoffMs (attempts : Nat) : Nat := min (30000 * 2 ^ (attempts - 1)) 3600000

inductive DeliveryStatus where
  | pending
  | delivered
  | failed
deriving DecidableEq

structure Delivery where
  id : String
  endpointId : String
  status : DeliveryStatus
  attempts : Nat
  lastError : Option String
  nextAttemptAt : Option Nat
  deliveredAt : Option Nat
deriving DecidableEq

/-- An endpoint; its secret may not be decryptable. -/
structure Endpoint where
  id : String
  active : Bool
  decryptable : Bool

/-! ## Writes -/

/-- What a drain writes to a row. -/
inductive Write where
  | missing
  | delivered (attempts at_ : Nat)
  | failed (attempts : Nat) (error : String)
  | retry (attempts : Nat) (error : String) (next : Nat)
deriving DecidableEq

namespace Write

def apply (w : Write) (d : Delivery) : Delivery :=
  match w with
  | .missing =>
    { d with
      status := .failed, lastError := some "endpoint missing or inactive", nextAttemptAt := none }
  | .delivered attempts at_ =>
    { d with status := .delivered, attempts, deliveredAt := some at_, lastError := none,
             nextAttemptAt := none }
  | .failed attempts error =>
    { d with status := .failed, attempts, lastError := some error, nextAttemptAt := none }
  | .retry attempts error next =>
    { d with status := .pending, attempts, lastError := some error, nextAttemptAt := some next }

end Write

/-- `scheduleRetryOrFail`. -/
def scheduleRetryOrFail (attempts : Nat) (error : String) (now : Nat) : Write :=
  if attempts ≥ MAX_ATTEMPTS then .failed attempts error
  else .retry attempts error (now + backoffMs attempts)

/-! ## Drains -/

/-- Where a drain is suspended: at the query, or with a row and the rows that follow it. -/
inductive Phase where
  | query
  | lookup (row : Delivery) (rest : List Delivery)
  | post (row : Delivery) (rest : List Delivery)
  /-- A write that is made inside the `try` or not. -/
  | write (row : Delivery) (rest : List Delivery) (w : Write) (inTry : Bool)
  | done
deriving DecidableEq

/-- A drain: when its query was answered (`0`: it was not), with which rows, and out of which. -/
structure Drain where
  phase : Phase
  fetchedAt : Nat
  batch : List Delivery
  seen : List Delivery

/-- The next row of a drain. -/
def Phase.next : List Delivery → Phase
  | [] => .done
  | row :: rest => .lookup row rest

/-- What became of a delivery outside of the database. -/
structure Sent where
  posts : Nat
  /-- A request was answered with 2xx. -/
  taken : Bool
  /-- A request was made after that. -/
  again : Bool

def Sent.post (x : Sent) : Sent := ⟨x.posts + 1, x.taken, x.again || x.taken⟩

def Sent.take (x : Sent) : Sent := { x with taken := true }

/-- The rows, and what the worker does with them.  `used` are the ids that rows were ever
given. -/
structure State where
  now : Nat
  rows : List Delivery
  endpoints : List Endpoint
  used : List String
  drains : List Drain
  sent : String → Sent

def Delivery.due (d : Delivery) (now : Nat) : Bool :=
  d.status = .pending && d.nextAttemptAt.any (· ≤ now)

/-- What the query for due rows may answer. -/
def IsBatch (rows : List Delivery) (now : Nat) (batch : List Delivery) : Prop :=
  Sql.IsPage (·.due now) (·.nextAttemptAt.getD 0) BATCH rows batch

instance (rows : List Delivery) (now : Nat) (batch : List Delivery) :
    Decidable (IsBatch rows now batch) :=
  inferInstanceAs (Decidable (Sql.IsPage _ _ _ _ _))

/-- How a request ends. -/
inductive Response where
  | ok
  | status (n : Nat)
  | error (message : String)

/-- A move: of the timer, of a drain whose call is answered, or of what is around. -/
inductive Move where
  | tick
  | fetched (n : Nat) (batch : List Delivery)
  | queryFails (n : Nat)
  | lookedUp (n : Nat)
  | lookupFails (n : Nat)
  | answered (n : Nat) (r : Response)
  | written (n : Nat)
  | writeFails (n : Nat) (message : String)
  | enqueue (id endpointId : String)
  | setEndpoint (e : Endpoint)
  | removeEndpoint (id : String)
  | wait (ms : Nat)

namespace State

def start : State := ⟨0, [], [], [], [], fun _ => ⟨0, false, false⟩⟩

variable (s : State)

def endpoint? (id : String) : Option Endpoint := s.endpoints.find? (·.id = id)

/-- The drain goes on at another call. -/
def goto (n : Nat) (d : Drain) (phase : Phase) : State :=
  { s with drains := s.drains.set n { d with phase } }

/-- A request is made. -/
def posted (id : String) : State :=
  { s with sent := update s.sent id (s.sent id).post }

/-- A request was answered with 2xx. -/
def took (id : String) : State :=
  { s with sent := update s.sent id (s.sent id).take }

def update (id : String) (w : Write) : State :=
  { s with rows := s.rows.map fun d => if d.id = id then w.apply d else d }

/-- `deliverOne` behind the lookup: the endpoint is gone or disabled, its secret cannot be
decrypted, which `runDue` ignores, or the request is made. -/
def deliver (n : Nat) (d : Drain) (row : Delivery) (rest : List Delivery) : State :=
  match s.endpoint? row.endpointId with
  | none => s.goto n d (.write row rest .missing false)
  | some e =>
    if e.active = false then s.goto n d (.write row rest .missing false)
    else if e.decryptable = false then s.goto n d (.next rest)
    else (s.posted row.id).goto n d (.post row rest)

/-- `deliverOne` behind the request. -/
def respond (n : Nat) (d : Drain) (row : Delivery) (rest : List Delivery) : Response → State
  | .ok => (s.took row.id).goto n d (.write row rest (.delivered (row.attempts + 1) s.now) true)
  | .status code =>
    s.goto n d (.write row rest
      (scheduleRetryOrFail (row.attempts + 1) ("HTTP " ++ toString code) s.now) true)
  | .error message =>
    s.goto n d (.write row rest (scheduleRetryOrFail (row.attempts + 1) message s.now) false)

/-- A write that fails: inside the `try` it is scheduled again. -/
def writeFailed (n : Nat) (d : Drain) (row : Delivery) (rest : List Delivery) (inTry : Bool)
    (message : String) : State :=
  if inTry then
    s.goto n d (.write row rest (scheduleRetryOrFail (row.attempts + 1) message s.now) false)
  else s.goto n d (.next rest)

def step (s : State) : Move → Option State
  | .tick => some { s with drains := s.drains ++ [⟨.query, 0, [], []⟩] }
  | .fetched n batch =>
    match s.drains[n]? with
    | some ⟨.query, _, _, _⟩ =>
      if IsBatch s.rows s.now batch then
        some { s with drains := s.drains.set n ⟨.next batch, s.now, batch, s.rows⟩ }
      else none
    | _ => none
  | .queryFails n =>
    match s.drains[n]? with
    | some ⟨.query, _, _, _⟩ => some { s with drains := s.drains.set n ⟨.done, 0, [], []⟩ }
    | _ => none
  | .lookedUp n =>
    match s.drains[n]? with
    | some ⟨.lookup row rest, at_, b, seen⟩ =>
      some (s.deliver n ⟨.lookup row rest, at_, b, seen⟩ row rest)
    | _ => none
  | .lookupFails n =>
    match s.drains[n]? with
    | some ⟨.lookup _ rest, at_, b, seen⟩ =>
      some { s with drains := s.drains.set n ⟨.next rest, at_, b, seen⟩ }
    | _ => none
  | .answered n r =>
    match s.drains[n]? with
    | some ⟨.post row rest, at_, b, seen⟩ =>
      some (s.respond n ⟨.post row rest, at_, b, seen⟩ row rest r)
    | _ => none
  | .written n =>
    match s.drains[n]? with
    | some ⟨.write row rest w _, at_, b, seen⟩ =>
      if s.rows.any (·.id = row.id) then
        some ((s.update row.id w).goto n ⟨.done, at_, b, seen⟩ (.next rest))
      else none
    | _ => none
  | .writeFails n message =>
    match s.drains[n]? with
    | some ⟨.write row rest w inTry, at_, b, seen⟩ =>
      some (s.writeFailed n ⟨.write row rest w inTry, at_, b, seen⟩ row rest inTry message)
    | _ => none
  | .enqueue id endpointId =>
    if id ∈ s.used then none
    else some { s with
      used := id :: s.used
      rows := s.rows ++ [⟨id, endpointId, .pending, 0, none, some s.now, none⟩] }
  | .setEndpoint e => some { s with endpoints := e :: s.endpoints.filter (·.id ≠ e.id) }
  | .removeEndpoint id =>
    -- the rows of an endpoint go with it
    some { s with
      endpoints := s.endpoints.filter (·.id ≠ id)
      rows := s.rows.filter (·.endpointId ≠ id) }
  | .wait ms => some { s with now := s.now + ms }

end State

end Webhook
