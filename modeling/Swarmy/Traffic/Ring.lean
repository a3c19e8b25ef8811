import Swarmy.Machine.Run
import Swarmy.Js.Value

/-!
# Requests at the edge

Edges report how many requests they have counted since their last report.  The controller
spreads each report over the minutes it covers, keeps the minutes of the last hours in a
ring, and writes what has completed to the database, five minutes to a row.  A tick of
the writer runs without interruption except at its writes: reports may come in between.

Times are in milliseconds on the controller's clock.  Numbers are doubles in the source:
`rnd` is how the result of an operation is rounded to one.  What no operation rounds, such
as the difference of two times of one minute, is written without it.  Maps are kept as
partial functions.
-/

namespace Swarmy.Traffic

open Function

def MINUTE_MS : Int := 60000

def TRAFFIC_RING_MINUTES : Int := 360

def TRAFFIC_ROLLUP_MS : Int := 5 * MINUTE_MS

def TRAFFIC_ROLLUP_RETENTION_MS : Int := 7 * 24 * 60 * MINUTE_MS

/-! ## Reports -/

structure EdgeHostTraffic where
  host : String
  requests : Nat
  errors5xx : Nat

structure EdgeTrafficSample where
  intervalSec : Rat
  hosts : List EdgeHostTraffic

def minuteOf (ms : Rat) : Int := (ms / 60000).floor * MINUTE_MS

section

variable (rnd : Rat → Rat)

/-- Split `n` by weights, the largest remainders first. -/
def apportion (n : Nat) (weights : List Rat) : List Nat :=
  let total : Rat := weights.foldl (fun a b => rnd (a + b)) 0
  if n = 0 ∨ total ≤ 0 then weights.map fun _ => 0
  else
    let exact : List Rat := weights.map fun w => rnd (rnd (n * w) / total)
    let out := exact.map fun x => x.floor.toNat
    let left := n - out.sum
    let remainders := exact.zipIdx.map fun x => (x.1 - (x.1.floor : Rat), x.2)
    let order := remainders.insertionSort fun a b => b.1 < a.1 ∨ b.1 = a.1 ∧ b.2 ≤ a.2
    let first := (order.take left).map (·.2)
    out.zipIdx.map fun x => if x.2 ∈ first then x.1 + 1 else x.1

/-- The oldest minute the ring keeps. -/
def oldestMinute (now : Int) : Int := minuteOf now - (TRAFFIC_RING_MINUTES - 1) * MINUTE_MS

/-- The minutes a report covers, each with how much of it. -/
def overlaps (intervalSec : Rat) (receivedAt : Int) : List (Int × Rat) :=
  let oldest : Rat := oldestMinute receivedAt
  let reach := rnd (receivedAt - rnd (intervalSec * 1000))
  let from_ := if oldest ≤ reach then reach else oldest
  let to_ : Rat := receivedAt
  let count := ((minuteOf to_ - minuteOf from_) / MINUTE_MS + 1).toNat
  (List.range count).filterMap fun (i : Nat) =>
    let m := minuteOf from_ + i * MINUTE_MS
    let start : Rat := m
    let stop : Rat := m + MINUTE_MS
    let w := (if to_ ≤ stop then to_ else stop) - (if from_ ≤ start then start else from_)
    if w ≤ 0 ∧ ¬ (from_ = to_ ∧ m = minuteOf to_) then none
    else some (m, if w ≤ 1 then 1 else w)

/-- What a report adds to a minute and a host. -/
structure Share where
  minute : Int
  host : String
  requests : Nat
  errors5xx : Nat

def shares (sample : EdgeTrafficSample) (receivedAt : Int) : List Share :=
  let mins := overlaps rnd sample.intervalSec receivedAt
  let weights := mins.map (·.2)
  sample.hosts.flatMap fun h =>
    let req := apportion rnd h.requests weights
    let err := apportion rnd h.errors5xx weights
    ((mins.zip (req.zip err)).map fun x => ⟨x.1.1, h.host, x.2.1, x.2.2⟩).filter fun s =>
      s.requests ≠ 0 || s.errors5xx ≠ 0

end

/-! ## The ring -/

structure HostCounter where
  requests : Nat
  errors5xx : Nat

/-- The counts of one org by minute, edge and host, and how much of a minute the reports
of an edge have covered. -/
structure OrgRing where
  minutes : Int → String → String → Option HostCounter
  coverage : Int → String → Option Rat

namespace OrgRing

def empty : OrgRing := ⟨fun _ _ _ => none, fun _ _ => none⟩

def cover (o : OrgRing) (nodeId : String) (part : Int × Rat) : OrgRing :=
  let covered := (o.coverage part.1 nodeId).getD 0 + part.2
  let capped : Rat := if covered ≤ MINUTE_MS then covered else MINUTE_MS
  { o with coverage := fun m n => if m = part.1 ∧ n = nodeId then some capped else o.coverage m n }

def add (o : OrgRing) (nodeId : String) (s : Share) : OrgRing :=
  let c := (o.minutes s.minute nodeId s.host).getD ⟨0, 0⟩
  let c' : HostCounter := ⟨c.requests + s.requests, c.errors5xx + s.errors5xx⟩
  { o with minutes := fun m n h =>
      if m = s.minute ∧ n = nodeId ∧ h = s.host then some c' else o.minutes m n h }

def prune (o : OrgRing) (oldest : Int) : OrgRing where
  minutes m n h := if m < oldest then none else o.minutes m n h
  coverage m n := if m < oldest then none else o.coverage m n

end OrgRing

/-! ## Rollups -/

/-- A row, but for its key. -/
structure TrafficRollupRow where
  requests : Nat
  errors5xx : Nat

/-- The rows of one org, by bucket, edge and host. -/
abbrev Rows := Int → String → String → Option TrafficRollupRow

/-- The minutes of a bucket. -/
def minutesOf (bucket : Int) : List Int :=
  (List.range 5).map fun (i : Nat) => bucket + i * MINUTE_MS

/-- Fold the minutes of a window into rows.  An edge that reported in a bucket gets a row
without a host. -/
def rollupRing (o : OrgRing) (from_ to_ : Int) : Rows := fun bucket nodeId host =>
  let inWindow := (minutesOf bucket).filter fun m => from_ ≤ m ∧ m < to_
  let cells := inWindow.filterMap fun m => o.minutes m nodeId host
  let marker := host = "" ∧ inWindow.any fun m => (o.coverage m nodeId).isSome
  if TRAFFIC_ROLLUP_MS ∣ bucket ∧ (cells ≠ [] ∨ marker) then
    some ⟨(cells.map (·.requests)).sum, (cells.map (·.errors5xx)).sum⟩
  else none

structure Window where
  from_ : Int
  to_ : Int

/-- The buckets that have completed and are not written yet, but for a grace of 30
seconds. -/
def rollupWindow (watermark now : Int) : Option Window :=
  let to_ := (now - 30000) / TRAFFIC_ROLLUP_MS * TRAFFIC_ROLLUP_MS
  let from_ := -(-watermark / TRAFFIC_ROLLUP_MS) * TRAFFIC_ROLLUP_MS
  if from_ < to_ then some ⟨from_, to_⟩ else none

/-! ## The worker -/

def PRUNE_EVERY_TICKS : Nat := 60

/-- What a tick waits for: that rows of one org are written, with the orgs it still has to
look at; or that old rows are deleted. -/
inductive Worker where
  | idle
  | flushing (now : Int) (org : String) (window : Window) (rows : Rows) (rest : List String)
  | pruning (now : Int)

/-- The state of the controller and of the database.  `given` is what the ring was ever
given, by org, minute, edge and host, and `prunedTo` how far old rows have been deleted;
they are only recorded. -/
structure State where
  now : Int
  bootBucket : Int
  orgIds : List String
  orgs : String → OrgRing
  watermark : String → Option Int
  worker : Worker
  ticks : Nat
  rows : String → Rows
  given : String → Int → String → String → Nat
  prunedTo : Option Int

/-- A controller that starts at a time. -/
def State.boot (now : Int) : State where
  now := now
  bootBucket := now / TRAFFIC_ROLLUP_MS * TRAFFIC_ROLLUP_MS
  orgIds := []
  orgs _ := .empty
  watermark _ := none
  worker := .idle
  ticks := 0
  rows _ _ _ _ := none
  given _ _ _ _ := 0
  prunedTo := none

namespace State

variable (s : State)

/-- `watermark.get(orgId) ?? bootBucket`. -/
def mark (org : String) : Int := (s.watermark org).getD s.bootBucket

def prune (now : Int) : State := { s with orgs := fun org => (s.orgs org).prune (oldestMinute now) }

/-- `edgeTraffic.record`, at the present time. -/
def record (rnd : Rat → Rat) (org nodeId : String) (sample : EdgeTrafficSample) : State :=
  let parts := overlaps rnd sample.intervalSec s.now
  let placed := shares rnd sample s.now
  let covered := parts.foldl (fun o part => o.cover nodeId part) (s.orgs org)
  let counted := placed.foldl (fun o share => o.add nodeId share) covered
  let recorded : State := { s with
    orgIds := if org ∈ s.orgIds then s.orgIds else s.orgIds ++ [org]
    orgs := update s.orgs org counted
    given := fun org' m n h =>
      if org' = org ∧ n = nodeId then
        s.given org' m n h + ((placed.filter fun x => x.minute = m ∧
          x.host = h).map (·.requests)).sum
      else s.given org' m n h }
  recorded.prune s.now

/-- Upsert the rows of a window and set the watermark to its end. -/
def flush (org : String) (window : Window) (rows : Rows) : State :=
  let upserted : Rows := fun b n h => rows b n h <|> s.rows org b n h
  { s with
    rows := update s.rows org upserted
    watermark := update s.watermark org (some window.to_) }

/-- The rest of a tick: the next org with a window is flushed; after the last one the ring
and the old rows are pruned, once an hour. -/
def proceed (now : Int) : List String → State
  | [] =>
    let counted := { s with ticks := s.ticks + 1 }
    if (s.ticks + 1) % PRUNE_EVERY_TICKS = 1 then { counted.prune now with worker := .pruning now }
    else { counted with worker := .idle }
  | org :: rest =>
    match rollupWindow (s.mark org) now with
    | none => proceed now rest
    | some window =>
      let rows := rollupRing (s.orgs org) window.from_ window.to_
      { s with worker := .flushing now org window rows rest }

end State

/-- A report arrives, time passes, the timer ticks, a flush is written or fails, or the
deletion of old rows succeeds or fails. -/
inductive Move where
  | record (org nodeId : String) (sample : EdgeTrafficSample)
  | elapse (ms : Nat)
  | tick
  | flushed
  | failed
  | deleted (ok : Bool)

def step (rnd : Rat → Rat) (s : State) : Move → Option State
  | .record org nodeId sample => some (s.record rnd org nodeId sample)
  | .elapse ms => some { s with now := s.now + ms }
  | .tick =>
    match s.worker with
    | .idle => some (s.proceed s.now s.orgIds)
    | .flushing _ _ _ _ _ | .pruning _ => some s
  | .flushed =>
    match s.worker with
    | .flushing now org window rows rest =>
      some ((s.flush org window rows).proceed now rest)
    | .idle | .pruning _ => none
  | .failed =>
    match s.worker with
    | .flushing now _ _ _ rest => some (s.proceed now rest)
    | .idle | .pruning _ => none
  | .deleted ok =>
    match s.worker with
    | .pruning now =>
      let idle := { s with worker := .idle }
      if ok then
        let cut := now - TRAFFIC_ROLLUP_RETENTION_MS
        some { idle with
          rows := fun org b n h => if b < cut then none else s.rows org b n h
          prunedTo := some (s.prunedTo.elim cut (max cut)) }
      else some idle
    | .idle | .flushing _ _ _ _ _ => none

end Swarmy.Traffic
