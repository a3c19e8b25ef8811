import Mathlib.Data.List.Sort
import Swarmy.Js.Value
import Swarmy.Keyed.Cells

/-!
# Tables over the store

`kvTable` of `packages/trpc/src/services/kv-repo.ts`: a collection of documents behind
the calls of a table, `create`, `update`, `upsert`, `updateMany`, `delete` and
`deleteMany`.  A call is the phase it is in, the access to the store it awaits; other
calls of the same controller run between.  An access is atomic: the store writes one
document at a time by compare and swap.  Reads come from the cache of the controller's
store, which a lost answer and a refused removal leave behind the swarm.  A `Date` in a
call's data stands as the ISO string `toDocDates` makes of it; nested compound keys of
`upsert` stand flattened.
-/

namespace Swarmy.KvTable

/-! ## Documents -/

/-- The own properties of an object, the last written first; `none` is `undefined`. -/
abbrev Doc := List (String × Option Js.Value)

/-- `d[f]`; what is `undefined` is not stored. -/
def Doc.get (d : Doc) (f : String) : Option Js.Value := (d.lookup f).join

/-- `{ ...d, ...patch }` -/
def Doc.merge (d patch : Doc) : Doc := patch ++ d

/-- The fields of a row that are not the document's. -/
def rowFields : List String := ["id", "orgId", "createdAt", "updatedAt"]

/-- What never reaches the store. -/
def clean (d : Doc) : Doc := d.filter fun p => !rowFields.contains p.1

/-- What the store holds of a row. -/
structure Stored where
  doc : Doc
  createdAt : Nat
  updatedAt : Nat

/-- A version of a document. -/
structure Version where
  seq : Nat
  row : Stored

/-- The rows of a table by id, each in the version that is known. -/
abbrev Rows := AList fun _ : String => Version

/-- How a table is declared. -/
structure Table where
  dateFields : List String
  defaults : Doc
  /-- Field sets that must be unique in the organisation. -/
  unique : List (List String)
  /-- One row, whose id is the organisation's. -/
  singleton : Bool
  orgId : String
  /-- `new Date(s).getTime()` -/
  getTime : String → Js.Num

variable (t : Table)

/-- What is shown for a document's value, defaults and dates in place. -/
def present (f : String) (v : Option Js.Value) : Js.Value :=
  let v := (v.or (t.defaults.get f)).getD .null
  if t.dateFields.contains f then
    match v with
    | .str s => .num (t.getTime s)
    | v => v
  else v

/-- `norm(row[f] ?? null)`: what a row shows under a field. -/
def cell (id : String) (r : Stored) (f : String) : Js.Value :=
  if f = "id" then .str id
  else if f = "orgId" then .str t.orgId
  else if f = "createdAt" then .num (.int r.createdAt)
  else if f = "updatedAt" then .num (.int r.updatedAt)
  else present t f (r.doc.get f)

/-! ## Filters -/

inductive Cond where
  | eq (v : Js.Value)
  | startsWith (p : String)
  | oneOf (vs : List Js.Value)
  | not (v : Js.Value)
  /-- Any other filter throws. -/
  | unsupported

/-- A filter; conditions that are `undefined` are left out. -/
abbrev Where := List (String × Cond)

inductive Failure where
  /-- `P2002` -/
  | unique (fields : List String)
  /-- `P2025` -/
  | notFound
  | filter (field : String)
  /-- The store has refused or lost the access. -/
  | store

/-- A row is what the filter asks for. -/
def matchWhere (id : String) (r : Stored) : Where → Except Failure Bool
  | [] => .ok true
  | (f, cond) :: rest =>
    let v := cell t id r f
    match cond with
    | .eq w => if v.same w then matchWhere id r rest else .ok false
    | .startsWith p =>
      match v with
      | .str s => if Js.startsWith s p then matchWhere id r rest else .ok false
      | _ => .ok false
    | .oneOf vs => if vs.any v.same then matchWhere id r rest else .ok false
    | .not w => if v.same w then .ok false else matchWhere id r rest
    | .unsupported => .error (.filter f)

/-- The filter without the organisation; `none` for another one's rows. -/
def scopedWhere (w : Where) : Option Where :=
  if w.any (fun p => p.1 == "orgId" && match p.2 with
      | .eq v => !v.same (.str t.orgId)
      | _ => true) then none
  else some (w.filter (·.1 ≠ "orgId"))

/-- `findMany`: the ids of the rows a filter asks for, in the store's order. -/
def findMany (rows : Rows) (w : Where) : Except Failure (List String) :=
  match scopedWhere t w with
  | none => .ok []
  | some w =>
    ((rows.entries.insertionSort fun a b => a.1 ≤ b.1).filterM fun e =>
      matchWhere t e.1 e.2.row w).map fun es => es.map (·.1)

/-! ## The check -/

/-- `create` compares what a row shows with its data. -/
def clash (data : Doc) (fields : List String) (cells : String → Js.Value) : Bool :=
  fields.all fun f => (cells f).same ((data.get f).getD .null)

/-! ## Calls -/

inductive Call where
  /-- With the id that `newKvId` draws. -/
  | create (data : Doc) (fresh : String)
  | update (w : Where) (data : Doc)
  | upsert (w : Where) (create update : Doc) (fresh : String)
  | updateMany (w : Where) (data : Doc)
  | delete (w : Where)
  | deleteMany (w : Where)

/-- What a call does with the rows it has found. -/
inductive Next where
  | updateOne (data : Doc)
  | upsert (create update : Doc) (fresh : String)
  | updateMany (data : Doc)
  | deleteOne
  | deleteMany

/-- The access a call awaits. -/
inductive Phase where
  /-- `all()` in `create`, for the first of the sets that are left. -/
  | checking (id : String) (data : Doc) (checked todo : List (List String))
  /-- `coll.create` -/
  | putting (id : String) (data : Doc)
  /-- `findMany` -/
  | finding (w : Where) (next : Next)
  /-- `coll.update` of the first of these rows; `update` needs it to exist. -/
  | patching (ids : List String) (data : Doc) (one : Bool)
  /-- `coll.remove` -/
  | removing (ids : List String) (one : Bool)
  | ended (result : Except Failure Unit)

/-- The id of a new row. -/
def idFor (data : Doc) (fresh : String) : String :=
  if t.singleton then t.orgId
  else match data.get "id" with
    | some (.str id) => id
    | _ => fresh

/-- On to the next check, or to the write. -/
def afterCheck (id : String) (data : Doc) (checked todo : List (List String)) : Phase :=
  if todo.isEmpty then .putting id data else .checking id data checked todo

def startCreate (data : Doc) (fresh : String) : Phase :=
  afterCheck (idFor t data fresh) (clean data) [] t.unique

/-- `args.where.id` of an update by id. -/
def whereId (w : Where) : Option String :=
  w.findSome? fun p => if p.1 = "id" then
      match p.2 with
      | .eq (.str id) => some id
      | _ => none
    else none

def Call.start : Call → Phase
  | .create data fresh => startCreate t data fresh
  | .update w data =>
    match whereId w with
    | some id => .patching [id] (clean data) true
    | none => .finding w (.updateOne (clean data))
  | .upsert w created updated fresh => .finding w (.upsert created (clean updated) fresh)
  | .updateMany w data => .finding w (.updateMany (clean data))
  | .delete w => .finding w .deleteOne
  | .deleteMany w => .finding w .deleteMany

/-- Go on with the rows of a loop that are left. -/
def Phase.loop (ids : List String) (p : List String → Phase) : Phase :=
  if ids.isEmpty then .ended (.ok ()) else p ids

/-- What is done with the rows that were found. -/
def Next.found (ids : List String) : Next → Phase
  | .updateOne data =>
    match ids with
    | id :: _ => .patching [id] data true
    | [] => .ended (.error .notFound)
  | .upsert created updated fresh =>
    match ids with
    | id :: _ => .patching [id] updated true
    | [] => startCreate t created fresh
  | .updateMany data => .loop ids (.patching · data false)
  | .deleteOne =>
    match ids with
    | id :: _ => .removing [id] true
    | [] => .ended (.error .notFound)
  | .deleteMany => .loop ids (.removing · false)

/-- A key the store takes. -/
def validId (id : String) : Bool :=
  match id.toList with
  | [] => false
  | c :: cs =>
    c.isAlphanum && cs.length ≤ 39 && cs.all fun c => c.isAlphanum || c == '_' || c == '-'

/-! ## The store -/

structure State where
  now : Nat
  /-- The versions of each document in the swarm, the newest first. -/
  swarm : String → List Version
  /-- What the controller's store knows. -/
  cache : Rows
  /-- The calls, in the order they were made. -/
  calls : List Phase

/-- How an access goes. -/
inductive Fate where
  /-- Of the versions it takes away these are gone. -/
  | carriedOut (gone : Nat → Bool)
  /-- A write whose fingerprint is the cached version's: nothing is written. -/
  | skipped
  | failed
  /-- A version is written, but the answer is lost. -/
  | lost

/-- The version a write goes by: the one in the cache, or, where the name of the next
one is taken, the newest in the swarm. -/
def State.base (s : State) (id : String) : Option Version :=
  let cached := s.cache.lookup id
  if (s.swarm id).any (·.seq = (cached.map (·.seq)).getD 0 + 1) then (s.swarm id).head? else cached

/-- A document has a new version; of the older ones some are gone. -/
def State.added (s : State) (id : String) (v : Version) (gone : Nat → Bool) : State :=
  { s with
    swarm := Function.update s.swarm id <|
      ((s.swarm id).orderedInsert (·.seq ≥ ·.seq) v).filter fun u =>
        !(gone u.seq && u.seq < v.seq) }

/-- The new version is in the cache too. -/
def State.cached (s : State) (id : String) (v : Version) : State :=
  { s with cache := s.cache.insert id v }

/-- `SwarmKv.delete`, with the removals that were carried out. -/
def State.removed (s : State) (id : String) (gone : Nat → Bool) : State :=
  { s with
    swarm := Function.update s.swarm id ((s.swarm id).filter fun v => !gone v.seq)
    cache := s.cache.erase id }

/-- Some documents are read anew. -/
def State.refresh (s : State) (ids : List String) : State :=
  { s with
    cache := ids.foldl (fun cache id =>
      match (s.swarm id).head? with
      | some v => cache.insert id v
      | none => cache.erase id) s.cache }

/-! ## Accesses -/

/-- The row a create writes. -/
def newRow (now : Nat) (data : Doc) : Stored :=
  { doc := Doc.merge t.defaults (clean data), createdAt := now, updatedAt := now }

/-- The row an update leaves. -/
def Stored.patch (r : Stored) (now : Nat) (data : Doc) : Stored :=
  { r with doc := r.doc.merge (clean data), updatedAt := now }

/-- `SwarmKv.update`: a write of a row, the call going on to `next`. -/
def State.write (s : State) (id : String) (row : Option Stored → Stored) (next : Phase) :
    Fate → Phase × State
  | .carriedOut gone =>
    let base := s.base id
    let v := ⟨(base.map (·.seq)).getD 0 + 1, row (base.map (·.row))⟩
    (next, (s.added id v gone).cached id v)
  | .skipped => (next, s)
  | .failed => (.ended (.error .store), s)
  | .lost =>
    let base := s.base id
    (.ended (.error .store),
      s.added id ⟨(base.map (·.seq)).getD 0 + 1, row (base.map (·.row))⟩ fun _ => false)

/-- An access: the call's next phase, and the store. -/
def access (s : State) (fate : Fate) : Phase → Phase × State
  | .checking id data checked todo =>
    match fate, todo with
    | .failed, _ => (.ended (.error .store), s)
    | _, [] => (.putting id data, s)
    | _, fields :: rest =>
      if s.cache.entries.any fun e => clash data fields (cell t e.1 e.2.row) then
        (.ended (.error (.unique fields)), s)
      else (afterCheck id data (fields :: checked) rest, s)
  | .putting id data =>
    if validId id then s.write id (fun _ => newRow t s.now data) (.ended (.ok ())) fate
    else (.ended (.error .store), s)
  | .finding w next =>
    match fate, findMany t s.cache w with
    | .failed, _ => (.ended (.error .store), s)
    | _, .ok ids => (next.found t ids, s)
    | _, .error e => (.ended (.error e), s)
  | .patching ids data one =>
    match ids with
    | [] => (.ended (.ok ()), s)
    | id :: rest =>
      if !validId id then (.ended (.error .store), s)
      else match s.cache.lookup id with
        | some v => s.write id (fun r => (r.getD v.row).patch s.now data)
            (.loop rest (.patching · data one)) fate
        | none => (if one then .ended (.error .notFound) else .loop rest (.patching · data one), s)
  | .removing ids one =>
    match ids, fate with
    | [], _ => (.ended (.ok ()), s)
    | id :: rest, .carriedOut gone =>
      (if one && (s.swarm id).isEmpty then .ended (.error .notFound)
        else .loop rest (.removing · one), s.removed id gone)
    | _ :: _, _ => (.ended (.error .store), s)
  | .ended r => (.ended r, s)

/-! ## The controller -/

inductive Move where
  | call (c : Call)
  | resume (n : Nat) (fate : Fate)
  /-- The cache is read anew from the swarm, some documents at a time. -/
  | refresh (ids : List String)
  | tick (dt : Nat)

def step (s : State) : Move → Option State
  | .call c => some { s with calls := s.calls ++ [c.start t] }
  | .refresh ids => some (s.refresh ids)
  | .tick dt => some { s with now := s.now + dt }
  | .resume n fate =>
    (s.calls[n]?).bind fun p =>
      match p with
      | .ended _ => none
      | p =>
        let (next, s') := access t s fate p
        some { s' with calls := s.calls.set n next }

/-- The states that runs reach whose moves satisfy a condition. -/
inductive Reach (C : State → Move → Prop) (s₀ : State) : State → Prop
  | refl : Reach C s₀ s₀
  | tail {s s' : State} {m : Move} (h : Reach C s₀ s) (hc : C s m) (hs : step t s m = some s') :
      Reach C s₀ s'

end Swarmy.KvTable
