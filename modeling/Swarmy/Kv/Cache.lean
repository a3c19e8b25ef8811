import Mathlib.Tactic.Common
import Mathlib.Data.List.Sort

/-!
# swarm-kv: the cache of one instance

What an instance of `SwarmKv` does to its cache entry of one key, a suspension at a time:
`refresh` with its generations, `update` with `refreshKey` and `gc`, and `getDoc`, while
another controller writes to the swarm.  A version is its number; the rest of a document
does not decide which version the cache holds.

At most one load and one write of an instance are under way, so the state has one place
for each.  What a call does and the arrival of its answer are one step, except for the
create of `update`: the swarm has the version before the instance knows it.
-/

namespace Swarmy.KvCache

/-! ## Versions -/

/-- The last version of a list, 0 without one. -/
def latest (vs : List Nat) : Nat := vs.getLast?.getD 0

/-- The highest version of a list, 0 without one. -/
def newest (vs : List Nat) : Nat := vs.foldr max 0

/-- The version after the latest. -/
def next (vs : List Nat) : Nat := latest vs + 1

/-- `list.sort((a, b) => a.seq - b.seq)` -/
def sorted (vs : List Nat) : List Nat := vs.insertionSort (· ≤ ·)

/-! ## The state -/

/-- The options that matter here. -/
structure Options where
  keep : Nat
  keep_pos : 0 < keep
  maxRetries : Nat

/-- `doRefresh`. -/
inductive Load where
  | /-- The swarm is being listed; the load has begun at this generation. -/
    listing (startGen : Nat)
  | /-- The listed latest versions are being read. -/
    reading (startGen : Nat) (listed : List Nat)

/-- `update`; `attempt` counts from 0. -/
inductive Write where
  | /-- The function has been given the entry. -/
    function (cur : List Nat) (attempt : Nat)
  | /-- The create has been sent. -/
    creating (cur : List Nat) (attempt : Nat)
  | /-- The create has been carried out. -/
    created (cur : List Nat) (attempt : Nat)
  | /-- `refreshKey` lists the swarm. -/
    refreshing (attempt : Nat)
  | /-- `refreshKey` reads the latest of what it has listed. -/
    rereading (versions : List Nat) (attempt : Nat)
  | backoff (attempt : Nat)
  | /-- `gc` of an entry. -/
    collecting (e kept drop : List Nat)

/-- What a caller has been told. -/
inductive Answer where
  | /-- `getDoc` -/
    got (seq : Nat)
  | /-- `update` -/
    resolved (seq : Nat)
deriving DecidableEq

def Answer.seq : Answer → Nat
  | .got n | .resolved n => n

structure State where
  /-- The versions of the key in the swarm. -/
  store : List Nat
  /-- The versions of the cache entry; none without one. -/
  entry : List Nat
  gen : Nat
  touched : Option Nat
  /-- `loadedAt` is set. -/
  loaded : Bool
  load : Option Load
  write : Option Write
  /-- What callers have been told, the last first. -/
  told : List Answer

/-- A new instance over a swarm. -/
def start (store : List Nat) : State where
  store := store
  entry := []
  gen := 0
  touched := none
  loaded := false
  load := none
  write := none
  told := []

/-- What comes of a remove: it is carried out, it has no effect, or its answer is lost. -/
inductive Fate where
  | ok | failed | lost
deriving DecidableEq

/-! ## Steps -/

inductive Move where
  | /-- `ensureFresh` or `refresh` starts a load. -/
    refresh
  | listed
  | loaded
  | loadFails
  | /-- A `getDoc` returns that needs to await no load any more. -/
    getDoc
  | /-- An `update` has its turn. -/
    update
  | /-- The function has returned: a value to write, or nothing new. -/
    returned (unchanged : Bool)
  | /-- The update throws before its create. -/
    refused
  | create
  | createFails (lost : Bool)
  | committed
  | relisted
  | reread
  | refreshKeyFails
  | again
  | remove (fate : Fate)
  | collected
  | /-- Another controller writes a version. -/
    otherCreates (seq : Nat)
  | /-- Another controller removes an older version. -/
    otherRemoves (seq : Nat)

/-- The key has been written locally after this generation. -/
def State.TouchedAfter (s : State) (startGen : Nat) : Prop :=
  ∃ t, s.touched = some t ∧ startGen < t

instance (s : State) (startGen : Nat) : Decidable (s.TouchedAfter startGen) :=
  match h : s.touched with
  | none => .isFalse fun ⟨_, ht, _⟩ => by rw [h] at ht; cases ht
  | some t => if hlt : startGen < t then .isTrue ⟨t, h, hlt⟩
    else .isFalse fun ⟨_, ht, hlt'⟩ => by rw [h] at ht; cases ht; exact hlt hlt'

/-- `this.gen += 1; this.touched.set(k, this.gen)` -/
def State.touch (s : State) : State := { s with gen := s.gen + 1, touched := some (s.gen + 1) }

/-- The update returns `docOf`. -/
def State.resolve (s : State) : State :=
  { s with write := none, told := .resolved (latest s.entry) :: s.told }

/-- The end of `doRefresh`. -/
def State.merge (s : State) (startGen : Nat) (listed : List Nat) : State :=
  { s with
    entry := if s.TouchedAfter startGen then s.entry else listed
    touched := none
    loaded := true
    load := none }

/-- The create has been accepted: remember the version and collect garbage. -/
def State.commit (o : Options) (s : State) (cur : List Nat) : State :=
  let e := cur ++ [next cur]
  let s := { s with entry := e }.touch
  if e.length ≤ o.keep then s.resolve
  else { s with write := some (.collecting e (e.drop (e.length - o.keep))
    (e.take (e.length - o.keep))) }

def step (o : Options) (s : State) : Move → Option State
  | .refresh => if s.load = none then some { s with load := some (.listing s.gen) } else none
  | .listed => match s.load with
    | some (.listing g) => some { s with load := some (.reading g (sorted s.store)) }
    | _ => none
  | .loaded => match s.load with
    | some (.reading g l) => some (s.merge g l)
    | _ => none
  | .loadFails => if s.load = none then none else some { s with load := none }
  | .getDoc => if s.loaded then some { s with told := .got (latest s.entry) :: s.told } else none
  | .update =>
    if s.loaded ∧ s.write = none then some { s with write := some (.function s.entry 0) } else none
  | .returned unchanged => match s.write with
    | some (.function cur a) =>
      some (if unchanged then s.resolve else { s with write := some (.creating cur a) })
    | _ => none
  | .refused => match s.write with
    | some (.function _ _) => some { s with write := none }
    | _ => none
  | .create => match s.write with
    | some (.creating cur a) => some (
      if next cur ∈ s.store then
        { s with write := if a < o.maxRetries then some (.refreshing a) else none }
      else { s with store := next cur :: s.store, write := some (.created cur a) })
    | _ => none
  | .createFails lost => match s.write with
    | some (.creating cur _) => some { s with
        store := if lost ∧ next cur ∉ s.store then next cur :: s.store else s.store
        write := none }
    | _ => none
  | .committed => match s.write with
    | some (.created cur _) => some (s.commit o cur)
    | _ => none
  | .relisted => match s.write with
    | some (.refreshing a) => some (
      if s.store = [] then { s.touch with entry := [], write := some (.backoff a) }
      else { s.touch with write := some (.rereading (sorted s.store) a) })
    | _ => none
  | .reread => match s.write with
    | some (.rereading vs a) => some { s with entry := vs, write := some (.backoff a) }
    | _ => none
  | .refreshKeyFails => match s.write with
    | some (.refreshing _) | some (.rereading _ _) => some { s with write := none }
    | _ => none
  | .again => match s.write with
    | some (.backoff a) => some { s with write := some (.function s.entry (a + 1)) }
    | _ => none
  | .remove fate => match s.write with
    | some (.collecting e kept (v :: drop)) => some { s with
        store := if fate = .failed then s.store else s.store.erase v
        write := some (.collecting e (if fate = .ok then kept else v :: kept) drop) }
    | _ => none
  | .collected => match s.write with
    | some (.collecting _ kept []) => some { s with entry := sorted kept }.resolve
    | _ => none
  | .otherCreates seq =>
    if seq = 0 ∨ seq ∈ s.store then none else some { s with store := seq :: s.store }
  | .otherRemoves seq =>
    -- The latest version stays: the key is never deleted.
    if ∃ v ∈ s.store, seq < v then some { s with store := s.store.erase seq } else none

/-! ## The promise and what it takes -/

/-- No `getDoc` is behind what a caller has been told before. -/
def NeverBack (told : List Answer) : Prop :=
  told.Pairwise fun later earlier => ∀ n, later = .got n → earlier.seq ≤ n

/-- The version that a write is going to put into the cache. -/
def Write.pending : Write → Option Nat
  | .created cur _ => some (next cur)
  | .rereading vs _ => some (latest vs)
  | .collecting e _ _ => some (latest e)
  | _ => none

/-- The side condition on steps.  A create takes no number below one in the swarm, and no
load brings a version into the cache that is above the one which a write under way is
going to put there. -/
def Careful (s : State) : Move → Prop
  | .create => ∀ cur a, s.write = some (.creating cur a) → next cur ∉ s.store →
      ∀ v ∈ s.store, v < next cur
  | .loaded => ∀ g l, s.load = some (.reading g l) → ¬s.TouchedAfter g →
      ∀ x p, s.write = some x → x.pending = some p → latest l ≤ p
  | _ => True

/-- The states that careful steps lead to. -/
inductive Reach (o : Options) (s₀ : State) : State → Prop where
  | start : Reach o s₀ s₀
  | step {s s' : State} (m : Move) (h : Reach o s₀ s) (hm : Careful s m)
      (hs : step o s m = some s') : Reach o s₀ s'

end Swarmy.KvCache
