import Swarmy.Coop.Logic

/-!
# The tiered certificate store

The type `Tiered` of `docker/caddy-swarmy/certstore/tiered.go`, with a replica:
`Load`, `Store`, `Delete` and the background reconcile `syncOnce`, as programs
that suspend at each call of the local tier and of the replica.  Locks, listings
for the caller, the timers of the background loop and its `Kick`, and the deadline
of a whole reconcile are left out: a reconcile may start at any time.

The fields `log` and `running` of the world are history variables.  No
program decides anything by them.
-/

namespace Swarmy.Cert

open Coop Function

/-! ## Keys -/

/-- Is the key a file below the path? -/
def under (p k : String) : Bool := p == "" || (p ++ "/").toList.isPrefixOf k.toList

/-- Is the key the path, or a file below it? -/
def covers (p k : String) : Bool := k == p || under p k

/-- Keys that never touch the replica. -/
def nodeLocal (key : String) : Bool := "ocsp/".toList.isPrefixOf key.toList

/-- The last element of a path. -/
def base (key : String) : List Char := (key.toList.reverse.takeWhile (· ≠ '/')).reverse

/-- Keys the reconcile looks at: certificate material only. -/
def syncable (key : String) : Bool :=
  key.toList.contains '/' &&
  !("locks/".toList.isPrefixOf key.toList || "challenge_tokens/".toList.isPrefixOf key.toList ||
    nodeLocal key) &&
  !(".lock".toList.isSuffixOf key.toList || ['.'].isPrefixOf (base key))

/-- The keys without repetitions and without the empty one. -/
def dedupe (keys : List String) : List String := (keys.filter (· ≠ "")).eraseDups

/-! ## The tiers -/

/-- A stored file. -/
structure CertFile where
  bytes : List UInt8
  modified : Nat

/-- The files of a tier, by key. -/
abbrev Tier := AList fun _ : String => CertFile

/-- The files whose keys satisfy `f`. -/
def Tier.keep (t : Tier) (f : String → Bool) : Tier :=
  ⟨t.entries.filter fun e => f e.1, t.nodupKeys.sublist List.filter_sublist⟩

/-- The bytes under a key. -/
def Tier.bytes (t : Tier) (k : String) : Option (List UInt8) := (t.lookup k).map (·.bytes)

/-- The keys of the files that satisfy `f`. -/
def Tier.keysWith (t : Tier) (f : String → Bool) : List String := t.keys.filter f

/-- Errors of a tier: `fs.ErrNotExist`, the "not found" of a bare HTTP 404, and
everything else. -/
inductive StorageError where
  | notExist | headNotFound | unavailable
deriving DecidableEq

/-- The replica answered "no such key". -/
def replicaMiss : StorageError → Bool
  | .notExist | .headNotFound => true
  | .unavailable => false

structure KeyInfo where
  modified : Nat
  isTerminal : Bool

/-- A write operation of the store; a `delete` with the local keys it was given to
remove when it began. -/
inductive CertOp where
  | store (k : String) (v : List UInt8)
  | delete (p : String) (had : List String)

/-- The keys an operation writes. -/
def CertOp.covers : CertOp → String → Bool
  | .store k _, k' => k' == k
  | .delete p _, k' => Cert.covers p k'

/-- What callers see of the write operations. -/
inductive CertEvent where
  | began (op : CertOp)
  | returned (op : CertOp)

/-- The two tiers with their clocks, and the fields of `Tiered`. -/
structure CertWorld where
  now : Nat
  replicaNow : Nat
  loc : Tier
  rep : Tier
  downUntil : Nat
  down : Bool
  dirty : Bool
  pendingDeletes : List String
  /-- The calls and returns of write operations, newest first. -/
  log : List CertEvent
  /-- The write operation each task is in. -/
  running : Nat → Option CertOp

/-! ## Calls -/

inductive CertCall where
  | localLoad (k : String)
  | localStore (k : String) (v : List UInt8)
  | localDelete (p : String)
  | localStat (k : String)
  | localList (p : String)
  | chtimes (k : String) (modified : Nat)
  | replicaLoad (k : String)
  | replicaStore (k : String) (v : List UInt8)
  | replicaDelete (k : String)
  | replicaStat (k : String)
  | replicaList (p : String)

/-- The calls of the tiers and their answers. -/
def CertSig : Sig where
  Call := CertCall
  Ans
    | .localLoad _ | .replicaLoad _ => Except StorageError (List UInt8)
    | .localStat _ => Except StorageError KeyInfo
    | .replicaStat _ => Except StorageError Nat
    | .localList _ | .replicaList _ => Except StorageError (List String)
    | .localStore _ _ | .localDelete _ | .chtimes _ _ | .replicaStore _ _ | .replicaDelete _ =>
      Except StorageError Unit

/-- How a call may go. -/
inductive CertChoice where
  | /-- It is carried out and answered. -/
    ok
  | /-- It fails and has no effect. -/
    fail
  | /-- It is carried out, but its answer is lost. -/
    lost
deriving DecidableEq

/-- A program of the store. -/
abbrev CertProg := Prog CertSig CertWorld StorageError

/-- Is the call one of the replica? -/
def CertCall.replica : CertCall → Bool
  | .replicaLoad _ | .replicaStore _ _ | .replicaDelete _ | .replicaStat _ | .replicaList _ => true
  | _ => false

/-- The answer and the effect of a call that is carried out. -/
def certDo : (c : CertCall) → CertWorld → CertSig.Ans c × CertWorld
  | .localLoad k, w => (match w.loc.lookup k with
      | some f => .ok f.bytes
      | none => .error .notExist, w)
  | .localStore k v, w => (.ok (), { w with loc := w.loc.insert k ⟨v, w.now⟩ })
  | .localDelete p, w => (.ok (), { w with loc := w.loc.keep fun k => !covers p k })
  | .localStat k, w => (match w.loc.lookup k with
      | some f => .ok ⟨f.modified, true⟩
      | none => if (w.loc.keysWith (under k)).isEmpty then .error .notExist
        else .ok ⟨w.now, false⟩, w)
  | .localList p, w => (.ok (w.loc.keysWith (under p)), w)
  | .chtimes k t, w => match w.loc.lookup k with
      | some f => (.ok (), { w with loc := w.loc.insert k ⟨f.bytes, t⟩ })
      | none => (.error .notExist, w)
  | .replicaLoad k, w => (match w.rep.lookup k with
      | some f => .ok f.bytes
      | none => .error .notExist, w)
  | .replicaStore k v, w => (.ok (), { w with rep := w.rep.insert k ⟨v, w.replicaNow⟩ })
  | .replicaDelete k, w => (.ok (), { w with rep := w.rep.erase k })
  | .replicaStat k, w => (match w.rep.lookup k with
      | some f => .ok f.modified
      | none => .error .headNotFound, w)
  | .replicaList p, w => (.ok (w.rep.keysWith (under p)), w)

/-- The answer of a call that has failed. -/
def certFail : (c : CertCall) → CertSig.Ans c
  | .localLoad _ | .replicaLoad _ => .error .unavailable
  | .localStat _ => .error .unavailable
  | .replicaStat _ => .error .unavailable
  | .localList _ | .replicaList _ => .error .unavailable
  | .localStore _ _ | .localDelete _ | .chtimes _ _ | .replicaStore _ _ | .replicaDelete _ =>
    .error .unavailable

/-- Answer a call. -/
def certExec (χ : CertChoice) (c : CertCall) (w : CertWorld) :
    Option (CertSig.Ans c × CertWorld) :=
  match χ with
  | .ok => some (certDo c w)
  | .fail => some (certFail c, w)
  | .lost => some (certFail c, (certDo c w).2)

/-! ## Replica health -/

/-- The replica is skipped this long after a failure. -/
def defaultBackoff : Nat := 30000

/-- Any gap of modification times above this means that one side changed. -/
def mtimeTolerance : Nat := 2000

def probeKey : String := ".swarmy-replica-probe"

def replicaUp : CertProg Bool := .read fun w => w.downUntil ≤ w.now

def markDown : CertProg Unit := .modify fun w =>
  { w with down := true, dirty := true, downUntil := w.now + defaultBackoff }

def markUp : CertProg Unit := .modify fun w => { w with down := false, downUntil := 0 }

def setDirty : CertProg Unit := .modify fun w => { w with dirty := true }

/-- `delete(t.pendingDeletes, key)` -/
def forget (k : String) : CertProg Unit := .modify fun w =>
  { w with pendingDeletes := w.pendingDeletes.filter (· ≠ k) }

/-- Remember a delete the replica has not seen. -/
def remember (k : String) : CertProg Unit := .modify fun w =>
  { w with pendingDeletes := w.pendingDeletes.insert k, dirty := true }

/-- Does the replica answer at all? -/
def probe : CertProg Unit := do
  match ← Prog.perform (S := CertSig) (.replicaStat probeKey) with
  | .ok _ => markUp
  | .error e => if replicaMiss e then markUp else do markDown; throw e

/-- Set the local copy's modification time to the replica's. -/
def alignMtime (k : String) : CertProg Unit := do
  match ← Prog.perform (S := CertSig) (.replicaStat k) with
  | .error _ => pure ()
  | .ok modified =>
    if modified = 0 then pure ()
    else do let _ ← Prog.perform (S := CertSig) (.chtimes k modified)

/-! ## Load, Store and Delete -/

/-- Write a replica hit back. -/
def writeBack (k : String) (v : List UInt8) : CertProg Unit := do
  match ← Prog.perform (S := CertSig) (.localStore k v) with
  | .ok () => alignMtime k
  | .error _ => pure ()

def load (k : String) : CertProg (List UInt8) := do
  match ← Prog.perform (S := CertSig) (.localLoad k) with
  | .ok v => pure v
  | .error e =>
    let up ← replicaUp
    if e ≠ .notExist ∨ nodeLocal k ∨ !up then throw e
    else match ← Prog.perform (S := CertSig) (.replicaLoad k) with
      | .ok rv => do markUp; writeBack k rv; pure rv
      | .error re =>
        if replicaMiss re then do markUp; throw e
        else do markDown; throw .notExist

def store (k : String) (v : List UInt8) : CertProg Unit := do
  match ← Prog.perform (S := CertSig) (.localStore k v) with
  | .error e => throw e
  | .ok () =>
    if nodeLocal k then pure ()
    else do
      forget k
      if ← replicaUp then
        match ← Prog.perform (S := CertSig) (.replicaStore k v) with
        | .error _ => markDown
        | .ok () => do markUp; alignMtime k
      else setDirty

/-- Those of the keys that are files. -/
def terminalKeys : List String → CertProg (List String)
  | [] => pure []
  | k :: keys => do
    let ki ← Prog.perform (S := CertSig) (.localStat k)
    let rest ← terminalKeys keys
    pure (if ki.toOption.any (·.isTerminal) then k :: rest else rest)

/-- The files below a path. -/
def localTerminalKeys (p : String) : CertProg (List String) := do
  match ← Prog.perform (S := CertSig) (.localList p) with
  | .ok keys => terminalKeys keys
  | .error _ => pure []

/-- A directory is expanded into its files. -/
def expand (p : String) : CertProg (List String) := do
  match ← Prog.perform (S := CertSig) (.localStat p) with
  | .ok ki => if ki.isTerminal then pure [p] else localTerminalKeys p
  | .error _ => pure [p]

/-- The replica's files below a path too, if it answers. -/
def expandReplica (p : String) (keys : List String) : CertProg (List String) := do
  if ← replicaUp then
    match ← Prog.perform (S := CertSig) (.replicaList p) with
    | .ok rk => pure (keys ++ rk)
    | .error _ => pure keys
  else pure keys

def deleteReplica (k : String) : CertProg Unit := do
  if ← replicaUp then
    match ← Prog.perform (S := CertSig) (.replicaDelete k) with
    | .ok () => pure ()
    | .error e => if replicaMiss e then pure () else do markDown; remember k
  else remember k

def delete (p : String) : CertProg Unit := do
  let keys ← expand p
  let lerr ← Prog.perform (S := CertSig) (.localDelete p)
  if nodeLocal p then .ofExcept lerr
  else do
    let keys ← expandReplica p keys
    .forEach deleteReplica (dedupe keys)
    .ofExcept lerr

/-! ## The reconcile -/

/-- What one reconcile did. -/
structure SyncStats where
  pulled : Nat
  pushed : Nat
  deleted : Nat

/-- Replay remembered deletes. -/
def replay : List String → CertProg Unit
  | [] => pure ()
  | k :: deletes => do
    match ← Prog.perform (S := CertSig) (.replicaDelete k) with
    | .ok () => do forget k; replay deletes
    | .error e =>
      if replicaMiss e then do forget k; replay deletes
      else do markDown; throw e

/-- The modification times of local files. -/
def localTimes : List String → CertProg (List (String × Nat))
  | [] => pure []
  | k :: keys => do
    match ← Prog.perform (S := CertSig) (.localStat k) with
    | .ok ki => do return (k, ki.modified) :: (← localTimes keys)
    | .error _ => localTimes keys

/-- The modification times of the replica's files. -/
def remoteTimes : List String → CertProg (List (String × Nat))
  | [] => pure []
  | k :: keys => do
    match ← Prog.perform (S := CertSig) (.replicaStat k) with
    | .ok modified => do return (k, modified) :: (← remoteTimes keys)
    | .error e => if replicaMiss e then remoteTimes keys else do markDown; throw e

def push (k : String) : CertProg Unit := do
  match ← Prog.perform (S := CertSig) (.localLoad k) with
  | .error e => if e = .notExist then pure () else throw e
  | .ok v =>
    match ← Prog.perform (S := CertSig) (.replicaStore k v) with
    | .error e => do markDown; throw e
    | .ok () => alignMtime k

/-- The end of a pull: the time of the replica's copy. -/
def setMtime (k : String) (modified : Nat) : CertProg Unit :=
  if modified = 0 then pure ()
  else do let _ ← Prog.perform (S := CertSig) (.chtimes k modified)

/-- Take over what the replica holds; has anything changed? -/
def pull (k : String) (modified : Nat) : CertProg Bool := do
  match ← Prog.perform (S := CertSig) (.replicaLoad k) with
  | .error e => if replicaMiss e then pure false else do markDown; throw e
  | .ok v =>
    let cur ← Prog.perform (S := CertSig) (.localLoad k)
    if cur.toOption = some v then do
      setMtime k modified
      pure false
    else match ← Prog.perform (S := CertSig) (.localStore k v) with
      | .error e => throw e
      | .ok () => do
        setMtime k modified
        pure true

/-- What to do about a key. -/
inductive SyncAction where
  | push
  | pull (modified : Nat)
  | leave

/-- Newer wins; a missing side is filled. -/
def syncAction : Option Nat → Option Nat → SyncAction
  | some _, none => .push
  | none, some rm => .pull rm
  | some lm, some rm =>
    if lm - rm > mtimeTolerance then .push
    else if rm - lm > mtimeTolerance then .pull rm
    else .leave
  | none, none => .leave

/-- Go through the keys of both tiers. -/
def reconcile (locals remotes : List (String × Nat)) (skip : List String) :
    List String → SyncStats → CertProg SyncStats
  | [], st => pure st
  | k :: all, st => do
    match syncAction (locals.lookup k) (remotes.lookup k) with
    | .push => do
      push k
      reconcile locals remotes skip all { st with pushed := st.pushed + 1 }
    | .pull rm =>
      if skip.contains k then reconcile locals remotes skip all st
      else do
        let changed ← pull k rm
        reconcile locals remotes skip all
          (if changed then { st with pulled := st.pulled + 1 } else st)
    | .leave => reconcile locals remotes skip all st

/-- The keys of both tiers, sorted. -/
def allKeys (locals remotes : List (String × Nat)) : List String :=
  (locals.map (·.1) ++ (remotes.map (·.1)).filter fun k => (locals.lookup k).isNone).insertionSort
    (· ≤ ·)

def syncOnce : CertProg SyncStats := do
  probe
  let deletes ← Prog.read (·.pendingDeletes)
  replay deletes
  let keys ← localTerminalKeys ""
  let locals ← localTimes (keys.filter syncable)
  match ← Prog.perform (S := CertSig) (.replicaList "") with
  | .error e => do markDown; throw e
  | .ok rkeys =>
    let remotes ← remoteTimes (rkeys.filter syncable)
    let skip ← Prog.read (·.pendingDeletes)
    let st ← reconcile locals remotes skip (allKeys locals remotes) ⟨0, 0, deletes.length⟩
    .modify fun w => { w with dirty := false }
    pure st

/-! ## The system -/

inductive CertJob where
  | load (k : String)
  | store (k : String) (v : List UInt8)
  | delete (p : String)
  | sync

/-- What a task returns; a reconcile with the history at its start. -/
inductive CertResult where
  | loaded (v : List UInt8)
  | done
  | synced (st : SyncStats) (since : List CertEvent)

/-- Task `n` begins a write operation. -/
def CertWorld.enter (w : CertWorld) (n : Nat) (op : CertOp) : CertWorld :=
  { w with log := .began op :: w.log, running := update w.running n (some op) }

/-- Task `n` returns from its write operation. -/
def CertWorld.leave (w : CertWorld) (n : Nat) : CertWorld :=
  { w with
    log := ((w.running n).toList.map CertEvent.returned) ++ w.log
    running := update w.running n none }

/-- The program of a task. -/
def certBody (n : Nat) : CertJob → CertProg CertResult
  | .load k => do return .loaded (← load k)
  | .store k v => do
    .modify (·.enter n (.store k v))
    store k v
    .modify (·.leave n)
    return .done
  | .delete p => do
    .modify fun w => w.enter n (.delete p (w.loc.keysWith (covers p)))
    delete p
    .modify (·.leave n)
    return .done
  | .sync => do
    let since ← Prog.read (·.log)
    let st ← syncOnce
    return .synced st since

/-- One edge's store.  The environment lets both clocks advance. -/
def certSystem : System CertSig CertWorld StorageError CertResult where
  Job := CertJob
  Choice := CertChoice
  Env := Nat × Nat
  body := certBody
  ready _ _ := true
  exec := certExec
  env dt w := some { w with now := w.now + dt.1, replicaNow := w.replicaNow + dt.2 }

end Swarmy.Cert
