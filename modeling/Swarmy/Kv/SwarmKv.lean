import Swarmy.Coop.Logic
import Swarmy.Kv.Codec

/-!
# swarm-kv: the store

The class `SwarmKv` of `packages/core/src/swarm-kv.ts`, over a world that holds
the Docker configs of one swarm and any number of instances of the class.  A
driver call is a suspension; so are the other places where the code awaits
something: the caller's update function, the back-off, its turn in the write
chain and a load started by somebody else.

`KvWorld.created` and `SwarmKv.loader` are history variables: they record every
config a `create` has put into the swarm, and which task runs a load, and no
program reads them.  Programs are told the number `n` of their task; it is what
stands in the write chain for the promise of a write.
-/

namespace Swarmy.Kv

open Coop

/-! ## The swarm and the instances -/

/-- The labels of a config.  A numeric label is its number, and an absent one is
empty or zero, which is how the store reads it. -/
structure KvLabels where
  kv : String
  org : String
  collection : String
  id : String
  seq : Nat
  sha : String
  bytes : Nat

/-- One Docker config. -/
structure KvConfig where
  dataB64 : String
  labels : KvLabels
  createdAt : Nat

/-- One Docker config as listed. -/
structure KvConfigInfo where
  name : String
  createdAt : Nat
  labels : KvLabels

/-- What the cache knows about one version. -/
structure VersionMeta where
  seq : Nat
  bytes : Nat
  sha : String
  createdAt : Nat

/-- The cache entry of a document: its versions, oldest first, and the value of
the last one. -/
structure Entry (V : Type) where
  versions : List VersionMeta
  value : V

/-- The latest version of an entry. -/
def Entry.latest {V : Type} (e : Entry V) : Option VersionMeta := e.versions.getLast?

/-- The mutable fields of an instance. -/
structure SwarmKv (V : Type) where
  entries : AList (fun _ : Key => Entry V)
  loadedAt : Option Nat
  /-- A load is under way, and has been since this generation. -/
  loading : Option Nat
  /-- The task that runs the load under way. -/
  loader : Option Nat
  /-- How the last load ended: what those who await it get. -/
  loadResult : Except KvException Unit
  /-- A load has been started in the background, at this generation, and its task
  has not run yet. -/
  spawned : Option Nat
  /-- The task that has its turn in the write chain. -/
  writing : Option Nat
  gen : Nat
  touched : AList (fun _ : Key => Nat)

/-- A new instance. -/
def SwarmKv.new {V : Type} : SwarmKv V where
  entries := ∅
  loadedAt := none
  loading := none
  loader := none
  loadResult := .ok ()
  spawned := none
  writing := none
  gen := 0
  touched := ∅

/-- The sizes of some versions together. -/
def sumBytes (vs : List VersionMeta) : Nat := (vs.map (·.bytes)).sum

/-- Bytes held in raft across every retained version the instance knows of. -/
def SwarmKv.footprint {V : Type} (s : SwarmKv V) : Nat :=
  (s.entries.entries.map fun e => sumBytes e.2.versions).sum

/-- What all instances of an organisation share. -/
structure KvOrg where
  orgId : String
  sealer : KvSealer

/-- The options of an instance. -/
structure KvOptions where
  collections : Option (List String)
  maxDocBytes : Nat
  maxTotalBytes : Nat
  keepVersions : Nat
  refreshMs : Nat
  maxRetries : Nat

/-- The defaults. -/
def KvOptions.default : KvOptions where
  collections := none
  maxDocBytes := kvMaxDocBytes
  maxTotalBytes := kvMaxTotalBytes
  keepVersions := kvKeepVersions
  refreshMs := 60000
  maxRetries := 5

/-- At least the latest version is kept. -/
def KvOptions.keep (o : KvOptions) : Nat := max 1 o.keepVersions

/-- A document as read back. -/
structure KvDoc (V : Type) where
  key : Key
  seq : Nat
  value : V
  updatedAt : Nat

/-- A swarm and the instances, named by `ι`, that work on it. -/
structure KvWorld (ι V : Type) where
  now : Nat
  configs : AList (fun _ : String => KvConfig)
  created : List (String × String)
  kv : ι → SwarmKv V

/-! ## Calls -/

/-- Where an operation of instance `i` suspends. -/
inductive KvCall (ι : Type) where
  | list (i : ι)
  | read (i : ι) (name : String)
  | create (i : ι) (name dataB64 : String) (labels : KvLabels)
  | remove (i : ι) (name : String)
  | /-- Task `n` waits for its turn in the write chain. -/
    turn (i : ι) (n : Nat)
  | /-- Await the load under way. -/
    loaded (i : ι)
  | /-- Await something that is no driver call. -/
    pause (i : ι)

/-- The calls of the store and their answers. -/
def KvSig (ι : Type) : Sig where
  Call := KvCall ι
  Ans
    | .list _ => Except KvException (List KvConfigInfo)
    | .read _ _ => Except KvException String
    | .create _ _ _ _ | .remove _ _ => Except KvException Unit
    | .turn _ _ | .pause _ => Unit
    | .loaded _ => Except KvException Unit

/-- A program of the store. -/
abbrev KvProg (ι V : Type) := Prog (KvSig ι) (KvWorld ι V) KvException

variable {ι V : Type} [DecidableEq ι]

/-- Update the fields of an instance. -/
def KvWorld.set (w : KvWorld ι V) (i : ι) (f : SwarmKv V → SwarmKv V) : KvWorld ι V :=
  { w with kv := Function.update w.kv i (f (w.kv i)) }

@[simp] theorem KvWorld.set_configs (w : KvWorld ι V) (i : ι) (f : SwarmKv V → SwarmKv V) :
    (w.set i f).configs = w.configs := rfl

@[simp] theorem KvWorld.set_kv_self (w : KvWorld ι V) (i : ι) (f : SwarmKv V → SwarmKv V) :
    (w.set i f).kv i = f (w.kv i) := by simp [KvWorld.set]

theorem KvWorld.set_kv_ne (w : KvWorld ι V) {i j : ι} (h : j ≠ i) (f : SwarmKv V → SwarmKv V) :
    (w.set i f).kv j = w.kv j := by simp [KvWorld.set, h]

/-- How Docker, and what lies between it and the controller, may answer. -/
inductive KvChoice where
  | /-- The call is carried out and answered. -/
    ok
  | /-- The call is rejected and has no effect. -/
    reject (e : KvException)
  | /-- The call is carried out, but its answer is lost. -/
    lost (e : KvException)

/-- `config.create`: rejected when the name is taken. -/
def dockerCreate (w : KvWorld ι V) (name dataB64 : String) (labels : KvLabels) :
    Except KvException (KvWorld ι V) :=
  if (w.configs.lookup name).isSome then
    .error (.alreadyExists s!"rpc error: code = AlreadyExists desc = config {name} already exists")
  else .ok { w with
    configs := w.configs.insert name ⟨dataB64, labels, w.now⟩
    created := (name, dataB64) :: w.created }

/-- `config.remove`. -/
def dockerRemove (w : KvWorld ι V) (name : String) : Except KvException (KvWorld ι V) :=
  if (w.configs.lookup name).isSome then .ok { w with configs := w.configs.erase name }
  else .error (.notFound s!"config {name} not found")

/-- Answer a call that changes the swarm. -/
def answer (χ : KvChoice) (w : KvWorld ι V) (r : Except KvException (KvWorld ι V)) :
    Except KvException Unit × KvWorld ι V :=
  match χ, r with
  | .reject e, _ => (.error e, w)
  | _, .error e => (.error e, w)
  | .ok, .ok w' => (.ok (), w')
  | .lost e, .ok w' => (.error e, w')

/-- `config.list` -/
def KvWorld.listing (w : KvWorld ι V) : List KvConfigInfo :=
  w.configs.entries.map fun c => ⟨c.1, c.2.createdAt, c.2.labels⟩

/-- Answer a call. -/
def kvExec (χ : KvChoice) : (c : KvCall ι) → KvWorld ι V → Option ((KvSig ι).Ans c × KvWorld ι V)
  | .list _, w => match χ with
    | .ok => some (.ok w.listing, w)
    | .reject e | .lost e => some (.error e, w)
  | .read _ name, w => match χ with
    | .ok => some (match w.configs.lookup name with
        | some c => .ok c.dataB64
        | none => .error (.notFound s!"config {name} not found"), w)
    | .reject e | .lost e => some (.error e, w)
  | .create _ name dataB64 labels, w => some (answer χ w (dockerCreate w name dataB64 labels))
  | .remove _ name, w => some (answer χ w (dockerRemove w name))
  | .turn i n, w =>
    if (w.kv i).writing.isSome then none
    else some ((), w.set i ({ · with writing := some n }))
  | .loaded i, w => if (w.kv i).loading.isSome then none else some ((w.kv i).loadResult, w)
  | .pause _, w => some ((), w)

/-! ## Internals -/

/-- The version a listed config is of, if it is one of this store's. -/
def listedVersion (g : KvOrg) (o : KvOptions) (c : KvConfigInfo) : Option (Key × VersionMeta) :=
  if c.labels.kv ≠ "1" ∨ c.labels.org ≠ g.orgId then none
  else match parseKvConfigName c.name with
    | none => none
    | some (k, seq) =>
      if o.collections.any fun cs => !cs.contains k.collection then none
      else some (k, ⟨seq, c.labels.bytes, c.labels.sha, c.createdAt⟩)

/-- The listed versions of each key, oldest first. -/
def groupVersions (g : KvOrg) (o : KvOptions) (all : List KvConfigInfo) :
    List (Key × List VersionMeta) :=
  let mine := all.filterMap (listedVersion g o)
  (mine.map (·.1)).dedup.map fun k =>
    (k, ((mine.filter (·.1 = k)).map (·.2)).insertionSort (·.seq ≤ ·.seq))

/-- `this.gen += 1; this.touched.set(k, this.gen)` -/
def SwarmKv.touch (s : SwarmKv V) (k : Key) : SwarmKv V :=
  { s with gen := s.gen + 1, touched := s.touched.insert k (s.gen + 1) }

/-- The document the cache holds for a key. -/
def SwarmKv.docOf (s : SwarmKv V) (k : Key) : Option (KvDoc V) :=
  (s.entries.lookup k).bind fun e => e.latest.map fun m => ⟨k, m.seq, e.value, m.createdAt⟩

/-- A local write that landed while the swarm was being listed wins over the listing. -/
def SwarmKv.keepTouched (s : SwarmKv V) (startGen : Nat) (next : AList fun _ : Key => Entry V) :
    AList fun _ : Key => Entry V :=
  s.touched.entries.foldl (fun next t =>
    if t.2 ≤ startGen then next
    else match s.entries.lookup t.1 with
      | some cur => next.insert t.1 cur
      | none => next.erase t.1) next

section

variable [KvValue V] (g : KvOrg) (o : KvOptions) (i : ι) (n : Nat)

/-- Read the fields of the instance. -/
def self {α : Type} (f : SwarmKv V → α) : KvProg ι V α := .read fun w => f (w.kv i)

/-- Update the fields of the instance. -/
def setSelf (f : SwarmKv V → SwarmKv V) : KvProg ι V Unit := .modify (·.set i f)

/-- `driver.list()` -/
def driverList : KvProg ι V (List KvConfigInfo) := .call (.list i) fun r => .ofExcept r

/-- `driver.read(name)` -/
def driverRead (name : String) : KvProg ι V String := .call (.read i name) fun r => .ofExcept r

/-- `driver.create(name, dataB64, labels)`, with its rejection as a result. -/
def driverCreate (name dataB64 : String) (labels : KvLabels) :
    KvProg ι V (Except KvException Unit) :=
  .call (.create i name dataB64 labels) fun r => .ret r

/-- `driver.remove(name)`, with its rejection as a result. -/
def driverRemove (name : String) : KvProg ι V (Except KvException Unit) :=
  .call (.remove i name) fun r => .ret r

/-- Await something that is no driver call. -/
def pause : KvProg ι V Unit := .call (.pause i) fun r => .ret r

/-- All of this org's versions, grouped by key. -/
def listMine : KvProg ι V (List (Key × List VersionMeta)) := do
  let all ← driverList i
  pure (groupVersions g o all)

/-- The value in a config's data. -/
def openVersion (k : Key) (seq : Nat) (dataB64 : String) : Except KvException V :=
  match g.sealer.openSealed (Base64.fromB64 dataB64) >>= KvValue.parse with
  | .ok v => .ok v
  | .error m => .error (.kv .invalid (s!"swarm-kv {k.collection}/{k.id} v{seq} can't be opened " ++
      s!"({m}) — is SWARMY_SECRET_KEY the one that wrote it?"))

def readVersion (k : Key) (seq : Nat) : KvProg ι V V := do
  let dataB64 ← driverRead i (kvConfigName k seq)
  .ofExcept (openVersion g k seq dataB64)

/-- The listed entries, each value taken from the cache where the latest version
is the one it holds and read from the swarm otherwise. -/
def pull (next : AList fun _ : Key => Entry V) :
    List (Key × List VersionMeta) → KvProg ι V (AList fun _ : Key => Entry V)
  | [] => pure next
  | (k, versions) :: listed => do
    let cur ← self i (·.entries.lookup k)
    match versions.getLast? with
    | none => pull next listed
    | some latest =>
      match cur.bind fun e => e.latest.map fun m => (e, m) with
      | some (e, m) =>
        if m.seq = latest.seq then pull (next.insert k ⟨versions, e.value⟩) listed
        else do
          let value ← readVersion g i k latest.seq
          pull (next.insert k ⟨versions, value⟩) listed
      | none => do
        let value ← readVersion g i k latest.seq
        pull (next.insert k ⟨versions, value⟩) listed

/-- Re-list the swarm, for a cache that was at generation `startGen` when this began. -/
def doRefresh (startGen : Nat) : KvProg ι V Unit := do
  let listed ← listMine g o i
  let next ← pull g i ∅ listed
  .modify fun w => w.set i fun s =>
    { s with entries := s.keepTouched startGen next, touched := ∅, loadedAt := some w.now }

/-- The end of a load: those who await it get its result. -/
def endLoad (r : Except KvException Unit) : KvProg ι V Unit :=
  setSelf i ({ · with loading := none, loader := none, loadResult := r })

/-- A load that has been started. -/
def load (startGen : Nat) : KvProg ι V Unit :=
  .handle (do doRefresh g o i startGen; endLoad i (.ok ()))
    fun e => do endLoad i (.error e); throw e

/-- Re-list the swarm; a load under way is shared. -/
def refresh : KvProg ι V Unit := do
  if ← self i (·.loading.isSome) then
    .call (.loaded i) fun r => .ofExcept r
  else
    let startGen ← self i (·.gen)
    setSelf i ({ · with loading := some startGen, loader := some n })
    load g o i startGen

/-- Start a load in the background, where the cache is stale and no load is under way. -/
def SwarmKv.spawn (o : KvOptions) (loadedAt now : Nat) (s : SwarmKv V) : SwarmKv V :=
  if loadedAt + o.refreshMs ≤ now ∧ s.loading = none then
    { s with loading := some s.gen, spawned := some s.gen }
  else s

/-- Load on the first call; refresh a stale cache in the background. -/
def ensureFresh : KvProg ι V Unit := do
  match ← self i (·.loadedAt) with
  | none => refresh g o i n
  | some loadedAt => .modify fun w => w.set i (·.spawn o loadedAt w.now)

/-- The load in the background; nobody awaits it. -/
def background : KvProg ι V Unit := do
  match ← self i (·.spawned) with
  | none => pure ()
  | some startGen => do
    setSelf i ({ · with spawned := none, loader := some n })
    .handle (load g o i startGen) fun _ => pure ()

/-- Re-read one key from the swarm. -/
def refreshKey (k : Key) : KvProg ι V Unit := do
  let listed ← listMine g o i
  setSelf i (·.touch k)
  match (listed.lookup k).bind fun versions => versions.getLast?.map fun m => (versions, m) with
  | none => setSelf i fun s => { s with entries := s.entries.erase k }
  | some (versions, latest) => do
    let value ← readVersion g i k latest.seq
    setSelf i fun s => { s with entries := s.entries.insert k ⟨versions, value⟩ }

/-- Remove a config; has it gone? -/
def removeQuietly (name : String) : KvProg ι V Bool := do
  match ← driverRemove i name with
  | .ok () => pure true
  | .error e => pure (isNotFound e)

/-- Remove versions; those still in raft are counted on. -/
def dropVersions (k : Key) (kept : List VersionMeta) :
    List VersionMeta → KvProg ι V (List VersionMeta)
  | [] => pure kept
  | v :: drop => do
    let ok ← removeQuietly i (kvConfigName k v.seq)
    dropVersions k (if ok then kept else v :: kept) drop

/-- Keep the newest versions. -/
def gc (k : Key) : KvProg ι V Unit := do
  match ← self i (·.entries.lookup k) with
  | none => pure ()
  | some e =>
    if e.versions.length ≤ o.keep then pure ()
    else do
      let n := e.versions.length - o.keep
      let kept ← dropVersions i k (e.versions.drop n) (e.versions.take n)
      setSelf i fun s => { s with
        entries := s.entries.insert k ⟨kept.insertionSort (·.seq ≤ ·.seq), e.value⟩ }

/-- Take turns: one write of an instance at a time. -/
def serial {α : Type} (p : KvProg ι V α) : KvProg ι V α :=
  .call (.turn i n) fun _ => p.ensuring (·.set i ({ · with writing := none }))

/-! ## Reads -/

def getDoc (k : Key) : KvProg ι V (Option (KvDoc V)) := do
  .ofExcept (check o.collections k)
  ensureFresh g o i n
  self i (·.docOf k)

/-- Read one retained version's value. -/
def getVersion (k : Key) (seq : Nat) : KvProg ι V V := do
  .ofExcept (check o.collections k)
  readVersion g i k seq

/-! ## Writes -/

/-- The labels of a version. -/
def versionLabels (k : Key) (seq : Nat) (sha : String) (bytes : Nat) : KvLabels where
  kv := "1"
  org := g.orgId
  collection := k.collection
  id := k.id
  seq := seq
  sha := sha
  bytes := bytes

/-- One write of `update`, as it is sent to the driver. -/
structure Write where
  seq : Nat
  dataB64 : String
  json : String
  prior : List VersionMeta

/-- The fingerprint of a write. -/
def Write.sha (x : Write) : String := kvFingerprint x.json

/-- The stored size of a write. -/
def Write.bytes (x : Write) : Nat := x.dataB64.length

/-- What `update` does with the value its function returned: `none` when nothing
changes, an error when the write is refused. -/
def planWrite (k : Key) (cur : Option (Entry V)) (footprint : Nat) (v : V) :
    Except KvException (Option Write) := do
  assertNoRunState v
  let json := stableJson v
  let curLatest := cur.bind Entry.latest
  if curLatest.map (·.sha) = some (kvFingerprint json) then return none
  let dataB64 := Base64.toB64 (g.sealer.sealPlain json)
  let bytes := dataB64.length
  if bytes > o.maxDocBytes then
    throw (.kv .tooLarge
      s!"swarm-kv document {k.collection}/{k.id} is {bytes} bytes (limit {o.maxDocBytes})")
  let seq := (curLatest.map (·.seq)).getD 0 + 1
  if seq > kvMaxSeq then
    throw (.kv .invalid s!"swarm-kv {k.collection}/{k.id} ran out of version numbers")
  let prior := (cur.map (·.versions)).getD []
  let pruned := prior.take (prior.length + 1 - o.keep)
  let projected := footprint + bytes - sumBytes pruned
  if projected > o.maxTotalBytes then
    throw (.kv .budget (s!"swarm-kv footprint would reach {projected} bytes " ++
      s!"(limit {o.maxTotalBytes}) — refusing to grow raft"))
  return some ⟨seq, dataB64, json, prior⟩

/-- One write has been accepted: remember it and collect garbage. -/
def committed (k : Key) (x : Write) : KvProg ι V (Option (KvDoc V)) := do
  let value ← .ofExcept ((KvValue.parse x.json).mapError .other)
  .modify fun w => w.set i fun s => { s with
    entries := s.entries.insert k ⟨x.prior ++ [⟨x.seq, x.bytes, x.sha, w.now⟩], value⟩ }
  setSelf i (·.touch k)
  gc o i k
  self i (·.docOf k)

/-- One round of the loop of `update`: read the cache, call the function and send
the write; `onConflict` is what to do when the name is taken. -/
def attempt (k : Key) (fn : Option V → Except KvException (Option V))
    (onConflict : KvProg ι V (Option (KvDoc V))) : KvProg ι V (Option (KvDoc V)) := do
  let cur ← self i (·.entries.lookup k)
  let curLatest := cur.bind Entry.latest
  pause i
  match ← .ofExcept (fn (curLatest.bind fun _ => cur.map (·.value))) with
  | none => self i (·.docOf k)
  | some v =>
    let footprint ← self i (·.footprint)
    match ← .ofExcept (planWrite g o k cur footprint v) with
    | none => self i (·.docOf k)
    | some x =>
      match ← driverCreate i (kvConfigName k x.seq) x.dataB64
          (versionLabels g k x.seq x.sha x.bytes) with
      | .ok () => committed o i k x
      | .error e => if isNameConflict e then onConflict else throw e

/-- The loop of `update`; so many retries are left. -/
def tryUpdate (k : Key) (fn : Option V → Except KvException (Option V)) :
    Nat → KvProg ι V (Option (KvDoc V))
  | 0 => attempt g o i k fn (throw (.kv .conflict
      s!"swarm-kv {k.collection}/{k.id}: gave up after {o.maxRetries + 1} conflicting writes"))
  | retries + 1 => attempt g o i k fn do
      refreshKey g o i k
      pause i
      tryUpdate k fn retries

/-- Compare-and-swap update. -/
def update (k : Key) (fn : Option V → Except KvException (Option V)) :
    KvProg ι V (Option (KvDoc V)) := do
  .ofExcept (check o.collections k)
  serial i n do
    ensureFresh g o i n
    tryUpdate g o i k fn o.maxRetries

/-- Write a value as the new latest version. -/
def put (k : Key) (v : V) : KvProg ι V (Option (KvDoc V)) :=
  update g o i n k fun _ => .ok (some v)

/-- Remove a document, every version, oldest first. -/
def delete (k : Key) : KvProg ι V Bool := do
  .ofExcept (check o.collections k)
  serial i n do
    ensureFresh g o i n
    refreshKey g o i k
    match ← self i (·.entries.lookup k) with
    | none => pure false
    | some e => do
      .forEach (fun v => do let _ ← removeQuietly i (kvConfigName k v.seq)) e.versions
      setSelf i fun s => { s with entries := s.entries.erase k }
      setSelf i (·.touch k)
      pure true

/-- Re-write a retained version as the new latest. -/
def revert (k : Key) (seq : Nat) : KvProg ι V (Option (KvDoc V)) := do
  let old ← getVersion g o i k seq
  put g o i n k old

/-- Write bundle documents back into a swarm. -/
def importAll : List (Key × V) → Nat → KvProg ι V Nat
  | [], written => pure written
  | (k, v) :: docs, written => do
    if o.collections.any fun cs => !cs.contains k.collection then importAll docs written
    else do
      let _ ← put g o i n k v
      importAll docs (written + 1)

end

end Swarmy.Kv

/-!
## swarm-kv: several instances over one swarm

Any number of instances of one organisation work on one swarm: their operations
are the jobs of a system, which interleave at the calls of `KvSig`.  A call may
be answered, rejected without effect, or carried out and its answer lost.
-/

namespace Swarmy.Kv

open Coop

/-- The operations of an instance, and the load it runs in the background. -/
inductive KvJob (ι V : Type) where
  | get (i : ι) (k : Key)
  | getVersion (i : ι) (k : Key) (seq : Nat)
  | put (i : ι) (k : Key) (v : V)
  | update (i : ι) (k : Key) (fn : Option V → Except KvException (Option V))
  | delete (i : ι) (k : Key)
  | revert (i : ι) (k : Key) (seq : Nat)
  | importAll (i : ι) (docs : List (Key × V))
  | refresh (i : ι)
  | background (i : ι)

/-- What an operation returns. -/
inductive KvResult (V : Type) where
  | doc (d : Option (KvDoc V))
  | value (v : V)
  | removed (b : Bool)
  | imported (n : Nat)
  | done

variable {ι V : Type} [DecidableEq ι] [KvValue V]

/-- The program of an operation. -/
def kvBody (g : KvOrg) (o : ι → KvOptions) (n : Nat) : KvJob ι V → KvProg ι V (KvResult V)
  | .get i k => do return .doc (← getDoc g (o i) i n k)
  | .getVersion i k seq => do return .value (← getVersion g (o i) i k seq)
  | .put i k v => do return .doc (← put g (o i) i n k v)
  | .update i k fn => do return .doc (← update g (o i) i n k fn)
  | .delete i k => do return .removed (← delete g (o i) i n k)
  | .revert i k seq => do return .doc (← revert g (o i) i n k seq)
  | .importAll i docs => do return .imported (← importAll g (o i) i n docs 0)
  | .refresh i => do refresh g (o i) i n; return .done
  | .background i => do background g (o i) i n; return .done

/-- A background load starts when it has been asked for, an operation at any time. -/
def KvJob.ready : KvJob ι V → KvWorld ι V → Bool
  | .background i, w => (w.kv i).spawned.isSome
  | _, _ => true

/-- Instances of an organisation, each with its options, over one swarm.  The
environment lets time pass. -/
def kvSystem (g : KvOrg) (o : ι → KvOptions) :
    System (KvSig ι) (KvWorld ι V) KvException (KvResult V) where
  Job := KvJob ι V
  Choice := KvChoice
  Env := Nat
  body := kvBody g o
  ready := KvJob.ready
  exec := kvExec
  env dt w := some { w with now := w.now + dt }

/-- A swarm whose configs are none of the store's, and new instances. -/
structure KvWorld.Initial (w : KvWorld ι V) : Prop where
  created : w.created = []
  foreign : ∀ name c, w.configs.lookup name = some c → parseKvConfigName name = none
  kv : ∀ i, w.kv i = .new

/-- An organisation whose documents are not encrypted. -/
def plainOrg : KvOrg := ⟨"org", ⟨id, .ok, fun _ => rfl⟩⟩

/-- A document. -/
def siteKey : Key := ⟨"apps", "site"⟩

end Swarmy.Kv
