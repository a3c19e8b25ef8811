import Mathlib.Data.List.Count
import Mathlib.Data.List.Nodup
import Mathlib.Tactic.Common
import Swarmy.Js.Value

/-!
# Volumes with a default backup

`detectDbServices` and `detectBackupVolumes` of `packages/trpc/src/services/autoBackup.ts`.  The
plain half leaves out what the database half lists and what exists once per node; the database half
asks neither.  A record is the list of its entries, and a text that may be absent is empty then.
-/

namespace Swarmy.AutoBackup

open List

/-! ## Services -/

inductive Mode where
  | replicated | global
deriving DecidableEq

structure Mount where
  type : String
  source : String
  target : String

structure SwarmServiceInfo where
  name : String
  image : String
  mode : Mode
  desiredReplicas : Option Nat
  labels : List (String × String)
  mounts : List Mount

def STACK_LABEL : String := "com.docker.stack.namespace"

/-- Labels that mark a swarmy-managed data member. -/
def MANAGED_PREFIXES : List String :=
  ["swarmy.db.", "swarmy.cache.", "swarmy.search.", "swarmy.vector."]

inductive DetectedDbEngine where
  | mariadb | mysql | postgres | mongo | redis | valkey
deriving DecidableEq

def IMAGE_ENGINES : List (String × DetectedDbEngine) :=
  [("mariadb", .mariadb), ("mysql", .mysql), ("postgres", .postgres), ("postgresql", .postgres),
    ("mongo", .mongo), ("mongodb", .mongo), ("redis", .redis), ("valkey", .valkey)]

/-- Where each engine keeps its data. -/
def DATA_DIRS : DetectedDbEngine → List String
  | .mariadb => ["/var/lib/mysql", "/bitnami/mariadb", "/bitnami"]
  | .mysql => ["/var/lib/mysql", "/bitnami/mysql", "/bitnami"]
  | .postgres => ["/var/lib/postgresql", "/bitnami/postgresql", "/bitnami"]
  | .mongo => ["/data/db", "/bitnami/mongodb", "/bitnami"]
  | .redis => ["/data", "/bitnami/redis", "/bitnami"]
  | .valkey => ["/data", "/bitnami/valkey", "/bitnami"]

/-- What the detection takes from the language. -/
structure Lang where
  toLowerCase : String → String
  /-- `a.localeCompare(b) <= 0` -/
  localeLe : String → String → Bool

/-- The last segment of an image's repository. -/
def imageRepo (L : Lang) (image : String) : String :=
  let ref := (L.toLowerCase (Js.trim image)).toList.takeWhile (· ≠ '@')
  let last := (ref.reverse.takeWhile (· ≠ '/')).reverse
  -- a colon behind the last slash ends the repository at the last such colon
  let repo := if ':' ∈ last then (last.reverse.dropWhile (· ≠ ':')).tail.reverse else last
  String.ofList repo

/-- The engine an image runs. -/
def detectDbEngine (L : Lang) (image : String) : Option DetectedDbEngine :=
  IMAGE_ENGINES.lookup (imageRepo L image)

def isNamedVolume (m : Mount) : Bool :=
  m.source ≠ "" && (m.type = "" || m.type = "volume") && !Js.startsWith m.source "/"

namespace SwarmServiceInfo

variable (s : SwarmServiceInfo)

def label (k : String) : String := (s.labels.lookup k).getD ""

/-- The primary of a managed queue cache. -/
def isQueuePrimary : Bool :=
  s.label "swarmy.cache.purpose" = "queue" && s.label "swarmy.cache.role" = "primary"

def isPlumbing : Bool :=
  s.label STACK_LABEL = "" || s.label STACK_LABEL = "swarmy-system" ||
    Js.startsWith s.name "swarmy-" || s.label "swarmy.system" = "true"

def isManagedMember : Bool := s.labels.any fun e => MANAGED_PREFIXES.any (Js.startsWith e.1)

/-- Global mode, or more than one replica. -/
def perNode : Bool := s.mode = .global || 1 < s.desiredReplicas.getD 1

def named : List Mount := s.mounts.filter isNamedVolume

end SwarmServiceInfo

def underDir (target dir : String) : Bool :=
  let t := String.ofList (target.toList.reverse.dropWhile (· = '/')).reverse
  t = dir || Js.startsWith t (dir ++ "/")

/-! ## Detection -/

structure DetectedVolume where
  stack : String
  service : String
  volume : String
  /-- Set when the volume is a detected database's data volume. -/
  engine : Option DetectedDbEngine
deriving DecidableEq

/-- The look-up finds what every object has by these names, and there are no directories for it: the
detection ends with a `TypeError`. -/
def throwsOn (L : Lang) (s : SwarmServiceInfo) : Bool :=
  imageRepo L s.image ∈ ["constructor", "__proto__"] &&
    !(s.isPlumbing || (!s.isQueuePrimary && s.isManagedMember)) && !s.named.isEmpty

/-- What `detectDbServices` lists for a service: the mount under the engine's data directory, else
the first one. -/
def detectDb (L : Lang) (s : SwarmServiceInfo) : Option DetectedVolume := do
  let engine ← detectDbEngine L s.image
  if s.isPlumbing || (!s.isQueuePrimary && s.isManagedMember) then none
  else
    let first ← s.named.head?
    let under := (DATA_DIRS engine).findSome? fun d => s.named.find? (underDir ·.target d)
    some ⟨s.label STACK_LABEL, s.name, (under.getD first).source, some engine⟩

def detectDbServices (L : Lang) (services : List SwarmServiceInfo) : List DetectedVolume :=
  (services.filterMap (detectDb L)).mergeSort fun a b => L.localeLe a.service b.service

/-- The services whose volumes the plain half lists. -/
def isPlain (s : SwarmServiceInfo) : Bool :=
  !s.isPlumbing && !(!s.isQueuePrimary && s.isManagedMember) && !s.perNode

/-- A mount of such a service, with the volumes seen and the entries so far. -/
def addMount (s : SwarmServiceInfo) (acc : List String × List DetectedVolume) (m : Mount) :
    List String × List DetectedVolume :=
  if !isNamedVolume m || m.source ∈ acc.1 then acc
  else (m.source :: acc.1, acc.2 ++ [⟨s.label STACK_LABEL, s.name, m.source, none⟩])

/-- The plain half, before it is sorted. -/
def restOf (seen : List String) (services : List SwarmServiceInfo) : List DetectedVolume :=
  (services.foldl (fun acc s => if isPlain s then s.mounts.foldl (addMount s) acc else acc)
    (seen, [])).2

def restVolumes (L : Lang) (services : List SwarmServiceInfo) : List DetectedVolume :=
  (restOf ((detectDbServices L services).map (·.volume)) services).mergeSort
    fun a b => L.localeLe a.volume b.volume

/-- Every named volume worth a default backup, databases first. -/
def detectBackupVolumes (L : Lang) (services : List SwarmServiceInfo) :
    Option (List DetectedVolume) :=
  if services.any (throwsOn L) then none
  else some (detectDbServices L services ++ restVolumes L services)

/-! ## The promise -/

variable {L : Lang} {services : List SwarmServiceInfo} {v : String}

/-- A volume that one of the two rules takes. -/
def Qualifies (L : Lang) (services : List SwarmServiceInfo) (v : String) : Prop :=
  (∃ s ∈ services, ∃ d, detectDb L s = some d ∧ d.volume = v) ∨
    ∃ s ∈ services, isPlain s = true ∧ v ∈ s.named.map (·.source)

structure Covers (L : Lang) (services : List SwarmServiceInfo) (out : List DetectedVolume) :
    Prop where
  returned : detectBackupVolumes L services = some out
  once : ∀ v, Qualifies L services v → (out.map (·.volume)).count v = 1
  single : ∀ d ∈ out, ∀ s ∈ services, s.perNode = true → d.volume ∉ s.named.map (·.source)
  halves : ∀ v, Qualifies L services v →
    (v ∈ (detectDbServices L services).map (·.volume) ↔ v ∉ (restVolumes L services).map (·.volume))

/-- No image has a name that every object has, no two databases keep their data in one volume, and
no service that runs once per node, be it a database itself, mounts a volume that a rule takes. -/
structure Apart (L : Lang) (services : List SwarmServiceInfo) : Prop where
  images : ∀ s ∈ services, throwsOn L s = false
  databases : (services.filterMap fun s => (detectDb L s).map (·.volume)).Nodup
  shared : ∀ s ∈ services, s.perNode = true → ∀ m ∈ s.named, ¬ Qualifies L services m.source

/-! ## The two halves -/

theorem volumes_detectDbServices : ((detectDbServices L services).map (·.volume)).Perm
    (services.filterMap fun s => (detectDb L s).map (·.volume)) := by
  rw [detectDbServices, ← map_filterMap]
  exact (mergeSort_perm _ _).map _

theorem mem_databases : v ∈ (detectDbServices L services).map (·.volume) ↔
    ∃ s ∈ services, ∃ d, detectDb L s = some d ∧ d.volume = v := by
  rw [volumes_detectDbServices.mem_iff, mem_filterMap]
  simp only [Option.map_eq_some_iff]

/-- What the loop over mounts keeps: the volumes listed are new, each once, and all that were met
are seen. -/
structure Tracks (dbs met : List String) (acc : List String × List DetectedVolume) : Prop where
  seen : ∀ v, v ∈ acc.1 ↔ v ∈ dbs ∨ v ∈ acc.2.map (·.volume)
  nodup : (acc.2.map (·.volume)).Nodup
  listed : ∀ v, v ∈ acc.2.map (·.volume) ↔ v ∈ met ∧ v ∉ dbs

variable {dbs met : List String} {acc : List String × List DetectedVolume}

theorem Tracks.addMount (h : Tracks dbs met acc) (s : SwarmServiceInfo) (m : Mount) :
    Tracks dbs (met ++ (if isNamedVolume m then [m.source] else [])) (addMount s acc m) := by
  rw [AutoBackup.addMount]
  cases hm : isNamedVolume m with
  | false => simpa using h
  | true =>
    by_cases hseen : m.source ∈ acc.1
    · refine ⟨by simpa [hseen] using h.seen, by simpa [hseen] using h.nodup, fun v => ?_⟩
      have hold := (h.seen m.source).1 hseen
      simp only [hseen, Bool.not_true, Bool.false_or, decide_true, if_true, mem_append,
        mem_singleton]
      rw [h.listed]
      rw [h.listed] at hold
      grind
    · have hnew : m.source ∉ dbs ∧ m.source ∉ acc.2.map (·.volume) := by
        rwa [h.seen, not_or] at hseen
      simp only [hseen, Bool.not_true, Bool.false_or, decide_false, Bool.false_eq_true, if_false,
        if_true]
      refine ⟨fun v => ?_, ?_, fun v => ?_⟩
      · simp only [mem_cons, h.seen, map_append, mem_append, map_cons, map_nil,
          not_mem_nil, or_false]
        tauto
      · rw [map_append, nodup_append_comm]
        exact nodup_cons.2 ⟨hnew.2, h.nodup⟩
      · simp only [map_append, mem_append, h.listed, map_cons, map_nil, mem_singleton]
        grind

theorem Tracks.addMounts (h : Tracks dbs met acc) (s : SwarmServiceInfo) (ms : List Mount) :
    Tracks dbs (met ++ (ms.filter isNamedVolume).map (·.source))
      (ms.foldl (AutoBackup.addMount s) acc) := by
  induction ms generalizing met acc with
  | nil => simpa using h
  | cons m ms ih =>
    have htail := ih (h.addMount s m)
    cases hm : isNamedVolume m <;> simpa [hm] using htail

theorem tracks_services (h : Tracks dbs met acc) :
    Tracks dbs (met ++ (services.filter isPlain).flatMap fun s => s.named.map (·.source))
      (services.foldl (fun acc s => if isPlain s then s.mounts.foldl (addMount s) acc
        else acc) acc) := by
  induction services generalizing met acc with
  | nil => simpa using h
  | cons s services ih =>
    rw [foldl_cons, filter_cons]
    cases hs : isPlain s with
    | false => exact ih h
    | true =>
      have htail := ih (h.addMounts s s.mounts)
      rw [append_assoc] at htail
      exact htail

theorem tracks_rest (dbs : List String) : ∃ acc, acc.2 = restOf dbs services ∧
    Tracks dbs ((services.filter isPlain).flatMap fun s => s.named.map (·.source)) acc :=
  ⟨_, rfl, @tracks_services _ _ [] _ ⟨by simp, by simp, by simp⟩⟩

theorem volumes_restVolumes : ((restVolumes L services).map (·.volume)).Perm
    ((restOf ((detectDbServices L services).map (·.volume)) services).map (·.volume)) :=
  (mergeSort_perm _ _).map _

theorem nodup_rest : ((restVolumes L services).map (·.volume)).Nodup := by
  obtain ⟨acc, hacc, htracks⟩ := @tracks_rest services
    ((detectDbServices L services).map (·.volume))
  exact volumes_restVolumes.nodup_iff.2 (hacc ▸ htracks.nodup)

theorem mem_rest : v ∈ (restVolumes L services).map (·.volume) ↔
    (∃ s ∈ services, isPlain s = true ∧ v ∈ s.named.map (·.source)) ∧
      v ∉ (detectDbServices L services).map (·.volume) := by
  obtain ⟨acc, hacc, htracks⟩ := @tracks_rest services
    ((detectDbServices L services).map (·.volume))
  rw [volumes_restVolumes.mem_iff, ← hacc, htracks.listed, mem_flatMap]
  simp only [mem_filter, and_assoc]

/-- The two halves list what qualifies, and never the same. -/
theorem halves (h : Qualifies L services v) :
    v ∈ (detectDbServices L services).map (·.volume) ↔ v ∉ (restVolumes L services).map
      (·.volume) := by
  rw [mem_rest, not_and_not_right]
  rcases h with hdb | hplain
  · exact iff_of_true (mem_databases.2 hdb) fun _ => mem_databases.2 hdb
  · exact ⟨fun hv _ => hv, fun hv => hv hplain⟩

theorem returned_iff {out : List DetectedVolume} : detectBackupVolumes L services = some out ↔
    (∀ s ∈ services, throwsOn L s = false) ∧
    detectDbServices L services ++ restVolumes L services = out := by
  have hany : (∀ s ∈ services, throwsOn L s = false) ↔ services.any (throwsOn L) = false := by simp
  rw [hany, detectBackupVolumes]
  cases services.any (throwsOn L) <;> simp

theorem mem_detected : v ∈ (detectDbServices L services ++ restVolumes L services).map (·.volume) ↔
    Qualifies L services v := by
  rw [map_append, mem_append, mem_rest, Qualifies, ← mem_databases]
  by_cases hdb : v ∈ (detectDbServices L services).map (·.volume)
  · exact iff_of_true (.inl hdb) (.inl hdb)
  · rw [or_iff_right hdb, or_iff_right hdb, and_iff_left hdb]

theorem count_detected (h : Qualifies L services v) :
    ((detectDbServices L services ++ restVolumes L services).map (·.volume)).count v = 1 ↔
      (services.filterMap fun s => (detectDb L s).map (·.volume)).count v ≤ 1 := by
  have hhalves := halves h
  rw [map_append, count_append, ← volumes_detectDbServices.count_eq]
  by_cases hdb : v ∈ (detectDbServices L services).map (·.volume)
  · have hpos := count_pos_iff.2 hdb
    rw [count_eq_zero_of_not_mem (hhalves.1 hdb)]
    omega
  · rw [count_eq_zero_of_not_mem hdb,
      count_eq_one_of_mem nodup_rest (not_not.1 fun hrest => hdb (hhalves.2 hrest))]
    simp

/-- The detection keeps its promise exactly for services whose databases and per-node volumes are
apart. -/
theorem covers_iff (L : Lang) (services : List SwarmServiceInfo) :
    (∃ out, Covers L services out) ↔ Apart L services := by
  constructor
  case mp =>
    rintro ⟨out, h⟩
    obtain ⟨himages, rfl⟩ := returned_iff.1 h.returned
    refine ⟨himages, nodup_iff_count_le_one.2 fun v => ?_, fun s hs hnode m hm hq => ?_⟩
    · by_cases hv : Qualifies L services v
      · exact (count_detected hv).1 (h.once v hv)
      · rw [count_eq_zero_of_not_mem]
        · exact Nat.zero_le 1
        · exact fun hmem => hv (.inl (mem_databases.1 (volumes_detectDbServices.mem_iff.2 hmem)))
    · obtain ⟨d, hd, heq⟩ := mem_map.1 (mem_detected.2 hq)
      exact h.single d hd s hs hnode (heq ▸ mem_map_of_mem hm)
  case mpr =>
    intro h
    refine ⟨_, returned_iff.2 ⟨h.images, rfl⟩, fun v hv => ?_, fun d hd s hs hnode hmem => ?_,
      fun v => halves⟩
    · exact (count_detected hv).2 (nodup_iff_count_le_one.1 h.databases v)
    · obtain ⟨m, hm, heq⟩ := mem_map.1 hmem
      exact h.shared s hs hnode m hm (heq ▸ mem_detected.1 (mem_map_of_mem hd))

/-- Lower-casing of the ASCII letters, and texts compared by code points. -/
def asciiLang : Lang := ⟨Js.toLowerCase, fun a b => a ≤ b⟩

/-- A database with three replicas on one volume. -/
def scaledDb : SwarmServiceInfo where
  name := "shop_db"
  image := "mariadb:11"
  mode := .replicated
  desiredReplicas := some 3
  labels := [(STACK_LABEL, "shop")]
  mounts := [⟨"volume", "shop_db-data", "/var/lib/mysql"⟩]

theorem not_covers_scaledDb : ¬ ∀ (L : Lang) (services : List SwarmServiceInfo),
    ∃ out, Covers L services out := by
  intro hclaim
  obtain ⟨out, h⟩ := hclaim asciiLang [scaledDb]
  have hlisted : detectBackupVolumes asciiLang [scaledDb] =
      some [⟨"shop", "shop_db", "shop_db-data", some .mariadb⟩] := by decide +kernel
  obtain rfl := Option.some.inj (hlisted.symm.trans h.returned)
  have hsingle := h.single
  rw [forall_mem_singleton, forall_mem_singleton] at hsingle
  exact hsingle (by decide) (by decide +kernel)

end Swarmy.AutoBackup
