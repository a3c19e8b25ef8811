import Swarmy.Backup.Dump

/-! # Backups on the agent

`backup.ts` of the agent runs restic and the Postgres client tools in containers and reads their
exit codes. The tools are parameters, with what their documentation says of an exit code of 0. -/

namespace Swarmy.Restic

open Swarmy.Logical

/-- Where the volume is mounted inside the restic container. -/
def MOUNT : String := "/data"

/-- Where the logical dump is staged inside the db sidecars. -/
def DUMP_MOUNT : String := "/backup"

/-- Where an application's database is staged. -/
def APPDB_DUMP_MOUNT : String := "/swarmy-dump"

def APPDB_HOST_PREFIX : String := "appdb"

inductive Engine
  | pg_dump | pg_dumpall | snapshotFromReplica | walg | pgbackrest
deriving DecidableEq

namespace Engine

def name : Engine → String
  | pg_dump => "pg_dump"
  | pg_dumpall => "pg_dumpall"
  | snapshotFromReplica => "snapshot-from-replica"
  | walg => "wal-g"
  | pgbackrest => "pgbackrest"

/-- `isPhysicalEngine` -/
def isPhysical (e : Engine) : Bool := e = walg || e = pgbackrest

end Engine

inductive Mode
  | clone | inPlace | singleDatabase
deriving DecidableEq

namespace Mode

def name : Mode → String
  | clone => "clone-to-new-cluster"
  | inPlace => "in-place"
  | singleDatabase => "single-database"

end Mode

/-- The tags of the writers. The names in them have no comma, at which restic would split one. -/
inductive Tag
  | org (id : String)
  | volume (name : String)
  | db (stack name : String)
  | appDb (stack service : String)
  | engine (engine : Engine)
  | other (tag : String)

/-! ## Guards -/

/-- `/^[first][rest]{0,max}$/`. -/
def grammar (first rest : Char → Bool) (max : Nat) (s : String) : Bool :=
  match s.toList with
  | [] => false
  | c :: cs => first c && cs.all rest && decide (cs.length ≤ max)

def isDockerVolumeName : String → Bool :=
  grammar Char.isAlphanum (fun c => c.isAlphanum || c ∈ ['_', '.', '-']) 254

def isSnapshotRef : String → Bool :=
  grammar Char.isAlphanum (fun c => c.isAlphanum || c ∈ ['_', ':', '.', '-']) 127

def isDbName : String → Bool :=
  grammar (fun c => c.isAlphanum || c ∈ ['_', '$'])
    (fun c => c.isAlphanum || c ∈ ['_', '.', '$', '-']) 127

def guard (ok : String → Bool) (what v : String) : Except String Unit :=
  if ok v then .ok () else .error ("refusing unsafe " ++ what)

/-! ## restic -/

variable {κ : Type}

/-- The files below a mount point. -/
abbrev Files (κ : Type) := String → Option κ

structure Snapshot (κ : Type) where
  id : String
  host : String
  tags : List Tag
  root : String
  time : Nat
  files : Files κ

/-- What a restore to `/` writes into the volume mounted at `mount`. -/
def Snapshot.written (s : Snapshot κ) (mount : String) (v : Files κ) : Files κ :=
  if s.root = mount then fun path => (s.files path).or (v path) else v

structure Repository (κ : Type) where
  snapshots : List (Snapshot κ)
  distinct : (snapshots.map Snapshot.id).Nodup

structure ForgetArgs where
  keepWithin : Nat
  tag : List Tag
  host : Option String

/-- The snapshots a `forget` looks at: all the tags of one `--tag`, and the host. -/
structure ForgetArgs.Matches (a : ForgetArgs) (s : Snapshot κ) : Prop where
  tags : ∀ t ∈ a.tag, t ∈ s.tags
  host : ∀ h, a.host = some h → s.host = h

def day : Nat := 86400

/-- `--keep-within` counts back from the latest snapshot of the same host and paths. -/
def ForgetArgs.Old (a : ForgetArgs) (r : Repository κ) (s : Snapshot κ) : Prop :=
  ∃ s' ∈ r.snapshots, a.Matches s' ∧ s'.host = s.host ∧ s'.root = s.root ∧
    s.time + a.keepWithin * day ≤ s'.time

/-- A run of a container: its exit code, and what it left. -/
structure Outcome (σ : Type) where
  exitCode : Nat
  after : σ

structure Tool (κ : Type) where
  backup : Repository κ → String → String → List Tag → Files κ →
    Outcome (Snapshot κ × Repository κ)
  restore : Repository κ → String → String → Files κ → Outcome (Files κ)
  forget : Repository κ → ForgetArgs → Outcome (Repository κ)
  backup_stores : ∀ r root host tags files, (backup r root host tags files).exitCode = 0 →
    ∃ id time, (backup r root host tags files).after.1 = ⟨id, host, tags, root, time, files⟩ ∧
      (backup r root host tags files).after.2.snapshots =
        r.snapshots ++ [⟨id, host, tags, root, time, files⟩]
  restore_writes : ∀ r ref mount v, (restore r ref mount v).exitCode = 0 →
    ∀ s ∈ r.snapshots, s.id = ref → (restore r ref mount v).after = s.written mount v
  forget_only : ∀ r a, ∀ s ∈ r.snapshots, s ∉ (forget r a).after.snapshots →
    a.Matches s ∧ a.Old r s
  forget_all : ∀ r a, (forget r a).exitCode = 0 → ∀ s ∈ r.snapshots, a.Matches s → a.Old r s →
    s ∉ (forget r a).after.snapshots

/-! ## Retention -/

def forgetArgsFor (retentionDays : Option Nat) (tags : List Tag) (host : String) :
    Option ForgetArgs :=
  retentionDays.map fun days => ⟨days, tags, if host = "" then none else some host⟩

/-- The outcome's error, and what is left of the repository. -/
def applyRetention (T : Tool κ) (retentionDays : Option Nat) (tags : List Tag) (host : String)
    (r : Repository κ) : Option String × Repository κ :=
  match forgetArgsFor retentionDays tags host with
  | none => (none, r)
  | some args =>
    let res := T.forget r args
    if res.exitCode = 0 then (none, res.after)
    else (some ("restic forget exited " ++ toString res.exitCode), res.after)

/-! ## Volumes -/

structure BackupVolumePayload where
  volume : String
  tags : List Tag
  retentionDays : Option Nat

/-- The snapshot stands for the id that the agent reports. -/
def backupVolume (T : Tool κ) (p : BackupVolumePayload) (volume : Files κ) (r : Repository κ) :
    Except String (Snapshot κ × Repository κ) := do
  guard isDockerVolumeName "volume name" p.volume
  let res := T.backup r MOUNT p.volume p.tags volume
  if res.exitCode ≠ 0 then
    throw ("restic backup exited " ++ toString res.exitCode)
  return (res.after.1, (applyRetention T p.retentionDays p.tags p.volume res.after.2).2)

structure RestoreVolumePayload where
  targetVolume : String
  snapshotId : String

/-- A target volume that is not there is made empty. -/
def restoreVolume (T : Tool κ) (p : RestoreVolumePayload) (r : Repository κ) (target : Files κ) :
    Except String (Files κ) := do
  guard isDockerVolumeName "volume name" p.targetVolume
  guard isSnapshotRef "snapshot id" p.snapshotId
  let res := T.restore r p.snapshotId MOUNT target
  if res.exitCode ≠ 0 then
    throw ("restic restore exited " ++ toString res.exitCode)
  return res.after

/-! ## Logical dumps -/

variable {β ν δ ρ : Type}

/-- What a file holds. -/
inductive Content (β ν δ ρ : Type)
  | bytes (b : β)
  | sql (d : Dump (String × ν) δ ρ)
  | pgc (d : Dump ν δ ρ)

/-- A server's databases and the objects in them. -/
structure Server (ν δ ρ : Type) where
  databases : List String
  objects : Objects (String × ν) δ ρ
  inside : ∀ k o, objects k = some o → k.1 ∈ databases

variable [DecidableEq ν]

structure Postgres (ν δ ρ : Type) [DecidableEq ν] where
  refuses : Stmt (String × ν) δ ρ → Bool
  pgDumpAll : Server ν δ ρ → Outcome (Dump (String × ν) δ ρ)
  pgDump : Server ν δ ρ → String → Outcome (Dump ν δ ρ)
  psql : List (Stmt (String × ν) δ ρ) → Objects (String × ν) δ ρ →
    Outcome (Objects (String × ν) δ ρ)
  pgRestore : List (Stmt (String × ν) δ ρ) → Objects (String × ν) δ ρ →
    Outcome (Objects (String × ν) δ ρ)
  pgDumpAll_lists : ∀ s, (pgDumpAll s).exitCode = 0 → (pgDumpAll s).after.Lists s.objects
  pgDump_lists : ∀ s db, (pgDump s db).exitCode = 0 →
    (pgDump s db).after.Lists fun n => s.objects (db, n)
  psql_goesOn : ∀ script s, (psql script s).exitCode = 0 →
    (psql script s).after = goOn refuses script s
  pgRestore_counts : ∀ script s, (pgRestore script s).exitCode = 0 →
    allOf refuses script s = some (pgRestore script s).after

structure DbBackupPayload where
  engine : Engine
  database : String
  tags : List Tag
  retentionDays : Option Nat

def dumpFile (dumpAll : Bool) : String := if dumpAll then "dump.sql" else "dump.pgc"

/-- The scratch volume with the staged dump. -/
@[grind =] def staged (dumpAll : Bool) (c : Content β ν δ ρ) : Files (Content β ν δ ρ) :=
  Function.update (fun _ => none) (dumpFile dumpAll) (some c)

def dumped (P : Postgres ν δ ρ) (p : DbBackupPayload) (server : Server ν δ ρ) :
    Outcome (Content β ν δ ρ) :=
  if p.engine = .pg_dumpall then
    let dump := P.pgDumpAll server
    ⟨dump.exitCode, .sql dump.after⟩
  else
    let dump := P.pgDump server p.database
    ⟨dump.exitCode, .pgc dump.after⟩

def backupDbLogical (T : Tool (Content β ν δ ρ)) (P : Postgres ν δ ρ) (p : DbBackupPayload)
    (server : Server ν δ ρ) (r : Repository (Content β ν δ ρ)) :
    Except String (Snapshot (Content β ν δ ρ) × Repository (Content β ν δ ρ)) := do
  let dump := dumped P p server
  if dump.exitCode ≠ 0 then
    throw (p.engine.name ++ " exited " ++ toString dump.exitCode)
  let store := T.backup r DUMP_MOUNT p.database p.tags
    (staged (p.engine = .pg_dumpall) dump.after)
  if store.exitCode ≠ 0 then
    throw ("restic backup exited " ++ toString store.exitCode)
  return (store.after.1, (applyRetention T p.retentionDays p.tags p.database store.after.2).2)

structure DbRestorePayload where
  engine : Engine
  mode : Mode
  snapshotId : String
  database : Option String
  connDatabase : String

def DbRestorePayload.targetDb (p : DbRestorePayload) : String := p.database.getD p.connDatabase

/-- The archive of one database, loaded in the database `db`. -/
def inDatabase (db : String) (d : Dump ν δ ρ) : Dump (String × ν) δ ρ :=
  d.rename (Prod.mk db) fun _ _ h => (Prod.mk.inj h).2

/-- The load of `logicalRestoreScript`. Without its file either client exits 1. -/
def load (P : Postgres ν δ ρ) (dumpAll : Bool) (db : String) (scratch : Files (Content β ν δ ρ))
    (server : Objects (String × ν) δ ρ) : Outcome (Objects (String × ν) δ ρ) :=
  match dumpAll, scratch (dumpFile dumpAll) with
  | true, some (.sql d) => P.psql d.script server
  | false, some (.pgc d) => P.pgRestore (inDatabase db d).cleanScript server
  | _, _ => ⟨1, server⟩

def restoreDbLogical (T : Tool (Content β ν δ ρ)) (P : Postgres ν δ ρ) (p : DbRestorePayload)
    (r : Repository (Content β ν δ ρ)) (server : Objects (String × ν) δ ρ) :
    Except String (Objects (String × ν) δ ρ) := do
  if p.engine.isPhysical then
    throw ("engine \"" ++ p.engine.name ++ "\" supports only pitr restore, not \"" ++
      p.mode.name ++ "\"")
  let dumpAll : Bool := p.engine = .pg_dumpall
  if dumpAll && p.mode = .singleDatabase then
    throw "single-database restore needs a pg_dump (per-db) backup, not pg_dumpall"
  guard isSnapshotRef "snapshot id" p.snapshotId
  let fetch := T.restore r p.snapshotId DUMP_MOUNT fun _ => none
  if fetch.exitCode ≠ 0 then
    throw ("restic restore exited " ++ toString fetch.exitCode)
  guard isDbName "database name" p.targetDb
  let loaded := load P dumpAll p.targetDb fetch.after server
  if loaded.exitCode ≠ 0 then
    throw ("restore (" ++ p.engine.name ++ ") exited " ++ toString loaded.exitCode)
  return loaded.after

/-! ## The writers of a repository -/

/-- What a snapshot is of. A volume is one node's. -/
inductive Source
  | volume (org node name : String)
  | cluster (org stack name : String)
  | appDb (org stack service : String)

/-- A backup some writer asks for. The caches and search engines add a tag of their own. -/
inductive Job
  | volume (org node name : String) (extra : Option String)
  | cluster (org stack name : String) (engine : Engine) (database : String)
  | appDb (org stack service engine reason : String)

namespace Job

def source : Job → Source
  | volume org node name _ => .volume org node name
  | cluster org stack name _ _ => .cluster org stack name
  | appDb org stack service _ _ => .appDb org stack service

@[grind =] def tags : Job → List Tag
  | volume org _ name extra => [.org org, .volume name] ++ extra.toList.map .other
  | cluster org stack name engine _ => [.org org, .db stack name, .engine engine]
  | appDb org stack service engine reason =>
    [.org org, .appDb stack service, .other ("engine:" ++ engine), .other ("reason:" ++ reason)]

/-- The tags of its retention run: an application's database is not told apart by the reason. -/
@[grind =] def retentionTags : Job → List Tag
  | appDb org stack service engine _ =>
    [.org org, .appDb stack service, .other ("engine:" ++ engine)]
  | job => job.tags

def host : Job → String
  | volume _ _ name _ => name
  | cluster _ _ _ _ database => database
  | appDb _ stack service _ _ => APPDB_HOST_PREFIX ++ "-" ++ if service = "" then stack else service

def root : Job → String
  | volume .. => MOUNT
  | cluster .. => DUMP_MOUNT
  | appDb .. => APPDB_DUMP_MOUNT

end Job

/-- What a job's backup leaves in the repository. -/
structure Snapshot.MadeBy (s : Snapshot κ) (job : Job) : Prop where
  tags : s.tags = job.tags
  host : s.host = job.host
  root : s.root = job.root

/-- Every snapshot of the repository was made by some job. -/
structure Shared (r : Repository κ) where
  jobOf : Snapshot κ → Job
  made : ∀ s ∈ r.snapshots, s.MadeBy (jobOf s)

end Swarmy.Restic
