import Swarmy.Coop.Kill
import Swarmy.Shell.Volume

/-!
# The boot layer of a managed Postgres member

`pgBootScript` of `packages/core/src/manageddb-pg.ts`, as a script over the member's
volume.  PGDATA is the directory `pgdata` of it; a clone is made in `pgdata.clone`
and renamed, and whatever the script sets aside goes to `pgdata.incomplete-*`,
`pgdata.diverged-*` or `pgdata.drill-*`.  The commands that touch the volume are
calls, so that the script can be killed before each of them; its tests are not.
A command that fails ends the script, as `set -eu` has it.

What happens outside the script is an input of the boot: its environment, the
clock, the files `pg_basebackup` copies, and what `initdb` leaves in an empty
PGDATA when the official entrypoint is at last executed.
-/

namespace Swarmy.Pg

open Shell Coop Coop.Prog

/-- Where the data of a directory comes from. -/
inductive Origin where
  | initdb
  | clone
  deriving DecidableEq

/-- The provenance of a directory's data. -/
structure Mark where
  origin : Origin
  /-- Has `pg_promote` ended recovery on it? -/
  promoted : Bool

/-- Data that has been written as a writer: born as one, or promoted. -/
def Mark.Writer (m : Mark) : Prop := m.origin = .initdb ∨ m.promoted = true

instance Mark.instDecidableWriter (m : Mark) : Decidable m.Writer :=
  inferInstanceAs (Decidable (_ ∨ _))

abbrev pgVersion : String := "PG_VERSION"
abbrev standbySignal : String := "standby.signal"
abbrev rejoinedFile : String := "swarmy.rejoined"

/-- `MANAGED_PG_PGDATA_SUBDIR`. -/
abbrev pgdata : String := "pgdata"
abbrev pgdataClone : String := "pgdata.clone"

/-- A member's volume. -/
structure Member where
  volume : Volume Mark
  /-- The epochs this member has written to its rejoin marker. -/
  joined : List String

/-- One boot: the environment of the container and what its commands meet. -/
structure Boot where
  /-- `SWARMY_PG_ROLE`. -/
  role : String
  /-- `SWARMY_PG_PRIMARY_HOST`. -/
  phost : String
  /-- `SWARMY_PG_REJOIN`. -/
  epoch : String
  /-- `date -u +%Y%m%dT%H%M%SZ`. -/
  now : String
  /-- What `pg_basebackup` has copied of the source's PGDATA. -/
  copied : Files
  /-- Does it succeed? -/
  copies : Bool
  /-- What `initdb` leaves in an empty PGDATA. -/
  initdb : Files

/-- The mode of `swarmy-pg-conf`. -/
inductive ConfMode where
  | standby
  | keep
  | writer
  deriving DecidableEq

/-- The commands of the script that touch the volume. -/
inductive Cmd where
  | /-- `until pg_isready …; do sleep 2; done`. -/
    pgIsready
  | /-- `rm -rf "$ROOT/name"`. -/
    rmRf (name : String)
  | /-- `rm -rf "$ROOT"/stem*`. -/
    rmGlob (stem : String)
  | mkdir (name : String)
  | pgBasebackup
  | rmdir (name : String)
  | mv (src dst : String)
  | /-- `rm -f` of files of a directory. -/
    rmF (name : String) (files : List String)
  | touch (name file : String)
  | /-- `printf '%s' "$EPOCH" > "$PGDATA/swarmy.rejoined"`. -/
    markRejoined
  | /-- `/usr/local/bin/swarmy-pg-conf "$PGDATA" mode`. -/
    pgConf (mode : ConfMode)
  | /-- `exec docker-entrypoint.sh postgres`: Postgres starts, after `initdb` where
    PGDATA is empty. -/
    entrypoint

/-- Every command answers with whether it has succeeded. -/
abbrev cmds : Sig := ⟨Cmd, fun _ => Bool⟩

abbrev Script (α : Type) : Type := Prog cmds Member Nat α

namespace Member

/-- Act on the volume. -/
def on (m : Member) (f : Volume Mark → Bool × Volume Mark) : Bool × Member :=
  ((f m.volume).1, { m with volume := (f m.volume).2 })

/-- Act on the volume, with success. -/
def always (m : Member) (f : Volume Mark → Volume Mark) : Bool × Member :=
  (true, { m with volume := f m.volume })

end Member

/-- The official entrypoint: `initdb` runs where PGDATA is missing or empty and fails
where it holds anything else but a cluster. -/
def entrypoint (initdb : Files) (v : Volume Mark) : Bool × Volume Mark :=
  if (v.get pgdata).any (·.nonEmpty pgVersion) then (true, v)
  else if (v.get pgdata).all (·.files.entries.isEmpty) then
    (v.mkdir pgdata ⟨.initdb, false⟩).modify pgdata fun d =>
      { d with files := initdb.erase standbySignal, mark := ⟨.initdb, false⟩ }
  else (false, v)

/-- What a command does. -/
def exec (b : Boot) : Cmd → Member → Bool × Member
  | .pgIsready, m => (true, m)
  | .rmRf name, m => m.always (Volume.rm (· = name))
  | .rmGlob stem, m => m.always (Volume.rm (fun n => stem.toList.isPrefixOf n.toList))
  | .mkdir name, m => m.always (Volume.mkdir name ⟨.clone, false⟩)
  | .pgBasebackup, m =>
    (b.copies, (m.on (Volume.modify pgdataClone fun d => { d with files := b.copied })).2)
  | .rmdir name, m => m.on (Volume.rmdir name)
  | .mv src dst, m => m.on (Volume.mv src dst)
  | .rmF name files, m => m.on (Volume.modify name fun d => d.rmFiles files)
  | .touch name file, m => m.on (Volume.modify name fun d => d.touch file)
  | .markRejoined, m =>
    { m with joined := b.epoch :: m.joined }.on
      (Volume.modify pgdata fun d => d.write rejoinedFile b.epoch)
  | .pgConf mode, m =>
    if mode = .keep then (true, m)
    else m.on (Volume.modify pgdata fun d =>
      d.write "swarmy.conf" (if mode = .standby then b.phost else ""))
  | .entrypoint, m => m.on (entrypoint b.initdb)

/-- Run a command under `set -e`. -/
def run (c : Cmd) : Script Unit :=
  .call c fun done => if done then .ret () else .raise 1

/-- `[ -s "$ROOT/name/file" ]`. -/
def Member.nonEmpty (name file : String) (m : Member) : Bool :=
  (m.volume.get name).any (·.nonEmpty file)

/-- `[ -f "$ROOT/name/file" ]`. -/
def Member.hasFile (name file : String) (m : Member) : Bool :=
  (m.volume.get name).any (·.hasFile file)

/-- `$(cat "$PGDATA/swarmy.rejoined" 2>/dev/null || true)`. -/
def Member.rejoined (m : Member) : String :=
  ((m.volume.get pgdata).map (·.cat rejoinedFile)).getD ""

/-- Anything left at PGDATA without `PG_VERSION` is kept aside. -/
def setIncompleteAside (b : Boot) : Script Unit := do
  let there ← Prog.read fun m => (m.volume.get pgdata).isSome
  if there = false then pure ()
  else Prog.bind (.perform (Cmd.rmdir pgdata)) fun gone =>
    if gone = true then pure () else run (.mv pgdata ("pgdata.incomplete-" ++ b.now))

/-- Rename the clone into place, as a standby. -/
def installClone : Script Unit := do
  run (.mv pgdataClone pgdata)
  run (.rmF pgdata ["recovery.signal", "postmaster.pid"])
  run (.touch pgdata standbySignal)

/-- Copy the source's PGDATA into a directory of its own. -/
def copySource : Script Unit := do
  run .pgIsready
  run (.rmRf pgdataClone)
  run (.mkdir pgdataClone)
  run .pgBasebackup

/-- `clone()`. -/
def clone (b : Boot) : Script Unit :=
  if b.phost = "" then throw 2
  else do
    copySource
    let verified ← Prog.read (Member.nonEmpty pgdataClone pgVersion)
    if verified = false then throw 4
    else
      setIncompleteAside b
      installClone

/-- Writer data that rejoins as a standby is kept aside; of a drill's copies only the
latest is kept. -/
def setWriterAside (b : Boot) : Script Unit :=
  if "drill:".toList.isPrefixOf b.epoch.toList then do
    run (.rmGlob "pgdata.drill-")
    run (.mv pgdata ("pgdata.drill-" ++ b.now))
  else run (.mv pgdata ("pgdata.diverged-" ++ b.now))

/-- Writer data rejoins as a standby. -/
def rejoin (b : Boot) : Script Unit := do
  setWriterAside b
  clone b

/-- A replica's PGDATA: cloned where there is none, and cloned anew where it is a
writer's and the epoch asks for it. -/
def prepareReplica (b : Boot) : Script Unit := do
  let held ← Prog.read (Member.nonEmpty pgdata pgVersion)
  let standby ← Prog.read (Member.hasFile pgdata standbySignal)
  let marker ← Prog.read Member.rejoined
  if held = false then clone b
  else if standby = false ∧ b.epoch ≠ "" ∧ marker ≠ b.epoch then rejoin b
  else pure ()

/-- The marker of the epoch. -/
def writeMarker (b : Boot) : Script Unit := do
  let held ← Prog.read (Member.nonEmpty pgdata pgVersion)
  if b.epoch ≠ "" ∧ held = true then run .markRejoined else pure ()

/-- What a boot does as a replica. -/
def bootReplica (b : Boot) : Script Unit := do
  prepareReplica b
  writeMarker b

/-- The configuration of what is about to start. -/
def configure (b : Boot) : Script Unit := do
  let held ← Prog.read (Member.nonEmpty pgdata pgVersion)
  let standby ← Prog.read (Member.hasFile pgdata standbySignal)
  if held = false then pure ()
  else if standby = true then run (.pgConf (if b.phost ≠ "" then .standby else .keep))
  else run (.pgConf .writer)

/-- `${SWARMY_PG_ROLE:-primary}`. -/
def Boot.roleOr (b : Boot) : String := if b.role = "" then "primary" else b.role

/-- What a boot does for its role; a primary has nothing to prepare. -/
def bootRole (b : Boot) : Script Unit := if b.roleOr = "replica" then bootReplica b else pure ()

/-- What a boot does once it has not been refused. -/
def bootMember (b : Boot) : Script Unit := do
  bootRole b
  configure b
  run .entrypoint

/-- `pgBootScript`.  A primary is refused beside the cluster of the engine before. -/
def pgBootScript (b : Boot) : Script Unit := do
  let held ← Prog.read (Member.nonEmpty pgdata pgVersion)
  let bitnami ← Prog.read (Member.nonEmpty "data" pgVersion)
  if b.roleOr = "primary" ∧ held = false ∧ bitnami = true then throw 3 else bootMember b

/-! ## Runs of boots -/

/-- What happens to a member's volume. -/
inductive Event where
  | /-- A boot that is killed after `n` of its commands, unless it ends before. -/
    boot (b : Boot) (n : Nat)
  | /-- `pg_promote` ends recovery on PGDATA. -/
    promote

/-- What a boot leaves after `n` commands. -/
def bootFor (b : Boot) (n : Nat) (m : Member) : Script Unit × Member :=
  after (exec b) (pgBootScript b) m n

/-- `pg_promote` on a standby. -/
def promote (m : Member) : Member :=
  if m.nonEmpty pgdata pgVersion && m.hasFile pgdata standbySignal then
    (m.on (Volume.modify pgdata fun d =>
      { d with files := d.files.erase standbySignal, mark := { d.mark with promoted := true } })).2
  else m

namespace Member

/-- A volume nothing has booted on; it may hold a cluster of the engine before, in
`data`. -/
def fresh (bitnami : Option Files) : Member where
  volume :=
    { dirs := match bitnami with
        | some files => AList.singleton "data" ⟨0, files, ⟨.initdb, false⟩⟩
        | none => ∅
      inside := []
      removed := []
      next := 1 }
  joined := []

/-- The next state. -/
def step (m : Member) : Event → Member
  | .boot b n => (bootFor b n m).2
  | .promote => promote m

/-- The state after a run. -/
def runAll (m : Member) (es : List Event) : Member := es.foldl step m

end Member

end Swarmy.Pg
