import Swarmy.Disk.Format

/-!
# Re-attaching a disk

The host script that mounts a formatted disk again, command by command.  Files that were
written into the bare mountpoint are copied to the disk first and set aside.  Any command
may fail, which rolls back, and any may be the last one to run.
-/

namespace Swarmy.Disk

/-- The files of a directory tree, by path. -/
abbrev Files := List (String × String)

structure RepairInput where
  path : String
  serial : String
  stamp : String
  onlyIfEmptyAndInFstab : Bool
deriving DecidableEq

/-- The names the script works with. -/
structure RepairNames where
  dev : String
  want : String
  label : String
  mnt : String
  tmp : String
  aside : String
  stamp : String
deriving DecidableEq

/-- `STAMP`. -/
def isStamp (s : String) : Bool :=
  s ≠ "" && s.length ≤ 32 && s.toList.all fun c => c.isAlphanum || c = '-'

/-- What `renderRepairScript` fills in. -/
def renderRepairScript (input : RepairInput) : Except String RepairNames :=
  if isDevPath input.path then
    if isStamp input.stamp then
      (diskId input.serial).bind fun id => (swarmyFsLabel input.serial).map fun label =>
        let mnt := SWARMY_DISK_ROOT ++ id
        ⟨input.path, Js.trim input.serial, label, mnt, SWARMY_DISK_ROOT ++ ".repair-" ++ id,
          mnt ++ ".pre-mount-" ++ input.stamp, input.stamp⟩
    else .error "bad stamp"
  else .error "bad device path"

/-- The device, as `lsblk` and `blkid` show it. -/
structure AttachedDevice where
  type : String
  serial : String
  fstype : String
  label : String
  uuid : String
deriving DecidableEq

/-- The server: the directories at the three names on the root disk, what is mounted at two
of them, the files of the disk, and the fstab.  In a private namespace the host sees no mount
of the script. -/
structure RepairHost where
  privateNamespace : Bool
  procNamespaces : Bool
  device : AttachedDevice
  mountedElsewhere : Bool
  rsync : Bool
  atMnt : Option Files
  atTmp : Option Files
  atAside : Option Files
  mntDev : Option String
  tmpDev : Option String
  disk : Files
  fstab : Option (List String)
deriving DecidableEq

/-- The next command. -/
inductive RepairPc where
  | checks
  | onlyIf
  | branch
  | dropStale
  | dropBak
  | findRsync
  | mktemp
  | listSrc
  | mkdirTmp
  | mountTmp
  | copy
  | compare
  | umountTmp
  | rmdirTmp
  | setAside
  | mkdirMnt
  | makeMnt
  | mount
  | hostCheck
  | sed
  | sedBak
  | append
  | volumes
  | rmWork
  | report
  | undoMount
  | undoRmdir
  | undoMove
  | warnKept
  | undoTmpMount
  | undoTmp
  | undoWork
  | rolledBack
  | failed
  | done
deriving DecidableEq

/-- A run of the script: its flags, and whether it printed where the originals are kept. -/
structure Repair where
  pc : RepairPc
  host : RepairHost
  tmpMade : Bool
  tmpMounted : Bool
  asideDone : Bool
  mntMade : Bool
  realMounted : Bool
  work : Bool
  src : Files
  keptAt : Option String
deriving DecidableEq

def Repair.start (host : RepairHost) : Repair :=
  ⟨.checks, host, false, false, false, false, false, false, [], none⟩

/-- The files of a directory that may not be there. -/
def filesOf (d : Option Files) : Files := d.getD []

/-- A directory that is there and has files in it. -/
def hasFiles (d : Option Files) : Bool := filesOf d ≠ []

/-- The checks before anything is touched: the first that fails. -/
def repairChecks (n : RepairNames) (h : RepairHost) : Option String :=
  if h.procNamespaces ∧ h.privateNamespace then
    some "not in the host mount namespace; a mount here would be invisible to Docker"
  else if h.device.type ≠ "disk" then some (n.dev ++ " is not a disk")
  else if h.device.serial ≠ n.want then some (n.dev ++ " is now a different disk (serial changed)")
  else if h.device.fstype ≠ "ext4" then
    some (n.dev ++ " does not have the ext4 filesystem swarmy made")
  else if h.device.label ≠ n.label then some (n.dev ++ " does not carry swarmy's label " ++ n.label)
  else if h.device.uuid = "" then some (n.dev ++ " has no filesystem UUID")
  else if h.mntDev.isSome then some ("something is already mounted at " ++ n.mnt)
  else if h.tmpDev.isSome then some ("something is already mounted at " ++ n.tmp)
  else if h.mountedElsewhere then
    some (n.dev ++ " is already mounted somewhere else on this server")
  else if hasFiles h.atTmp then some (n.tmp ++ " is in the way (it has files in it)")
  else if h.atAside.isSome then some (n.aside ++ " already exists")
  else none

/-- A line of the fstab that mounts a device at a directory. -/
def declares (uuid mnt line : String) : Bool :=
  match (line.toList.splitOn ' ').filter (· ≠ []) with
  | dev :: dir :: _ => dev = ("UUID=" ++ uuid).toList && dir = mnt.toList
  | _ => false

/-- `rsync --backup`: what would be overwritten is kept under another name. -/
def rsyncOnto (suffix : String) (src disk : Files) : Files :=
  src ++ disk.map fun f => if f.1 ∈ src.map (·.1) then (f.1 ++ suffix, f.2) else f

/-- Every file of the originals is on the disk, with its size. -/
def sameListing (src disk : Files) : Bool :=
  src.all fun f => disk.any fun g => g.1 = f.1 ∧ g.2.utf8ByteSize = f.2.utf8ByteSize

/-- How a command ends.  A copy that fails leaves `left` on the disk, and an append that fails
the first `cut` characters of its line. -/
inductive RepairMove where
  | ok
  | fail (left : Files) (cut : Nat)
deriving DecidableEq

namespace Repair

variable (r : Repair)

def goto (pc : RepairPc) : Repair := { r with pc := pc }

/-- `set -e`, `err` and the trap. -/
def rollback : Repair := r.goto .undoMount

def setHost (h : RepairHost) (pc : RepairPc) : Repair := { r with pc := pc, host := h }

/-- The lines `sed` leaves. -/
def sedded (n : RepairNames) : RepairHost :=
  { r.host with fstab := r.host.fstab.map fun lines => lines.filter (!deletes n.mnt ·) }

/-- What is written of the line before the append fails. -/
def shortLine (n : RepairNames) (cut : Nat) : String :=
  .ofList ((fstabLine r.host.device.uuid n.mnt).toList.take cut)

/-- The fstab after an append that fails. -/
def cutShort (n : RepairNames) (cut : Nat) : RepairHost :=
  if cut = 0 then r.host
  else { r.host with fstab := some (r.host.fstab.getD [] ++ [r.shortLine n cut]) }

/-- A command that succeeds. -/
@[grind =] def ok (n : RepairNames) (onlyIfEmptyAndInFstab : Bool) : Option Repair :=
  let h := r.host
  match r.pc with
  | .checks =>
    if (repairChecks n h).isSome then none
    else some (r.goto (if onlyIfEmptyAndInFstab then .onlyIf else .branch))
  | .onlyIf =>
    if (h.fstab.getD []).any (declares h.device.uuid n.mnt) ∧ hasFiles h.atMnt = false then
      some (r.goto .branch)
    else none
  | .branch =>
    some (r.goto (if hasFiles h.atMnt then .dropStale else if h.atMnt.isNone then .makeMnt
      else .mount))
  | .dropStale => some (r.setHost (r.sedded n) .dropBak)
  | .dropBak => some (r.goto .findRsync)
  | .findRsync => if h.rsync then some (r.goto .mktemp) else none
  | .mktemp => some { r with pc := .listSrc, work := true }
  | .listSrc => some { r with pc := .mkdirTmp, src := filesOf h.atMnt }
  | .mkdirTmp =>
    some { r with
      pc := .mountTmp, tmpMade := true
      host := { h with atTmp := some (filesOf h.atTmp) } }
  | .mountTmp =>
    some { r with pc := .copy, tmpMounted := true, host := { h with tmpDev := some n.dev } }
  | .copy =>
    some (r.setHost { h with
      disk := rsyncOnto (".pre-repair-" ++ n.stamp) (filesOf h.atMnt) h.disk } .compare)
  | .compare => if sameListing r.src h.disk then some (r.goto .umountTmp) else none
  | .umountTmp =>
    some { r with pc := .rmdirTmp, tmpMounted := false, host := { h with tmpDev := none } }
  | .rmdirTmp => some { r with pc := .setAside, tmpMade := false, host := { h with atTmp := none } }
  | .setAside =>
    some { r with
      pc := .mkdirMnt, asideDone := true
      host := { h with atMnt := none, atAside := h.atMnt } }
  | .mkdirMnt => some (r.setHost { h with atMnt := some [] } .mount)
  | .makeMnt => some { r with pc := .mount, mntMade := true, host := { h with atMnt := some [] } }
  | .mount =>
    some { r with pc := .hostCheck, realMounted := true, host := { h with mntDev := some n.dev } }
  | .hostCheck =>
    if h.privateNamespace ∨ h.mntDev ≠ some n.dev then none else some (r.goto .sed)
  | .sed => some (r.setHost (r.sedded n) .sedBak)
  | .sedBak => some (r.goto .append)
  | .append =>
    some (r.setHost { h with fstab := some (h.fstab.getD [] ++ [fstabLine h.device.uuid n.mnt]) }
      .volumes)
  | .volumes => some (r.goto .rmWork)
  | .rmWork => some { r with pc := .report, work := false }
  | .report => some (r.goto .done)
  | .undoMount =>
    some (if r.realMounted then r.setHost { h with mntDev := none } .undoRmdir
      else r.goto .undoRmdir)
  | .undoRmdir =>
    -- only a directory that is empty and no mountpoint goes
    if r.asideDone then
      if h.atMnt = some [] ∧ h.mntDev = none then
        some (r.setHost { h with atMnt := none } .undoMove)
      else none
    else if r.mntMade then
      if h.atMnt = some [] ∧ h.mntDev = none then
        some (r.setHost { h with atMnt := none } .undoTmpMount)
      else none
    else some (r.goto .undoTmpMount)
  | .undoMove => some (r.setHost { h with atMnt := h.atAside, atAside := none } .undoTmpMount)
  | .warnKept => some { r with pc := .undoTmpMount, keptAt := some n.aside }
  | .undoTmpMount =>
    some (if r.tmpMounted then r.setHost { h with tmpDev := none } .undoTmp else r.goto .undoTmp)
  | .undoTmp =>
    if r.tmpMade then
      if filesOf h.atTmp = [] ∧ h.tmpDev = none then
        some (r.setHost { h with atTmp := none } .undoWork)
      else none
    else some (r.goto .undoWork)
  | .undoWork => some { r with pc := .rolledBack, work := false }
  | .rolledBack | .failed | .done => none

/-- A command that fails: before the rollback, the script ends there, but for `sed`, which is
followed by `&&`; in the rollback it goes on. -/
@[grind =] def fail (n : RepairNames) (left : Files) (cut : Nat) : Option Repair :=
  match r.pc with
  | .checks | .onlyIf | .dropBak | .findRsync | .mktemp | .listSrc | .mkdirTmp | .mountTmp
  | .compare | .umountTmp | .rmdirTmp | .setAside | .mkdirMnt | .makeMnt | .mount | .hostCheck
  | .sedBak | .volumes | .rmWork => some r.rollback
  | .copy => some (r.setHost { r.host with disk := left } .undoMount)
  | .append => some (r.setHost (r.cutShort n cut) .undoMount)
  | .dropStale => some (r.goto .findRsync)
  | .sed => some (r.goto .append)
  | .report => some (r.goto .failed)
  | .undoMount => some (r.goto .undoRmdir)
  | .undoRmdir => some (r.goto (if r.asideDone then .warnKept else .undoTmpMount))
  | .undoMove => some (r.goto .warnKept)
  | .warnKept => some (r.goto .undoTmpMount)
  | .undoTmpMount => some (r.goto .undoTmp)
  | .undoTmp => some (r.goto .undoWork)
  | .undoWork => some (r.goto .rolledBack)
  | .branch | .rolledBack | .failed | .done => none

end Repair

/-- One command of the script. -/
def Repair.step (n : RepairNames) (onlyIfEmptyAndInFstab : Bool) (r : Repair) :
    RepairMove → Option Repair
  | .ok => r.ok n onlyIfEmptyAndInFstab
  | .fail left cut => r.fail n left cut

end Swarmy.Disk
