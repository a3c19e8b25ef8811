import Swarmy.Disk.Inventory
import Swarmy.Machine.Run

/-!
# Formatting a disk

The host script that makes a file system on one disk, mounts it and writes its line to the
fstab, run command by command on a host whose commands may fail, behind the agent's gate on
a fresh probe.
-/

namespace Swarmy.Disk

/-! ## The host -/

/-- A block device, as `lsblk -d`, `wipefs -n` and `blkid` show it. -/
structure BlockDevice where
  serial : String
  size : Nat
  children : List String
  wipefs : String
  blkid : Bool

/-- A mount, at a directory of a device. -/
structure Mount where
  dir : String
  dev : String

/-- What the script sees of a server.  The newest mount comes first; `bare` are the
directories of the root disk that have files in them. -/
structure Host where
  privateNamespace : Bool
  devices : List (String × BlockDevice)
  mounts : List Mount
  fstab : List String
  bare : List String

namespace Host

variable (h : Host)

/-- The device that is seen at a directory. -/
def mountedAt (dir : String) : Option String := (h.mounts.find? (·.dir = dir)).map (·.dev)

/-- Whether a device or one of its children is mounted. -/
def isMounted (path : String) (d : BlockDevice) : Bool :=
  h.mounts.any fun m => m.dev ∈ path :: d.children

/-- `mkfs.ext4`, for the signatures. -/
def setSignature (path : String) : Host :=
  { h with devices := h.devices.map fun d =>
      if d.1 = path then (d.1, { d.2 with wipefs := "ext4", blkid := true }) else d }

end Host

/-! ## The script -/

/-- Whether a basic regular expression of letters and dots matches at the start of a line. -/
def matchesHere : List Char → List Char → Bool
  | [], _ => true
  | _ :: _, [] => false
  | p :: ps, c :: cs => (p = '.' || p = c) && matchesHere ps cs

/-- Whether it matches somewhere in a line. -/
def matchesIn (p : List Char) : List Char → Bool
  | [] => matchesHere p []
  | c :: cs => matchesHere p (c :: cs) || matchesIn p cs

/-- `\| <dir> |`, the lines `sed` deletes. -/
def deletes (dir line : String) : Bool := matchesIn (" " ++ dir ++ " ").toList line.toList

def DISK_FSTAB_OPTIONS : String :=
  "defaults,nofail,x-systemd.device-timeout=10s,x-systemd.before=docker.service"

def fstabLine (uuid mnt : String) : String :=
  "UUID=" ++ uuid ++ " " ++ mnt ++ " ext4 " ++ DISK_FSTAB_OPTIONS ++ " 0 2"

/-- What the commands of a run do that may fail; `uuid` is the new file system's. -/
structure FormatRun where
  hasMkfs : Bool
  mkfs : Bool
  uuid : String
  mkdir : Bool
  mount : Bool
  hostCheck : Bool
  sed : Bool
  append : Bool
  volumes : Bool

structure FormatInput where
  path : String
  serial : String
  sizeBytes : Nat

/-- The checks before `mkfs`: the first that fails. -/
def formatChecks (h : Host) (input : FormatInput) (mnt : String) (r : FormatRun) : Option String :=
  if h.privateNamespace then
    some "not in the host mount namespace; a mount here would be invisible to Docker"
  else
    match h.devices.lookup input.path with
    | none => some (input.path ++ " is not a block device")
    | some d =>
      if d.serial ≠ Js.trim input.serial then
        some (input.path ++ " is now a different disk (serial changed)")
      else if d.size ≠ input.sizeBytes then some (input.path ++ " changed size")
      else if h.isMounted input.path d then some (input.path ++ " is mounted")
      else if d.children ≠ [] then some (input.path ++ " has partitions")
      else if d.wipefs ≠ "" ∨ d.blkid then
        some ("a filesystem or partition signature was found on " ++ input.path)
      else if (h.mountedAt mnt).isNone ∧ mnt ∈ h.bare then
        some (mnt ++ " already has files in it on the root disk; move them away first (mounting " ++
          "the disk there would hide them)")
      else if r.hasMkfs then none
      else some "mkfs.ext4 is not installed on this server (install e2fsprogs)"

/-- How a run of the script ended. -/
inductive ScriptEnd where
  | err (message : String)
  | failed
  | formatted (uuid : String)

/-- `fstabWrite`; where `sed` fails, no line is deleted. -/
def fstabWrite (h : Host) (mnt uuid : String) (r : FormatRun) : Host :=
  { h with fstab := (if r.sed then h.fstab.filter (!deletes mnt ·) else h.fstab) ++
    [fstabLine uuid mnt] }

/-- From `mount` on. -/
def mountDisk (h : Host) (input : FormatInput) (mnt : String) (r : FormatRun) : Host × ScriptEnd :=
  if r.mount then
    let mounted := { h with mounts := ⟨mnt, input.path⟩ :: h.mounts }
    if r.hostCheck then
      if r.append then
        (fstabWrite mounted mnt r.uuid r, if r.volumes then .formatted r.uuid else .failed)
      else
        ({ mounted with
          fstab := if r.sed then h.fstab.filter (!deletes mnt ·) else h.fstab }, .failed)
    else (mounted, .err (mnt ++ " is not mounted as the host sees it (a private mount namespace?)"))
  else (h, .err ("mounting " ++ input.path ++ " at " ++ mnt ++ " failed"))

/-- The script after its checks: `mkfs`, and the mount. -/
def makeDisk (h : Host) (input : FormatInput) (mnt : String) (r : FormatRun) : Host × ScriptEnd :=
  if r.mkfs then
    let made := h.setSignature input.path
    if r.uuid = "" then (made, .err "the new filesystem has no UUID")
    else if r.mkdir then mountDisk made input mnt r
    else (made, .failed)
  else (h, .err "mkfs.ext4 failed")

/-- The script, and whether it ran `mkfs`. -/
def runFormatScript (h : Host) (input : FormatInput) (mnt : String) (r : FormatRun) :
    Host × ScriptEnd × Bool :=
  match formatChecks h input mnt r with
  | some message => (h, .err message, false)
  | none => ((makeDisk h input mnt r).1, (makeDisk h input mnt r).2, true)

/-- `DEV_PATH`. -/
def isDevPath (path : String) : Bool :=
  Js.startsWith path "/dev/" && Js.slice path 5 ≠ "" &&
    (Js.slice path 5).toList.all (fun c => c.isAlphanum || c ∈ ['.', '_', '/', '-']) &&
    (indexOf ['.', '.'] path.toList).isNone

/-- What `renderFormatScript` needs: the mountpoint of the disk it renders for. -/
def renderFormatScript (input : FormatInput) : Except String String :=
  if isDevPath input.path then
    if input.sizeBytes = 0 ∨ 2 ^ 53 ≤ input.sizeBytes then .error "bad size"
    else (diskMountpoint input.serial).bind fun mnt => (swarmyFsLabel input.serial).map fun _ => mnt
  else .error "bad device path"

/-! ## The agent -/

/-- `SWARMY_ALLOW_DISK_FORMAT`. -/
inductive Override where
  | allow
  | deny

def diskFormatGateAllows (override : Option Override) (nodeCapable : Option Bool) : Bool :=
  match override with
  | some .deny => false
  | some .allow => true
  | none => nodeCapable = some true

structure FormatDiskPayload where
  path : String
  serial : String
  sizeBytes : Nat
  typedConfirmation : String
  nodeCapable : Option Bool

/-- A disk that was formatted. -/
structure FormatDiskResult where
  path : String
  serial : String
  mountpoint : String
  uuid : String
deriving DecidableEq

/-- A server on which disks are formatted, with the paths `mkfs` ran on. -/
structure World where
  host : Host
  formatted : List FormatDiskResult
  made : List String

/-- What the agent is given and what answers it. -/
structure Deps where
  toUpperCase : String → String
  parseLsblk : String → List LsblkDevice
  override : Option Override

/-- The agent's checks: the mountpoint of the script it runs. -/
def admitFormat (deps : Deps) (p : FormatDiskPayload) (out : String) : Option String :=
  if diskFormatGateAllows deps.override p.nodeCapable ∧ isDevPath p.path then
    let probe := parseDiskProbe deps.parseLsblk out
    if probe.error.isSome then none
    else
      match formatGate deps.toUpperCase probe.devices ⟨p.path, p.serial, p.sizeBytes⟩
          (probe.signatures.getD "the signature probe did not run") p.typedConfirmation with
      | .ok .ok => (renderFormatScript ⟨p.path, p.serial, p.sizeBytes⟩).toOption
      | _ => none
  else none

/-- `formatDisk`: the probe's output, and how the commands of the script end. -/
structure FormatMove where
  payload : FormatDiskPayload
  out : String
  run : FormatRun

/-- The server after a run of the script. -/
def World.after (w : World) (p : FormatDiskPayload) (mnt : String) (run : Host × ScriptEnd × Bool) :
    World where
  host := run.1
  formatted :=
    match run.2.1 with
    | .formatted uuid => ⟨p.path, p.serial, mnt, uuid⟩ :: w.formatted
    | .err _ | .failed => w.formatted
  made := if run.2.2 then p.path :: w.made else w.made

def World.formatDisk (w : World) (deps : Deps) (m : FormatMove) : World :=
  match admitFormat deps m.payload m.out with
  | none => w
  | some mnt =>
    let p := m.payload
    w.after p mnt (runFormatScript w.host ⟨p.path, p.serial, p.sizeBytes⟩ mnt m.run)

def World.step (deps : Deps) (w : World) (m : FormatMove) : Option World :=
  some (w.formatDisk deps m)

/-- A server on which nothing was formatted yet. -/
def World.fresh (host : Host) : World := ⟨host, [], []⟩

end Swarmy.Disk
