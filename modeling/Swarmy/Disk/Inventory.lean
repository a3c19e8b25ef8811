import Swarmy.Js.Json

/-!
# The disks of a server

What a probe of a server's block devices shows, which of them may be formatted, and the
ids, labels and mountpoints of formatted disks.
-/

namespace Swarmy.Disk

/-! ## Text -/

/-- `s.indexOf(t)`. -/
def indexOf (t : List Char) : List Char → Option Nat
  | [] => if t = [] then some 0 else none
  | c :: s => if t.isPrefixOf (c :: s) then some 0 else (indexOf t s).map (· + 1)

/-- Every character but these is what `.` stands for. -/
def isLineEnd (c : Char) : Bool := c ∈ ['\n', '\r', Char.ofNat 0x2028, Char.ofNat 0x2029]

/-- A string that is there and not empty. -/
def given (v : Option String) : Option String := v.filter (· ≠ "")

/-- The part of a probe's output after a marker line and before the first of others. -/
def sectionOf (out marker : String) (next : List String) : Option String :=
  (indexOf (marker ++ "\n").toList out.toList).map fun at' =>
    let rest := out.toList.drop (at' + marker.toList.length + 1)
    let ends := next.filterMap fun n => indexOf n.toList rest
    String.ofList (ends.min?.elim rest rest.take)

/-! ## What a probe shows -/

/-- `lsblk` prints a flag as a boolean, a number or a text. -/
inductive Flag where
  | bool (b : Bool)
  | num (n : Int)
  | str (s : String)

def truthy : Option Flag → Bool
  | some (.bool true) | some (.num 1) | some (.str "1") | some (.str "true") => true
  | _ => false

/-- The columns of an `lsblk -J` node; `size` is `Number(d.size ?? 0) || 0`. -/
structure LsblkColumns where
  name : String
  path : Option String
  size : Nat
  type : Option String
  fstype : Option String
  mountpoint : Option String
  mountpoints : List (Option String)
  serial : Option String
  ro : Option Flag
  rm : Option Flag
  pttype : Option String
  label : Option String

/-- One `lsblk -J` node. -/
inductive LsblkDevice where
  | mk (columns : LsblkColumns) (children : List LsblkDevice)

namespace LsblkDevice

def columns : LsblkDevice → LsblkColumns
  | mk columns _ => columns

def children : LsblkDevice → List LsblkDevice
  | mk _ children => children

/-- `d.path ?? /dev/<name>`. -/
def devPath (d : LsblkDevice) : String := d.columns.path.getD ("/dev/" ++ d.columns.name)

/-- `d.serial?.trim() || null`. -/
def trimmedSerial (d : LsblkDevice) : Option String := given (d.columns.serial.map Js.trim)

end LsblkDevice

/-- A column that is a text. -/
def textColumn (columns : Js.Fields) (key : String) : Option String :=
  match columns.get key with
  | some (.str s) => some s
  | _ => none

def flagColumn (columns : Js.Fields) (key : String) : Option Flag :=
  match columns.get key with
  | some (.bool b) => some (.bool b)
  | some (.num (.int n)) => some (.num n)
  | some (.str s) => some (.str s)
  | _ => none

/-- `Number(d.size ?? 0) || 0`, of whole numbers. -/
def sizeColumn (columns : Js.Fields) : Nat :=
  match columns.get "size" with
  | some (.num (.int n)) => n.toNat
  | some (.str s) => if s.toList.all Char.isDigit then Nat.ofDigitChars 10 s.toList 0 else 0
  | _ => 0

def mountpointsColumn (columns : Js.Fields) : List (Option String) :=
  match columns.get "mountpoints" with
  | some (.arr mounts) => mounts.map fun
    | .str s => some s
    | _ => none
  | _ => []

/-- The columns of a node, of the types that `lsblk` prints them in. -/
def columnsOf (columns : Js.Fields) (name : String) : LsblkColumns where
  name := name
  path := textColumn columns "path"
  size := sizeColumn columns
  type := textColumn columns "type"
  fstype := textColumn columns "fstype"
  mountpoint := textColumn columns "mountpoint"
  mountpoints := mountpointsColumn columns
  serial := textColumn columns "serial"
  ro := flagColumn columns "ro"
  rm := flagColumn columns "rm"
  pttype := textColumn columns "pttype"
  label := textColumn columns "label"

mutual

/-- A node that has a name. -/
def deviceOf : Js.Value → Option LsblkDevice
  | .obj fields =>
    (textColumn fields "name").map fun name => .mk (columnsOf fields name) (childrenOf fields)
  | _ => none

def devicesOf : List Js.Value → List LsblkDevice
  | [] => []
  | v :: vs => (deviceOf v).toList ++ devicesOf vs

def childrenOf : Js.Fields → List LsblkDevice
  | [] => []
  | (key, .arr nodes) :: fields => if key = "children" then devicesOf nodes else childrenOf fields
  | _ :: fields => childrenOf fields

end

/-- The nodes of `lsblk -J`; none where the text is no JSON or has another shape. -/
def parseLsblk (number : List Char → Js.Num) (json : String) : List LsblkDevice :=
  match (Js.Json.parse number json).bind (·.field "blockdevices") with
  | some (.arr nodes) => devicesOf nodes
  | _ => []

mutual

def mountsOf : LsblkDevice → List String
  | .mk d children =>
    (d.mountpoints ++ [d.mountpoint]).filterMap given ++ mountsOfAll children

def mountsOfAll : List LsblkDevice → List String
  | [] => []
  | d :: ds => mountsOf d ++ mountsOfAll ds

end

mutual

def anyFs : LsblkDevice → Bool
  | .mk d children => (given d.fstype).isSome || anyFsAll children

def anyFsAll : List LsblkDevice → Bool
  | [] => false
  | d :: ds => anyFs d || anyFsAll ds

end

/-- The `KEY=value` of a line, with its escapes undone. -/
def blkidPair (line : String) : Option (String × String) :=
  let l := (Js.trim line).toList
  let key := l.takeWhile fun c => c.isUpper || c = '_'
  match l.dropWhile fun c => c.isUpper || c = '_' with
  | '=' :: value =>
    if key = [] ∨ value.any isLineEnd then none
    else some (String.ofList key, String.ofList (unescape value))
  | _ => none
where
  unescape : List Char → List Char
    | '\\' :: c :: cs => c :: unescape cs
    | c :: cs => c :: unescape cs
    | [] => []

/-- The pairs of the blank-line separated blocks, the last pair of a block first. -/
def blkidBlocks (lines : List String) : List (List (String × String)) :=
  let done := lines.foldl
      (fun (acc : List (List (String × String)) × List (String × String)) line =>
    if Js.trim line = "" then (acc.2 :: acc.1, [])
    else (acc.1, (blkidPair line).toList ++ acc.2)) ([], [])
  done.2 :: done.1

/-- `out.split('\n')`. -/
def lines (out : String) : List String := (out.toList.splitOn '\n').map String.ofList

/-- The blocks of `blkid -o export` by device; of two for one device the last counts. -/
def parseBlkidExport (out : String) : List (String × List (String × String)) :=
  (blkidBlocks (lines out)).filterMap fun kv =>
    (given (kv.lookup "DEVNAME")).map fun dev => (dev, kv)

/-- A whole disk's missing columns are filled from a fresh `blkid`. -/
def fillFromBlkid (devices : List LsblkDevice) (probed : List (String × List (String × String))) :
    List LsblkDevice :=
  devices.map fun d =>
    match probed.lookup d.devPath with
    | none => d
    | some b =>
      .mk { d.columns with
        fstype := ((given d.columns.fstype).or (given (b.lookup "TYPE"))).or d.columns.fstype
        label := ((given d.columns.label).or (given (b.lookup "LABEL"))).or d.columns.label
        pttype := ((given d.columns.pttype).or (given (b.lookup "PTTYPE"))).or d.columns.pttype }
        d.children

structure DiskProbe where
  devices : List LsblkDevice
  signatures : Option String
  error : Option String

/-- The rest of the line after the first marker. -/
def errorOf (out : String) : Option String :=
  let marker := "__SWARMY_ERR__ ".toList
  (indexOf marker out.toList).map fun at' =>
    String.ofList ((out.toList.drop (at' + marker.length)).takeWhile (!isLineEnd ·))

/-- The number after the first marker that has one. -/
def blkidStatus (out : String) : Option String := go out.toList
where
  marker : List Char := "__SWARMY_BLKID_RC__ ".toList
  go : List Char → Option String
    | [] => none
    | c :: s =>
      if marker.isPrefixOf (c :: s) then
        match ((c :: s).drop marker.length).takeWhile Char.isDigit with
        | [] => go s
        | digits => some (String.ofList digits)
      else go s

/-- The outcome of `wipefs -n` and `blkid -p`: empty when there is no signature. -/
def signaturesOf (out wipefs : String) : String :=
  let blkid := (sectionOf out "__SWARMY_BLKID__" ["__SWARMY_BLKID_RC__"]).getD ""
  let rc := blkidStatus out
  let blkidHit :=
    if rc = some "2" then ""
    else (given (some (Js.trim blkid))).getD ("blkid -p exited " ++ rc.getD "without a status")
  "\n".intercalate ([Js.trim wipefs, blkidHit].filter (· ≠ ""))

/-- `parseDiskProbe`, where `parseLsblk` reads the tree of a JSON text. -/
def parseDiskProbe (parseLsblk : String → List LsblkDevice) (out : String) : DiskProbe where
  devices := fillFromBlkid
    (parseLsblk (Js.trim ((sectionOf out "__SWARMY_LSBLK__" ["__SWARMY_DF__"]).getD "")))
    (parseBlkidExport ((sectionOf out "__SWARMY_FSPROBE__" ["__SWARMY_WIPEFS__"]).getD ""))
  signatures := (sectionOf out "__SWARMY_WIPEFS__" ["__SWARMY_BLKID__"]).map (signaturesOf out)
  error := given (errorOf out)

/-! ## Ids -/

def SWARMY_DISK_ROOT : String := "/var/lib/swarmy/disks/"

/-- A character of an id. -/
def isIdChar (c : Char) : Bool := c.isAlphanum || c ∈ ['_', '.', '-']

/-- What stands for a character in an id: it has as many `_` as it has code units. -/
def idChar (c : Char) : List Char :=
  if isIdChar c then [c] else if c.toNat < 0x10000 then ['_'] else ['_', '_']

/-- A disk's stable id from its serial. -/
def diskId (serial : String) : Except String String :=
  let mangled := (Js.trim serial).toList.flatMap idChar
  let short := (mangled.dropWhile fun c => c = '.' || c = '-').take 64
  if String.ofList short = "default" then .ok "disk-default"
  else if short = [] then .error "the disk serial has no usable characters"
  else .ok (String.ofList short)

def swarmyFsLabel (serial : String) : Except String String :=
  (diskId serial).map fun id => "swarmy-" ++ String.ofList (id.toList.drop (id.toList.length - 9))

def diskMountpoint (serial : String) : Except String String :=
  (diskId serial).map (SWARMY_DISK_ROOT ++ ·)

/-! ## Which disk may be formatted -/

inductive DiskState where
  | blank
  | hasData
  | swarmy
  | swarmyUnmounted
  | mounted
  | system
  | ineligible
deriving DecidableEq

structure DiskView where
  path : String
  sizeBytes : Nat
  serial : Option String
  state : DiskState
  reason : String

def MIN_DISK_BYTES : Nat := 1024 ^ 3

def SYSTEM_MOUNTS : List String :=
  ["/", "/boot", "/boot/efi", "/usr", "/var", "/var/lib/docker", "/home", "[SWAP]"]

/-- Whether an unmounted disk carries the label of its serial. -/
def hasSwarmyLabel (d : LsblkDevice) : Except String Bool :=
  match d.trimmedSerial, given d.columns.label with
  | some serial, some label =>
    if d.columns.fstype = some "ext4" then (swarmyFsLabel serial).map (decide <| label = ·)
    else .ok false
  | _, _ => .ok false

/-- The state of a disk without a mount. -/
def unmountedState (d : LsblkDevice) (labelled : Bool) : DiskState × String :=
  if labelled then
    (.swarmyUnmounted, "Formatted by swarmy, but not attached on the server — new data is not " ++
      "going to this disk yet. swarmy re-attaches it.")
  else if anyFs d ∨ (given d.columns.pttype).isSome ∨ d.children ≠ [] then
    (.hasData, match given d.columns.fstype with
      | some fs => "Has a " ++ fs ++ " filesystem — it may hold data, so swarmy will not format it."
      | none => "Has partitions — it may hold data, so swarmy will not format it.")
  else if truthy d.columns.ro ∨ truthy d.columns.rm then (.ineligible, "Read-only or removable.")
  else if d.columns.size < MIN_DISK_BYTES then (.ineligible, "Smaller than 1 GB.")
  else (.blank, "New and empty — it can be formatted and used for app data.")

/-- The state of one whole disk, and why. -/
def stateOf (d : LsblkDevice) : Except String (DiskState × String) :=
  let mountpoints := mountsOf d
  let swap := d.columns.fstype = some "swap" || d.children.any (·.columns.fstype = some "swap")
  if swap || mountpoints.any (· ∈ SYSTEM_MOUNTS) then
    .ok (.system, "Holds the operating system, swap or Docker itself.")
  else if mountpoints ≠ [] ∧ mountpoints.all (Js.startsWith · SWARMY_DISK_ROOT) then
    .ok (.swarmy, "In use by swarmy for app data.")
  else if mountpoints ≠ [] then
    .ok (.mounted, "Already mounted at " ++ ", ".intercalate mountpoints ++ ".")
  else (hasSwarmyLabel d).map (unmountedState d)

def viewOf (d : LsblkDevice) : Except String DiskView :=
  (stateOf d).map fun s => ⟨d.devPath, d.columns.size, d.trimmedSerial, s.1, s.2⟩

/-- One view per whole disk. -/
def classifyDisks (devices : List LsblkDevice) : Except String (List DiskView) :=
  (devices.filter (·.columns.type = some "disk")).mapM viewOf

inductive FormatGate where
  | ok
  | refused (reason : String)

/-- What the operator confirmed. -/
structure Expected where
  path : String
  serial : String
  sizeBytes : Nat

/-- The first `n` code units of a reversed text.  Half of a character is the replacement
character. -/
def takeUnits : Nat → List Char → List Char
  | 0, _ | _, [] => []
  | n + 1, c :: cs =>
    if c.toNat < 0x10000 then c :: takeUnits n cs
    else if n = 0 then ['\uFFFD'] else c :: takeUnits (n - 1) cs

/-- `s.slice(-4)`. -/
def lastFour (s : String) : String := String.ofList (takeUnits 4 s.toList.reverse).reverse

/-- The checks of the disk that was confirmed. -/
def checkDisk (toUpperCase : String → String) (expected : Expected)
    (wipefsOutput typedConfirmation : String) : Option DiskView → FormatGate
  | none => .refused (expected.path ++ " is no longer present.")
  | some disk =>
    if disk.serial ≠ some expected.serial then
      .refused (expected.path ++ " is now a different disk (serial changed) — device names can " ++
        "move after a reboot.")
    else if disk.sizeBytes ≠ expected.sizeBytes then
      .refused (expected.path ++ " changed size since you confirmed it.")
    else if disk.state ≠ .blank then .refused disk.reason
    else if Js.trim wipefsOutput ≠ "" then
      .refused ("A filesystem or partition signature was found on the disk — it may hold data, " ++
        "so it will not be formatted.")
    else if toUpperCase (Js.trim typedConfirmation) ≠ toUpperCase (lastFour expected.serial) then
      .refused "The confirmation does not match the last 4 characters of the disk serial."
    else .ok

def formatGate (toUpperCase : String → String) (devices : List LsblkDevice) (expected : Expected)
    (wipefsOutput typedConfirmation : String) : Except String FormatGate :=
  if Js.length expected.serial < 4 then
    .ok (.refused ("The disk has no serial number, so swarmy cannot be sure it is the same " ++
      "disk. Format it by hand."))
  else
    (classifyDisks devices).map fun views =>
      checkDisk toUpperCase expected wipefsOutput typedConfirmation
        (views.find? (·.path = expected.path))

/-! ## What the gate lets through -/

/-- A blank disk: no mount, filesystem, partition table or child, of the type disk. -/
structure IsBlank (d : LsblkDevice) : Prop where
  type : d.columns.type = some "disk"
  mounts : mountsOf d = []
  fs : anyFs d = false
  pttype : given d.columns.pttype = none
  children : d.children = []
  writable : truthy d.columns.ro = false ∧ truthy d.columns.rm = false

theorem blank_of_unmountedState {d : LsblkDevice} {labelled : Bool}
    (h : (unmountedState d labelled).1 = .blank) :
    anyFs d = false ∧ given d.columns.pttype = none ∧ d.children = [] ∧
      truthy d.columns.ro = false ∧ truthy d.columns.rm = false := by
  unfold unmountedState at h
  split at h
  · cases h
  split at h
  · cases h
  next hdata =>
    split at h
    · cases h
    next hflags =>
      rw [not_or, not_or] at hdata
      obtain ⟨hfs, hpt, hchildren⟩ := hdata
      rw [not_or] at hflags
      exact ⟨Bool.eq_false_iff.mpr hfs, Option.not_isSome_iff_eq_none.mp hpt, not_not.mp hchildren,
        Bool.eq_false_iff.mpr hflags.1, Bool.eq_false_iff.mpr hflags.2⟩

theorem blank_of_stateOf {d : LsblkDevice} {s : DiskState × String} (h : stateOf d = .ok s)
    (hs : s.1 = .blank) : mountsOf d = [] ∧ anyFs d = false ∧ given d.columns.pttype = none ∧
      d.children = [] ∧ truthy d.columns.ro = false ∧ truthy d.columns.rm = false := by
  unfold stateOf at h
  dsimp only at h
  split at h
  · obtain rfl := Except.ok.inj h
    cases hs
  split at h
  · obtain rfl := Except.ok.inj h
    cases hs
  split at h
  · obtain rfl := Except.ok.inj h
    cases hs
  next hmounts =>
    cases hlabel : hasSwarmyLabel d with
    | error e =>
      rw [hlabel] at h
      cases h
    | ok labelled =>
      rw [hlabel] at h
      obtain rfl := Except.ok.inj h
      exact ⟨not_not.mp hmounts, blank_of_unmountedState hs⟩

theorem mem_of_mapM {α β ε : Type} {f : α → Except ε β} {xs : List α} {ys : List β} {y : β}
    (h : xs.mapM f = .ok ys) (hy : y ∈ ys) : ∃ x ∈ xs, f x = .ok y := by
  induction xs generalizing ys with
  | nil =>
    obtain rfl := Except.ok.inj h
    cases hy
  | cons x xs ih =>
    rw [List.mapM_cons] at h
    cases hx : f x with
    | error e =>
      rw [hx] at h
      cases h
    | ok v =>
      rw [hx] at h
      cases hxs : xs.mapM f with
      | error e =>
        rw [hxs] at h
        cases h
      | ok vs =>
        rw [hxs] at h
        obtain rfl := Except.ok.inj h
        rcases List.mem_cons.mp hy with rfl | hy
        · exact ⟨x, List.mem_cons_self .., hx⟩
        · obtain ⟨x', hx', hfx'⟩ := ih hxs hy
          exact ⟨x', List.mem_cons_of_mem _ hx', hfx'⟩

theorem of_checkDisk {toUpperCase : String → String} {expected : Expected} {wipefs typed : String}
    {disk : Option DiskView} (h : checkDisk toUpperCase expected wipefs typed disk = .ok) :
    (∃ v, disk = some v ∧ v.serial = some expected.serial ∧ v.sizeBytes = expected.sizeBytes ∧
      v.state = .blank) ∧
    Js.trim wipefs = "" ∧ toUpperCase (Js.trim typed) = toUpperCase (lastFour expected.serial) := by
  cases disk with
  | none => cases h
  | some v =>
    unfold checkDisk at h
    dsimp only at h
    split at h
    · cases h
    next hserial =>
      split at h
      · cases h
      next hsize =>
        split at h
        · cases h
        next hstate =>
          split at h
          · cases h
          next hwipefs =>
            split at h
            · cases h
            next htyped =>
              exact ⟨⟨v, rfl, not_not.mp hserial, not_not.mp hsize, not_not.mp hstate⟩,
                not_not.mp hwipefs, not_not.mp htyped⟩

/-- The gate lets through a blank disk with the confirmed path, serial and size, without a
signature, whose serial ends as was typed. -/
theorem of_formatGate {toUpperCase : String → String} {devices : List LsblkDevice}
    {expected : Expected} {wipefs typed : String}
    (h : formatGate toUpperCase devices expected wipefs typed = .ok .ok) :
    (∃ d ∈ devices, IsBlank d ∧ d.devPath = expected.path ∧
      d.trimmedSerial = some expected.serial ∧ d.columns.size = expected.sizeBytes) ∧
    Js.trim wipefs = "" ∧
    toUpperCase (Js.trim typed) = toUpperCase (lastFour expected.serial) := by
  unfold formatGate at h
  split at h
  · cases h
  cases hviews : classifyDisks devices with
  | error e =>
    rw [hviews] at h
    cases h
  | ok views =>
    rw [hviews] at h
    obtain ⟨⟨v, hv, hserial, hsize, hblank⟩, hwipefs, htyped⟩ := of_checkDisk (Except.ok.inj h)
    refine ⟨?_, hwipefs, htyped⟩
    have hpath : v.path = expected.path := by simpa using List.find?_some hv
    obtain ⟨d, hd, hview⟩ := mem_of_mapM hviews (List.mem_of_find?_eq_some hv)
    obtain ⟨hmem, htype⟩ := List.mem_filter.mp hd
    unfold viewOf at hview
    cases hstate : stateOf d with
    | error e =>
      rw [hstate] at hview
      cases hview
    | ok s =>
      rw [hstate] at hview
      obtain rfl := Except.ok.inj hview
      obtain ⟨hmounts, hfs, hpt, hchildren, hflags⟩ := blank_of_stateOf hstate hblank
      exact ⟨d, hmem, ⟨of_decide_eq_true htype, hmounts, hfs, hpt, hchildren, hflags⟩, hpath,
        hserial, hsize⟩

end Swarmy.Disk
