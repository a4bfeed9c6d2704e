import Azurefin.Installer.Kickstart
import Azurefin.Lib.Trace
import Azurefin.Lib.TextFile

/-!
# The preparation before the installation

`main` of `installer_prepare.py` with what it calls, as a system that takes one answer at a time:
a line from the console, the outcome of a command, the content of a directory. Any call may raise
instead, also because somebody presses a key, and a run may end anywhere.

What is printed is left out, and with it the list of the supported packages.
-/

namespace Azurefin.Prepare

open Kickstart

/-! ## Disks and files -/

/-- `("vfat", "exfat", "ntfs", "ntfs3", "ext4")` -/
def usbFilesystems : List Text :=
  ["vfat".toList, "exfat".toList, "ntfs".toList, "ntfs3".toList, "ext4".toList]

/-- `value.get(key) == text` -/
def hasValue (j : Json) (key text : Text) : Except PyError Bool := do
  .ok ((← j.get key).eq (.str text))

/-- The name of a USB disk that is searched for partitions -/
def usbDisk (disk : Json) : Except PyError (Option Text) := do
  if !(← hasValue disk "type".toList "disk".toList) then .ok none
  else if !(← hasValue disk "tran".toList "usb".toList) then .ok none
  else
    let name := (PurePosixPath.ofText (← (← disk.item "name".toList).text)).name
    .ok (if isDiskName name then some name else none)

/-- The device of a partition with a file system for packages -/
def usbPart (part : Json) : Except PyError (Option Text) := do
  if !(← hasValue part "type".toList "part".toList) then .ok none
  else
    let fstype ← part.get "fstype".toList
    if usbFilesystems.any fun name => fstype.eq (.str name) then
      .ok (some (← (← part.item "name".toList).text))
    else .ok none

/-- What a generator yields from the partitions of a disk; an error is its last item. -/
def partItems (disk : Text) : List Json → List (Except PyError (Text × Text))
  | [] => []
  | part :: parts =>
    match usbPart part with
    | .error e => [.error e]
    | .ok none => partItems disk parts
    | .ok (some device) => .ok (device, disk) :: partItems disk parts

/-- Behind an error nothing is yielded. -/
def andThen (items more : List (Except PyError (Text × Text))) :
    List (Except PyError (Text × Text)) :=
  match items with
  | [] => more
  | .error e :: _ => [.error e]
  | .ok item :: items => .ok item :: andThen items more

def diskItems : List Json → List (Except PyError (Text × Text))
  | [] => []
  | disk :: disks =>
    match usbDisk disk with
    | .error e => [.error e]
    | .ok none => diskItems disks
    | .ok (some name) =>
      match disk.getD "children".toList (.arr []) >>= Json.elements with
      | .error e => [.error e]
      | .ok parts => andThen (partItems name parts) (diskItems disks)

/-- `usb_partitions(devices)` -/
def usbPartitions (devices : Json) : List (Except PyError (Text × Text)) :=
  match devices.elements with
  | .error e => [.error e]
  | .ok disks => diskItems disks

/-- An entry of a directory: its name, whether it is a link, and whether it leads to a file. -/
structure DirEntry where
  name : Text
  symlink : Bool
  file : Bool

/-- What `msi_files` finds: the root, and `firmware` where it is a directory and no link. -/
structure MsiSource where
  root : Except PyError (List DirEntry)
  firmware : Option (Except PyError (List DirEntry))

/-- `path.suffix` -/
def suffix (name : Text) : Text :=
  let extension := name.rtakeWhile (· != '.')
  if extension != [] && extension.length + 1 < name.length then '.' :: extension else []

def DirEntry.isMsi (e : DirEntry) : Bool :=
  !e.symlink && e.file && lower (suffix e.name) == ".msi".toList

/-- The packages in one directory -/
def msiNames (entries : List DirEntry) : List Text :=
  ((entries.mergeSort fun a b => a.name ≤ b.name).filter DirEntry.isMsi).map DirEntry.name

/-- `msi_files(root)` -/
def msiFiles (root : Text) (found : MsiSource) : Except PyError (List Text) := do
  let files := (msiNames (← found.root)).map fun name => root ++ ('/' :: name)
  match found.firmware with
  | none => .ok files
  | some entries =>
    .ok (files ++ (msiNames (← entries)).map fun name => root ++ ("/firmware/".toList ++ name))

/-! ## Numbers -/

/-- The digits of Unicode 15 that are not decimal, as ranges. -/
def otherDigits : List (Nat × Nat) :=
  [(0xb2, 0xb3), (0xb9, 0xb9), (0x1369, 0x1371), (0x19da, 0x19da), (0x2070, 0x2070),
    (0x2074, 0x2079), (0x2080, 0x2089), (0x2460, 0x2468), (0x2474, 0x247c), (0x2488, 0x2490),
    (0x24ea, 0x24ea), (0x24f5, 0x24fd), (0x24ff, 0x24ff), (0x2776, 0x277e), (0x2780, 0x2788),
    (0x278a, 0x2792), (0x10a40, 0x10a43), (0x10e60, 0x10e68), (0x11052, 0x1105a), (0x1f100, 0x1f10a)]

/-- `text.isdigit()` -/
def isDigits (t : Text) : Bool :=
  t != [] && t.all fun c =>
    isDecimal c || otherDigits.any fun r => r.1 ≤ c.toNat && c.toNat ≤ r.2

/-- The value of a decimal digit -/
def decimalValue (c : Char) : Nat :=
  c.toNat - (decimalZeros.find? fun first => first ≤ c.toNat && c.toNat < first + 10).getD 0

/-- `int(text)` for a text of digits: others than decimal ones are not understood. -/
def intOf (t : Text) : Except PyError Nat :=
  if t.all isDecimal && t.length ≤ 4300 then .ok (t.foldl (fun n c => 10 * n + decimalValue c) 0)
  else .error (.valueError "invalid literal for int()")

/-- The file with the number that was typed in, if it is a number of a file -/
def chosen (files : List (Text × Text)) (line : Text) : Except PyError (Option (Text × Text)) := do
  let selected := strip line
  if !isDigits selected then .ok none
  else
    let n ← intOf selected
    .ok (if 1 ≤ n ∧ n ≤ files.length then files[n - 1]? else none)

/-! ## The prepared payload -/

/-- `Path("/run/azurefin-work")` -/
def root : Text := "/run/azurefin-work".toList

def runs : PurePosixPath := PurePosixPath.ofText (root ++ "/runs".toList)

def payloadMark : Text := "PAYLOAD_READY: ".toList

/-- What `prepared_path` finds at a path. -/
structure RunDir where
  pathSymlink : Bool
  parentSymlink : Bool
  ready : Except PyError Text
  index : Bool
  layout : Bool

def require (c : Bool) (message : String) : Except PyError Unit :=
  if c then .ok () else .error (.valueError message)

/-- `prepared_path(line, runs)` -/
def preparedPath (line : Text) (dir : RunDir) : Except PyError Text := do
  let value := strip (removePrefix payloadMark line)
  let path := PurePosixPath.ofText value
  require (path.name == "container".toList && path.parent.parent == runs)
    "Preparation returned a path outside its workspace"
  require (!dir.pathSymlink && !dir.parentSymlink) "Prepared payload must not be a symlink"
  let ready ← dir.ready
  require (strip ready == value) "Preparation success marker does not match"
  require (dir.index && dir.layout) "Incomplete OCI payload"
  .ok value

/-- `re.fullmatch(r"[a-f0-9]{64}", expected)` -/
def isImageId (t : Text) : Bool := isSha256Text t

/-! ## Steps -/

/-- How `usb_msi_files` is left: to scan again, with a payload and the disk of its package, or
because of an exception. -/
inductive Leave where
  | rescan
  | prepared (payload sourceDisk : Text)
  | raised (e : PyError)

/-- The variables of `usb_msi_files`. -/
structure Usb where
  mounts : List Text
  files : List (Text × Text)
  todo : List (Except PyError (Text × Text))

/-- Where the program is, with the variables that it still needs. -/
inductive Step where
  /-- `1: download over Ethernet; 2: MSI on USB; q: cancel` -/
  | choosing
  /-- `prompt_bluetooth_address`, after the choice of USB or not -/
  | addressing (usb : Bool)
  /-- `Plug in Ethernet` -/
  | connecting (mac : Option Text)
  /-- `confirm_download` -/
  | confirming (mac : Option Text)
  /-- `Enter to scan` -/
  | asking (mac : Option Text)
  /-- `lsblk` -/
  | listing (mac : Option Text)
  /-- `msi_files(workspace)` -/
  | workspace (mac : Option Text) (devices : Json)
  /-- `mkdtemp` for a partition -/
  | making (mac : Option Text) (usb : Usb) (device disk : Text)
  /-- `mount` -/
  | mounting (mac : Option Text) (usb : Usb) (device disk target : Text)
  /-- `rmdir` after a mount that failed -/
  | unmade (mac : Option Text) (usb : Usb)
  /-- `msi_files(mount)` -/
  | reading (mac : Option Text) (usb : Usb) (disk target : Text)
  /-- `Choose the file number` -/
  | selecting (mac : Option Text) (usb : Usb)
  /-- The start of `prepare`, for a package on USB or without one -/
  | preparing (mac : Option Text) (held : Option (List Text × Text))
  /-- The output of the script -/
  | running (mac : Option Text) (held : Option (List Text × Text)) (payload : Option Text)
  /-- `umount` of the next mount, at the end of `usb_msi_files` -/
  | leaving (mac : Option Text) (target : Text) (rest : List Text) (leave : Leave)
  /-- `rmdir` after it -/
  | removing (mac : Option Text) (rest : List Text) (leave : Leave)
  /-- `output.open("x")` -/
  | opening (mac : Option Text) (payload : Text) (sourceDisk : Option Text)
  | writing (text : Text)
  /-- `chvt 1` -/
  | finishing
  /-- The program has ended; `rest` are the mounts that an exception kept `finally` from. -/
  | ended (error : Option PyError) (rest : List Text)

/-- A mount that the program made, with the report that the device was taken from. -/
structure Mounted where
  target : Text
  device : Text
  options : Text
  devices : Json

structure Installer where
  disk : Text
  /-- The answer of the last `lsblk`. -/
  devices : Json
  /-- What `mount` came back from with success and `umount` did not. -/
  mounted : List Mounted
  /-- `Could not unmount MSI source` -/
  reported : List Text
  /-- `/run/azurefin-prepared.ks` -/
  output : Option Text
  step : Step

inductive Answer where
  /-- `input()` returns. -/
  | line (text : Text)
  | devices (report : Json)
  | msi (found : MsiSource)
  | made (target : Text)
  /-- `mount` and `umount`, with the exit status zero or not -/
  | mounted (ok : Bool)
  | unmounted (ok : Bool)
  /-- `rmdir` returns. -/
  | removed
  /-- The content of `base-image-id` -/
  | base (text : Text)
  /-- A line of the script, and what is found at the path in it -/
  | output (text : Text) (dir : RunDir)
  | exit (status : Int)
  | opened
  | written
  | switched
  /-- The call raises. -/
  | raised (e : PyError)

def cancelled : PyError := .systemExit "Cancelled; Anaconda will not proceed."

def failed : PyError := .runtimeError
  "Firmware preparation failed; installation will not proceed. Logs remain on the workspace."

def afterChoice (line : Text) : Step :=
  let choice := lower (strip line)
  if choice = "1".toList then .addressing false
  else if choice = "2".toList then .addressing true
  else if choice = "q".toList then .ended (some cancelled) []
  else .choosing

def afterConfirm (mac : Option Text) (line : Text) : Step :=
  let answer := lower (strip line)
  if ["yes".toList, "y".toList].contains answer then .preparing mac none
  else if ["no".toList, "n".toList, "q".toList].contains answer then .ended (some cancelled) []
  else .confirming mac

/-- `bluetooth_address` of a line, again until it is one -/
def afterAddress (usb : Bool) (line : Text) : Step :=
  match bluetoothAddress line with
  | .error _ => .addressing usb
  | .ok mac => if usb then .asking mac else .connecting mac

/-- Behind `usb_msi_files` -/
def Leave.step (mac : Option Text) : Leave → Step
  | .rescan => .asking mac
  | .prepared payload sourceDisk => .opening mac payload (some sourceDisk)
  | .raised e => .ended (some e) []

/-- The loop of `finally` -/
def leaveFrom (mac : Option Text) (rest : List Text) (leave : Leave) : Step :=
  match rest with
  | [] => leave.step mac
  | target :: rest => .leaving mac target rest leave

/-- The top of the loop over the partitions, and what stands behind the loop -/
def visit (workspaceDisk : Text) (mac : Option Text) (mounts : List Text)
    (files : List (Text × Text)) : List (Except PyError (Text × Text)) → Step
  | [] => if files = [] then leaveFrom mac mounts.reverse .rescan else .selecting mac ⟨mounts, files, []⟩
  | .error e :: _ => leaveFrom mac mounts.reverse (.raised e)
  | .ok (device, disk) :: todo =>
    if disk = workspaceDisk then visit workspaceDisk mac mounts files todo
    else .making mac ⟨mounts, files, todo⟩ device disk

/-- Where an exception from `prepare` goes -/
def raiseHeld (mac : Option Text) (held : Option (List Text × Text)) (e : PyError) : Step :=
  match held with
  | none => .ended (some e) []
  | some (mounts, _) => leaveFrom mac mounts.reverse (.raised e)

/-- Where an exception of the current call goes; none does when no call is made. -/
def Step.raise (e : PyError) : Step → Option Step
  | .addressing usb => some (if e.isValueError then .addressing usb else .ended (some e) [])
  | .choosing | .connecting _ | .confirming _ | .asking _ | .listing _ | .opening .. | .writing _
  | .finishing => some (.ended (some e) [])
  | .workspace mac _ => some (leaveFrom mac [] (.raised e))
  | .making mac usb _ _ | .mounting mac usb _ _ _ | .unmade mac usb | .reading mac usb _ _
  | .selecting mac usb => some (leaveFrom mac usb.mounts.reverse (.raised e))
  | .preparing mac held | .running mac held _ => some (raiseHeld mac held e)
  | .leaving _ target rest _ => some (.ended (some e) (target :: rest))
  | .removing _ rest _ => some (.ended (some e) rest)
  | .ended .. => none

def mountOptions : Text := "ro,nosuid,nodev,noexec".toList

/-- The number of a file, or a new scan -/
def afterSelect (mac : Option Text) (usb : Usb) (line : Text) : Step :=
  match chosen usb.files line with
  | .error e => leaveFrom mac usb.mounts.reverse (.raised e)
  | .ok none => leaveFrom mac usb.mounts.reverse .rescan
  | .ok (some (_, sourceDisk)) => .preparing mac (some (usb.mounts, sourceDisk))

/-- A line of the script -/
def afterOutput (mac : Option Text) (held : Option (List Text × Text)) (payload : Option Text)
    (text : Text) (dir : RunDir) : Step :=
  if payloadMark.isPrefixOf text then
    match preparedPath text dir with
    | .error e => raiseHeld mac held e
    | .ok payload => .running mac held (some payload)
  else .running mac held payload

/-- The end of the script -/
def afterExit (mac : Option Text) (held : Option (List Text × Text)) (payload : Option Text)
    (status : Int) : Step :=
  match payload with
  | none => raiseHeld mac held failed
  | some payload =>
    if status ≠ 0 then raiseHeld mac held failed
    else match held with
      | none => .opening mac payload none
      | some (mounts, sourceDisk) => leaveFrom mac mounts.reverse (.prepared payload sourceDisk)

def Installer.next (s : Installer) : Answer → Option Installer
  | .line text =>
    match s.step with
    | .choosing => some { s with step := afterChoice text }
    | .addressing usb => some { s with step := afterAddress usb text }
    | .connecting mac => some { s with step := .confirming mac }
    | .confirming mac => some { s with step := afterConfirm mac text }
    | .asking mac => some { s with
        step :=
          if lower (strip text) = "q".toList then .ended (some cancelled) [] else .listing mac }
    | .selecting mac usb => some { s with step := afterSelect mac usb text }
    | _ => none
  | .devices report =>
    match s.step with
    | .listing mac => some { s with
        devices := report
        step := match report.item "blockdevices".toList with
          | .error e => .ended (some e) []
          | .ok devices => .workspace mac devices }
    | _ => none
  | .msi found =>
    match s.step with
    | .workspace mac devices => some { s with
        step :=
          match msiFiles root found with
          | .error e => leaveFrom mac [] (.raised e)
          | .ok files => visit s.disk mac [] (files.map fun path => (path, s.disk)) (usbPartitions devices) }
    | .reading mac usb disk target => some { s with
        step :=
          match msiFiles target found with
          | .error e => leaveFrom mac usb.mounts.reverse (.raised e)
          | .ok files =>
            visit s.disk mac usb.mounts (usb.files ++ files.map fun path => (path, disk)) usb.todo }
    | _ => none
  -- the directory is new
  | .made target =>
    match s.step with
    | .making mac usb device disk =>
      if (s.mounted.map Mounted.target).contains target then none
      else some { s with step := .mounting mac usb device disk target }
    | _ => none
  | .mounted ok =>
    match s.step with
    | .mounting mac usb device disk target =>
      if ok then some { s with
        mounted := ⟨target, device, mountOptions, s.devices⟩ :: s.mounted
        step := .reading mac { usb with mounts := usb.mounts ++ [target] } disk target }
      else some { s with step := .unmade mac usb }
    | _ => none
  | .unmounted ok =>
    match s.step with
    | .leaving mac target rest leave =>
      if ok then some { s with
        mounted := s.mounted.filter fun m => m.target != target
        step := .removing mac rest leave }
      else some { s with reported := target :: s.reported, step := leaveFrom mac rest leave }
    | _ => none
  | .removed =>
    match s.step with
    | .unmade mac usb => some { s with step := visit s.disk mac usb.mounts usb.files usb.todo }
    | .removing mac rest leave => some { s with step := leaveFrom mac rest leave }
    | _ => none
  | .base text =>
    match s.step with
    | .preparing mac held => some { s with
        step :=
          if isImageId (strip text) then .running mac held none
          else raiseHeld mac held (.valueError "Invalid pinned base image ID") }
    | _ => none
  | .output text dir =>
    match s.step with
    | .running mac held payload => some { s with step := afterOutput mac held payload text dir }
    | _ => none
  | .exit status =>
    match s.step with
    | .running mac held payload => some { s with step := afterExit mac held payload status }
    | _ => none
  | .opened =>
    match s.step with
    | .opening mac payload sourceDisk => some { s with
        output := some []
        step := match kickstart payload s.disk sourceDisk mac with
          | .error e => .ended (some e) []
          | .ok text => .writing text }
    | _ => none
  | .written =>
    match s.step with
    | .writing text => some { s with output := some text, step := .finishing }
    | _ => none
  | .switched =>
    match s.step with
    | .finishing => some { s with step := .ended none [] }
    | _ => none
  | .raised e => (s.step.raise e).map fun step => { s with step := step }

/-- The payload of the check before anything is asked -/
def validationPayload : Text :=
  "/run/azurefin-work/runs/azurefin-provision.validation/container".toList

/-- The program up to its first question -/
def start (disk : Text) (outputExists : Bool) : Except PyError Installer := do
  if outputExists then
    .error (.systemExit "A prepared Kickstart already exists; refusing to overwrite")
  else
    let _ ← kickstart validationPayload disk none none
    .ok ⟨disk, .null, [], [], none, .choosing⟩

end Azurefin.Prepare
