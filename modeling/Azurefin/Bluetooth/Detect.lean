import Azurefin.Bluetooth.Storage
import Azurefin.Lib.Calls
import Azurefin.Lib.Integer

/-!
# Detecting the Bluetooth address

`detect` and `configure` from `bluetooth_address.py`. What they ask of the machine are calls, each of
which may be answered by anything or fail. The state is whether the storage module is loaded.
-/

namespace Azurefin

open Calls

/-! ## Calls -/

/-- What a file is opened for, and how. -/
inductive OpenFlag where
  | rdonly
  | wronly
  | rdwr
  | nofollow
  | cloexec
  deriving DecidableEq, Repr

/-- What `os.fstat` tells: `st_mode` and `st_rdev`. -/
structure DeviceInfo where
  mode : Nat
  rdev : Nat
  deriving DecidableEq, Repr

/-- A node is named below `MTD`, and its files are read as text. -/
inductive ProbeCall where
  | readCompatible
  | moduleExists
  | modprobeLoad
  | modprobeUnload
  /-- `MTD.glob('mtd[0-9]*')` -/
  | globMtd
  | readText (node file : Text)
  | openDevice (path : Text) (flags : List OpenFlag)
  | fstat (fd : Nat)
  | pread (fd size offset : Nat)
  | close (fd : Nat)
  | configExists
  | configIsSymlink
  | extractFirmware (selected : Text)
  | print (message : Text)
  deriving DecidableEq, Repr

def ProbeCall.Answer : ProbeCall → Type
  | .readCompatible | .pread .. => Bytes
  | .moduleExists | .configExists | .configIsSymlink => Bool
  | .globMtd => List Text
  | .readText .. => Text
  | .openDevice .. => Nat
  | .fstat _ => DeviceInfo
  | _ => Unit

abbrev ProbeSession := Calls.Session Bool ProbeCall ProbeCall.Answer PyError

abbrev ProbeEvent := Calls.Event Bool ProbeCall ProbeCall.Answer PyError

abbrev ProbeAct := Act ProbeSession PyError

/-- The calls of `modprobe`. -/
def ProbeCall.isModprobe : ProbeCall → Bool
  | .modprobeLoad | .modprobeUnload => true
  | _ => false

def ProbeCall.isExtract : ProbeCall → Bool
  | .extractFirmware _ => true
  | _ => false

/-- The module is where `MODULE` tells, it is gone where `modprobe -r` succeeds, and only `modprobe`
changes whether it is loaded. All other answers are left open, also what `modprobe` leaves where it
fails. -/
structure ProbeEnvironment extends Calls.Environment Bool ProbeCall ProbeCall.Answer PyError where
  tells : ∀ s, answer s .moduleExists = .ok s.state
  unloads : ∀ s u, answer s .modprobeUnload = .ok u → next s .modprobeUnload = false
  next_other : ∀ s c, c.isModprobe = false → next s c = s.state

variable (env : ProbeEnvironment)

/-! ## The storage -/

/-- `re.fullmatch(r'mtd[0-9]+', name)` -/
def isMtdName (name : Text) : Bool :=
  "mtd".toList.isPrefixOf name && !(name.drop 3).isEmpty && (name.drop 3).all Char.isDigit

/-- One pass over the nodes. -/
def storageNode (nodes : List Text) (node : Text) : ProbeAct (List Text) :=
  if isMtdName node then do
    let name : Text ← call env.toEnvironment (.readText node "name".toList)
    pure (if strip name == "qcom_scm_storage".toList then nodes ++ [node] else nodes)
  else pure nodes

/-- The node is a ROM, and for reading only. -/
def requireRom (node : Text) : ProbeAct Unit := do
  let type : Text ← call env.toEnvironment (.readText node "type".toList)
  Act.require (strip type == "rom".toList) refused
  let flags : Text ← call env.toEnvironment (.readText node "flags".toList)
  let flags ← Act.ofExcept (PyInt.parse 0 (strip flags))
  Act.require (flags == 0x1000) refused
where
  refused : PyError := .valueError "Refusing storage without read-only ROM flags"

/-- `major, minor = map(int, text.strip().split(':'))` -/
def deviceNumbers (text : Text) : Except PyError (Int × Int) := do
  -- one number more than expected is read
  match ← (((strip text).splitOn ':').take 3).mapM (PyInt.parse 10) with
  | [major, minor] => .ok (major, minor)
  | [_, _, _] => .error (.valueError "too many values to unpack (expected 2)")
  | _ => .error (.valueError "not enough values to unpack (expected 2, got 1)")

/-- `os.makedev(major, minor)`, for the numbers of the C library -/
def makedev (major minor : Int) : Except PyError Nat :=
  if 0 ≤ major ∧ major < 2 ^ 32 ∧ 0 ≤ minor ∧ minor < 2 ^ 32 then
    .ok (major.toNat / 2 ^ 12 * 2 ^ 44 + minor.toNat / 2 ^ 8 * 2 ^ 20 + major.toNat % 2 ^ 12 * 2 ^ 8 +
      minor.toNat % 2 ^ 8)
  else .error .overflowError

/-- `stat.S_ISCHR(mode)` -/
def isChr (mode : Nat) : Bool := mode &&& 0o170000 == 0o020000

/-- The device is the one next to the node. -/
def matchesDevice (info : DeviceInfo) (major minor : Int) : Except PyError Bool :=
  if isChr info.mode then do .ok (info.rdev == (← makedev major (minor + 1))) else .ok false

/-- `Reader.read` with `os.pread`. The second part of the state is what is left of the budget. -/
def readStorage (fd size : Nat) (offset n : Int) : Act (ProbeSession × Int) PyError Bytes :=
  if ¬ (0 ≤ offset ∧ offset ≤ size) ∨ ¬ (0 ≤ n ∧ n ≤ size - offset) then
    Act.raise (.valueError "Storage read out of bounds")
  else do
    let s ← Act.read
    if n > s.2 then Act.raise (.valueError "Diagnostic read budget exceeded")
    else
      spend n
      let data : Bytes ← Act.onFirst (call env.toEnvironment (.pread fd n.toNat offset.toNat))
      if (data.length : Int) ≠ n then Act.raise (.valueError "Short storage read")
      else pure data
where
  spend (n : Int) : Act (ProbeSession × Int) PyError Unit := fun s => (.ok (), s.1, s.2 - n)

/-- What is done with the open device. -/
def readDevice (node : Text) (major minor : Int) (fd : Nat) : ProbeAct Text := do
  let info : DeviceInfo ← call env.toEnvironment (.fstat fd)
  let same ← Act.ofExcept (matchesDevice info major minor)
  Act.require same (.valueError "Unexpected read-only MTD device node")
  let text : Text ← call env.toEnvironment (.readText node "size".toList)
  let size ← Act.ofExcept (PyInt.parse 10 text)
  if ¬ (0 < size ∧ size ≤ 128 * 1024 ^ 2) then Act.raise (.valueError "Unsupported storage size")
  else Act.within (2 * 1024 ^ 2) (readFactoryFrom (readStorage env fd size.toNat) size.toNat)

/-- `'/dev/' + node.name + 'ro'` -/
def readOnlyPath (node : Text) : Text := "/dev/".toList ++ node ++ "ro".toList

def readOnlyFlags : List OpenFlag := [.rdonly, .nofollow, .cloexec]

def openStorage (node : Text) : ProbeAct Text := do
  let text : Text ← call env.toEnvironment (.readText node "dev".toList)
  let (major, minor) ← Act.ofExcept (deviceNumbers text)
  let fd : Nat ← call env.toEnvironment (.openDevice (readOnlyPath node) readOnlyFlags)
  Act.ensuring (readDevice env node major minor fd) (call env.toEnvironment (.close fd))

/-- What `detect` does while the module may be loaded for it. -/
def probe (owned : Bool) : ProbeAct Text := do
  (if owned then call env.toEnvironment .modprobeLoad else pure ())
  let names : List Text ← call env.toEnvironment .globMtd
  match ← names.foldlM (storageNode env) [] with
  | [node] =>
    requireRom env node
    openStorage env node
  | _ => Act.raise (.valueError "SCM storage probe did not produce one device")

/-- What `detect` does at the end with a module that it loaded. -/
def unload : ProbeAct Unit := do
  let present : Bool ← call env.toEnvironment .moduleExists
  if present then call env.toEnvironment .modprobeUnload else pure ()

def detect : ProbeAct Text := do
  let compatible : Bytes ← call env.toEnvironment .readCompatible
  Act.require ((compatible.splitOn 0).contains (encodeAscii "microsoft,romulus13".toList))
    (.valueError "Unsupported device")
  let present : Bool ← call env.toEnvironment .moduleExists
  Act.ensuring (probe env (!present)) (if present then pure () else unload env)

/-! ## The configuration -/

def fallback : Text :=
  ("Automatic Bluetooth address detection is unavailable. " ++
    "Use --bluetooth-address with the factory Bluetooth address from Windows, " ++
    "or run azurefin-extract-firmware --bluetooth-address MAC. " ++
    "Existing configuration has not been changed.").toList

/-- `CONFIG.exists() or CONFIG.is_symlink()` -/
def isConfigured : ProbeAct Bool := do
  let found : Bool ← call env.toEnvironment .configExists
  if found then pure true else call env.toEnvironment .configIsSymlink

/-- The end of `configure` -/
def saveAddress (selected : Text) : ProbeAct Bool := do
  call env.toEnvironment (.extractFirmware selected)
  call env.toEnvironment
    (.print "Bluetooth address saved for next boot; no Bluetooth service was restarted.".toList)
  pure true

/-- `except (ValueError, OSError, subprocess.SubprocessError)` -/
def isDetectionError : PyError → Bool
  | .osError _ | .subprocessError => true
  | e => e.isValueError

/-- What `configure` does with how `detect` ends. -/
def saveDetected : Except PyError Text → ProbeAct Bool
  | .ok selected => saveAddress env selected
  | .error e =>
    if isDetectionError e then do
      call env.toEnvironment (.print fallback)
      pure false
    else Act.raise e

def configure (manual : Option Text) (skip : Bool) : ProbeAct Bool :=
  if skip then pure false
  else match manual with
    | some value => do
      let selected ← Act.ofExcept (address (upper value))
      saveAddress env selected
    | none => do
      let configured ← isConfigured env
      if configured then
        call env.toEnvironment
          (.print "Keeping existing Bluetooth address configuration; no storage probe needed.".toList)
        pure true
      else
        let outcome ← Act.attempt (detect env)
        saveDetected env outcome

end Azurefin
