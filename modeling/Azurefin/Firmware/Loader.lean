import Azurefin.Firmware.ManifestText
import Azurefin.Firmware.Preflight
import Azurefin.Firmware.Success

/-!
# The early-boot loader

`load-firmware.sh`, a script that stops at the first failing command: a failing command raises
its exit status. Where the script looks past a failure, so does the model: `find` inside a
test, `read` as the condition of a loop, `blkid` and `umount` before `|| true`.

`/run` is a file system under change, without the log file; the boot file system is mounted
read-only, so what its paths lead to does not change. A write that is cut short by a kill is one
that fails after the same part. Being killed, by the `timeout` of `pre-udev.sh` or otherwise,
skips the trap, which only unmounts.
-/

namespace Azurefin

open Shell

/-- What can be seen of a file system when it is mounted. `tree` has what the directories hold.
The system calls follow symlinks, inside the file system and out of it: `lstat` all but a last
one, `stat` also this one. -/
structure Mount where
  tree : Tree
  lstat : Path → Option (Obj UInt8 Attr)
  stat : Path → Option (Obj UInt8 Attr)
  paths : List Path
  listed : ∀ p, tree p ≠ none → p ∈ paths
  lstat_eq : ∀ p, (∀ q, q <+: p → q ≠ p → tree q ≠ some .symlink) → lstat p = tree p
  stat_eq : ∀ p, lstat p ≠ some .symlink → stat p = lstat p

/-- The manifest in the initramfs, made from the firmware policy of the image. -/
structure BootManifest where
  policy : Json
  contents : Bytes
  generated : manifest policy = .ok contents

/-- What the script finds: the lines of `/proc/cmdline`, the manifest, the answer of `blkid` at
each attempt, and the ext4 file system on a device. -/
structure Environment where
  caller : Caller
  cmdline : Text
  manifest : BootManifest
  blkid : Nat → Text → Text
  fileSystem : Text → Option Mount

/-- `/run`, what was written to the firmware search path, whether the boot file system is
mounted, and the variable `mounted`. -/
structure Boot where
  run : Disk
  searchPath : Option Text
  attached : Bool
  mounted : Bool

def Boot.start (run : Disk) : Boot := ⟨run, none, false, false⟩

abbrev Status := Nat

variable {α : Type}

/-! ## Commands -/

/-- A command that changes nothing the script depends on: `echo`, `modprobe`, `sleep`. -/
def command : Prog Boot Status Unit := Prog.look 1 fun _ => .ok ()

/-- A command that prints, or a test of files. -/
def asking (r : Except Status α) : Prog Boot Status α := Prog.look 1 fun _ => r

def onRun (p : Prog Disk Status α) : Prog Boot Status α :=
  Prog.zoom Boot.run (fun b s => { b with run := s }) p

def failed (_ : Errno) : Status := 1

/-- The components that lead somewhere; empty ones and `.` do not. -/
def components (t : Text) : Path := (PurePosixPath.ofText t).names

/-- `[[ "$text" == *"$part"* ]]` -/
def hasPart (part text : Text) : Bool := decide (part <:+: text)

/-- `mktemp -d`, for a template that ends in the drawn characters. -/
def mktemp (c : Caller) (template : Text) : Prog Disk Status (Text × Nat) :=
  Fs.makeTemporary failed (c.attr 0o700) 0 (c.draws.map (template ++ ·))

def umount : Prog Boot Status Unit :=
  Prog.step fun
    | .go, b => (.ok (), { b with attached := false })
    | .fail _, b => (.error 1, b)

/-! ## The boot UUID and its device -/

/-- One pass of the loop over the arguments: the new value of `boot_uuid`. -/
def bootArgument (bootUuid argument : Text) : Prog Boot Status Text :=
  if uuidArgument.isPrefixOf argument then
    if bootUuid ≠ [] then do
      command -- echo "Duplicate boot UUID"
      Prog.raise 1
    else do
      let bootUuid := afterFirst '=' argument
      Prog.require (isUuidText bootUuid) 1
      pure bootUuid
  else pure bootUuid

/-- The loop over the attempts that are left to find the device. -/
def findDevice (env : Environment) (bootUuid : Text) : Nat → Prog Boot Status Text
  | 0 => pure []
  | left + 1 => do
    let bootdev ← Prog.step fun
      | .go, b => (.ok (env.blkid (20 - (left + 1)) bootUuid), b)
      | .fail _, b => (.ok [], b)
    if bootdev ≠ [] then pure bootdev
    else do
      command -- sleep 1
      findDevice env bootUuid left

/-- `mount`. When it fails, the file system may have been mounted. -/
def mountDevice (env : Environment) (bootdev : Text) : Prog Boot Status Mount :=
  Prog.step fun fate b =>
    match fate, env.fileSystem bootdev with
    | .go, some mount => (.ok mount, { b with attached := true })
    | .go, none => (.error 1, b)
    | .fail progress, _ => (.error 1, { b with attached := progress != 0 })

/-! ## The bundle -/

/-- `[[ -d "$directory" && ! -L "$directory" ]]` -/
def isRealDirectory (mount : Mount) (p : Path) : Bool :=
  match mount.stat p, mount.lstat p with
  | some (.dir _), some .symlink => false
  | some (.dir _), _ => true
  | _, _ => false

/-- `[[ -f "$file" && ! -L "$file" ]]` -/
def isRealFile (mount : Mount) (p : Path) : Bool :=
  match mount.stat p, mount.lstat p with
  | some (.file _), some .symlink => false
  | some (.file _), _ => true
  | _, _ => false

/-- The symlinks below `store` among the given paths. -/
def linksAmong (mount : Mount) (store : Path) (paths : List Path) : List Path :=
  paths.filter fun p => store.isPrefixOf p && decide (mount.tree p = some .symlink)

/-- A failing `find` has gone through a part of the paths. -/
def pathsSeen (mount : Mount) : Fate → List Path
  | .go => mount.paths
  | .fail progress => mount.paths.take progress

/-- `[[ -z $(find "$store" -type l -print -quit) ]]`: the status of `find` does not count. -/
def noLinks (mount : Mount) (store : Path) : Prog Boot Status Unit :=
  Prog.step fun fate b =>
    (if linksAmong mount store (pathsSeen mount fate) = [] then .ok () else .error 1, b)

/-- `stat -c %s` -/
def sizeOf (mount : Mount) (p : Path) : Except Status Nat :=
  match mount.lstat p with
  | some (.file data) => .ok data.length
  | some _ => .ok 0
  | none => .error 1

/-- `head` opens the file. -/
def openInput (mount : Mount) (p : Path) : Except Status Bytes :=
  match mount.stat p with
  | some (.file data) => .ok data
  | _ => .error 1

/-- `>"$temporary/$target"`: the file is made, or emptied when it is there. -/
def openOutput (temporary : Nat) (path : Path) : Prog Disk Status Nat :=
  Fs.call failed fun s =>
    match s.view.resolve temporary path.dropLast with
    | none => .error .noent
    | some parent =>
      match s.lookup parent (path.getLast?.getD []) with
      | none => s.create parent (path.getLast?.getD []) .file
      | some i => if s.kind i = .file then .ok (i, s.write i []) else .error .isdir

/-- `read -r hash target` as the condition of the loop: when it fails, the loop ends. -/
def readLine (line : Text) : Prog Boot Status (Option (Text × Text)) :=
  Prog.step fun
    | .go, b => (.ok (some (readFields line)), b)
    | .fail _, b => (.ok none, b)

/-- The body of the loop over the lines of the manifest: the new total. -/
def copyLine (c : Caller) (mount : Mount) (store : Path) (temporary total : Nat)
    (hash target : Text) : Prog Boot Status Nat := do
  Prog.require (isSha256Text hash) 1
  Prog.require ("qcom/".toList.isPrefixOf target && !hasPart "..".toList target
    && !hasPart "//".toList target) 1
  Prog.require (isTargetText target) 1
  let file := store ++ components target
  asking (if isRealFile mount file then .ok () else .error 1)
  let size ← asking (sizeOf mount file)
  Prog.require (decide (0 < size ∧ size ≤ 67108864)) 1
  let total := total + size
  Prog.require (decide (total ≤ 134217728)) 1
  let _ ← onRun (Fs.mkdirParents failed (c.attr 0o777) temporary
    (components (beforeLast '/' target)))
  let output ← onRun (openOutput temporary (components target))
  let data ← asking (openInput mount file)
  onRun (Fs.appendCall failed output (data.take 67108865))
  pure total

def copyLines (c : Caller) (mount : Mount) (store : Path) (temporary : Nat) :
    Nat → List Text → Prog Boot Status Unit
  | _, [] => pure ()
  | total, line :: lines => do
    match ← readLine line with
    | none => pure ()
    | some (hash, target) =>
      let total ← copyLine c mount store temporary total hash target
      copyLines c mount store temporary total lines

/-- `sha256sum -c` on one line: the file named there has the hash. -/
def sumMatches (tree : Tree) (line : Text) : Bool :=
  isSha256Text (line.take 64) && (line.drop 64).take 2 == "  ".toList
    && match tree (components (line.drop 66)) with
      | some (.file data) => sha256 data == line.take 64
      | _ => false

/-- `(cd "$temporary" && sha256sum -c "$manifest")` -/
def checkSums (temporary : Nat) (lines : List Text) : Prog Boot Status Unit :=
  Prog.look 1 fun b =>
    if lines.all (sumMatches (treeAt b.run temporary)) then .ok () else .error 1

/-! ## The script -/

def mountTemplate : Text := "azurefin-firmware-mount.".toList
def copyTemplate : Text := "azurefin-firmware-copy.".toList
def runtimeName : Text := "azurefin-firmware".toList
def runtime : Text := "/run/azurefin-firmware".toList

/-- `printf %s "$runtime"` to the kernel parameter. When it fails, it may have been written. -/
def writeSearchPath : Prog Boot Status Unit :=
  Prog.step fun
    | .go, b => (.ok (), { b with searchPath := some runtime })
    | .fail progress, b =>
      (.error 1, if progress = 0 then b else { b with searchPath := some runtime })

/-- The trap. -/
def cleanup : Prog Boot Status Unit := do
  let mounted ← Prog.observe Boot.mounted
  let _ ← (if mounted then Prog.orElse umount fun _ => pure () else pure ())
  command -- echo "Loader exit=$status"

/-- From the temporary directory to the check of the sums: the name of the directory. -/
def copyBundle (c : Caller) (mount : Mount) (store : Path) (contents : Bytes) :
    Prog Boot Status Text := do
  let (name, temporary) ← onRun (mktemp c copyTemplate)
  let lines ← asking (.ok (linesOf (decodeAscii contents)))
  copyLines c mount store temporary 0 lines
  checkSums temporary lines
  pure name

/-- From the test of `$runtime` to the end. -/
def publishRuntime (name : Text) : Prog Boot Status Unit := do
  Prog.look 1 fun b => if b.run.lookup 0 runtimeName = none then .ok () else .error 1
  onRun (Fs.renameCall failed 0 name runtimeName)
  writeSearchPath
  command -- echo "Verified bundle"

/-- The part of the script after the trap is set. -/
def exposeBundle (env : Environment) (bundleId bootdev : Text) : Prog Boot Status Unit := do
  let mount ← mountDevice env bootdev
  Prog.sure fun b => { b with mounted := true }
  let store := bundlePath bundleId
  [["azurefin".toList], storePath, store].forM fun directory =>
    asking (if isRealDirectory mount directory then .ok () else .error 1)
  noLinks mount store
  let name ← copyBundle env.caller mount store env.manifest.contents
  umount
  Prog.sure fun b => { b with mounted := false }
  publishRuntime name

/-- What `sha256sum` prints for the manifest. -/
def manifestSum (env : Environment) : Text :=
  sha256 env.manifest.contents ++ "  ".toList ++ "/etc/azurefin/boot-firmware.sha256".toList

/-- `load-firmware.sh`, from its state at the start to its exit status. -/
def loadFirmware (env : Environment) : Prog Boot Status Unit := do
  command -- exec >>/run/azurefin-firmware.log
  command -- echo "Loader started"
  let line ← asking ((linesOf env.cmdline).head?.elim (.error 1) .ok)
  let bootUuid ← (readWords line).foldlM bootArgument []
  if bootUuid = [] then command -- echo "No boot store requested"; exit 0
  else
    let bundleId ← asking (.ok (readFields (manifestSum env)).1)
    Prog.require (isSha256Text bundleId) 1
    command -- modprobe phy_qcom_qmp_pcie
    command -- modprobe nvme
    command -- modprobe ext4
    let bootdev ← findDevice env bootUuid 20
    Prog.require (bootdev ≠ []) 1
    let _ ← onRun (mktemp env.caller mountTemplate)
    Prog.withCleanup (exposeBundle env bundleId bootdev) cleanup

end Azurefin
