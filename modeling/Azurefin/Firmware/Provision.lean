import Azurefin.Firmware.Inventory
import Azurefin.Lib.Durable

/-!
# Provisioning a firmware bundle

`provision` from `firmware_bundle.py`, with `copy_verified` and `sync_directory`, as a program
on the boot file system. Any operation may fail, and the program may be killed between two of
them. The store is given by the object its path leads to.

The source tree does not change while it is copied. A read of it that fails is a failing
`open`. Cleaning up and listing directories do not fail: `os.walk` passes over a directory it
cannot list, and this is left out.
-/

namespace Azurefin

abbrev Disk := Fs Text UInt8 Attr

/-- What a process brings along: its user, its umask and the random names it draws. -/
structure Caller where
  uid : Nat
  umask : Nat
  draws : List Text

/-- The attributes of a directory made with the given mode. -/
def Caller.attr (c : Caller) (mode : Nat) : Attr := ⟨c.uid, mode &&& (0o777 ^^^ c.umask)⟩

/-- A step that reads files and may fail to. -/
def reading {α : Type} (f : Disk → Except PyError α) : Prog Disk PyError α :=
  Prog.look (.osError .io) f

/-- The tree found at an object of the disk. -/
def treeAt (s : Disk) (i : Nat) : Tree := s.view.tree i

/-! ## Copying -/

/-- `path.mkdir(mode, parents=True, exist_ok=True)` for the path `parts` below a directory. -/
def mkdirParents (c : Caller) (mode : Nat) (directory : Nat) (parts : List Text) :
    Prog Disk PyError Nat :=
  Fs.mkdirParents .osError (c.attr mode) directory parts

/-- What the copy loop carries: bytes of this file, bytes of all files, and what was hashed. -/
structure Copied where
  size : Nat
  total : Nat
  hashed : Bytes

/-- One pass of the loop that copies a file. -/
def copyChunk (output : Nat) (acc : Copied) (chunk : Bytes) : Prog Disk PyError Copied :=
  let size := acc.size + chunk.length
  let total := acc.total + chunk.length
  if size > maxFile ∨ total > maxTotal then
    Prog.raise (.valueError "Firmware size limit exceeded")
  else do
    Fs.appendCall .osError output chunk
    pure ⟨size, total, acc.hashed ++ chunk⟩

/-- One pass of the loop of `copy_verified`: the new total. -/
def copyEntry (c : Caller) (source : Tree) (temporary total : Nat) (entry : Json) :
    Prog Disk PyError Nat := do
  let target ← Prog.ofExcept (entry.item "target".toList >>= Json.text)
  let path := PurePosixPath.ofText target
  let directory ← reading fun _ => openParents source path.parts.dropLast
  let stream ← reading fun _ => openFile source (directory ++ [path.name])
  let data ← reading fun _ => boundedFile "Invalid firmware file type/size" stream
  let parent ← mkdirParents c 0o777 temporary path.names.dropLast
  let output ← Fs.createCall .osError parent path.name .file
  let copied ← (chunks chunkSize data).foldlM (copyChunk output) ⟨0, total, []⟩
  let expected ← Prog.ofExcept (entry.item "sha256".toList)
  if copied.size ≠ data.length ∨ !(Json.str (sha256 copied.hashed)).eq expected then
    Prog.raise (.valueError "Firmware checksum/size mismatch")
  else do
    Fs.fsyncCall .osError output
    pure copied.total

/-- Copy the files of the policy from the source to the directory `temporary`. -/
def copyVerified (c : Caller) (source : Tree) (temporary : Nat) (policy : Json) :
    Prog Disk PyError Unit := do
  let _ ← reading fun _ => openDirectory source []
  let entries ← Prog.ofExcept (policy.item "files".toList >>= Json.elements)
  let _ ← entries.foldlM (copyEntry c source temporary) 0
  pure ()

/-! ## Publishing -/

def temporaryName (draw : Text) : Text := ".preparing-".toList ++ draw

/-- `tempfile.mkdtemp(prefix='.preparing-', dir=store)`: the next name when one is taken. -/
def mkdtemp (c : Caller) (store : Nat) : List Text → Prog Disk PyError (Text × Nat)
  | [] => Prog.raise (.osError .exist)
  | draw :: draws =>
    Prog.orElse
      (do
        let temporary ← Fs.createCall .osError store (temporaryName draw) (.dir (c.attr 0o700))
        pure (temporaryName draw, temporary))
      fun
        | .osError .exist => mkdtemp c store draws
        | e => Prog.raise e

/-- The directories that `os.walk(temporary, topdown=False)` yields. -/
def walk (temporary : Nat) : Prog Disk PyError (List Nat) :=
  Prog.observe fun s => s.dirsBelow s.next temporary

def syncDirectory (directory : Nat) : Prog Disk PyError Unit := Fs.fsyncDirCall .osError directory

/-- `if temporary.exists(): shutil.rmtree(temporary)` -/
def removeTemporary (store : Nat) (name : Text) : Prog Disk PyError Unit := do
  match ← Prog.observe fun s => s.lookup store name with
  | none => pure ()
  | some temporary =>
    let links ← Prog.observe fun s : Disk => s.linksBelow s.next temporary
    links.forM fun l => Prog.sure fun s => s.unlink l.1 l.2
    Prog.sure fun s => s.unlink store name

/-- `store.is_symlink() or not store.is_dir()` -/
def openStore (store : Option Nat) (s : Disk) : Except PyError Nat :=
  match store with
  | some i =>
    if (s.kind i).isDir then .ok i
    else .error (.valueError "Bundle store must be an existing non-symlink directory")
  | none => .error (.valueError "Bundle store must be an existing non-symlink directory")

/-- The part of `provision` between making the temporary directory and removing it. -/
def publish (c : Caller) (source : Tree) (store : Nat) (policy : Json) (bundleId name : Text)
    (temporary : Nat) : Prog Disk PyError Unit := do
  copyVerified c source temporary policy
  let _ ← reading fun s => inventory (treeAt s temporary) policy
  let directories ← walk temporary
  directories.forM syncDirectory
  Fs.renameCall .osError store name bundleId
  syncDirectory store

/-- The bundle for the policy is in the store; its name there. -/
def provision (c : Caller) (source : Tree) (store : Option Nat) (policy : Json) :
    Prog Disk PyError Text := do
  let contents ← Prog.ofExcept (manifest policy)
  let bundleId := sha256 contents
  let store ← reading (openStore store)
  match ← reading fun s => .ok (s.lookup store bundleId) with
  | some destination =>
    let _ ← reading fun s =>
      if (s.kind destination).isDir then .ok ()
      else .error (.valueError "Invalid existing bundle")
    let _ ← reading fun s => inventory (treeAt s destination) policy
    pure bundleId
  | none =>
    let (name, temporary) ← mkdtemp c store c.draws
    Prog.withCleanup (publish c source store policy bundleId name temporary)
      (removeTemporary store name)
    pure bundleId

end Azurefin
