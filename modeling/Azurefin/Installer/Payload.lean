import Azurefin.Installer.Prepare
import Azurefin.Update.SignedUpdate

/-!
# The payload of the installation

`28-prepare-installer-payload.sh`, command by command, with the four files of its workspace that are
read afterwards. A command may fail and may then have done a part of its work; the script ends there.
The preparation takes the workspace for finished when `prepared_path` does. Whenever that is, the
image in it was built on the pinned base, `accepted_built`; and the workspace of a script that
ends without an error is taken, `finished_accepted`.
-/

namespace Azurefin.Payload

open Calls

/-! ## The workspace -/

/-- What `podman save` leaves: the image, and the sizes of the two files that are there. -/
structure OciDir where
  image : Text
  index : Option Nat
  layout : Option Nat

/-- `container.pending`, `container`, `base-image-id` and `READY` -/
structure Workdir where
  pending : Option OciDir
  container : Option OciDir
  base : Option Text
  ready : Option Text

def Workdir.empty : Workdir := ⟨none, none, none, none⟩

def Workdir.moved (d : Workdir) : Workdir := { d with pending := none, container := d.pending }

/-- What `prepared_path` finds in it: `container` is no link, and neither is what `mktemp` made. -/
def Workdir.runDir (d : Workdir) : Prepare.RunDir where
  pathSymlink := false
  parentSymlink := false
  ready := match d.ready with
    | none => .error (.osError .noent)
    | some text => .ok text
  index := (d.container.bind OciDir.index).isSome
  layout := (d.container.bind OciDir.layout).isSome

/-! ## The script -/

structure Inputs where
  /-- `GITHUB_ACTIONS` is `true`. -/
  actions : Bool
  baseOci : Text
  expectedImageId : Text
  workParent : Text
  localMsi : Option Text

inductive Command where
  | realpath (path : Text)
  | policyMetadata
  /-- `[[ -f path ]]` and so on -/
  | test (flag : Char) (path : Text)
  /-- `findmnt -n -o FSTYPE` -/
  | fileSystem (path : Text)
  /-- `df --output=avail -k` without its title -/
  | available (path : Text)
  | havePodman
  | verifyMsi (msi : Text)
  | makeWork (parent : Text)
  | makeDir (name : Text)
  /-- `build`, `Containerfile.provision` and `installer_fix_fstab.py` -/
  | copyContext
  | copyTool (file : Text)
  | copyMsi (msi : Text)
  | pull (source : Text)
  | inspectId (image : Text)
  /-- `podman build`; `msi` tells the arguments for a local package from those for the download. -/
  | build (base : Text) (msi : Bool)
  | readFinal
  | save (image : Text)
  /-- `test -s` on a file in `container.pending` -/
  | nonempty (name : Text)
  | publish
  | writeBase (contents : Text)
  | writeReady (contents : Text)
  | announce (line : Text)

def Command.Answer : Command → Type
  | .realpath _ | .fileSystem _ | .available _ | .makeWork _ | .inspectId _ | .readFinal => Text
  | .test .. => Bool
  | _ => Unit

abbrev PayloadSession := Calls.Session Workdir Command Command.Answer ExitStatus

abbrev PayloadEvent := Calls.Event Workdir Command Command.Answer ExitStatus

/-- The four files are the script's own. -/
def Command.writes : Command → Bool
  | .save _ | .publish | .writeBase _ | .writeReady _ => true
  | _ => false

def indexName : Text := "index.json".toList

def layoutName : Text := "oci-layout".toList

/-- A file with something in it -/
def filled (size : Option Nat) : Prop := ∃ n, size = some n ∧ n ≠ 0

/-- What commands do to the files. One that fails may have done a part of it. -/
structure PayloadEnvironment extends Calls.Environment Workdir Command Command.Answer ExitStatus where
  next_save : ∀ s image, ∃ pending, next s (.save image) = { s.state with pending := pending } ∧
    ∀ u, answer s (.save image) = .ok u → ∃ oci, pending = some oci ∧ oci.image = image
  next_publish : ∀ s, (next s .publish = s.state ∧ ∀ u, answer s .publish ≠ .ok u) ∨
    next s .publish = s.state.moved
  next_writeBase : ∀ s contents, ∃ base, next s (.writeBase contents) = { s.state with base := base } ∧
    ∀ u, answer s (.writeBase contents) = .ok u → base = some contents
  next_writeReady : ∀ s contents, ∃ ready,
    next s (.writeReady contents) = { s.state with ready := ready } ∧
      ∀ u, answer s (.writeReady contents) = .ok u → ready = some contents
  next_other : ∀ s c, c.writes = false → next s c = s.state
  nonempty_index : ∀ s u, answer s (.nonempty indexName) = .ok u →
    ∃ oci, s.state.pending = some oci ∧ filled oci.index
  nonempty_layout : ∀ s u, answer s (.nonempty layoutName) = .ok u →
    ∃ oci, s.state.pending = some oci ∧ filled oci.layout
  /-- `mktemp -d "$parent/azurefin-provision.XXXXXXXX"` -/
  makeWork_form : ∀ s parent output, answer s (.makeWork parent) = .ok output → ∃ run,
    output = parent ++ "/azurefin-provision.".toList ++ run ++ ['\n'] ∧ run ≠ [] ∧
      ∀ c ∈ run, c.isAlphanum = true

variable (env : PayloadEnvironment) (i : Inputs)

/-- `[[ -f a && … ]] || exit status` -/
def testAll (tests : List (Char × Text)) (status : ExitStatus) : Act PayloadSession ExitStatus Unit :=
  tests.forM fun t => do
    let holds : Bool ← call env.toEnvironment (.test t.1 t.2)
    Act.require holds status

/-- `${expected#sha256:}` -/
def imageHash (t : Text) : Text := removePrefix "sha256:".toList t

def nativeFileSystems : List Text := ["ext4".toList, "xfs".toList, "btrfs".toList]

/-- At least 30 GiB, in KiB -/
def enoughSpace (available : Text) : Bool :=
  !available.isEmpty && available.all Char.isDigit && decide (30 * 1024 * 1024 ≤ Decimal.value available)

/-- The checks up to `podman`, which leave nothing behind. -/
def preflight (source parent : Text) : Act PayloadSession ExitStatus Unit := do
  call env.toEnvironment .policyMetadata
  Act.require (isSha256Text (imageHash i.expectedImageId)) 2
  testAll env [('f', source ++ '/' :: indexName), ('f', source ++ '/' :: layoutName), ('d', parent),
    ('w', parent)] 2
  -- a command in the word of `case` may fail
  let fs : Except ExitStatus Text ← Act.attempt (call env.toEnvironment (.fileSystem parent))
  Act.require (match fs with
    | .ok name => nativeFileSystems.contains (stripNewlines name)
    | .error _ => false) 1
  let available : Text ← call env.toEnvironment (.available parent)
  Act.require (enoughSpace (stripNewlines available)) 1
  call env.toEnvironment .havePodman

/-- `msi=$(realpath -e -- "$4")` and its checks; `none` without a fourth argument -/
def checkedMsi (parent : Text) : Act PayloadSession ExitStatus (Option Text) :=
  match i.localMsi with
  | none => pure none
  | some path => do
    let msi : Text ← call env.toEnvironment (.realpath path)
    testAll env [('f', stripNewlines msi), ('r', stripNewlines msi)] 1
    Act.require (!parent.contains ',') 1
    call env.toEnvironment (.verifyMsi (stripNewlines msi))
    pure (some (stripNewlines msi))

/-- `firmware-tools` -/
def toolFiles : List Text :=
  ["azurefin-extract-firmware".toList, "firmware-policy.py".toList, "firmware-policy.json".toList]

/-- The copies of the reviewed tools and of the package -/
def copyInputs (msi : Option Text) : Act PayloadSession ExitStatus Unit := do
  call env.toEnvironment (.makeDir "tmp".toList)
  call env.toEnvironment (.makeDir "context/firmware-tools".toList)
  call env.toEnvironment .copyContext
  toolFiles.forM fun file => call env.toEnvironment (.copyTool file)
  match msi with
  | none => pure ()
  | some msi => call env.toEnvironment (.copyMsi msi)

/-- From the base image to the ID of the final one -/
def buildFinal (source expected : Text) (msi : Option Text) : Act PayloadSession ExitStatus Text := do
  call env.toEnvironment (.pull source)
  let actual : Text ← call env.toEnvironment (.inspectId expected)
  Act.require (imageHash (stripNewlines actual) == expected) 1
  call env.toEnvironment (.build expected msi.isSome)
  let final : Text ← call env.toEnvironment .readFinal
  Act.require (isSha256Text (imageHash (stripNewlines final))) 1
  pure (stripNewlines final)

def baseContents (expected : Text) : Text := expected ++ ['\n']

/-- The path that is announced -/
def containerPath (work : Text) : Text := work ++ "/container".toList

def readyContents (work : Text) : Text := containerPath work ++ ['\n']

/-- The export, which is moved to its place when it is complete, and the marks of success behind it -/
def exportFinal (expected final work : Text) : Act PayloadSession ExitStatus Unit := do
  call env.toEnvironment (.save final)
  call env.toEnvironment (.nonempty indexName)
  call env.toEnvironment (.nonempty layoutName)
  call env.toEnvironment .publish
  call env.toEnvironment (.writeBase (baseContents expected))
  call env.toEnvironment (.writeReady (readyContents work))
  call env.toEnvironment (.announce (Prepare.payloadMark ++ readyContents work))
  call env.toEnvironment (.announce
    "Preparation only: no deployment was staged and no disks were partitioned.".toList)

/-- `28-prepare-installer-payload.sh` -/
def preparePayload : Act PayloadSession ExitStatus Text := do
  Act.require (!i.actions) 2
  let source : Text ← call env.toEnvironment (.realpath i.baseOci)
  let parent : Text ← call env.toEnvironment (.realpath i.workParent)
  preflight env i (stripNewlines source) (stripNewlines parent)
  let msi ← checkedMsi env i (stripNewlines parent)
  let work : Text ← call env.toEnvironment (.makeWork (stripNewlines parent))
  copyInputs env msi
  let final ← buildFinal env (stripNewlines source) (imageHash i.expectedImageId) msi
  exportFinal env (imageHash i.expectedImageId) final (stripNewlines work)
  pure (stripNewlines work)

end Azurefin.Payload
