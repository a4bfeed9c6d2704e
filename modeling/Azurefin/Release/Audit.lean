import Azurefin.Lib.Python

/-!
# The release audit

`audit-release.py`: `forbidden`, `check_file`, `audit_tar`, `audit_oci` and `main` with its tree
mode. What `json` and `tarfile` read from bytes are parameters.
-/

namespace Azurefin

/-! ## Names -/

/-- `name.removeprefix('./').lstrip('/')` -/
def stripName (name : Text) : Text := (removePrefix "./".toList name).dropWhile (· = '/')

def forbidden (name : Text) : Bool :=
  let name := stripName name
  let parts := (PurePosixPath.ofText name).parts
  -- include /usr/etc and OSTree deployment prefixes, not just a flat rootfs
  let etc := (Words.suffixAt "etc/".toList name).getD name
  ".msi".toList.isSuffixOf (lower name) ||
    Words.contains "qcom/x1e80100/microsoft".toList (lower name) ||
    etc == "etc/romulus-bluetooth-address".toList ||
    "etc/NetworkManager/system-connections/".toList.isPrefixOf etc ||
    "etc/ssh/ssh_host_".toList.isPrefixOf etc ||
    parts.contains ".ssh".toList ||
    (etc == "etc/copr".toList || etc == "etc/copr.conf".toList) ||
    parts.contains "cosign.key".toList

/-- The name is that of a `machine-id`, at the root or below. -/
def isMachineId (name : Text) : Bool :=
  stripName name == "etc/machine-id".toList || "/etc/machine-id".toList.isSuffixOf name

/-- `check_file` for the bytes of the stream -/
def checkFile (name : Text) (data : Bytes) (hashes : List Text) : Except PyError Unit :=
  if forbidden name then
    .error (.valueError ("Forbidden release content: " ++ String.ofList name))
  else if isMachineId name && data.length != 0 then
    .error (.valueError ("Nonempty machine-id: " ++ String.ofList name ++ " ("
      ++ toString data.length ++ " bytes)"))
  else if hashes.contains (sha256 data) then
    .error (.valueError ("Known Microsoft firmware bytes: " ++ String.ofList name))
  else .ok ()

/-! ## Archives -/

inductive TarKind where
  | file (data : Bytes)
  | hardLink (target : Text)
  | symlink (target : Text)
  | other

structure TarEntry where
  name : Text
  kind : TarKind

/-- The link target of a link. -/
def TarKind.linkname : TarKind → Option Text
  | .hardLink target | .symlink target => some target
  | _ => none

/-- One entry of the loop in `audit_tar`. -/
def auditEntry (hashes : List Text) (entry : TarEntry) : Except PyError Unit :=
  if forbidden entry.name || entry.kind.linkname.any forbidden then
    .error (.valueError ("Forbidden release path: " ++ String.ofList entry.name))
  else
    match entry.kind with
    | .file data => checkFile entry.name data hashes
    | _ => .ok ()

/-- `audit_tar` for the entries of the archive -/
def auditTar (entries : List TarEntry) (hashes : List Text) : Except PyError Unit :=
  entries.forM (auditEntry hashes)

/-! ## Image layouts -/

/-- How bytes are read. -/
structure Formats where
  /-- `json.loads` -/
  loads : Bytes → Except PyError Json
  /-- The entries that `tarfile` yields. -/
  members : Bytes → Except PyError (List TarEntry)

/-- A directory in the OCI image layout: `index.json`, and the files below `blobs/sha256`. -/
structure OciLayout where
  index : Option Bytes
  blob : Text → Option Bytes

def readOptional (file : Option Bytes) : Except PyError Bytes :=
  match file with
  | some data => .ok data
  | none => .error (.osError .noent)

/-- The function `blob`: the contents of the file. -/
def ociBlob (root : OciLayout) (descriptor : Json) : Except PyError Bytes := do
  let digest ← (← descriptor.item "digest".toList).strMethod
  match digest.splitOn ':' with
  | [algorithm, value] =>
    if algorithm ≠ "sha256".toList ∨ value.length ≠ 64 ∨ value.any (fun c => !Digest.isHexDigit c) then
      .error (.valueError "Invalid OCI digest")
    else
      let data ← readOptional (root.blob value)
      if sha256 data ≠ value then
        .error (.valueError ("OCI digest mismatch: " ++ String.ofList digest))
      else .ok data
  | _ => .error (.valueError "not enough or too many values to unpack")

/-- One layer, unless it has been checked. -/
def auditLayer (formats : Formats) (root : OciLayout) (hashes checked : List Text) (layer : Json) :
    Except PyError (List Text) := do
  match ← layer.item "digest".toList with
  | .str digest =>
    if checked.contains digest then .ok checked
    else
      auditTar (← formats.members (← ociBlob root layer)) hashes
      .ok (digest :: checked)
  | .arr _ | .obj _ => .error .typeError -- not hashable
  | _ => .error .attributeError

/-- The labels of images that are not to be published. -/
def isPrivate (config : Json) : Bool :=
  Words.contains "locally-provisioned".toList config.dumps ||
    Words.contains "do-not-publish".toList config.dumps

/-- The function `manifest`, called at most `depth` times inside itself. -/
def auditManifest (formats : Formats) (root : OciLayout) (hashes : List Text) :
    Nat → List Text → Json → Except PyError (List Text)
  | 0, _, _ => .error .recursionError
  | depth + 1, checked, descriptor => do
    let data ← formats.loads (← ociBlob root descriptor)
    if ← data.has "manifests".toList then
      let children ← (← data.item "manifests".toList).elements
      children.foldlM (auditManifest formats root hashes depth) checked
    else
      let config ← formats.loads (← ociBlob root (← data.item "config".toList))
      if isPrivate config then .error (.valueError "Private image label")
      else
        let layers ← (← data.item "layers".toList).elements
        layers.foldlM (auditLayer formats root hashes) checked

/-- `audit_oci`: the digests of the layers that were checked. -/
def auditOci (formats : Formats) (depth : Nat) (root : OciLayout) (hashes : List Text) :
    Except PyError (List Text) := do
  let index ← formats.loads (← readOptional root.index)
  if !(← index.get "manifests".toList).truthy then .error (.valueError "Empty OCI index")
  else
    let manifests ← (← index.item "manifests".toList).elements
    manifests.foldlM (auditManifest formats root hashes depth) []

/-! ## Trees -/

/-- What a path below the audited directory is. -/
inductive TreeNode where
  | directory
  | file (data : Bytes)
  | symlink (target : Text)

structure TreeEntry where
  name : Text
  node : TreeNode

def auditPath (hashes : List Text) (entry : TreeEntry) : Except PyError Unit :=
  if forbidden entry.name then
    .error (.valueError ("Forbidden release path: " ++ String.ofList entry.name))
  else
    match entry.node with
    | .file data => checkFile entry.name data hashes
    | _ => .ok ()

/-- The tree mode, for what `rglob('*')` yields -/
def auditTree (entries : List TreeEntry) (hashes : List Text) : Except PyError Unit :=
  if entries.isEmpty then .error (.valueError "Missing or empty audit tree")
  else entries.forM (auditPath hashes)

/-! ## The program -/

/-- One item of `fedora_shared_metadata` takes its hash off the list. -/
def shareMetadata (hashes : List Text) (shared : Json) : Except PyError (List Text) := do
  match ← shared.item "sha256".toList with
  | .str value =>
    if !hashes.contains value then .error invalid
    else if !".jsn".toList.isSuffixOf (← (← shared.item "source".toList).strMethod) then .error invalid
    else if !(← shared.get "rpm".toList).truthy then .error invalid
    else if !(← shared.get "path".toList).truthy then .error invalid
    else .ok (hashes.filter (· ≠ value))
  | .arr _ | .obj _ => .error .typeError -- not hashable
  | _ => .error invalid
where
  invalid : PyError := .valueError "Invalid Fedora metadata exception"

/-- The denied hashes of the policy. -/
def denylist (policy : Json) : Except PyError (List Text) := do
  let files ← (← policy.item "files".toList).elements
  let hashes ← files.mapM fun file => do (← file.item "sha256".toList).text
  if hashes.isEmpty || hashes.any (fun value => value.length != 64) then
    .error (.valueError "Invalid firmware denylist")
  else
    let exceptions ← (← policy.getD "fedora_shared_metadata".toList (.arr [])).elements
    exceptions.foldlM shareMetadata hashes

/-- What is audited, in each mode. -/
inductive AuditTarget where
  | oci (root : OciLayout)
  | tree (entries : List TreeEntry)
  | tar (archive : Bytes)

/-- `main` -/
def auditMain (formats : Formats) (depth : Nat) (policy : Bytes) (target : AuditTarget) :
    Except PyError Unit := do
  let hashes ← denylist (← formats.loads policy)
  match target with
  | .oci root => do
    let _ ← auditOci formats depth root hashes
  | .tree entries => auditTree entries hashes
  | .tar archive => auditTar (← formats.members archive) hashes

end Azurefin
