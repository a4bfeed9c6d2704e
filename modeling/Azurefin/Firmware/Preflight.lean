import Azurefin.Firmware.Inventory

/-!
# Checking the booted firmware store

`validate_mount`, `trusted_directory`, `check_bundle` and `check_space` from
`firmware_preflight.py`. A tree given to `checkBundle` is the one below `/boot`.
-/

namespace Azurefin

def minFree : Nat := 512 * 1024 * 1024

/-- Groups of 8, 4, 4, 4 and 12 lowercase hexadecimal digits between hyphens. -/
def isUuidText (t : Text) : Bool :=
  ((t.splitOn '-').map List.length == [8, 4, 4, 4, 12]) &&
    (t.splitOn '-').all fun part => part.all Digest.isHexDigit

def uuidArgument : Text := "azurefin.boot_uuid=".toList

/-- The values of the `azurefin.boot_uuid` arguments among the given ones. -/
def uuidValues (arguments : List Text) : List Text :=
  (arguments.filter uuidArgument.isPrefixOf).map (afterFirst '=')

/-- The one mount `findmnt` reports is a writable ext4 `/boot`, and the kernel was given its
UUID; that UUID. -/
def validateMount (data : Json) (cmdline : Text) : Except PyError Text := do
  let mounts ← data.getD "filesystems".toList (.arr [])
  if (← mounts.len) ≠ 1 then
    .error (.valueError "Expected one separate /boot filesystem")
  else
    let mount ← mounts.first
    let target ← mount.get "target".toList
    let fstype ← mount.get "fstype".toList
    if !target.eq (.str "/boot".toList) || !fstype.eq (.str "ext4".toList) then
      .error (.valueError "/boot must be a separate ext4 mount")
    else
      match ← mount.get "uuid".toList with
      | .str uuid =>
        if !isUuidText uuid then
          .error (.valueError "Missing or invalid boot filesystem UUID")
        else
          let options ← (← mount.getD "options".toList (.str [])).strMethod
          let options := options.splitOn ','
          if !options.contains "rw".toList || options.contains "ro".toList then
            .error (.valueError "/boot is not mounted read-write")
          else if uuidValues (pySplit cmdline) ≠ [uuid] then
            .error (.valueError "Expected exactly one azurefin.boot_uuid matching /boot")
          else .ok uuid
      | _ => .error (.valueError "Missing or invalid boot filesystem UUID")

/-- A directory that only root can write to. -/
def Attr.trusted (a : Attr) : Bool := a.uid == 0 && a.mode &&& 0o022 == 0

/-- `trusted_directory(path)`, on what `lstat` shows at the path. -/
def trustedDirectory (path : Text) (found : Option (Obj UInt8 Attr)) : Except PyError Unit :=
  match found with
  | some (.dir a) =>
    if a.trusted then .ok ()
    else .error (.valueError (untrusted path))
  | some _ => .error (.valueError (untrusted path))
  | none => .error (.osError .noent)
where
  untrusted (path : Text) : String :=
    "Expected root-owned, non-symlink directory without group/other write: "
      ++ String.ofList path

/-- `boot / 'azurefin' / 'firmware'` below `/boot`. -/
def storePath : Path := ["azurefin".toList, "firmware".toList]

def bundlePath (bundleId : Text) : Path := storePath ++ [bundleId]

/-- The tree below a directory of a tree. -/
def subtree (tree : Tree) (p : Path) : Tree := fun q => tree (p ++ q)

/-- What an image installs under `/usr/share/azurefin`. -/
structure ImageFiles where
  policy : Json
  manifest : Bytes
  contract : Json

structure BundleReport where
  bundleId : Text
  files : Nat
  firmwareBytes : Nat
  deriving DecidableEq, Repr

/-- `str(Path('/boot') / ...)` -/
def bootPath (p : Path) : Text := (p.map fun n => "/".toList ++ n).foldl (· ++ ·) "/boot".toList

/-- The bundle for the policy is in the store, in directories only root can write to. -/
def checkBundle (boot : Tree) (policy : Json) (expectedManifest : Bytes) :
    Except PyError BundleReport := do
  let contents ← manifest policy
  if contents ≠ expectedManifest then
    .error (.valueError "Image manifest does not match image firmware policy")
  else
    let bundleId := sha256 contents
    [[], ["azurefin".toList], storePath, bundlePath bundleId].forM fun p =>
      trustedDirectory (bootPath p) (boot p)
    let result ← inventory (subtree boot (bundlePath bundleId)) policy
    .ok ⟨bundleId, result.1.length, result.2⟩

def checkSpace (available : Int) : Except PyError Unit :=
  if available < minFree then
    .error (.valueError ("Insufficient /boot headroom: " ++ toString available
      ++ " bytes free; diagnostic minimum is " ++ toString minFree
      ++ ". Review retained deployments; do not delete blindly."))
  else .ok ()

/-! ## What the checks say -/

/-- A real directory that only root can write to. -/
def IsTrusted (tree : Tree) (p : Path) : Prop := ∃ a, tree p = some (.dir a) ∧ a.trusted = true

theorem trustedDirectory_eq_ok {path : Text} {tree : Tree} {p : Path} :
    trustedDirectory path (tree p) = .ok () ↔ IsTrusted tree p := by
  unfold trustedDirectory IsTrusted
  rcases tree p with _ | ⟨_ | a | _ | _⟩
  case some.dir => by_cases ha : a.trusted = true <;> simp [ha]
  all_goals simp

/-- The bundle named `bundleId` is in the store below `/boot`. -/
structure Holding (boot : Tree) (bundleId : Text) (rows : List Row) : Prop where
  root : IsTrusted boot []
  azurefin : IsTrusted boot ["azurefin".toList]
  store : IsTrusted boot storePath
  bundle : IsTrusted boot (bundlePath bundleId)
  complete : Complete (subtree boot (bundlePath bundleId)) rows

/-- The order of the rows does not matter. -/
theorem Holding.perm {tree : Tree} {bundleId : Text} {rows rows' : List Row}
    (h : Holding tree bundleId rows) (hp : rows'.Perm rows) : Holding tree bundleId rows' := by
  have hsum : totalSize (subtree tree (bundlePath bundleId)) rows' =
      totalSize (subtree tree (bundlePath bundleId)) rows := (hp.map _).sum_nat
  exact ⟨h.root, h.azurefin, h.store, h.bundle, h.complete.root,
    fun r hr => h.complete.files r (hp.mem_iff.mp hr), hsum ▸ h.complete.total⟩

/-- `check_bundle` passes exactly when the bundle is there and the manifest is the expected one. -/
theorem checkBundle_ok_iff {boot : Tree} {policy : Json} {expected contents : Bytes} {F : FileSet}
    (hF : policyRows policy = .ok F.rows) (hm : manifest policy = .ok contents) :
    (∃ report, checkBundle boot policy expected = .ok report) ↔
      contents = expected ∧ Holding boot (sha256 contents) F.rows := by
  by_cases he : contents = expected
  · subst he
    have hdirs : (∀ p ∈ [[], ["azurefin".toList], storePath, bundlePath (sha256 contents)],
        trustedDirectory (bootPath p) (boot p) = .ok ()) ↔ IsTrusted boot [] ∧
          IsTrusted boot ["azurefin".toList] ∧ IsTrusted boot storePath ∧
            IsTrusted boot (bundlePath (sha256 contents)) := by
      simp [trustedDirectory_eq_ok]
    simp only [checkBundle, hm, Except.ok_bind, ne_eq, not_true_eq_false, if_false, true_and,
      Except.bind_eq_ok, Except.forM_eq_ok, hdirs]
    constructor
    · rintro ⟨_, _, ⟨h0, h1, h2, h3⟩, result, hi, -⟩
      exact ⟨h0, h1, h2, h3, (inventory_ok_iff hF).mp ⟨result, hi⟩⟩
    · intro h
      obtain ⟨result, hi⟩ := (inventory_ok_iff hF).mpr h.complete
      exact ⟨_, (), ⟨h.root, h.azurefin, h.store, h.bundle⟩, result, hi, rfl⟩
  · simp [checkBundle, hm, Except.ok_bind, he]

/-- The report names the digest of the manifest. -/
theorem checkBundle_bundleId {boot : Tree} {policy : Json} {expected contents : Bytes}
    {report : BundleReport} (hm : manifest policy = .ok contents)
    (h : checkBundle boot policy expected = .ok report) : report.bundleId = sha256 contents := by
  simp only [checkBundle, hm, Except.ok_bind] at h
  split at h
  · cases h
  · simp only [Except.bind_eq_ok, Except.ok.injEq] at h
    obtain ⟨-, -, -, -, rfl⟩ := h
    rfl

/-- A mount that passes was named to the kernel by exactly one argument. -/
theorem validateMount_eq_ok {data : Json} {cmdline uuid : Text}
    (h : validateMount data cmdline = .ok uuid) :
    isUuidText uuid = true ∧ uuidValues (pySplit cmdline) = [uuid] := by
  simp only [validateMount, Except.bind_eq_ok] at h
  obtain ⟨mounts, -, count, -, h⟩ := h
  split at h
  · cases h
  simp only [Except.bind_eq_ok] at h
  obtain ⟨mount, -, target, -, fstype, -, h⟩ := h
  split at h
  · cases h
  simp only [Except.bind_eq_ok] at h
  obtain ⟨uuid', -, h⟩ := h
  split at h
  case h_2 => cases h
  split at h
  · cases h
  simp only [Except.bind_eq_ok] at h
  obtain ⟨_, -, options, -, h⟩ := h
  split at h
  · cases h
  split at h
  · cases h
  · obtain rfl := Except.ok.inj h
    simp_all

end Azurefin
