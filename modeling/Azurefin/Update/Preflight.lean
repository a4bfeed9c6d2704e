import Azurefin.Firmware.Preflight

/-!
# Prerequisites of an update

`system_update_preflight.py`, with the diagnostic `main` of `firmware_preflight.py` that it
calls. What commands print is an input, or the error that the command ends with.
-/

namespace Azurefin

/-! ## The state of the host and the offered image -/

/-- No update is pending, and the booted image follows the signed channel. -/
def validateStatus (data contract : Json) : Except PyError Unit := do
  let state ← data.getD "status".toList (.obj [])
  let staged ← state.get "staged".toList
  let rollbackQueued ← state.get "rollbackQueued".toList
  let usrOverlay ← state.get "usrOverlay".toList
  if staged.truthy || rollbackQueued.truthy || usrOverlay.truthy then
    .error (.valueError
      "Finish the pending deployment/rollback or remove the development overlay first")
  else
    let booted := (← state.get "booted".toList).orElse (.obj [])
    let image := (← booted.get "image".toList).orElse (.obj [])
    let origin := (← image.get "image".toList).orElse (.obj [])
    let incompatible ← booted.get "incompatible".toList
    if incompatible.truthy then .error (.valueError unsupported)
    else
      let channel ← contract.item "channel".toList
      if !origin.eq (.obj [("image".toList, channel),
          ("signature".toList, .str "containerPolicy".toList),
          ("transport".toList, .str "registry".toList)]) then
        .error (.valueError unsupported)
      else .ok ()
where
  unsupported : String :=
    "Updates require the supported testing channel with native signature enforcement"

/-- `config.get('config', {}).get('Labels', {})` -/
def imageLabels (config : Json) : Except PyError Json := do
  (← config.getD "config".toList (.obj [])).getD "Labels".toList (.obj [])

def firmwareLabel : Text := "org.azurefin.firmware-bundle".toList
def loaderLabel : Text := "org.azurefin.firmware-loader-abi".toList
def versionLabel : Text := "org.opencontainers.image.version".toList

/-- The image has the firmware contract of the booted one. -/
def validateTarget (config contract : Json) : Except PyError Unit := do
  let labels ← imageLabels config
  let bundle ← labels.get firmwareLabel
  if !bundle.eq (← contract.item "firmware_bundle".toList) then .error (.valueError refused)
  else
    let loader ← labels.get loaderLabel
    if !loader.eq (← contract.item "firmware_loader_abi".toList) then .error (.valueError refused)
    else .ok ()
where
  refused : String := "Channel image lacks the supported firmware contract; refusing update"

/-! ## Versions -/

/-- `0|[1-9][0-9]*` -/
def isNumeral (t : Text) : Bool :=
  t == "0".toList || (t.all Char.isDigit && t != [] && t.head? != some '0')

/-- The three fields of `v*.*.*` or `v*.*.*-alpha`, and whether it ends in `-alpha`. -/
def splitVersion (t : Text) : Option (List Text × Bool) :=
  if "v".toList.isPrefixOf t then
    let rest := t.drop 1
    let alpha := "-alpha".toList.isSuffixOf rest
    let fields := (if alpha then rest.take (rest.length - 6) else rest).splitOn '.'
    if fields.length == 3 then some (fields, alpha) else none
  else none

/-- The three numerals of a version, and whether it ends in `-alpha`. -/
def versionFields (t : Text) : Option (List Text × Bool) :=
  (splitVersion t).filter fun v => v.1.all isNumeral

/-- `int(text)` for a numeral: longer ones than the interpreter converts are an error. -/
def pyInt (t : Text) : Except PyError Nat :=
  if t.length > 4300 then
    .error (.valueError "Exceeds the limit (4300 digits) for integer string conversion")
  else .ok (t.foldl (fun n c => 10 * n + (c.toNat - '0'.toNat)) 0)

/-- `version(value)`: the three numbers, and 0 for an alpha version. -/
def version (value : Json) : Except PyError (List Nat) := do
  let text ← (value.orElse (.str [])).text
  match versionFields text with
  | none => .error (.valueError "Unrecognized OS version; refusing automatic update")
  | some (fields, alpha) => .ok ((← fields.mapM pyInt) ++ [if alpha then 0 else 1])

/-- `state['status']['booted']['image'].get('version')` -/
def currentVersion (state : Json) : Except PyError Json := do
  let status ← state.item "status".toList
  let booted ← status.item "booted".toList
  let image ← booted.item "image".toList
  image.get "version".toList

/-- The image is not older than the booted one. -/
def validateVersion (state config : Json) : Except PyError Unit := do
  let current ← currentVersion state
  let target ← (← imageLabels config).get versionLabel
  let offered ← version target
  let running ← version current
  if offered < running then
    .error (.valueError ("Update channel offers older version " ++ shown target ++ " than "
      ++ shown current ++ "; refusing downgrade"))
  else .ok ()
where
  shown : Json → String
    | .str t => String.ofList t
    | _ => ""

/-! ## The firmware diagnostic -/

/-- `except (OSError, ValueError, subprocess.SubprocessError)` -/
def isDiagnosed : PyError → Bool
  | .osError _ | .subprocessError => true
  | e => e.isValueError

/-- A part of the diagnostic: `none` when it failed with a diagnosed error. -/
def diagnosed {α : Type} : Except PyError α → Except PyError (Option α)
  | .ok a => .ok (some a)
  | .error e => if isDiagnosed e then .ok none else .error e

/-- What the preflight reads of the running system. Sizes are those of `statvfs`. -/
structure PreflightInputs where
  uid : Nat
  cmdline : Text
  status : Except PyError Json
  mounts : Except PyError Json
  bootAvailable : Int
  varAvailable : Int
  config : Except PyError Json

/-- `firmware_preflight.main`: whether it returns 0. -/
def firmwareDiagnostic (files : ImageFiles) (boot : Tree) (i : PreflightInputs) :
    Except PyError Bool := do
  if i.uid ≠ 0 then
    .error (.systemExit "Run with sudo; this diagnostic only reads system state.")
  else
    match ← diagnosed (i.mounts >>= fun mounts => validateMount mounts i.cmdline) with
    | none => .ok false
    | some _ =>
      let bundle ← diagnosed (checkBundle boot files.policy files.manifest)
      let space ← diagnosed (checkSpace i.bootAvailable)
      .ok (bundle.isSome && space.isSome)

/-! ## The preflight -/

def minBoot : Int := 768 * 1024 ^ 2
def minVar : Int := 10 * 1024 ^ 3

def checkHeadroom (path : String) (available minimum : Int) : Except PyError Unit :=
  if available < minimum then
    .error (.valueError ("Insufficient space on " ++ path ++ "; need "
      ++ toString (minimum / 1024 ^ 2) ++ " MiB free. "
      ++ "Review retained deployments; nothing was deleted."))
  else .ok ()

/-- The checks of the host, before the registry is asked; what `bootc status` reported. -/
def checkHost (files : ImageFiles) (boot : Tree) (i : PreflightInputs) : Except PyError Json := do
  if i.uid ≠ 0 then .error (.valueError "Run with sudo")
  else if (pySplit i.cmdline).any fun arg =>
      arg == "rd.live.image".toList || arg == "azurefin.live=1".toList then
    .error (.valueError "OS updates are not supported in the live session")
  else
    let state ← i.status
    validateStatus state files.contract
    if !(← firmwareDiagnostic files boot i) then
      .error (.valueError "Repair the firmware store before updating")
    else
      let bundle ← files.contract.item "firmware_bundle".toList
      if !(Json.str (sha256 files.manifest)).eq bundle then
        .error (.valueError "Booted image does not match this update channel firmware contract")
      else
        checkHeadroom "/boot" i.bootAvailable minBoot
        checkHeadroom "/var" i.varAvailable minVar
        .ok state

/-- `system_update_preflight.main` -/
def updatePreflight (files : ImageFiles) (boot : Tree) (i : PreflightInputs) :
    Except PyError Unit := do
  let state ← checkHost files boot i
  let config ← i.config
  validateTarget config files.contract
  validateVersion state config

/-! ## What it says -/

theorem validateTarget_eq_ok {config contract : Json}
    (h : validateTarget config contract = .ok ()) :
    ∃ labels bundle expected, imageLabels config = .ok labels ∧
      labels.get firmwareLabel = .ok bundle ∧
      contract.item "firmware_bundle".toList = .ok expected ∧ bundle.eq expected = true := by
  simp only [validateTarget, Except.bind_eq_ok] at h
  obtain ⟨labels, hl, bundle, hb, expected, he, h⟩ := h
  split at h
  case isTrue => cases h
  case isFalse heq => exact ⟨labels, bundle, expected, hl, hb, he, by simpa using heq⟩

theorem diagnosed_isSome {α : Type} {x : Except PyError α} {r : Option α}
    (h : diagnosed x = .ok r) (hr : r.isSome = true) : ∃ a, x = .ok a := by
  cases x with
  | ok a => exact ⟨a, rfl⟩
  | error e =>
    simp only [diagnosed] at h
    split at h
    · cases h
      cases hr
    · cases h

/-- When the diagnostic passes, the bundle of the booted image is there. -/
theorem firmwareDiagnostic_eq_true {files : ImageFiles} {boot : Tree} {i : PreflightInputs}
    (h : firmwareDiagnostic files boot i = .ok true) :
    ∃ report, checkBundle boot files.policy files.manifest = .ok report := by
  simp only [firmwareDiagnostic] at h
  split at h
  · cases h
  simp only [Except.bind_eq_ok] at h
  obtain ⟨mounted, -, h⟩ := h
  cases mounted with
  | none => cases h
  | some _ =>
    simp only [Except.bind_eq_ok, Except.ok.injEq, Bool.and_eq_true] at h
    obtain ⟨bundle, hb, _, -, hsome, -⟩ := h
    exact diagnosed_isSome hb hsome

/-- **What the host checks guarantee**: the bundle of the booted image is there, under the hash
that the contract of this image names. -/
theorem checkHost_eq_ok {files : ImageFiles} {boot : Tree} {i : PreflightInputs} {state : Json}
    (h : checkHost files boot i = .ok state) : i.status = .ok state ∧
      (∃ report, checkBundle boot files.policy files.manifest = .ok report) ∧
      files.contract.item "firmware_bundle".toList = .ok (.str (sha256 files.manifest)) := by
  simp only [checkHost] at h
  split at h
  · cases h
  split at h
  · cases h
  simp only [Except.bind_eq_ok] at h
  obtain ⟨state', hs, -, -, diagnostic, hd, h⟩ := h
  split at h
  case isTrue => cases h
  case isFalse hpass =>
  obtain rfl : diagnostic = true := by simpa using hpass
  simp only [Except.bind_eq_ok] at h
  obtain ⟨bundle, hb, h⟩ := h
  split at h
  case isTrue => cases h
  case isFalse heq =>
  simp only [Except.bind_eq_ok, Except.ok.injEq] at h
  obtain ⟨-, -, -, -, rfl⟩ := h
  obtain rfl := Json.str_eq (by simpa using heq)
  exact ⟨hs, firmwareDiagnostic_eq_true hd, hb⟩

end Azurefin
