import Azurefin.Release.Tag
import Azurefin.Update.Promotion

/-!
# Updates from a signed base

`update.py` with `prepare` and `ready_payload` from `postinstall_firmware.py`. The registry may answer
each request as it likes and move its tags at any time. An update that is recorded or staged rests on
one manifest, which was looked up once under the tag, is signed as the base of the release and names
the configuration that the tools are handed: `updates_rest_on_signed_base`.
-/

namespace Azurefin

open Calls

/-! ## Commands -/

/-- What the program asks of the machine and of the registry. Files without a path are those in its
workspace, which is `0700` and new. -/
inductive UpdateCommand where
  | geteuid
  | which (name : Text)
  | resolve (path : Text)
  | isFile (path : Text)
  | isSymlink (path : Text)
  | makeRuns
  | lock
  | freeSpace
  | bootcStatus
  /-- `skopeo inspect --raw` on the tag of the release -/
  | inspectRaw (version : Text)
  | cosignVerify (signer : Signer) (annotations : List (Text × Text)) (reference : Text)
  | makeWorkspace
  | skopeoCopy (reference : Text)
  | readIndex
  | readBlob (hash : Text)
  | writeImageId (contents : Text)
  | podmanPull
  | podmanCreate (image : Text)
  | podmanCopySupport (container : Text)
  | podmanRemove (container : Text)
  | readImageId
  /-- `28-prepare-installer-payload.sh` -/
  | preparePayload (expected : Text) (msi : Option Text)
  | readReady (directory : Text)
  | writeReceipt (payload : Text) (receipt : Json)
  | bootcSwitch (payload : Text)

/-- A script answers with the lines of its output and its exit status. -/
def UpdateCommand.Answer : UpdateCommand → Type
  | .geteuid | .freeSpace => Nat
  | .which _ | .isFile _ | .isSymlink _ => Bool
  | .resolve _ | .makeWorkspace | .readIndex | .podmanCreate _ | .readImageId | .readReady _ => Text
  | .inspectRaw _ | .readBlob _ => Bytes
  | .preparePayload .. => List Text × Nat
  | _ => Unit

/-- The state is the file `base-image-id`. -/
abbrev UpdateSession := Calls.Session (Option Text) UpdateCommand UpdateCommand.Answer PyError

abbrev UpdateEvent := Calls.Event (Option Text) UpdateCommand UpdateCommand.Answer PyError

abbrev UpdateAct := Act UpdateSession PyError

/-- Nothing else writes the file, and it is read as it was written. All other answers are
left open. -/
structure UpdateEnvironment extends
    Calls.Environment (Option Text) UpdateCommand UpdateCommand.Answer PyError where
  writes : ∀ s contents u, answer s (.writeImageId contents) = .ok u →
    next s (.writeImageId contents) = some contents
  next_other : ∀ s c, (∀ contents, c ≠ .writeImageId contents) → next s c = s.state
  reads : ∀ s (contents : Text), answer s .readImageId = .ok contents → s.state = some contents

/-- How documents are read, from bytes and from text. -/
structure UpdateFormats where
  loads : Bytes → Except PyError Json
  loadsText : Text → Except PyError Json

variable (formats : UpdateFormats) (env : UpdateEnvironment)

/-! ## The base image -/

def repository : Text := "ghcr.io/xelef2000/azurefin".toList

/-- The reference to a manifest by its digest. -/
def baseReference (raw : Bytes) : Text := repository ++ "@sha256:".toList ++ sha256 raw

def verifiedManifest (version : Text) : UpdateAct (Text × Json) := do
  let _ ← Act.ofExcept (updateRelease version)
  let raw : Bytes ← call env.toEnvironment (.inspectRaw version)
  let manifest ← Act.ofExcept (formats.loads raw)
  let single ← Act.ofExcept (do
    if ← manifest.has "layers".toList then manifest.has "config".toList else .ok false)
  Act.require single (.runtimeError "Expected a single ARM64 image, not a multi-platform index")
  let reference := baseReference raw
  call env.toEnvironment (.cosignVerify (releaseSigner version) (baseAnnotations version) reference)
  pure (reference, manifest)

/-- The index of what was downloaded lists the manifest and no other. -/
def checkIndex (index : Json) (digest : Text) : Except PyError Unit := do
  let entries ← index.item "manifests".toList
  let listed ← if (← entries.len) != 1 then .ok false
    else do .ok ((← (← entries.first).item "digest".toList).eq (.str digest))
  if !listed then .error (.runtimeError "Downloaded OCI manifest differs from verified digest") else .ok ()

/-- The configuration is for the machine. -/
def checkPlatform (config : Json) : Except PyError Unit := do
  let supported ← if !(← config.get "architecture".toList).eq (.str "arm64".toList) then .ok false
    else do .ok ((← config.get "os".toList).eq (.str "linux".toList))
  if !supported then .error (.runtimeError "Release is not Linux ARM64") else .ok ()

def fetch (reference : Text) (manifest : Json) : UpdateAct Text := do
  call env.toEnvironment (.skopeoCopy reference)
  let index : Text ← call env.toEnvironment .readIndex
  Act.ofExcept (do checkIndex (← formats.loadsText index) (afterFirst '@' reference))
  let configDigest ← Act.ofExcept (do
    (← (← manifest.item "config".toList).item "digest".toList).text)
  Act.require (isImageDigest configDigest) (.runtimeError "Invalid image config digest")
  let imageId := afterFirst ':' configDigest
  let configRaw : Bytes ← call env.toEnvironment (.readBlob imageId)
  Act.require ("sha256:".toList ++ sha256 configRaw == configDigest)
    (.runtimeError "Image config digest mismatch")
  Act.ofExcept (do checkPlatform (← formats.loads configRaw))
  call env.toEnvironment (.writeImageId (imageId ++ ['\n']))
  pure configDigest

/-- The tools come from the verified image, which is never run. -/
def exportSupport (image : Text) : UpdateAct Unit := do
  call env.toEnvironment .podmanPull
  let output : Text ← call env.toEnvironment (.podmanCreate image)
  let container := strip output
  Act.require (isSha256Text container) (.runtimeError "Unexpected container ID")
  Act.ensuring (call env.toEnvironment (.podmanCopySupport container))
    (call env.toEnvironment (.podmanRemove container))

/-! ## Firmware -/

def runs : PurePosixPath := .ofText "/var/lib/azurefin/provisioning".toList

/-- `azurefin-provision\.[A-Za-z0-9]+` -/
def isProvisionName (name : Text) : Bool :=
  let stem := "azurefin-provision.".toList
  stem.isPrefixOf name && !(name.drop stem.length).isEmpty && (name.drop stem.length).all Char.isAlphanum

def readyPayload (value : Text) : UpdateAct PurePosixPath := do
  let path := PurePosixPath.ofText value
  Act.require (path.name == "container".toList && path.parent.parent == runs
    && isProvisionName path.parent.name) unexpected
  let link : Bool ← call env.toEnvironment (.isSymlink path.str)
  Act.require (!link) unexpected
  let parentLink : Bool ← call env.toEnvironment (.isSymlink path.parent.str)
  Act.require (!parentLink) unexpected
  let ready : Text ← call env.toEnvironment (.readReady path.parent.str)
  Act.require (strip ready == path.str)
    (.runtimeError "Missing or mismatched preparation success marker")
  ["index.json".toList, "oci-layout".toList].forM fun name => do
    let file : Bool ← call env.toEnvironment (.isFile (path.child name).str)
    Act.require file (.runtimeError "Incomplete OCI payload")
  pure path
where
  unexpected : PyError := .runtimeError "Preparation returned an unexpected payload path"

/-- One line of the script's output. -/
def payloadLine (payload : Option PurePosixPath) (line : Text) : UpdateAct (Option PurePosixPath) :=
  if "PAYLOAD_READY: ".toList.isPrefixOf line then do
    let path ← readyPayload env (strip (removePrefix "PAYLOAD_READY: ".toList line))
    pure (some path)
  else pure payload

def prepare (msi : Option Text) : UpdateAct PurePosixPath := do
  let contents : Text ← call env.toEnvironment .readImageId
  let expected := strip contents
  Act.require (isSha256Text expected) (.runtimeError "Invalid pinned bootstrap image ID")
  let result : List Text × Nat ← call env.toEnvironment (.preparePayload expected msi)
  let payload ← result.1.foldlM (payloadLine env) none
  match payload with
  | some path =>
    Act.require (result.2 == 0) failed
    pure path
  | none => Act.raise failed
where
  failed : PyError := .runtimeError "Firmware preparation failed; the booted deployment was not replaced"

/-! ## The program -/

structure UpdateArguments where
  release : Text
  check : Bool
  stage : Bool
  msi : Option Text
  download : Bool

/-- The arguments, as the parser takes them. -/
def checkArguments (args : UpdateArguments) : Except PyError Unit := do
  let _ ← updateRelease args.release
  if args.msi.isSome && args.download then
    .error (.systemExit "argument --download: not allowed with argument --msi")
  else if args.check && (args.stage || args.msi.isSome || args.download) then
    .error (.systemExit "--check cannot prepare or stage a deployment")
  else if !args.check && !(args.msi.isSome || args.download) then
    .error (.systemExit "Choose --download or --msi for local firmware rebuilding")
  else .ok ()

def resolveMsi : Option Text → UpdateAct (Option Text)
  | none => pure none
  | some path => do
    let resolved : Text ← call env.toEnvironment (.resolve path)
    let file : Bool ← call env.toEnvironment (.isFile resolved)
    Act.require file (.systemExit "MSI must be a regular file")
    pure (some resolved)

/-- The contents of `verified-update.json`. -/
def updateReceipt (release reference : Text) (payload : PurePosixPath) : Json :=
  .obj [("release".toList, .str release), ("verified_base".toList, .str reference),
    ("payload".toList, .str payload.str),
    ("signer".toList, .str ("https://github.com/Xelef2000/azurefin/.github/workflows/release-romulus.yml@refs/tags/".toList ++ release)),
    ("issuer".toList, .str "https://token.actions.githubusercontent.com".toList)]

/-- What `main` does under the lock. -/
def prepareUpdate (args : UpdateArguments) (msi : Option Text) : UpdateAct Unit := do
  let free : Nat ← call env.toEnvironment .freeSpace
  Act.require (60 * 1024 ^ 3 ≤ free)
    (.systemExit "At least 60 GiB free is required; failed runs are retained")
  call env.toEnvironment .bootcStatus
  let (reference, manifest) ← verifiedManifest formats env args.release
  let _ ← call env.toEnvironment .makeWorkspace
  let image ← fetch formats env reference manifest
  exportSupport env image
  let payload ← prepare env msi
  call env.toEnvironment (.writeReceipt payload.str (updateReceipt args.release reference payload))
  if args.stage then call env.toEnvironment (.bootcSwitch payload.str) else pure ()

/-- Only a check may run without `sudo`. -/
def requireRoot (args : UpdateArguments) : UpdateAct Unit :=
  if args.check then pure ()
  else do
    let uid : Nat ← call env.toEnvironment .geteuid
    Act.require (uid == 0) (.systemExit "Run with sudo")

/-- `main` from `update.py` -/
def updateMain (args : UpdateArguments) : UpdateAct Unit := do
  Act.ofExcept (checkArguments args)
  requireRoot env args
  ["cosign".toList, "skopeo".toList].forM fun command => do
    let found : Bool ← call env.toEnvironment (.which command)
    Act.require found (.systemExit ("Missing required verifier: " ++ String.ofList command))
  if args.check then
    let _ ← verifiedManifest formats env args.release
    pure ()
  else
    let msi ← resolveMsi env args.msi
    call env.toEnvironment .makeRuns
    let link : Bool ← call env.toEnvironment (.isSymlink runs.str)
    Act.require (!link) (.systemExit "Refusing a symlink workspace")
    call env.toEnvironment .lock
    prepareUpdate formats env args msi

/-! ## What the calls rest on -/

/-- The requests to the registry. -/
def UpdateCommand.contacts : UpdateCommand → Bool
  | .inspectRaw _ | .cosignVerify .. | .skopeoCopy _ => true
  | _ => false

/-- The manifest that a request names. -/
def UpdateCommand.reference : UpdateCommand → Option Text
  | .cosignVerify _ _ reference | .skopeoCopy reference => some reference
  | _ => none

/-- The image that a tool is handed. -/
def UpdateCommand.image : UpdateCommand → Option Text
  | .podmanCreate image => some image
  | .preparePayload expected _ => some ("sha256:".toList ++ expected)
  | _ => none

/-- The receipt and the deployment. -/
def UpdateCommand.publishes : UpdateCommand → Bool
  | .writeReceipt .. | .bootcSwitch _ => true
  | _ => false

/-- A command that none of the rules below is about. -/
def UpdateCommand.isPlain (c : UpdateCommand) : Bool :=
  !c.contacts && c.image.isNone && !c.publishes

/-- A manifest and the configuration it names. -/
structure SignedBase where
  raw : Bytes
  imageId : Text

variable {formats env}

/-- The manifest was the answer for the tag and is signed as the base of the release; its
configuration is on the disk, under its own hash, and is one for the machine. -/
structure SignedBase.OnRecord (formats : UpdateFormats) (version : Text) (base : SignedBase)
    (seen : List UpdateEvent) : Prop where
  inspected : Answered (.inspectRaw version) base.raw seen
  signed : Answered (.cosignVerify (releaseSigner version) (baseAnnotations version)
    (baseReference base.raw)) () seen
  named : ∃ manifest descriptor, formats.loads base.raw = .ok manifest ∧
    manifest.item "config".toList = .ok descriptor ∧
      descriptor.item "digest".toList = .ok (.str ("sha256:".toList ++ base.imageId))
  stored : ∃ data config, Answered (.readBlob base.imageId) data seen ∧ sha256 data = base.imageId ∧
    formats.loads data = .ok config ∧ config.get "architecture".toList = .ok (.str "arm64".toList) ∧
      config.get "os".toList = .ok (.str "linux".toList)

/-- The tools were handed the image. -/
structure SignedBase.HandedOver (base : SignedBase) (seen : List UpdateEvent) : Prop where
  exported : ∃ container, Answered (.podmanCreate ("sha256:".toList ++ base.imageId)) container seen
  prepared : ∃ msi result, Answered (.preparePayload base.imageId msi) result seen

/-- What each call rests on. -/
structure Disciplined (formats : UpdateFormats) (version : Text) (seen : List UpdateEvent)
    (event : UpdateEvent) : Prop where
  /-- The tag is looked up first, and later requests name what was found there. -/
  contact : event.call.contacts = true →
    (event.call = .inspectRaw version ∧ ∀ e ∈ seen, e.call.contacts = false) ∨
      ∃ raw, Answered (.inspectRaw version) raw seen ∧ event.call.reference = some (baseReference raw)
  handed : ∀ image, event.call.image = some image → ∃ base : SignedBase,
    base.OnRecord formats version seen ∧ image = "sha256:".toList ++ base.imageId
  published : event.call.publishes = true → ∃ base : SignedBase,
    base.OnRecord formats version seen ∧ base.HandedOver seen

abbrev UpdateFacts := Facts (Option Text) UpdateCommand UpdateCommand.Answer PyError

/-- The file has these contents, and these facts are on record. -/
structure UpdateReady (formats : UpdateFormats) (version : Text) (F : UpdateFacts) (file : Option Text)
    (s : UpdateSession) : Prop extends Records (Disciplined formats version) F s where
  file : s.state = file

/-- Every call so far rests on what it needs. -/
def UpdateSound (formats : UpdateFormats) (version : Text) (s : UpdateSession) : Prop :=
  Always (Disciplined formats version) s.log

variable {version : Text} {F : UpdateFacts} {file : Option Text} {c : UpdateCommand} {s : UpdateSession}

theorem Disciplined.plain {seen : List UpdateEvent} {event : UpdateEvent}
    (h : event.call.isPlain = true) : Disciplined formats version seen event := by
  simp only [UpdateCommand.isPlain, Bool.and_eq_true, Bool.not_eq_true', Option.isNone_iff_eq_none] at h
  obtain ⟨⟨hcontacts, himage⟩, hpublishes⟩ := h
  constructor
  · simp [hcontacts]
  · simp [himage]
  · simp [hpublishes]

theorem UpdateReady.sound (h : UpdateReady formats version F file s) : UpdateSound formats version s :=
  h.always

theorem UpdateReady.weaken {F' : UpdateFacts} (h : UpdateReady formats version F file s)
    (hF : F.holds s.log → F'.holds s.log) : UpdateReady formats version F' file s :=
  ⟨⟨h.always, hF h.facts⟩, h.file⟩

theorem UpdateSound.after (h : UpdateSound formats version s)
    (hc : Disciplined formats version s.log (env.event s c)) :
    UpdateSound formats version (env.after s c) :=
  always_snoc.mpr ⟨h, hc⟩

/-- A command that rests on the facts, and does not write the file, adds its answer to the record. -/
theorem holds_rests (hc : ∀ contents, c ≠ .writeImageId contents)
    (hrests : ∀ s : UpdateSession, F.holds s.log → Disciplined formats version s.log (env.event s c)) :
    Act.Holds (UpdateReady formats version F file) (call env.toEnvironment c)
      (fun a => UpdateReady formats version (F.answered c a) file) (fun _ => UpdateSound formats version) := by
  apply holds_call
  · intro s a h ha
    refine ⟨⟨h.sound.after (hrests s h.facts), F.snoc s.log _ h.facts, answered_after ha⟩, ?_⟩
    exact (env.next_other s c hc).trans h.file
  · intro s _ h _
    exact h.sound.after (hrests s h.facts)

/-- A plain command keeps the facts. -/
theorem holds_plain (hc : c.isPlain = true) (hw : ∀ contents, c ≠ .writeImageId contents) :
    Act.Holds (UpdateReady formats version F file) (call env.toEnvironment c)
      (fun _ => UpdateReady formats version F file) (fun _ => UpdateSound formats version) :=
  (holds_rests hw fun _ _ => .plain hc).post fun _ _ h => h.weaken fun hF => hF.1

/-- It also does so after a failure. -/
theorem holds_sound (hc : c.isPlain = true) :
    Act.Holds (UpdateSound formats version) (call env.toEnvironment c)
      (fun _ => UpdateSound formats version) (fun _ => UpdateSound formats version) :=
  holds_call (fun _ _ h _ => h.after (.plain hc)) (fun _ _ h _ => h.after (.plain hc))

theorem holds_computed {α : Type} {result : Except PyError α} :
    Act.Holds (UpdateReady formats version F file) (Act.ofExcept result)
      (fun a s => UpdateReady formats version F file s ∧ result = .ok a)
      (fun _ => UpdateSound formats version) := .computed fun _ _ h => h.sound

theorem holds_required {check : Bool} {e : PyError} :
    Act.Holds (UpdateReady formats version F file) (Act.require check e)
      (fun _ s => UpdateReady formats version F file s ∧ check = true)
      (fun _ => UpdateSound formats version) := .required fun _ h => h.sound

/-! ## What each function rests on -/

/-- The registry has not been asked yet. -/
structure Unasked (formats : UpdateFormats) (version : Text) (s : UpdateSession) : Prop where
  sound : UpdateSound formats version s
  unasked : ∀ event ∈ s.log, event.call.contacts = false

theorem holds_unasked (hc : c.isPlain = true) :
    Act.Holds (Unasked formats version) (call env.toEnvironment c)
      (fun _ => Unasked formats version) (fun _ => UpdateSound formats version) := by
  have hafter : ∀ s, Unasked formats version s → Unasked formats version (env.after s c) := by
    intro s h
    refine ⟨h.sound.after (.plain hc), fun event hmem => ?_⟩
    rcases List.mem_append.mp hmem with hmem | hmem
    · exact h.unasked event hmem
    · obtain rfl := List.mem_singleton.mp hmem
      simp only [UpdateCommand.isPlain, Bool.and_eq_true, Bool.not_eq_true'] at hc
      exact hc.1.1
  exact holds_call (fun s _ h _ => hafter s h) (fun s _ h _ => (hafter s h).sound)

/-- What is known of a verified manifest. -/
def manifestFacts (formats : UpdateFormats) (version : Text) (raw : Bytes) (manifest : Json) : UpdateFacts :=
  ((Facts.nothing.answered (.inspectRaw version) raw).known (formats.loads raw = .ok manifest)).answered
    (.cosignVerify (releaseSigner version) (baseAnnotations version) (baseReference raw)) ()

theorem holds_verifiedManifest :
    Act.Holds (Unasked formats version) (verifiedManifest formats env version)
      (fun found s => ∃ raw file, found.1 = baseReference raw ∧
        UpdateReady formats version (manifestFacts formats version raw found.2) file s)
      (fun _ => UpdateSound formats version) := by
  have hinspect : Act.Holds (Unasked formats version) (call env.toEnvironment (.inspectRaw version))
      (fun raw s => ∃ file, UpdateReady formats version
        (Facts.nothing.answered (.inspectRaw version) raw) file s)
      (fun _ => UpdateSound formats version) := by
    have hafter : ∀ s, Unasked formats version s →
        UpdateSound formats version (env.after s (.inspectRaw version)) := by
      intro s h
      refine h.sound.after ⟨fun _ => .inl ⟨rfl, h.unasked⟩, ?_, ?_⟩
      · intro image himage
        cases himage
      · intro hpublishes
        cases hpublishes
    apply holds_call
    · intro s raw h ha
      exact ⟨_, ⟨hafter s h, trivial, answered_after ha⟩, rfl⟩
    · intro s _ h _
      exact hafter s h
  refine .bind (M := fun _ => Unasked formats version) ?_ fun _ => ?_
  · exact .ofExcept (fun _ _ h _ => h) (fun _ _ h _ => h.sound)
  refine .bind hinspect fun raw => .exists_pre fun file => ?_
  refine .bind holds_computed fun manifest => .assume_right fun hmanifest => ?_
  refine .bind holds_computed fun single => .assume_right fun _ => ?_
  refine .bind holds_required fun _ => .assume_right fun _ => ?_
  refine .bind (holds_rests (by simp) fun s hF => ?_) fun _ => .pure fun s h => ?_
  · refine ⟨fun _ => .inr ⟨raw, hF.2, rfl⟩, ?_, ?_⟩
    · intro image himage
      cases himage
    · intro hpublishes
      cases hpublishes
  · exact ⟨raw, file, rfl, h.weaken fun hF => ⟨⟨hF.1, hmanifest⟩, hF.2⟩⟩

theorem isImageDigest_iff {t : Text} : isImageDigest t = true ↔
    ∃ imageId, t = "sha256:".toList ++ imageId ∧ isSha256Text imageId = true := by
  simp only [isImageDigest, Bool.and_eq_true]
  constructor
  · rintro ⟨hstarts, hhash⟩
    obtain ⟨imageId, rfl⟩ := List.isPrefixOf_iff_prefix.mp hstarts
    exact ⟨imageId, rfl, hhash⟩
  · rintro ⟨imageId, rfl, hhash⟩
    exact ⟨List.isPrefixOf_iff_prefix.mpr (List.prefix_append _ _), hhash⟩

theorem checkPlatform_eq_ok {config : Json} (h : checkPlatform config = .ok ()) :
    config.get "architecture".toList = .ok (.str "arm64".toList) ∧
      config.get "os".toList = .ok (.str "linux".toList) := by
  simp only [checkPlatform, Except.bind_eq_ok] at h
  obtain ⟨architecture, harchitecture, h⟩ := h
  split at h
  case isTrue => cases h
  case isFalse harm =>
    simp only [Except.bind_eq_ok, Except.ok.injEq, exists_eq_left', Except.check_eq_ok] at h
    obtain ⟨os, hos, hlinux, -⟩ := h
    simp only [Bool.not_eq_true', Bool.not_eq_false] at harm hlinux
    obtain rfl := Json.eq_str harm
    obtain rfl := Json.eq_str hlinux
    exact ⟨harchitecture, hos⟩

/-- What is on record about a base, as facts. -/
def SignedBase.facts (formats : UpdateFormats) (version : Text) (base : SignedBase) : UpdateFacts where
  holds seen := base.OnRecord formats version seen
  snoc seen event h := by
    obtain ⟨hinspected, hsigned, hnamed, data, config, hstored, hconfig⟩ := h
    exact ⟨hinspected.snoc, hsigned.snoc, hnamed, data, config, hstored.snoc, hconfig⟩

theorem holds_write {contents : Text} :
    Act.Holds (UpdateReady formats version F file) (call env.toEnvironment (.writeImageId contents))
      (fun _ => UpdateReady formats version F (some contents)) (fun _ => UpdateSound formats version) := by
  apply holds_call
  · intro s u h hu
    exact ⟨⟨h.sound.after (.plain rfl), F.snoc s.log _ h.facts⟩, env.writes s contents u hu⟩
  · intro s _ h _
    exact h.sound.after (.plain rfl)

theorem holds_fetch {raw : Bytes} {manifest : Json} :
    Act.Holds (UpdateReady formats version (manifestFacts formats version raw manifest) file)
      (fetch formats env (baseReference raw) manifest)
      (fun configDigest s => ∃ base : SignedBase, configDigest = "sha256:".toList ++ base.imageId ∧
        isSha256Text base.imageId = true ∧
          UpdateReady formats version (base.facts formats version) (some (base.imageId ++ ['\n'])) s)
      (fun _ => UpdateSound formats version) := by
  refine .bind (M := fun _ => UpdateReady formats version (manifestFacts formats version raw manifest) file)
    ?_ fun _ => ?_
  · refine (holds_rests (by simp) fun s hF => ?_).post fun _ _ h => h.weaken fun hF => hF.1
    refine ⟨fun _ => .inr ⟨raw, hF.1.1.2, rfl⟩, ?_, ?_⟩
    · intro image himage
      cases himage
    · intro hpublishes
      cases hpublishes
  refine .bind (holds_plain rfl (by simp)) fun index => ?_
  refine .bind holds_computed fun _ => .assume_right fun _ => ?_
  refine .bind holds_computed fun configDigest => .assume_right fun hnamed => ?_
  refine .bind holds_required fun _ => .assume_right fun hvalid => ?_
  obtain ⟨imageId, rfl, hhash⟩ := isImageDigest_iff.mp hvalid
  have hafter : afterFirst ':' ("sha256:".toList ++ imageId) = imageId := rfl
  rw [hafter]
  refine .bind (holds_rests (by simp) fun _ _ => .plain rfl) fun data => ?_
  refine .bind holds_required fun _ => .assume_right fun hsame => ?_
  refine .bind holds_computed fun _ => .assume_right fun hplatform => ?_
  refine .bind holds_write fun _ => .pure fun s h => ?_
  refine ⟨⟨raw, imageId⟩, rfl, hhash, h.weaken ?_⟩
  rintro ⟨⟨⟨⟨-, hinspected⟩, hmanifest⟩, hsigned⟩, hstored⟩
  obtain ⟨descriptor, hdescriptor, value, hvalue, htext⟩ : ∃ descriptor,
      manifest.item "config".toList = .ok descriptor ∧ ∃ value,
        descriptor.item "digest".toList = .ok value ∧ value.text = .ok ("sha256:".toList ++ imageId) := by
    simpa only [Except.bind_eq_ok] using hnamed
  obtain rfl : value = .str ("sha256:".toList ++ imageId) := by
    cases value <;> simp_all [Json.text]
  obtain ⟨config, hconfig, hcheck⟩ := Except.bind_eq_ok.mp hplatform
  have hdata : sha256 data = imageId := List.append_cancel_left (beq_iff_eq.mp hsame)
  exact ⟨hinspected, hsigned, ⟨manifest, descriptor, hmanifest, hdescriptor, hvalue⟩,
    data, config, hstored, hdata, hconfig, checkPlatform_eq_ok hcheck⟩

/-- What is on record once the support files are exported. -/
def SignedBase.exportedFacts (formats : UpdateFormats) (version : Text) (base : SignedBase) : UpdateFacts where
  holds seen := base.OnRecord formats version seen ∧
    ∃ container, Answered (.podmanCreate ("sha256:".toList ++ base.imageId)) container seen
  snoc seen event h := by
    obtain ⟨hrecord, container, hcreated⟩ := h
    exact ⟨(base.facts formats version).snoc seen event hrecord, container, hcreated.snoc⟩

/-- What is on record once the payload is prepared. -/
def SignedBase.preparedFacts (formats : UpdateFormats) (version : Text) (base : SignedBase) : UpdateFacts where
  holds seen := base.OnRecord formats version seen ∧ base.HandedOver seen
  snoc seen event h := by
    obtain ⟨hrecord, ⟨container, hcreated⟩, msi, result, hprepared⟩ := h
    exact ⟨(base.facts formats version).snoc seen event hrecord, ⟨container, hcreated.snoc⟩,
      msi, result, hprepared.snoc⟩

variable {base : SignedBase}

/-- A tool may be handed the image of a base on record. -/
theorem Disciplined.handing {seen : List UpdateEvent} {event : UpdateEvent}
    (hrecord : base.OnRecord formats version seen)
    (himage : event.call.image = some ("sha256:".toList ++ base.imageId))
    (hcontacts : event.call.contacts = false) (hpublishes : event.call.publishes = false) :
    Disciplined formats version seen event where
  contact h := by rw [hcontacts] at h; cases h
  handed image h := ⟨base, hrecord, Option.some.inj (h.symm.trans himage)⟩
  published h := by rw [hpublishes] at h; cases h

theorem Disciplined.publishing {seen : List UpdateEvent} {event : UpdateEvent}
    (hrecord : base.OnRecord formats version seen) (hover : base.HandedOver seen)
    (himage : event.call.image = none) (hcontacts : event.call.contacts = false) :
    Disciplined formats version seen event where
  contact h := by rw [hcontacts] at h; cases h
  handed image h := by rw [himage] at h; cases h
  published _ := ⟨base, hrecord, hover⟩

theorem holds_exportSupport :
    Act.Holds (UpdateReady formats version (base.facts formats version) file)
      (exportSupport env ("sha256:".toList ++ base.imageId))
      (fun _ => UpdateReady formats version (base.exportedFacts formats version) file)
      (fun _ => UpdateSound formats version) := by
  refine .bind (holds_plain rfl (by simp)) fun _ => ?_
  refine .bind (holds_rests (by simp) fun s hF => .handing hF rfl rfl rfl) fun container => ?_
  refine .bind holds_required fun _ => .assume_right fun _ => ?_
  refine .pre (P := UpdateReady formats version (base.exportedFacts formats version) file) ?_
    fun _ h => h.weaken fun hF => ⟨hF.1, container, hF.2⟩
  exact .ensuring (holds_plain rfl (by simp)) (fun _ => holds_plain rfl (by simp)) fun _ => holds_sound rfl

theorem holds_readyPayload {value : Text} :
    Act.Holds (UpdateReady formats version F file) (readyPayload env value)
      (fun _ => UpdateReady formats version F file) (fun _ => UpdateSound formats version) := by
  refine .bind holds_required fun _ => .assume_right fun _ => ?_
  refine .bind (holds_plain rfl (by simp)) fun link => .bind holds_required fun _ => .assume_right fun _ => ?_
  refine .bind (holds_plain rfl (by simp)) fun parentLink => .bind holds_required fun _ => .assume_right fun _ => ?_
  refine .bind (holds_plain rfl (by simp)) fun ready => .bind holds_required fun _ => .assume_right fun _ => ?_
  refine .bind (.forM (I := fun _ => UpdateReady formats version F file) (fun name rest => ?_) _)
    fun _ => .pure fun _ h => h
  refine .bind (holds_plain rfl (by simp)) fun present => ?_
  exact holds_required.post fun _ _ h => h.1

theorem holds_prepare {msi : Option Text} (hhash : isSha256Text base.imageId = true) :
    Act.Holds (UpdateReady formats version (base.exportedFacts formats version) (some (base.imageId ++ ['\n'])))
      (prepare env msi)
      (fun _ => UpdateReady formats version (base.preparedFacts formats version) (some (base.imageId ++ ['\n'])))
      (fun _ => UpdateSound formats version) := by
  have hread : Act.Holds
      (UpdateReady formats version (base.exportedFacts formats version) (some (base.imageId ++ ['\n'])))
      (call env.toEnvironment .readImageId)
      (fun contents s => UpdateReady formats version (base.exportedFacts formats version)
        (some (base.imageId ++ ['\n'])) s ∧ contents = base.imageId ++ ['\n'])
      (fun _ => UpdateSound formats version) := by
    apply holds_call
    · intro s contents h hanswer
      have hsame := (env.reads s contents hanswer).symm.trans h.file
      exact ⟨⟨⟨h.sound.after (.plain rfl), (base.exportedFacts formats version).snoc s.log _ h.facts⟩,
        (env.next_other s _ (by simp)).trans h.file⟩, Option.some.inj hsame⟩
    · intro s _ h _
      exact h.sound.after (.plain rfl)
  have hstrip : strip (base.imageId ++ ['\n']) = base.imageId :=
    strip_append_newline (fun c hc => isSpace_of_isSha256Text hhash c (List.mem_of_mem_head? hc))
      (fun c hc => isSpace_of_isSha256Text hhash c (List.mem_of_mem_getLast? hc))
  refine .bind hread fun contents => .assume_right ?_
  rintro rfl
  rw [hstrip]
  refine .bind holds_required fun _ => .assume_right fun _ => ?_
  refine .bind (holds_rests (by simp) fun s hF => .handing hF.1 rfl rfl rfl) fun result => ?_
  refine .pre (P := UpdateReady formats version (base.preparedFacts formats version)
    (some (base.imageId ++ ['\n']))) ?_ fun _ h => h.weaken fun hF => ⟨hF.1.1, hF.1.2, msi, result, hF.2⟩
  refine .bind (.foldlM (I := fun _ _ => UpdateReady formats version (base.preparedFacts formats version)
    (some (base.imageId ++ ['\n']))) (fun line rest payload => ?_) result.1 none) fun payload => ?_
  · unfold payloadLine
    apply Act.Holds.ite
    · exact fun _ => .bind holds_readyPayload fun _ => .pure fun _ h => h
    · exact fun _ => .pure fun _ h => h
  · cases payload with
    | none => exact .raise fun _ h => h.sound
    | some path => exact .bind holds_required fun _ => .pure fun _ h => h.1

/-! ## The program -/

theorem holds_prepareUpdate {args : UpdateArguments} {msi : Option Text} (hrelease : args.release = version) :
    Act.Holds (Unasked formats version) (prepareUpdate formats env args msi)
      (fun _ => UpdateSound formats version) (fun _ => UpdateSound formats version) := by
  subst hrelease
  refine .bind (holds_unasked rfl) fun free => ?_
  refine .bind (.require (Q := fun _ => Unasked formats args.release) (fun _ h _ => h) fun _ h _ => h.sound)
    fun _ => ?_
  refine .bind (holds_unasked rfl) fun _ => .bind holds_verifiedManifest ?_
  rintro ⟨reference, manifest⟩
  refine .exists_pre fun raw => .exists_pre fun file => .assume ?_
  rintro rfl
  refine .bind (holds_plain rfl (by simp)) fun _ => .bind holds_fetch fun image => ?_
  refine .exists_pre fun base => .assume ?_
  rintro rfl
  refine .assume fun hhash => .bind holds_exportSupport fun _ => .bind (holds_prepare hhash) fun payload => ?_
  refine .bind (holds_rests (by simp) fun s hF => .publishing hF.1 hF.2 rfl rfl) fun _ => ?_
  apply Act.Holds.ite
  · intro _
    refine (holds_rests (by simp) fun s hF => ?_).post fun _ _ h => h.sound
    exact .publishing hF.1.1 hF.1.2 rfl rfl
  · exact fun _ => .pure fun _ h => h.sound

theorem holds_resolveMsi {msi : Option Text} :
    Act.Holds (Unasked formats version) (resolveMsi env msi)
      (fun _ => Unasked formats version) (fun _ => UpdateSound formats version) := by
  cases msi with
  | none => exact .pure fun _ h => h
  | some path =>
    refine .bind (holds_unasked rfl) fun resolved => .bind (holds_unasked rfl) fun file => ?_
    exact .bind (.require (Q := fun _ => Unasked formats version) (fun _ h _ => h) fun _ h _ => h.sound)
      fun _ => .pure fun _ h => h

theorem updateMain_sound (formats : UpdateFormats) (env : UpdateEnvironment) (args : UpdateArguments)
    (file : Option Text) : UpdateSound formats args.release (updateMain formats env args ⟨file, []⟩).2 := by
  suffices hrun : Act.Holds (Unasked formats args.release) (updateMain formats env args)
      (fun _ => UpdateSound formats args.release) (fun _ => UpdateSound formats args.release) from
    hrun.final ⟨always_nil, by simp⟩
  have hrequire {check : Bool} {e : PyError} : Act.Holds (Unasked formats args.release) (Act.require check e)
      (fun _ => Unasked formats args.release) (fun _ => UpdateSound formats args.release) :=
    .require (fun _ h _ => h) fun _ h _ => h.sound
  refine .bind (M := fun _ => Unasked formats args.release) ?_ fun _ => ?_
  · exact .ofExcept (fun _ _ h _ => h) (fun _ _ h _ => h.sound)
  refine .bind (M := fun _ => Unasked formats args.release) ?_ fun _ => ?_
  · unfold requireRoot
    apply Act.Holds.ite
    · exact fun _ => .pure fun _ h => h
    · exact fun _ => .bind (holds_unasked rfl) fun _ => hrequire
  refine .bind (.forM (I := fun _ => Unasked formats args.release) (fun name rest => ?_) _) fun _ => ?_
  · exact .bind (holds_unasked rfl) fun _ => hrequire
  apply Act.Holds.ite
  · intro _
    refine .bind holds_verifiedManifest fun found => .pure fun s h => ?_
    obtain ⟨_, _, -, hready⟩ := h
    exact hready.sound
  · intro _
    refine .bind holds_resolveMsi fun msi => .bind (holds_unasked rfl) fun _ => ?_
    refine .bind (holds_unasked rfl) fun _ => .bind hrequire fun _ => ?_
    exact .bind (holds_unasked rfl) fun _ => holds_prepareUpdate rfl

/-! ## One base -/

/-- The tag is resolved. -/
def UpdateCommand.resolves : UpdateCommand → Bool
  | .inspectRaw _ => true
  | _ => false

/-- The requests of these events resolve the tag. -/
def resolutions (seen : List UpdateEvent) : List UpdateEvent := seen.filter fun e => e.call.resolves

/-- What an update that is published rests on, all in all. -/
structure RestsOn (formats : UpdateFormats) (version : Text) (base : SignedBase)
    (seen : List UpdateEvent) : Prop where
  record : base.OnRecord formats version seen
  handedOver : base.HandedOver seen
  once : (resolutions seen).length = 1
  requests : ∀ e ∈ seen, e.call.contacts = true →
    e.call = .inspectRaw version ∨ e.call.reference = some (baseReference base.raw)
  images : ∀ e ∈ seen, ∀ image, e.call.image = some image → image = "sha256:".toList ++ base.imageId

variable {seen : List UpdateEvent}

theorem resolutions_length_le (h : Always (Disciplined formats version) seen) :
    (resolutions seen).length ≤ 1 := by
  refine h.induction (I := fun seen => (resolutions seen).length ≤ 1) (by simp [resolutions]) ?_
  intro seen event ih hevent
  rw [resolutions, List.filter_append]
  cases hresolves : event.call.resolves with
  | false => simpa [hresolves, resolutions] using ih
  | true =>
    -- nothing has been asked before, so the tag has not been resolved
    have hcall : ∃ v, event.call = .inspectRaw v := by
      cases hc : event.call <;> simp_all [UpdateCommand.resolves]
    obtain ⟨v, hcall⟩ := hcall
    obtain ⟨-, hunasked⟩ | ⟨_, -, hreference⟩ := hevent.contact (by rw [hcall]; rfl)
    · have hnone : seen.filter (fun e => e.call.resolves) = [] := by
        refine List.filter_eq_nil_iff.mpr fun e he => ?_
        have hcontacts := hunasked e he
        cases hc : e.call <;> simp_all [UpdateCommand.contacts, UpdateCommand.resolves]
      simp [hnone, hresolves]
    · rw [hcall] at hreference
      cases hreference

/-- There is one answer for the tag. -/
theorem raw_unique (h : Always (Disciplined formats version) seen) {raw raw' : Bytes}
    (hraw : Answered (.inspectRaw version) raw seen) (hraw' : Answered (.inspectRaw version) raw' seen) :
    raw = raw' := by
  obtain ⟨state, hmem⟩ := hraw
  obtain ⟨state', hmem'⟩ := hraw'
  have hle := resolutions_length_le h
  have hin : ⟨.inspectRaw version, .ok raw, state⟩ ∈ resolutions seen := List.mem_filter.mpr ⟨hmem, rfl⟩
  have hin' : ⟨.inspectRaw version, .ok raw', state'⟩ ∈ resolutions seen := List.mem_filter.mpr ⟨hmem', rfl⟩
  obtain ⟨only, honly⟩ : ∃ only, resolutions seen = [only] :=
    List.length_eq_one_iff.mp (Nat.le_antisymm hle (List.length_pos_of_mem hin))
  rw [honly, List.mem_singleton] at hin hin'
  subst hin
  injection hin' with _ hanswer
  exact (Except.ok.inj hanswer).symm

/-- A manifest names one configuration. -/
theorem SignedBase.imageId_unique {base' : SignedBase} {seen' : List UpdateEvent}
    (h : base.OnRecord formats version seen) (h' : base'.OnRecord formats version seen')
    (hraw : base'.raw = base.raw) : base'.imageId = base.imageId := by
  obtain ⟨manifest, descriptor, hmanifest, hdescriptor, hdigest⟩ := h.named
  obtain ⟨manifest', descriptor', hmanifest', hdescriptor', hdigest'⟩ := h'.named
  rw [hraw, hmanifest, Except.ok.injEq] at hmanifest'
  subst hmanifest'
  rw [hdescriptor, Except.ok.injEq] at hdescriptor'
  subst hdescriptor'
  rw [hdigest, Except.ok.injEq, Json.str.injEq, List.append_cancel_left_eq] at hdigest'
  exact hdigest'.symm

theorem RestsOn.of_disciplined (h : Always (Disciplined formats version) seen)
    (hrecord : base.OnRecord formats version seen) (hover : base.HandedOver seen) :
    RestsOn formats version base seen where
  record := hrecord
  handedOver := hover
  once := by
    obtain ⟨state, hmem⟩ := hrecord.inspected
    have hin : ⟨.inspectRaw version, .ok base.raw, state⟩ ∈ resolutions seen :=
      List.mem_filter.mpr ⟨hmem, rfl⟩
    exact Nat.le_antisymm (resolutions_length_le h) (List.length_pos_of_mem hin)
  requests e hmem hcontacts := by
    obtain ⟨before, rest, rfl, hevent⟩ := h.of_mem hmem
    obtain ⟨hinspect, -⟩ | ⟨raw, hraw, hreference⟩ := hevent.contact hcontacts
    · exact .inl hinspect
    · rw [raw_unique h hrecord.inspected hraw.append]
      exact .inr hreference
  images e hmem image himage := by
    obtain ⟨before, rest, rfl, hevent⟩ := h.of_mem hmem
    obtain ⟨base', hrecord', rfl⟩ := hevent.handed image himage
    have hraw := raw_unique h hrecord'.inspected.append hrecord.inspected
    rw [SignedBase.imageId_unique hrecord hrecord' hraw]

/-- **A staged update rests on one signed base**, whatever the registry answers: at every moment of
every run, a receipt is written or a deployment staged only on such a base. -/
theorem updates_rest_on_signed_base (formats : UpdateFormats) (env : UpdateEnvironment)
    (args : UpdateArguments) (file : Option Text) :
    Always (fun seen event => event.call.publishes = true →
      ∃ base, RestsOn formats args.release base seen) (updateMain formats env args ⟨file, []⟩).2.log := by
  have hsound := updateMain_sound formats env args file
  intro seen event rest hlog hpublishes
  obtain ⟨base, hrecord, hover⟩ := (hsound seen event rest hlog).published hpublishes
  rw [UpdateSound, hlog] at hsound
  exact ⟨base, .of_disciplined hsound.of_append hrecord hover⟩

/-! ## A run that stages -/

/-- The configuration of the sample image. -/
def sampleConfigRaw : Bytes := encodeAscii "config".toList

/-- The manifest of the sample image. -/
def sampleManifestRaw : Bytes := encodeAscii "manifest".toList

def sampleManifest : Json := .obj [("layers".toList, .arr []),
  ("config".toList, .obj [("digest".toList, .str ("sha256:".toList ++ sha256 sampleConfigRaw))])]

def samplePlatform : Json :=
  .obj [("architecture".toList, .str "arm64".toList), ("os".toList, .str "linux".toList)]

/-- The index of a download lists its manifest. -/
def sampleFormats : UpdateFormats where
  loads raw := .ok (if raw == sampleManifestRaw then sampleManifest else samplePlatform)
  loadsText digest := .ok (.obj [("manifests".toList, .arr [.obj [("digest".toList, .str digest)]])])

def sampleWorkspace : Text := "/var/lib/azurefin/provisioning/azurefin-provision.Ab12Cd34".toList

def samplePayload : Text := sampleWorkspace ++ "/container".toList

/-- All commands succeed. The tag shows the sample image at its first look-up, another one later. -/
def sampleMachine : UpdateEnvironment where
  answer s
    | .geteuid => .ok (0 : Nat)
    | .freeSpace => .ok (64 * 1024 ^ 3 : Nat)
    | .which _ | .isFile _ => .ok true
    | .isSymlink _ => .ok false
    | .resolve path => .ok path
    | .inspectRaw _ => .ok (if s.log.any (fun e => e.call.contacts) then [] else sampleManifestRaw)
    | .readIndex => .ok ("sha256:".toList ++ sha256 sampleManifestRaw)
    | .readBlob _ => .ok sampleConfigRaw
    | .makeWorkspace => .ok sampleWorkspace
    | .podmanCreate _ => .ok (List.replicate 64 'c')
    | .readImageId =>
      match s.state with
      | some contents => .ok contents
      | none => .error (.runtimeError "no base-image-id")
    | .preparePayload .. => .ok (["PAYLOAD_READY: ".toList ++ samplePayload], 0)
    | .readReady _ => .ok samplePayload
    | .makeRuns | .lock | .bootcStatus | .cosignVerify .. | .skopeoCopy _ | .writeImageId _ | .podmanPull
    | .podmanCopySupport _ | .podmanRemove _ | .writeReceipt .. | .bootcSwitch _ => .ok ()
  next s
    | .writeImageId contents => some contents
    | _ => s.state
  writes _ _ _ _ := rfl
  next_other s c hc := by
    cases c with
    | writeImageId contents => exact absurd rfl (hc contents)
    | _ => rfl
  reads s contents h := by
    cases hstate : s.state with
    | none => simp [hstate] at h
    | some file =>
      simp only [hstate] at h
      rw [Except.ok.inj h]

/-- `azurefin-update --release v1.0.0 --stage --download` -/
def sampleArguments : UpdateArguments where
  release := "v1.0.0".toList
  check := false
  stage := true
  msi := none
  download := true

def UpdateCommand.stages (payload : Text) : UpdateCommand → Bool
  | .bootcSwitch path => path == payload
  | _ => false

theorem updates_rest_on_signed_base_sample : ∃ seen event rest,
    (updateMain sampleFormats sampleMachine sampleArguments ⟨none, []⟩).2.log = seen ++ event :: rest ∧
      event.call = .bootcSwitch samplePayload ∧
        ∃ base, RestsOn sampleFormats "v1.0.0".toList base seen := by
  have hrun : (updateMain sampleFormats sampleMachine sampleArguments ⟨none, []⟩).2.log.any
      (fun e => e.call.stages samplePayload) = true := by decide +kernel
  obtain ⟨event, hmem, hstages⟩ := List.any_eq_true.mp hrun
  have hcall : event.call = .bootcSwitch samplePayload := by
    cases hc : event.call <;> simp_all [UpdateCommand.stages]
  obtain ⟨seen, rest, hlog⟩ := List.append_of_mem hmem
  have hpublishes : event.call.publishes = true := by rw [hcall]; rfl
  exact ⟨seen, event, rest, hlog, hcall,
    updates_rest_on_signed_base sampleFormats sampleMachine sampleArguments none seen event rest hlog hpublishes⟩

end Azurefin
