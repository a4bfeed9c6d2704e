import Azurefin.Firmware.ManifestText
import Azurefin.Firmware.SetupMain
import Azurefin.Lib.Trace
import Azurefin.Update.Preflight

/-!
# Deployments and their bundles

Runs of setup, updates, reboots and rollbacks on one machine. After the first successful setup
every deployment that can be booted has its bundle in the store: `deployments_bundled`.

An image is one that the build made: `20-firmware-store.sh` generates the manifest from the
policy, and the label in the registry names the hash of the manifest. `bootc` only changes which
images are deployed.
-/

namespace Azurefin

open Prog

/-- What an image installs, and its configuration in the registry. -/
structure Image where
  files : ImageFiles
  config : Json
  generated : manifest files.policy = .ok files.manifest
  labelled : ∃ labels, imageLabels config = .ok labels ∧
    labels.get firmwareLabel = .ok (.str (sha256 files.manifest))

structure Host where
  machine : Machine
  booted : Image
  staged : Option Image
  rollback : Option Image
  rollbackQueued : Bool

/-- The machine as it was installed, with one deployment. -/
def Host.installed (machine : Machine) (image : Image) : Host :=
  ⟨machine, image, none, none, false⟩

def Host.deployments (h : Host) : List Image := h.booted :: (h.staged.toList ++ h.rollback.toList)

inductive Event where
  | setup (call : SetupCall) (fates : List Fate)
  | update (inputs : PreflightInputs) (image : Image)
  | rollback
  | reboot

def Event.images : Event → List Image
  | .update _ image => [image]
  | _ => []

variable {boot : Nat}

/-- The booted image runs setup. -/
def Host.setup (boot : Nat) (h : Host) (call : SetupCall) (fates : List Fate) :
    Except (Stop PyError) Text × World Machine :=
  setupMain h.booted.files boot call ⟨fates, h.machine⟩

/-- `bootc` boots the staged deployment, or the other one when a rollback is queued. -/
def Host.reboot (h : Host) : Host :=
  match h.staged, h.rollback with
  | some image, _ => ⟨h.machine, image, none, some h.booted, false⟩
  | none, some image =>
    if h.rollbackQueued then ⟨h.machine, image, none, some h.booted, false⟩ else h
  | none, none => h

/-- One event. Setup may fail; an update only gets to `bootc upgrade` when the preflight passes
on the very image that is staged. -/
def Host.step (boot : Nat) (h : Host) : Event → Option Host
  | .setup call fates => some { h with machine := (h.setup boot call fates).2.state }
  | .update inputs image =>
    match updatePreflight h.booted.files (treeAt h.machine.disk boot)
      { inputs with config := .ok image.config } with
    | .ok () => some { h with staged := some image }
    | .error _ => none
  | .rollback =>
    h.rollback.map fun _ => { h with staged := none, rollbackQueued := !h.rollbackQueued }
  | .reboot => some h.reboot

/-! ## One manifest -/

/-- Every deployment has the manifest `contents`. -/
def Host.Uniform (contents : Bytes) (h : Host) : Prop :=
  ∀ image ∈ h.deployments, image.files.manifest = contents

/-- An accepted update has the manifest of the booted image, unless the hashes collide. -/
theorem sha256_eq_of_preflight {files : ImageFiles} {tree : Tree} {inputs : PreflightInputs}
    {image : Image}
    (h : updatePreflight files tree { inputs with config := .ok image.config } = .ok ()) :
    sha256 image.files.manifest = sha256 files.manifest := by
  simp only [updatePreflight, Except.bind_eq_ok] at h
  obtain ⟨state, hstate, config, hconfig, ⟨⟩, htarget, -⟩ := h
  obtain rfl := Except.ok.inj hconfig
  have hcontract := (checkHost_eq_ok hstate).2.2
  obtain ⟨labels, bundle, expected, hl, hb, he, heq⟩ := validateTarget_eq_ok htarget
  obtain ⟨labels', hl', hb'⟩ := image.labelled
  obtain rfl : labels' = labels := Except.ok.inj (hl'.symm.trans hl)
  obtain rfl := Except.ok.inj (hb'.symm.trans hb)
  obtain rfl := Except.ok.inj (hcontract.symm.trans he)
  simpa using Json.eq_str heq

theorem Host.mem_deployments {h : Host} {image : Image} : image ∈ h.deployments ↔
    image = h.booted ∨ h.staged = some image ∨ h.rollback = some image := by
  simp [Host.deployments]

/-- A reboot only moves deployments. -/
theorem Host.reboot_deployments {h : Host} {image : Image} (hi : image ∈ h.reboot.deployments) :
    image ∈ h.deployments := by
  unfold Host.reboot at hi
  split at hi
  · simp_all [Host.mem_deployments]
    tauto
  · split at hi <;> simp_all [Host.mem_deployments]
    tauto
  · exact hi

/-- Every image of a run is the first one or is offered by an update. -/
def manifests (first : Image) (events : List Event) : Set Bytes :=
  {m | ∃ image ∈ first :: events.flatMap Event.images, image.files.manifest = m}

/-- The step lemma: events keep the manifest. -/
theorem Host.Uniform.step {first : Image} {events : List Event} {h t : Host} {event : Event}
    (hinj : Set.InjOn sha256 (manifests first events)) (hevent : event ∈ events)
    (hu : h.Uniform first.files.manifest) (hs : h.step boot event = some t) :
    t.Uniform first.files.manifest := by
  cases event with
  | setup call fates =>
    cases hs
    exact hu
  | update inputs image =>
    simp only [Host.step] at hs
    split at hs
    case h_2 => cases hs
    case h_1 hpass =>
    cases hs
    have hbooted := hu h.booted List.mem_cons_self
    have hmem : image.files.manifest ∈ manifests first events :=
      ⟨image, List.mem_cons_of_mem _ (List.mem_flatMap.mpr ⟨_, hevent, List.mem_singleton_self _⟩),
        rfl⟩
    have heq : image.files.manifest = first.files.manifest :=
      hinj hmem ⟨first, List.mem_cons_self, rfl⟩ (hbooted ▸ sha256_eq_of_preflight hpass)
    intro other hother
    rcases Host.mem_deployments.mp hother with rfl | hstaged | hrollback
    · exact hbooted
    · cases hstaged
      exact heq
    · exact hu other (Host.mem_deployments.mpr (.inr (.inr hrollback)))
  | rollback =>
    obtain ⟨_, -, rfl⟩ := Option.map_eq_some_iff.mp hs
    intro image himage
    apply hu image
    simp_all [Host.mem_deployments]
    tauto
  | reboot =>
    cases hs
    exact fun image himage => hu image (Host.reboot_deployments himage)

/-! ## One bundle -/

/-- Every deployment has its bundle. -/
structure Host.Bundled (boot : Nat) (first : Image) (rows : List Row) (h : Host) : Prop where
  uniform : h.Uniform first.files.manifest
  holds : HoldsBundle boot (sha256 first.files.manifest) rows h.machine

/-- The files of an image. -/
theorem Image.fileSet (image : Image) : ∃ F : FileSet, policyRows image.files.policy = .ok F.rows ∧
    image.files.manifest = encodeAscii (manifestText F.rows) := by
  obtain ⟨rows, hrows, hc⟩ := manifest_eq_ok.mp image.generated
  obtain ⟨F, rfl⟩ := policyRows_ok hrows
  exact ⟨F, hrows, hc⟩

/-- Images with one manifest pass on the same bundle. -/
theorem Host.Bundled.check {first image : Image} {F : FileSet} {h : Host}
    (hF : policyRows first.files.policy = .ok F.rows) (hb : h.Bundled boot first F.rows)
    (himage : image ∈ h.deployments) :
    ∃ report, checkBundle (treeAt h.machine.disk boot) image.files.policy image.files.manifest =
      .ok report ∧ report.bundleId = sha256 image.files.manifest := by
  have heq := hb.uniform image himage
  obtain ⟨G, hG, hmG⟩ := image.fileSet
  have hmF : first.files.manifest = encodeAscii (manifestText F.rows) := by
    obtain ⟨rows, hrows, hc⟩ := manifest_eq_ok.mp first.generated
    obtain rfl := Except.ok.inj (hrows.symm.trans hF)
    exact hc
  have hperm : G.rows.Perm F.rows := FileSet.perm_of_manifest_eq (by rw [← hmG, ← hmF, heq])
  obtain ⟨report, hreport⟩ := (checkBundle_ok_iff hG image.generated).mpr
    ⟨rfl, heq ▸ Holding.perm hb.holds hperm⟩
  exact ⟨report, hreport, checkBundle_bundleId image.generated hreport⟩

theorem Host.machine_of_step {h t : Host} {event : Event}
    (hs : h.step boot event = some t) : t.machine = h.machine ∨
      ∃ call fates, t.machine = (h.setup boot call fates).2.state := by
  cases event with
  | setup call fates =>
    cases hs
    exact .inr ⟨call, fates, rfl⟩
  | update inputs image =>
    simp only [Host.step] at hs
    split at hs <;> cases hs
    exact .inl rfl
  | rollback =>
    obtain ⟨_, -, rfl⟩ := Option.map_eq_some_iff.mp hs
    exact .inl rfl
  | reboot =>
    cases hs
    refine .inl ?_
    unfold Host.reboot
    split
    · rfl
    · split <;> rfl
    · rfl

/-- The step lemma: events keep the bundle. -/
theorem Host.Bundled.step {first : Image} {rows : List Row} {events : List Event} {h t : Host}
    {event : Event} (hinj : Set.InjOn sha256 (manifests first events)) (hevent : event ∈ events)
    (hb : h.Bundled boot first rows) (hs : h.step boot event = some t) :
    t.Bundled boot first rows := by
  refine ⟨hb.uniform.step hinj hevent hs, ?_⟩
  rcases Host.machine_of_step hs with hm | ⟨call, fates, hm⟩
  · rw [hm]
    exact hb.holds
  · rw [hm]
    exact (setupMain_holding call).invariant (w := ⟨fates, h.machine⟩) hb.holds rfl

/-- A successful setup leaves the bundle. -/
theorem Host.Uniform.bundled {first : Image} {F : FileSet} {h : Host} {call : SetupCall}
    {fates : List Fate} {destination : Text} {w : World Machine}
    (hF : policyRows first.files.policy = .ok F.rows) (hu : h.Uniform first.files.manifest)
    (hsetup : h.setup boot call fates = (.ok destination, w)) :
    HoldsBundle boot (sha256 first.files.manifest) F.rows w.state := by
  obtain ⟨G, hG, hmG⟩ := h.booted.fileSet
  obtain ⟨rows, hrows, hmF⟩ := manifest_eq_ok.mp first.generated
  obtain rfl := Except.ok.inj (hrows.symm.trans hF)
  have heq := hu h.booted List.mem_cons_self
  have hchecked := (setupMain_checked call).returned (w := ⟨fates, h.machine⟩) trivial hsetup
  have hholding := ((checkBundle_ok_iff hG h.booted.generated).mp hchecked).2
  rw [heq] at hholding
  exact hholding.perm (FileSet.perm_of_manifest_eq (by rw [← hmF, ← hmG, heq]))

/-- **No accepted update or rollback strands the machine.** After a successful setup, and any
events before and after it, every deployment has its bundle in the store, under the hash of its
own manifest. The manifests of the images do not collide. -/
theorem deployments_bundled {first : Image} {machine : Machine} {before after : List Event}
    {call : SetupCall} {fates : List Fate} {h t : Host} {destination : Text} {w : World Machine}
    (hinj : Set.InjOn sha256 (manifests first (before ++ .setup call fates :: after)))
    (hbefore : Trace.run (Host.step boot) before (.installed machine first) = some h)
    (hsetup : h.setup boot call fates = (.ok destination, w))
    (hafter : Trace.run (Host.step boot) (.setup call fates :: after) h = some t) :
    ∀ image ∈ t.deployments, ∃ report,
      checkBundle (treeAt t.machine.disk boot) image.files.policy image.files.manifest =
        .ok report ∧ report.bundleId = sha256 image.files.manifest := by
  obtain ⟨F, hF, -⟩ := first.fileSet
  have hstart : (Host.installed machine first).Uniform first.files.manifest := by
    intro image himage
    rw [List.mem_singleton.mp himage]
    rfl
  have huniform : h.Uniform first.files.manifest :=
    Trace.run_invariant (fun event hevent u v hu hs =>
      hu.step hinj (List.mem_append_left _ hevent) hs) hstart hbefore
  obtain ⟨u, hu, hafter⟩ := Trace.run_cons_eq_some.mp hafter
  have hbundled : u.Bundled boot first F.rows := by
    cases hu
    refine ⟨huniform, ?_⟩
    rw [hsetup]
    exact huniform.bundled hF hsetup
  have hlast : t.Bundled boot first F.rows :=
    Trace.run_invariant (fun event hevent u v hb hs => hb.step hinj
      (List.mem_append_right _ (List.mem_cons_of_mem _ hevent)) hs) hbundled hafter
  exact fun image himage => hlast.check hF himage

/-! ## A run -/

def sampleChannel : Text := "registry/image:testing".toList

def sampleContract : Json := .obj [("channel".toList, .str sampleChannel),
  ("firmware_bundle".toList, .str (sha256 (encodeAscii (manifestText sampleFiles.rows)))),
  ("firmware_loader_abi".toList, .str "1".toList)]

def sampleConfig : Json := .obj [("config".toList, .obj [("Labels".toList, .obj [
  (firmwareLabel, .str (sha256 (encodeAscii (manifestText sampleFiles.rows)))),
  (loaderLabel, .str "1".toList), (versionLabel, .str "v1.2.0".toList)])])]

def sampleImage : Image where
  files := ⟨policyOf sampleFiles.rows, encodeAscii (manifestText sampleFiles.rows), sampleContract⟩
  config := sampleConfig
  generated := manifest_eq_ok.mpr ⟨_, policyRows_policyOf sampleFiles, rfl⟩
  labelled := ⟨_, rfl, rfl⟩

def sampleMounts : Json := .obj [("filesystems".toList, .arr [.obj [
  ("target".toList, .str "/boot".toList), ("fstype".toList, .str "ext4".toList),
  ("uuid".toList, .str "11111111-2222-3333-4444-555555555555".toList),
  ("options".toList, .str "rw,relatime".toList)]])]

def sampleStatus : Json := .obj [("status".toList, .obj [("booted".toList, .obj [
  ("image".toList, .obj [("image".toList, .obj [("image".toList, .str sampleChannel),
    ("signature".toList, .str "containerPolicy".toList),
    ("transport".toList, .str "registry".toList)]), ("version".toList, .str "v1.2.0".toList)])])])]

def sampleSetup : SetupCall where
  caller := sampleInstall.caller
  lock := .ok ()
  mounts := .ok sampleMounts
  cmdline := "quiet".toList
  status := .ok sampleStatus
  available := 2 ^ 30
  source := .installed sampleSource
  bluetooth := .ok ()

theorem sampleSetup_goes : ∃ destination t,
    Goes (setupMain sampleImage.files 0 sampleSetup) ⟨emptyBoot.disk, none⟩ destination t := by
  have hhost : validateHost sampleMounts "quiet".toList sampleStatus =
      .ok "11111111-2222-3333-4444-555555555555".toList := by decide +kernel
  have hlook : Goes (reading fun s => trustedDirectory (bootPath []) (some (s.view.obj 0)))
      emptyBoot.disk () emptyBoot.disk := .look rfl
  have hroot : Goes (onDisk (reading fun s => trustedDirectory (bootPath []) (some (s.view.obj 0))))
      ⟨emptyBoot.disk, none⟩ () ⟨emptyBoot.disk, none⟩ := onDisk_goes hlook none
  obtain ⟨d, f, s, temporary, t, hgo, -⟩ := installStore_goes
    "11111111-2222-3333-4444-555555555555".toList none emptyBoot.root_lt sampleInstall_installable
  refine ⟨d, ⟨t, _⟩, .bind (.require rfl _) <| .bind (.ofExcept rfl _) <| .bind (.ofExcept rfl _) <|
    .bind (.ofExcept rfl _) <| .bind (.ofExcept hhost _) <| .bind hroot <|
    .bind (.ofExcept sampleImage.generated _) <| .bind (.require (by simp) _) <|
    .bind (.ofExcept rfl _) <| .bind (.ofExcept rfl _) <| .bind hgo <| .bind (.ofExcept rfl _) <|
    .pure _ _⟩

def sampleInputs : PreflightInputs where
  uid := 0
  cmdline := "azurefin.boot_uuid=11111111-2222-3333-4444-555555555555 quiet".toList
  status := .ok sampleStatus
  mounts := .ok sampleMounts
  bootAvailable := 2 ^ 40
  varAvailable := 2 ^ 40
  config := .ok sampleConfig

theorem sampleInputs_mount :
    (sampleInputs.mounts >>= fun mounts => validateMount mounts sampleInputs.cmdline) =
      .ok "11111111-2222-3333-4444-555555555555".toList := by decide +kernel

theorem sampleInputs_checkHost {tree : Tree} {report : BundleReport}
    (h : checkBundle tree sampleImage.files.policy sampleImage.files.manifest = .ok report) :
    checkHost sampleImage.files tree sampleInputs = .ok sampleStatus := by
  have hspace : checkSpace sampleInputs.bootAvailable = .ok () := rfl
  have hdiagnostic : firmwareDiagnostic sampleImage.files tree sampleInputs = .ok true := by
    simp only [firmwareDiagnostic, sampleInputs_mount, h, hspace]
    rfl
  have hlive : ((pySplit sampleInputs.cmdline).any fun arg =>
      arg == "rd.live.image".toList || arg == "azurefin.live=1".toList) = false := by decide +kernel
  have hi : sampleInputs.status = .ok sampleStatus := rfl
  have hstatus : validateStatus sampleStatus sampleImage.files.contract = .ok () := by
    decide +kernel
  have hitem : sampleImage.files.contract.item "firmware_bundle".toList =
      .ok (.str (sha256 sampleImage.files.manifest)) := rfl
  have heq : (Json.str (sha256 sampleImage.files.manifest)).eq
      (.str (sha256 sampleImage.files.manifest)) = true := by simp [Json.eq]
  have hboot : checkHeadroom "/boot" sampleInputs.bootAvailable minBoot = .ok () := rfl
  have hvar : checkHeadroom "/var" sampleInputs.varAvailable minVar = .ok () := rfl
  simp only [checkHost, hlive, hdiagnostic]
  rw [if_neg (by decide)]
  simp only [Bool.false_eq_true, if_false, hi, Except.ok_bind, hstatus, hitem, heq, Bool.not_true,
    hboot, hvar]

/-- With the bundle in the store, an update to the image itself is accepted. -/
theorem sampleInputs_accepted {tree : Tree} {report : BundleReport}
    (h : checkBundle tree sampleImage.files.policy sampleImage.files.manifest = .ok report) :
    updatePreflight sampleImage.files tree { sampleInputs with config := .ok sampleImage.config } =
      .ok () := by
  have htarget : validateTarget sampleConfig sampleContract = .ok () := by decide +kernel
  have hversion : validateVersion sampleStatus sampleConfig = .ok () := by decide +kernel
  have hconfig : sampleInputs.config = .ok sampleConfig := rfl
  show updatePreflight sampleImage.files tree sampleInputs = .ok ()
  simp only [updatePreflight, sampleInputs_checkHost h, Except.ok_bind, hconfig]
  show (validateTarget sampleConfig sampleContract >>= fun _ => _) = _
  rw [htarget, Except.ok_bind]
  exact hversion

/-- Setup, an update and a reboot: both deployments have the bundle. -/
theorem deployments_bundled_sample : ∃ fates t,
    Trace.run (Host.step 0) [.setup sampleSetup fates, .update sampleInputs sampleImage, .reboot]
      (.installed ⟨emptyBoot.disk, none⟩ sampleImage) = some t ∧ t.rollback = some sampleImage ∧
    ∀ image ∈ t.deployments, ∃ report,
      checkBundle (treeAt t.machine.disk 0) image.files.policy image.files.manifest = .ok report ∧
        report.bundleId = sha256 image.files.manifest := by
  obtain ⟨d, m, n, hgo⟩ := sampleSetup_goes
  have hsetup : (Host.installed ⟨emptyBoot.disk, none⟩ sampleImage).setup 0 sampleSetup
      (List.replicate n .go ++ []) = (.ok d, ⟨[], m⟩) := hgo []
  obtain ⟨report, hreport⟩ := (setupMain_checked sampleSetup).returned
    (w := ⟨_, ⟨emptyBoot.disk, none⟩⟩) trivial hsetup
  let updated : Host := ⟨m, sampleImage, some sampleImage, none, false⟩
  have hrun : Trace.run (Host.step 0)
      [.setup sampleSetup (List.replicate n .go ++ []), .update sampleInputs sampleImage, .reboot]
      (.installed ⟨emptyBoot.disk, none⟩ sampleImage) = some updated.reboot := by
    refine Trace.run_cons_eq_some.mpr ⟨⟨m, sampleImage, none, none, false⟩, ?_,
      Trace.run_cons_eq_some.mpr ⟨updated, ?_, rfl⟩⟩
    · simp only [Host.step, hsetup]
      rfl
    · simp only [Host.step, sampleInputs_accepted hreport]
      rfl
  have hinj : Set.InjOn sha256 (manifests sampleImage ([] ++ .setup sampleSetup
      (List.replicate n .go ++ []) :: [.update sampleInputs sampleImage, .reboot])) := by
    rintro _ ⟨image, himage, rfl⟩ _ ⟨image', himage', rfl⟩ -
    simp only [List.nil_append, List.flatMap_cons, Event.images, List.flatMap_nil, List.append_nil,
      List.mem_cons, List.not_mem_nil, or_false, or_self] at himage himage'
    rw [himage, himage']
  exact ⟨_, _, hrun, rfl, deployments_bundled hinj rfl hsetup hrun⟩

end Azurefin
