import Azurefin.Update.Deployments

/-!
# The channel moves during an update

One run of the update, the preflight and then `bootc upgrade`, beside any number of runs of
`promote-testing.sh`, which move the tag that both look up. The image that gets staged is one that
the preflight would accept exactly when the last promotion made in between was of such an
image: `staged_accepted_iff`.

What is stored under a digest does not change. The lock of the update does not hold the promoters
back, as they run on other machines.
-/

namespace Azurefin

/-! ## Promotion -/

/-- The registry behind the tag: the configuration and the two signatures of each digest. -/
structure Registry where
  config : Text → Json
  released : Text → Text → Bool
  signed : Text → Text → Bool

/-- What a run of `promote-testing.sh` is given; `contract` is that of its checkout. -/
structure Promotion where
  releaseTag : Text
  imageDigest : Text
  expectedCurrent : Text
  contract : Json

/-- `^v[0-9]+\.[0-9]+\.[0-9]+(-alpha)?$` -/
def isReleaseTag (t : Text) : Bool :=
  match splitVersion t with
  | some (fields, _) => fields.all fun f => !f.isEmpty && f.all Char.isDigit
  | none => false

/-- `^sha256:[a-f0-9]{64}$` -/
def isImageDigest (t : Text) : Bool :=
  "sha256:".toList.isPrefixOf t && isSha256Text (t.drop 7)

/-- `check` from `check-update-contract.py`. -/
def checkUpdateContract (config contract : Json) : Except PyError Unit := do
  let labels ← imageLabels config
  [(firmwareLabel, "firmware_bundle".toList), (loaderLabel, "firmware_loader_abi".toList)].forM
    fun (label, field) => do
      let expected ← contract.get field
      if !expected.truthy then .error (refused label)
      else
        let found ← labels.get label
        if !found.eq expected then .error (refused label) else .ok ()
where
  refused (label : Text) : PyError :=
    .valueError ("Incompatible or missing " ++ String.ofList label
      ++ "; do not promote to this channel")

def absent : Text := "absent".toList

/-- All checks that precede the move of the tag, which is at `testing`. -/
def Promotion.passes (p : Promotion) (r : Registry) (testing : Option Text) : Bool :=
  isReleaseTag p.releaseTag && isImageDigest p.imageDigest &&
    (p.expectedCurrent == absent || isImageDigest p.expectedCurrent) &&
    r.released p.releaseTag p.imageDigest && r.signed p.releaseTag p.imageDigest &&
    (checkUpdateContract (r.config p.imageDigest) p.contract).isOk &&
    testing.getD absent == p.expectedCurrent

/-! ## The interleaving -/

/-- What the update runs on. -/
structure UpdateRun where
  files : ImageFiles
  boot : Tree
  inputs : PreflightInputs

/-- How far the update is. -/
inductive Updater where
  | idle
  | inspected
  | staged (digest : Text)
  deriving DecidableEq

/-- The tag, the images of the promotions that have passed their checks, and the update. -/
structure Channel where
  testing : Option Text
  checked : List Text
  updater : Updater

inductive Action where
  | inspect
  | upgrade
  | check (p : Promotion)
  | copy (digest : Text)

variable {r : Registry} {u : UpdateRun}

/-- `skopeo inspect --config` on the tag. -/
def Channel.config (c : Channel) (r : Registry) : Except PyError Json :=
  match c.testing with
  | some digest => .ok (r.config digest)
  | none => .error .subprocessError

/-- One action. `bootc upgrade` resolves the tag itself. -/
def Channel.step (r : Registry) (u : UpdateRun) (c : Channel) : Action → Option Channel
  | .inspect =>
    match c.updater, updatePreflight u.files u.boot { u.inputs with config := c.config r } with
    | .idle, .ok () => some { c with updater := .inspected }
    | _, _ => none
  | .upgrade =>
    match c.updater, c.testing with
    | .inspected, some digest => some { c with updater := .staged digest }
    | _, _ => none
  | .check p => if p.passes r c.testing then some { c with checked := p.imageDigest :: c.checked }
    else none
  | .copy digest => if digest ∈ c.checked then some { c with testing := some digest } else none

/-- No promotion is under way and the update has not begun. -/
def Channel.start (testing : Option Text) : Channel := ⟨testing, [], .idle⟩

/-- The preflight's checks of an image hold for the one with this digest. -/
def ImageAccepted (r : Registry) (u : UpdateRun) (digest : Text) : Prop :=
  validateTarget (r.config digest) u.files.contract = .ok () ∧
    ∃ state, u.inputs.status = .ok state ∧ validateVersion state (r.config digest) = .ok ()

def Action.copied : Action → Option Text
  | .copy digest => some digest
  | _ => none

/-- The image that the last of these promotions moved the tag to. -/
def lastCopied (l : List Action) : Option Text := (l.filterMap Action.copied).getLast?

/-- The last promotion made between the inspection and the upgrade, if there is one, is of an
accepted image. -/
def WindowAccepted (r : Registry) (u : UpdateRun) (l : List Action) : Prop :=
  ∀ before window after digest, l = before ++ .inspect :: window ++ .upgrade :: after →
    lastCopied window = some digest → ImageAccepted r u digest

/-! ## What was inspected -/

theorem accepted_of_preflight {digest : Text}
    (h : updatePreflight u.files u.boot { u.inputs with config := .ok (r.config digest) } = .ok ()) :
    ImageAccepted r u digest := by
  simp only [updatePreflight, Except.bind_eq_ok] at h
  obtain ⟨state, hstate, config, hconfig, ⟨⟩, htarget, hversion⟩ := h
  obtain rfl := Except.ok.inj hconfig
  exact ⟨htarget, state, (checkHost_eq_ok hstate).1, hversion⟩

/-- The update begins, on a tag that passes. -/
theorem step_inspect {c d : Channel} (h : c.step r u .inspect = some d) :
    c.updater = .idle ∧ d = { c with updater := .inspected } ∧
      ∃ digest, c.testing = some digest ∧ ImageAccepted r u digest := by
  simp only [Channel.step] at h
  split at h
  case h_1 hidle hpass =>
    cases h
    refine ⟨hidle, rfl, ?_⟩
    unfold Channel.config at hpass
    split at hpass
    case h_1 digest hdigest => exact ⟨digest, hdigest, accepted_of_preflight hpass⟩
    case h_2 =>
      simp only [updatePreflight, Except.bind_eq_ok] at hpass
      obtain ⟨_, _, _, hconfig, _⟩ := hpass
      cases hconfig
  case h_2 => cases h

theorem step_upgrade {c d : Channel} (h : c.step r u .upgrade = some d) :
    c.updater = .inspected ∧ ∃ digest, c.testing = some digest ∧
      d = { c with updater := .staged digest } := by
  simp only [Channel.step] at h
  split at h
  case h_1 hphase htag => exact ⟨hphase, _, htag, (Option.some.inj h).symm⟩
  case h_2 => cases h

/-- The promoters do not touch the update, and a move of the tag is a copy. -/
theorem step_promoter {c d : Channel} {a : Action} (h : c.step r u a = some d)
    (hi : a ≠ .inspect) (hu : a ≠ .upgrade) :
    d.updater = c.updater ∧ d.testing = a.copied.or c.testing := by
  cases a with
  | inspect => exact absurd rfl hi
  | upgrade => exact absurd rfl hu
  | check p =>
    simp only [Channel.step, Option.ite_none_right_eq_some, Option.some.injEq] at h
    obtain ⟨-, rfl⟩ := h
    exact ⟨rfl, rfl⟩
  | copy digest =>
    simp only [Channel.step, Option.ite_none_right_eq_some, Option.some.injEq] at h
    obtain ⟨-, rfl⟩ := h
    exact ⟨rfl, rfl⟩

/-! ## Runs -/

open Trace

/-- What is staged stays staged. -/
theorem run_staged {l : List Action} {c d : Channel} {digest : Text}
    (hc : c.updater = .staged digest) (h : run (Channel.step r u) l c = some d) :
    d.updater = .staged digest := by
  refine run_invariant (I := fun c => c.updater = .staged digest) ?_ hc h
  intro a _ c d hc hstep
  cases a with
  | inspect =>
    have hidle := (step_inspect hstep).1
    rw [hc] at hidle
    cases hidle
  | upgrade =>
    have hinspected := (step_upgrade hstep).1
    rw [hc] at hinspected
    cases hinspected
  | check p => rw [(step_promoter hstep nofun nofun).1, hc]
  | copy x => rw [(step_promoter hstep nofun nofun).1, hc]

/-- While the update waits, the tag is where the last promotion moved it to. -/
theorem run_window {l : List Action} {c d : Channel} (hc : c.updater = .inspected)
    (hd : d.updater = .inspected) (h : run (Channel.step r u) l c = some d) :
    d.testing = (lastCopied l).or c.testing := by
  induction l generalizing c with
  | nil =>
    obtain rfl : c = d := by simpa using h
    rfl
  | cons a l ih =>
    obtain ⟨e, he, h⟩ := run_cons_eq_some.mp h
    have promoted : ∀ {a : Action}, c.step r u a = some e → a ≠ .inspect → a ≠ .upgrade →
        d.testing = (lastCopied (a :: l)).or c.testing := by
      intro a he hi hu
      obtain ⟨hupdater, htesting⟩ := step_promoter he hi hu
      rw [ih (hupdater.trans hc) h, htesting, lastCopied, lastCopied, List.filterMap_cons]
      cases ha : a.copied with
      | none => rfl
      | some x =>
        rw [List.getLast?_cons]
        cases (l.filterMap Action.copied).getLast? <;> rfl
    cases a with
    | inspect =>
      have hidle := (step_inspect he).1
      rw [hc] at hidle
      cases hidle
    | upgrade =>
      obtain ⟨-, digest, -, rfl⟩ := step_upgrade he
      rw [run_staged rfl h] at hd
      cases hd
    | check p => exact promoted he nofun nofun
    | copy x => exact promoted he nofun nofun

/-- What is staged is the image inspected, unless a promotion was made in between. -/
theorem staged_of_window {before window after : List Action} {testing : Option Text} {c : Channel}
    {digest : Text} (hs : c.updater = .staged digest)
    (h : run (Channel.step r u) (before ++ .inspect :: window ++ .upgrade :: after)
      (.start testing) = some c) :
    ∃ inspected, ImageAccepted r u inspected ∧
      some digest = (lastCopied window).or (some inspected) := by
  obtain ⟨c₃, h, hafter⟩ := run_append_eq_some.mp h
  obtain ⟨c₁, -, h⟩ := run_append_eq_some.mp h
  obtain ⟨c₂, hinspect, hwindow⟩ := run_cons_eq_some.mp h
  obtain ⟨c₄, hupgrade, hafter⟩ := run_cons_eq_some.mp hafter
  obtain ⟨-, rfl, inspected, htag, haccepted⟩ := step_inspect hinspect
  obtain ⟨hphase, resolved, htag', rfl⟩ := step_upgrade hupgrade
  have hdigest : resolved = digest := by
    have := (run_staged rfl hafter).symm.trans hs
    simpa using this
  have hlast := run_window rfl hphase hwindow
  refine ⟨inspected, haccepted, ?_⟩
  rw [← hdigest, ← htag', hlast, htag]

/-- A run that stages an image has the two steps of the update in it. -/
theorem exists_window {l : List Action} {testing : Option Text} {c : Channel} {digest : Text}
    (hs : c.updater = .staged digest) (h : run (Channel.step r u) l (.start testing) = some c) :
    ∃ before window after, l = before ++ .inspect :: window ++ .upgrade :: after := by
  obtain ⟨before, a, rest, c₁, c₂, rfl, -, hidle, ha, hbegun, h⟩ :=
    run_first (P := fun c : Channel => c.updater ≠ .idle) (by simp [Channel.start]) (by simp [hs]) h
  have hinspect : a = .inspect := by
    by_contra hi
    by_cases hu : a = .upgrade
    · rw [hu] at ha
      simp [(step_upgrade ha).1] at hidle
    · rw [(step_promoter ha hi hu).1] at hbegun
      exact hidle hbegun
  subst hinspect
  obtain ⟨-, rfl, -⟩ := step_inspect ha
  obtain ⟨window, a, after, c₃, c₄, rfl, -, hwaits, ha, hdone, h⟩ :=
    run_first (P := fun c : Channel => c.updater ≠ .inspected) (by simp) (by simp [hs]) h
  have hupgrade : a = .upgrade := by
    by_contra hu
    by_cases hi : a = .inspect
    · rw [hi] at ha
      simp [(step_inspect ha).1] at hwaits
    · rw [(step_promoter ha hi hu).1] at hdone
      exact hwaits hdone
  subst hupgrade
  exact ⟨before, window, after, by simp⟩

/-- **When the staged image is one that was checked**: exactly when the last promotion between
the inspection and the upgrade, if there is one, is of an image that the checks accept. -/
theorem staged_accepted_iff {l : List Action} {testing : Option Text} {c : Channel}
    {digest : Text} (h : run (Channel.step r u) l (.start testing) = some c)
    (hs : c.updater = .staged digest) : ImageAccepted r u digest ↔ WindowAccepted r u l := by
  constructor
  · intro haccepted before window after x hl hx
    subst hl
    obtain ⟨inspected, -, heq⟩ := staged_of_window hs h
    rw [hx, Option.some_or, Option.some.injEq] at heq
    exact heq ▸ haccepted
  · intro hwindow
    obtain ⟨before, window, after, rfl⟩ := exists_window hs h
    obtain ⟨inspected, haccepted, heq⟩ := staged_of_window hs h
    cases hx : lastCopied window with
    | none =>
      rw [hx, Option.none_or, Option.some.injEq] at heq
      exact heq ▸ haccepted
    | some x =>
      rw [hx, Option.some_or, Option.some.injEq] at heq
      exact heq ▸ hwindow before window after x rfl hx

/-! ## A downgrade -/

def sampleDigest (c : Char) : Text := "sha256:".toList ++ List.replicate 64 c

/-- The configuration of an older release with the same firmware. -/
def olderConfig : Json := .obj [("config".toList, .obj [("Labels".toList, .obj [
  (firmwareLabel, .str (sha256 (encodeAscii (manifestText sampleFiles.rows)))),
  (loaderLabel, .str "1".toList), (versionLabel, .str "v1.1.0".toList)])])]

def sampleRegistry : Registry where
  config digest := if digest = sampleDigest 'b' then olderConfig else sampleConfig
  released _ _ := true
  signed _ _ := true

/-- A boot file system with one bundle. -/
def sampleStore : Tree := fun p =>
  if p.length < 3 then if p <+: storePath then some (.dir ⟨0, 0o755⟩) else none
  else if p.take 3 = bundlePath (sha256 sampleImage.files.manifest) then sampleSource (p.drop 3)
  else none

theorem sampleStore_checked : ∃ report, checkBundle sampleStore sampleImage.files.policy
    sampleImage.files.manifest = .ok report := by
  have hbelow : ∀ q, sampleStore (bundlePath (sha256 sampleImage.files.manifest) ++ q) =
      sampleSource q := fun q => by
    simp [sampleStore, bundlePath, storePath]
  have htrusted : (⟨0, 0o755⟩ : Attr).trusted = true := rfl
  refine (checkBundle_ok_iff (policyRows_policyOf sampleFiles) sampleImage.generated).mpr
    ⟨rfl, ⟨_, rfl, htrusted⟩, ⟨_, rfl, htrusted⟩, ⟨_, rfl, htrusted⟩, ⟨⟨0, 0o755⟩, ?_, htrusted⟩, ?_⟩
  · rw [← List.append_nil (bundlePath _), hbelow]
    rfl
  · have hsub : subtree sampleStore (bundlePath (sha256 sampleImage.files.manifest)) =
        sampleSource := funext hbelow
    rw [hsub]
    exact sampleSource_complete

def sampleUpdate : UpdateRun := ⟨sampleImage.files, sampleStore, sampleInputs⟩

/-- The promotion of the older release, which replaces the newer one. -/
def samplePromotion : Promotion :=
  ⟨"v1.1.0".toList, sampleDigest 'b', sampleDigest 'a', sampleContract⟩

/-- An inspection, a promotion, and the upgrade. -/
def sampleActions : List Action :=
  [.inspect, .check samplePromotion, .copy (sampleDigest 'b'), .upgrade]

def sampleStaged : Channel := ⟨some (sampleDigest 'b'), [sampleDigest 'b'], .staged (sampleDigest 'b')⟩

theorem sampleActions_run : run (Channel.step sampleRegistry sampleUpdate) sampleActions
    (.start (some (sampleDigest 'a'))) = some sampleStaged := by
  have hne : sampleDigest 'a' ≠ sampleDigest 'b' := by decide
  have hconfig : sampleRegistry.config (sampleDigest 'a') = sampleImage.config := by
    simp only [sampleRegistry, if_neg hne]
    rfl
  have hinspect : (Channel.start (some (sampleDigest 'a'))).step sampleRegistry sampleUpdate
      .inspect = some ⟨some (sampleDigest 'a'), [], .inspected⟩ := by
    obtain ⟨report, hreport⟩ := sampleStore_checked
    have hpass : updatePreflight sampleUpdate.files sampleUpdate.boot
        { sampleUpdate.inputs with config := .ok (sampleRegistry.config (sampleDigest 'a')) } =
          .ok () := by
      rw [hconfig]
      exact sampleInputs_accepted hreport
    simp only [Channel.step, Channel.start, Channel.config, hpass]
  have hcheck : samplePromotion.passes sampleRegistry (some (sampleDigest 'a')) = true := by
    decide +kernel
  refine run_cons_eq_some.mpr ⟨_, hinspect, run_cons_eq_some.mpr
    ⟨⟨some (sampleDigest 'a'), [sampleDigest 'b'], .inspected⟩, if_pos hcheck, ?_⟩⟩
  refine run_cons_eq_some.mpr ⟨⟨some (sampleDigest 'b'), [sampleDigest 'b'], .inspected⟩, ?_, rfl⟩
  simp only [Channel.step, List.mem_singleton, if_true]

theorem staged_accepted_sample : ImageAccepted sampleRegistry sampleUpdate (sampleDigest 'b') ↔
    WindowAccepted sampleRegistry sampleUpdate sampleActions :=
  staged_accepted_iff sampleActions_run rfl

/-- The preflight passes on version 1.2.0, the tag moves to 1.1.0, and `bootc upgrade` stages
that. -/
theorem staged_unchecked : ∃ c,
    run (Channel.step sampleRegistry sampleUpdate) sampleActions
      (.start (some (sampleDigest 'a'))) = some c ∧
    c.updater = .staged (sampleDigest 'b') ∧
    ¬ ImageAccepted sampleRegistry sampleUpdate (sampleDigest 'b') := by
  refine ⟨sampleStaged, sampleActions_run, rfl, ?_⟩
  rintro ⟨-, state, hstate, hversion⟩
  obtain rfl : sampleStatus = state := Except.ok.inj hstate
  have holder : sampleRegistry.config (sampleDigest 'b') = olderConfig := by
    simp only [sampleRegistry, if_true]
  have hrefused : (validateVersion sampleStatus olderConfig).isOk = false := by decide +kernel
  rw [holder] at hversion
  rw [hversion] at hrefused
  cases hrefused

end Azurefin
