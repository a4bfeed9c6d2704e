import Azurefin.Installer.Payload
import Azurefin.Installer.Handoff

/-!
# A payload that is taken for ready

The script and the preparation agree on `READY`. At every moment of a run, whatever fails and wherever
it ends, what `prepared_path` takes was built on the pinned base and is complete, `accepted_built`.
What a run without an error leaves is taken, under a path that the Kickstart file can name,
`finished_accepted`.
-/

namespace Azurefin.Payload

open Calls Prepare Kickstart

variable {env : PayloadEnvironment} {i : Inputs} {d : Workdir} {c : Command} {s : PayloadSession}
  {seen : List PayloadEvent} {event : PayloadEvent} {work : Text}

abbrev PayloadFacts := Facts Workdir Command Command.Answer ExitStatus

/-- The image that was asked for -/
def Inputs.expected (i : Inputs) : Text := imageHash i.expectedImageId

/-- What a payload rests on. -/
structure Built (i : Inputs) (seen : List PayloadEvent) (d : Workdir) : Prop where
  policy : Answered .policyMetadata () seen
  /-- The package was verified before it was copied. -/
  package : ∀ path, i.localMsi = some path → ∃ msi, Answered (.realpath path) msi seen ∧
    AnsweredSince (.verifyMsi (stripNewlines msi)) () (.copyMsi (stripNewlines msi)) () seen
  /-- The imported image was found to be the pinned one before it was built on. -/
  base : ∃ output, imageHash (stripNewlines output) = i.expected ∧
    AnsweredSince (.inspectId i.expected) output (.build i.expected i.localMsi.isSome) () seen
  /-- The complete export of what was built -/
  final : ∃ output oci, AnsweredSince (.build i.expected i.localMsi.isSome) () .readFinal output seen ∧
    isSha256Text (imageHash (stripNewlines output)) = true ∧ d.container = some oci ∧
      oci.image = stripNewlines output ∧ filled oci.index ∧ filled oci.layout
  pinned : d.base = some (baseContents i.expected)

theorem Built.snoc (h : Built i seen d) : Built i (seen ++ [event]) d := by
  obtain ⟨hpolicy, hpackage, ⟨output, hid, hbase⟩, ⟨final, oci, hread, hrest⟩, hpinned⟩ := h
  refine ⟨hpolicy.snoc, fun path hpath => ?_, ⟨output, hid, hbase.snoc⟩, ⟨final, oci, hread.snoc, hrest⟩,
    hpinned⟩
  obtain ⟨msi, hmsi, hcopy⟩ := hpackage path hpath
  exact ⟨msi, hmsi.snoc, hcopy.snoc⟩

/-- The preparation takes the workspace for finished. -/
def Workdir.Accepted (d : Workdir) : Prop := ∃ line payload, preparedPath line d.runDir = .ok payload

theorem Workdir.Accepted.ready (h : d.Accepted) : d.ready ≠ none := by
  obtain ⟨line, payload, h⟩ := h
  unfold preparedPath at h
  obtain ⟨-, -, h⟩ := Except.bind_eq_ok.mp h
  obtain ⟨-, -, h⟩ := Except.bind_eq_ok.mp h
  obtain ⟨ready, hready, -⟩ := Except.bind_eq_ok.mp h
  intro hnone
  simp [Workdir.runDir, hnone] at hready

/-- What is taken rests on what it has to. -/
def Sane (i : Inputs) (seen : List PayloadEvent) (d : Workdir) : Prop := d.Accepted → Built i seen d

theorem sane_of_ready (h : d.ready = none) : Sane i seen d := fun haccepted => absurd h haccepted.ready

/-- So it is after every event. -/
def Justified (i : Inputs) (seen : List PayloadEvent) (event : PayloadEvent) : Prop :=
  Sane i seen event.state

/-! ## Steps -/

/-- The files are these, and these facts are on record. -/
structure Stage (i : Inputs) (F : PayloadFacts) (d : Workdir) (s : PayloadSession) : Prop
    extends Records (Justified i) F s where
  state : s.state = d

/-- The script has stopped. -/
def Stopped (i : Inputs) (s : PayloadSession) : Prop := Always (Justified i) s.log

variable {F : PayloadFacts} {source parent : Text}

theorem Stage.stopped (h : Stage i F d s) : Stopped i s := h.always

theorem Stage.weaken {F' : PayloadFacts} (h : Stage i F d s) (hF : F.holds s.log → F'.holds s.log) :
    Stage i F' d s :=
  ⟨⟨h.always, hF h.facts⟩, h.state⟩

/-- A command that does not write keeps the files, and adds its answer to the record. -/
theorem holds_stage (hc : c.writes = false) (hsane : ∀ seen, F.holds seen → Sane i seen d) :
    Act.Holds (Stage i F d) (call env.toEnvironment c) (fun a => Stage i (F.answered c a) d)
      (fun _ => Stopped i) := by
  have hstate (s : PayloadSession) (h : Stage i F d s) : env.next s c = d :=
    (env.next_other s c hc).trans h.state
  have halways (s : PayloadSession) (h : Stage i F d s) : Stopped i (env.after s c) := by
    refine always_snoc.mpr ⟨h.always, ?_⟩
    rw [Justified, Environment.event, hstate s h]
    exact hsane s.log h.facts
  apply holds_call
  · intro s a h ha
    exact ⟨⟨halways s h, F.snoc s.log _ h.facts, answered_after ha⟩, hstate s h⟩
  · intro s _ h _
    exact halways s h

/-- Before `READY` is written -/
theorem holds_early (hc : c.writes = false) (hd : d.ready = none) :
    Act.Holds (Stage i F d) (call env.toEnvironment c) (fun a => Stage i (F.answered c a) d)
      (fun _ => Stopped i) :=
  holds_stage hc fun _ _ => sane_of_ready hd

theorem holds_quiet (hc : c.writes = false) (hd : d.ready = none) :
    Act.Holds (Stage i F d) (call env.toEnvironment c) (fun _ => Stage i F d) (fun _ => Stopped i) :=
  (holds_early hc hd).post fun _ _ h => h.weaken And.left

/-- What was answered before comes before this answer. -/
theorem holds_since {c₀ : Command} {a₀ : Command.Answer c₀} (hc : c.writes = false)
    (hd : d.ready = none) (h₀ : ∀ seen, F.holds seen → Answered c₀ a₀ seen) :
    Act.Holds (Stage i F d) (call env.toEnvironment c) (fun a => Stage i (F.since c₀ a₀ c a) d)
      (fun _ => Stopped i) := by
  have hearly : Act.Holds (Stage i F d) (call env.toEnvironment c)
      (fun a => Stage i (F.answered c a) d) (fun _ => Stopped i) := holds_early hc hd
  intro s hs
  have hafter := hearly s hs
  rw [call_apply] at hafter ⊢
  cases hanswer : env.answer s c with
  | error e =>
    rw [hanswer] at hafter
    exact hafter
  | ok a =>
    rw [hanswer] at hafter
    exact ⟨⟨hafter.always, hafter.facts.1, answeredSince_after (h₀ s.log hs.facts) hanswer⟩, hafter.state⟩

theorem holds_required {check : Bool} {e : ExitStatus} :
    Act.Holds (Stage i F d) (Act.require check e) (fun _ s => Stage i F d s ∧ check = true)
      (fun _ => Stopped i) := .required fun _ h => h.stopped

theorem holds_checked {check : Bool} {e : ExitStatus} :
    Act.Holds (Stage i F d) (Act.require check e) (fun _ => Stage i F d) (fun _ => Stopped i) :=
  holds_required.post fun _ _ h => h.1

theorem holds_testAll {tests : List (Char × Text)} {status : ExitStatus} (hd : d.ready = none) :
    Act.Holds (Stage i F d) (testAll env tests status) (fun _ => Stage i F d) (fun _ => Stopped i) :=
  .forM (I := fun _ => Stage i F d) (fun _ _ => .bind (holds_quiet rfl hd) fun _ => holds_checked) _

/-! ## Parts of the script -/

def policyFacts (F : PayloadFacts) : PayloadFacts := F.answered .policyMetadata ()

theorem holds_preflight (hd : d.ready = none) :
    Act.Holds (Stage i F d) (preflight env i source parent)
      (fun _ => Stage i (policyFacts F) d) (fun _ => Stopped i) := by
  refine .bind (holds_early rfl hd) fun _ => .bind holds_checked fun _ => ?_
  refine .bind (holds_testAll hd) fun _ => ?_
  have hfs : Act.Holds (Stage i (policyFacts F) d) (Act.attempt (call env.toEnvironment (.fileSystem parent)))
      (fun _ s => Stopped i s ∧ (policyFacts F).holds s.log ∧ s.state = d) (fun _ => Stopped i) := by
    apply Act.Holds.attempt
    apply holds_call
    all_goals
      intro s _ h _
      have hstate : env.next s (.fileSystem parent) = d := (env.next_other s _ rfl).trans h.state
      refine ⟨always_snoc.mpr ⟨h.always, ?_⟩, (policyFacts F).snoc s.log _ h.facts, hstate⟩
      rw [Justified, Environment.event, hstate]
      exact sane_of_ready hd
  refine .bind (hfs.post fun _ _ h => (⟨⟨h.1, h.2.1⟩, h.2.2⟩ : Stage i (policyFacts F) d _)) fun _ => ?_
  refine .bind holds_checked fun _ => .bind (holds_quiet rfl hd) fun _ => ?_
  exact .bind holds_checked fun _ => holds_quiet rfl hd

/-- The package is the one of the arguments, and it was verified. -/
def msiFacts (F : PayloadFacts) (i : Inputs) (msi : Option Text) : PayloadFacts where
  holds log := F.holds log ∧ msi.isSome = i.localMsi.isSome ∧
    ∀ path, i.localMsi = some path → ∃ output, Answered (.realpath path) output log ∧
      msi = some (stripNewlines output) ∧ Answered (.verifyMsi (stripNewlines output)) () log
  snoc log event h := by
    refine ⟨F.snoc log event h.1, h.2.1, fun path hpath => ?_⟩
    obtain ⟨output, houtput, hmsi, hverify⟩ := h.2.2 path hpath
    exact ⟨output, houtput.snoc, hmsi, hverify.snoc⟩

theorem holds_checkedMsi (hd : d.ready = none) :
    Act.Holds (Stage i F d) (checkedMsi env i parent) (fun msi => Stage i (msiFacts F i msi) d)
      (fun _ => Stopped i) := by
  unfold checkedMsi
  split
  · next hnone =>
    refine .pure fun s h => h.weaken fun hF => ⟨hF, by rw [hnone], fun path hpath => ?_⟩
    rw [hnone] at hpath
    cases hpath
  · next path hsome =>
    refine .bind (holds_early rfl hd) fun output => .bind (holds_testAll hd) fun _ => ?_
    refine .bind holds_checked fun _ => .bind (holds_early rfl hd) fun _ => .pure fun s h => ?_
    refine h.weaken fun hF => ⟨hF.1.1, by rw [hsome]; rfl, fun path' hpath => ?_⟩
    obtain rfl := Option.some.inj (hsome.symm.trans hpath)
    exact ⟨output, hF.1.2, rfl, hF.2⟩

/-- A package was copied after it was verified. -/
def packageFacts (F : PayloadFacts) (i : Inputs) : PayloadFacts where
  holds log := F.holds log ∧ ∀ path, i.localMsi = some path → ∃ msi, Answered (.realpath path) msi log ∧
    AnsweredSince (.verifyMsi (stripNewlines msi)) () (.copyMsi (stripNewlines msi)) () log
  snoc log event h := by
    refine ⟨F.snoc log event h.1, fun path hpath => ?_⟩
    obtain ⟨msi, hmsi, hcopy⟩ := h.2 path hpath
    exact ⟨msi, hmsi.snoc, hcopy.snoc⟩

theorem holds_copyInputs {msi : Option Text} (hd : d.ready = none) :
    Act.Holds (Stage i (msiFacts F i msi) d) (copyInputs env msi)
      (fun _ => Stage i (packageFacts F i) d) (fun _ => Stopped i) := by
  refine .bind (holds_quiet rfl hd) fun _ => .bind (holds_quiet rfl hd) fun _ => ?_
  refine .bind (holds_quiet rfl hd) fun _ => ?_
  refine .bind (.forM (I := fun _ => Stage i (msiFacts F i msi) d) (fun _ _ => holds_quiet rfl hd) _)
    fun _ => ?_
  cases msi with
  | none =>
    refine .pure fun s h => h.weaken fun hF => ⟨hF.1, fun path hpath => ?_⟩
    obtain ⟨output, -, hnone, -⟩ := hF.2.2 path hpath
    cases hnone
  | some msi =>
    cases hlocal : i.localMsi with
    | none =>
      refine (holds_quiet rfl hd).post fun _ s h => h.weaken fun hF => ⟨hF.1, fun path hpath => ?_⟩
      rw [hlocal] at hpath
      cases hpath
    | some path =>
      have hverified (seen : List PayloadEvent) (h : (msiFacts F i (some msi)).holds seen) :
          Answered (.verifyMsi msi) () seen := by
        obtain ⟨output, -, hmsi, hverify⟩ := h.2.2 path hlocal
        rwa [Option.some.inj hmsi]
      refine (holds_since rfl hd hverified).post fun _ s h => h.weaken fun hF => ⟨hF.1.1, fun path' hpath => ?_⟩
      obtain ⟨output, houtput, hmsi, -⟩ := hF.1.2.2 path' hpath
      rw [Option.some.inj hmsi] at hF
      exact ⟨output, houtput, hF.2⟩

/-- The base was identified and built on, and the ID of the result was read. -/
def builtFacts (F : PayloadFacts) (i : Inputs) (final : Text) : PayloadFacts where
  holds log := F.holds log ∧
    (∃ output, imageHash (stripNewlines output) = i.expected ∧
      AnsweredSince (.inspectId i.expected) output (.build i.expected i.localMsi.isSome) () log) ∧
    ∃ output, stripNewlines output = final ∧ isSha256Text (imageHash final) = true ∧
      AnsweredSince (.build i.expected i.localMsi.isSome) () .readFinal output log
  snoc log event h := by
    obtain ⟨hF, ⟨base, hid, hbase⟩, final, heq, hhash, hread⟩ := h
    exact ⟨F.snoc log event hF, ⟨base, hid, hbase.snoc⟩, final, heq, hhash, hread.snoc⟩

theorem holds_buildFinal {msi : Option Text} (hd : d.ready = none)
    (hmsi : msi.isSome = i.localMsi.isSome) :
    Act.Holds (Stage i F d) (buildFinal env source i.expected msi)
      (fun final => Stage i (builtFacts F i final) d) (fun _ => Stopped i) := by
  unfold buildFinal
  rw [hmsi]
  refine .bind (holds_quiet rfl hd) fun _ => .bind (holds_early rfl hd) fun output => ?_
  refine .bind holds_required fun _ => .assume_right fun hid => ?_
  refine .bind (holds_since rfl hd fun _ hF => hF.2) fun _ => ?_
  refine .bind (holds_since rfl hd fun _ hF => hF.2.answered) fun final => ?_
  refine .bind holds_required fun _ => .assume_right fun hhash => .pure fun s h => ?_
  refine h.weaken fun hF => ⟨hF.1.1.1, ⟨output, beq_iff_eq.mp hid, hF.1.2⟩, final, rfl, hhash, hF.2⟩

/-! ## The files of the script -/

theorem Stage.written {F' : PayloadFacts} {d' : Workdir} (h : Stage i F d s) (c : Command)
    (hstate : env.next s c = d') (hsane : Sane i s.log d') (hF : F'.holds (env.after s c).log) :
    Stage i F' d' (env.after s c) := by
  refine ⟨⟨always_snoc.mpr ⟨h.always, ?_⟩, hF⟩, hstate⟩
  rw [Justified, Environment.event, hstate]
  exact hsane

theorem Stage.stopping {d' : Workdir} (h : Stage i F d s) (c : Command) (hstate : env.next s c = d')
    (hsane : Sane i s.log d') : Stopped i (env.after s c) := by
  refine always_snoc.mpr ⟨h.always, ?_⟩
  rw [Justified, Environment.event, hstate]
  exact hsane

theorem holds_save {image : Text} (hd : d.ready = none) :
    Act.Holds (Stage i F d) (call env.toEnvironment (.save image))
      (fun _ s => ∃ oci, oci.image = image ∧ Stage i F { d with pending := some oci } s)
      (fun _ => Stopped i) := by
  apply holds_call
  · intro s u h hu
    obtain ⟨pending, hnext, hok⟩ := env.next_save s image
    obtain ⟨oci, rfl, himage⟩ := hok u hu
    rw [h.state] at hnext
    exact ⟨oci, himage, h.written _ hnext (sane_of_ready hd) (F.snoc s.log _ h.facts)⟩
  · intro s _ h _
    obtain ⟨pending, hnext, -⟩ := env.next_save s image
    rw [h.state] at hnext
    exact h.stopping _ hnext (sane_of_ready hd)

theorem holds_nonempty {oci : OciDir} {name : Text} {P : Prop} (hd : d.ready = none)
    (hpending : d.pending = some oci)
    (hP : ∀ s u, env.answer s (.nonempty name) = .ok u → s.state.pending = some oci → P) :
    Act.Holds (Stage i F d) (call env.toEnvironment (.nonempty name))
      (fun _ s => Stage i F d s ∧ P) (fun _ => Stopped i) := by
  have hstate (s : PayloadSession) (h : Stage i F d s) : env.next s (.nonempty name) = d :=
    (env.next_other s _ rfl).trans h.state
  apply holds_call
  · intro s u h hu
    refine ⟨h.written _ (hstate s h) (sane_of_ready hd) (F.snoc s.log _ h.facts), hP s u hu ?_⟩
    rw [h.state, hpending]
  · intro s _ h _
    exact h.stopping _ (hstate s h) (sane_of_ready hd)

theorem holds_publish (hd : d.ready = none) :
    Act.Holds (Stage i F d) (call env.toEnvironment .publish) (fun _ => Stage i F d.moved)
      (fun _ => Stopped i) := by
  apply holds_call
  · intro s u h hu
    obtain ⟨-, hnot⟩ | hnext := env.next_publish s
    · exact absurd hu (hnot u)
    · rw [h.state] at hnext
      exact h.written _ hnext (sane_of_ready hd) (F.snoc s.log _ h.facts)
  · intro s _ h _
    obtain ⟨hnext, -⟩ | hnext := env.next_publish s <;> rw [h.state] at hnext
    · exact h.stopping _ hnext (sane_of_ready hd)
    · exact h.stopping _ hnext (sane_of_ready hd)

theorem holds_writeBase {contents : Text} (hd : d.ready = none) :
    Act.Holds (Stage i F d) (call env.toEnvironment (.writeBase contents))
      (fun _ => Stage i F { d with base := some contents }) (fun _ => Stopped i) := by
  apply holds_call
  · intro s u h hu
    obtain ⟨base, hnext, hok⟩ := env.next_writeBase s contents
    rw [h.state, hok u hu] at hnext
    exact h.written _ hnext (sane_of_ready hd) (F.snoc s.log _ h.facts)
  · intro s _ h _
    obtain ⟨base, hnext, -⟩ := env.next_writeBase s contents
    rw [h.state] at hnext
    exact h.stopping _ hnext (sane_of_ready hd)

/-- The mark is the last file: whatever becomes of it, the rest is there. -/
theorem holds_writeReady {contents : Text}
    (hbuilt : ∀ seen ready, F.holds seen → Built i seen { d with ready := ready }) :
    Act.Holds (Stage i F d) (call env.toEnvironment (.writeReady contents))
      (fun _ => Stage i F { d with ready := some contents }) (fun _ => Stopped i) := by
  apply holds_call
  · intro s u h hu
    obtain ⟨ready, hnext, hok⟩ := env.next_writeReady s contents
    rw [h.state, hok u hu] at hnext
    exact h.written _ hnext (fun _ => hbuilt s.log _ h.facts) (F.snoc s.log _ h.facts)
  · intro s _ h _
    obtain ⟨ready, hnext, -⟩ := env.next_writeReady s contents
    rw [h.state] at hnext
    exact h.stopping _ hnext fun _ => hbuilt s.log _ h.facts

/-- What a finished script leaves -/
def Finished (i : Inputs) (work : Text) (d : Workdir) : Prop :=
  ∃ oci, filled oci.index ∧ filled oci.layout ∧
    d = ⟨none, some oci, some (baseContents i.expected), some (readyContents work)⟩

/-- All that a payload rests on, before it is exported -/
def exportFacts (i : Inputs) (final : Text) : PayloadFacts :=
  builtFacts (packageFacts (policyFacts Facts.nothing) i) i final

theorem built_of_facts {final : Text} {oci : OciDir} {pending : Option OciDir} {ready : Option Text}
    (hF : (exportFacts i final).holds seen) (himage : oci.image = final) (hindex : filled oci.index)
    (hlayout : filled oci.layout) :
    Built i seen ⟨pending, some oci, some (baseContents i.expected), ready⟩ := by
  obtain ⟨⟨⟨-, hpolicy⟩, hpackage⟩, hbase, output, rfl, hhash, hread⟩ := hF
  exact ⟨hpolicy, hpackage, hbase, ⟨output, oci, hread, hhash, rfl, himage, hindex, hlayout⟩, rfl⟩

theorem holds_exportFinal {final : Text} :
    Act.Holds (Stage i (exportFacts i final) .empty) (exportFinal env i.expected final work)
      (fun _ s => Stopped i s ∧ Finished i work s.state) (fun _ => Stopped i) := by
  refine .bind (holds_save rfl) fun _ => .exists_pre fun oci => .assume fun himage => ?_
  have hindex := fun s u (hu : env.answer s (.nonempty indexName) = .ok u)
      (hs : s.state.pending = some oci) => show filled oci.index by
    obtain ⟨found, hfound, hfilled⟩ := env.nonempty_index s u hu
    rwa [Option.some.inj (hs.symm.trans hfound)]
  have hlayout := fun s u (hu : env.answer s (.nonempty layoutName) = .ok u)
      (hs : s.state.pending = some oci) => show filled oci.layout by
    obtain ⟨found, hfound, hfilled⟩ := env.nonempty_layout s u hu
    rwa [Option.some.inj (hs.symm.trans hfound)]
  refine .bind (holds_nonempty rfl rfl hindex) fun _ => .assume_right fun hindex => ?_
  refine .bind (holds_nonempty rfl rfl hlayout) fun _ => .assume_right fun hlayout => ?_
  refine .bind (holds_publish rfl) fun _ => .bind (holds_writeBase rfl) fun _ => ?_
  refine .bind (holds_writeReady fun seen ready hF => built_of_facts hF himage hindex hlayout) fun _ => ?_
  have hsane (seen : List PayloadEvent) (hF : (exportFacts i final).holds seen) :
      Sane i seen ⟨none, some oci, some (baseContents i.expected), some (readyContents work)⟩ :=
    fun _ => built_of_facts hF himage hindex hlayout
  refine .bind ((holds_stage rfl hsane).post fun _ _ h => h.weaken And.left) fun _ => ?_
  refine (holds_stage rfl hsane).post fun _ s h => ?_
  exact ⟨h.stopped, oci, hindex, hlayout, h.state⟩

/-! ## The script -/

/-- What every answer to the command has is known of this one. -/
theorem holds_answer {P : Command.Answer c → Prop} (hc : c.writes = false) (hd : d.ready = none)
    (hP : ∀ s a, env.answer s c = .ok a → P a) :
    Act.Holds (Stage i F d) (call env.toEnvironment c) (fun a s => Stage i F d s ∧ P a)
      (fun _ => Stopped i) := by
  have hquiet : Act.Holds (Stage i F d) (call env.toEnvironment c) (fun _ => Stage i F d)
      (fun _ => Stopped i) := holds_quiet hc hd
  intro s hs
  have hafter := hquiet s hs
  rw [call_apply] at hafter ⊢
  cases hanswer : env.answer s c with
  | error e =>
    rw [hanswer] at hafter
    exact hafter
  | ok a =>
    rw [hanswer] at hafter
    exact ⟨hafter, hP s a hanswer⟩

/-- What `mktemp` puts in the place of the `X` -/
structure ProvisionPath (run : Text) : Prop where
  ne_nil : run ≠ []
  alphanum : ∀ c ∈ run, c.isAlphanum = true

/-- The directory of the run, below where the parent leads to -/
structure RunOf (env : PayloadEnvironment) (i : Inputs) (work run : Text) : Prop
    extends ProvisionPath run where
  path : ∃ s output, env.answer s (.realpath i.workParent) = .ok output ∧
    work = stripNewlines output ++ "/azurefin-provision.".toList ++ run

theorem stripNewlines_run {stem run : Text} (h : ProvisionPath run) :
    stripNewlines (stem ++ run ++ ['\n']) = stem ++ run := by
  have hlast : stem ++ run ≠ [] := by simp [h.ne_nil]
  rw [stripNewlines, List.rdropWhile_concat_pos _ _ _ (by decide), List.rdropWhile_eq_self_iff]
  intro _ hnl
  have hmem : (stem ++ run).getLast hlast ∈ run := by
    rw [List.getLast_append_of_ne_nil hlast h.ne_nil]
    exact List.getLast_mem h.ne_nil
  have halnum := h.alphanum _ hmem
  rw [of_decide_eq_true hnl] at halnum
  exact absurd halnum (by decide)

theorem holds_preparePayload :
    Act.Holds (Stage i Facts.nothing .empty) (preparePayload env i)
      (fun work s => Stopped i s ∧ Finished i work s.state ∧ ∃ run, RunOf env i work run)
      (fun _ => Stopped i) := by
  refine .bind holds_checked fun _ => .bind (holds_quiet rfl rfl) fun source => ?_
  refine .bind (holds_answer (P := fun output => ∃ s, env.answer s (.realpath i.workParent) = .ok output)
    rfl rfl fun s _ h => ⟨s, h⟩) fun parent => .assume_right fun ⟨s₀, hparent⟩ => ?_
  refine .bind (holds_preflight rfl) fun _ => .bind (holds_checkedMsi rfl) fun msi => ?_
  refine .of_pre (c := msi.isSome = i.localMsi.isSome) (fun _ h => h.facts.2.1) fun hmsi => ?_
  refine .bind (holds_answer rfl rfl fun s output => env.makeWork_form s (stripNewlines parent) output)
    fun output => .assume_right ?_
  rintro ⟨run, rfl, hne, hrun⟩
  rw [stripNewlines_run ⟨hne, hrun⟩]
  refine .bind (holds_copyInputs rfl) fun _ => .bind (holds_buildFinal rfl hmsi) fun final => ?_
  refine .bind holds_exportFinal fun _ => .pure fun s h => ?_
  exact ⟨h.1, h.2, run, ⟨hne, hrun⟩, s₀, parent, hparent, rfl⟩

theorem stage_start : Stage i Facts.nothing .empty ⟨.empty, []⟩ := ⟨⟨always_nil, trivial⟩, rfl⟩

section Sample

/-- A machine on which every command does what it is for -/
def sampleEnv : PayloadEnvironment where
  answer s
    | .realpath path => .ok (path ++ ['\n'])
    | .test .. => .ok true
    | .fileSystem _ => .ok "ext4".toList
    | .available _ => .ok "31457280".toList
    | .makeWork parent => .ok (parent ++ "/azurefin-provision.".toList ++ "Ab12Cd34".toList ++ ['\n'])
    | .inspectId image => .ok image
    | .readFinal => .ok (List.replicate 64 'b')
    | .nonempty _ =>
      if s.state.pending.any fun oci => oci.index == some 1 && oci.layout == some 1 then .ok () else .error 1
    | .policyMetadata | .havePodman | .verifyMsi _ | .makeDir _ | .copyContext | .copyTool _ | .copyMsi _
    | .pull _ | .build .. | .save _ | .publish | .writeBase _ | .writeReady _ | .announce _ => .ok ()
  next s
    | .save image => { s.state with pending := some ⟨image, some 1, some 1⟩ }
    | .publish => s.state.moved
    | .writeBase contents => { s.state with base := some contents }
    | .writeReady contents => { s.state with ready := some contents }
    | _ => s.state
  next_save _ image := ⟨_, rfl, fun _ _ => ⟨_, rfl, rfl⟩⟩
  next_publish _ := .inr rfl
  next_writeBase _ contents := ⟨_, rfl, fun _ _ => rfl⟩
  next_writeReady _ contents := ⟨_, rfl, fun _ _ => rfl⟩
  next_other s c hc := by cases c <;> first | rfl | cases hc
  nonempty_index s u h := by
    dsimp only at h
    split at h
    · next hany =>
      obtain ⟨oci, hoci, hsizes⟩ := (Option.any_eq_true _ _).mp hany
      simp only [Bool.and_eq_true, beq_iff_eq] at hsizes
      exact ⟨oci, hoci, 1, hsizes.1, Nat.one_ne_zero⟩
    · cases h
  nonempty_layout s u h := by
    dsimp only at h
    split at h
    · next hany =>
      obtain ⟨oci, hoci, hsizes⟩ := (Option.any_eq_true _ _).mp hany
      simp only [Bool.and_eq_true, beq_iff_eq] at hsizes
      exact ⟨oci, hoci, 1, hsizes.2, Nat.one_ne_zero⟩
    · cases h
  makeWork_form _ parent output h := by
    obtain rfl := Except.ok.inj h
    exact ⟨"Ab12Cd34".toList, rfl, by decide, forall_mem_of_all (by decide)⟩

def sampleInputs : Inputs where
  actions := false
  baseOci := "/base-oci".toList
  expectedImageId := List.replicate 64 'a'
  workParent := "/run/azurefin-work/runs".toList
  localMsi := some "/Surface.msi".toList

def sampleWork : Text := "/run/azurefin-work/runs/azurefin-provision.Ab12Cd34".toList

theorem preparePayload_sample : (preparePayload sampleEnv sampleInputs ⟨.empty, []⟩).1 = .ok sampleWork := by
  decide +kernel

end Sample

theorem intercalate_slash (a b c d e f : Text) :
    '/' :: (a ++ '/' :: (b ++ '/' :: (c ++ '/' :: d))) ++ e ++ '/' :: f =
      List.intercalate ['/'] [[], a, b, c, d ++ e, f] := by
  simp [List.intercalate]

theorem ofText_provision {run : Text} (h : ProvisionPath run) :
    PurePosixPath.ofText (provisionRun ++ run ++ container) =
      ⟨['/'], ["run".toList, "azurefin-work".toList, "runs".toList,
        "azurefin-provision.".toList ++ run, "container".toList]⟩ := by
  have hstem : provisionRun = '/' :: ("run".toList ++ '/' :: ("azurefin-work".toList ++ '/' ::
      ("runs".toList ++ '/' :: "azurefin-provision.".toList))) := by decide
  have hlast : container = '/' :: "container".toList := by decide
  have hslash : '/' ∉ "azurefin-provision.".toList ++ run := by
    intro hmem
    obtain hmem | hmem := List.mem_append.mp hmem
    · exact absurd hmem (by decide)
    · exact absurd (h.alphanum _ hmem) (by decide)
  have hsplit : (provisionRun ++ run ++ container).splitOn '/' =
      [[], "run".toList, "azurefin-work".toList, "runs".toList,
        "azurefin-provision.".toList ++ run, "container".toList] := by
    rw [hstem, hlast, intercalate_slash]
    refine List.splitOn_intercalate '/' ?_ (List.cons_ne_nil _ _)
    simp only [List.forall_mem_cons]
    exact ⟨by decide, by decide, by decide, by decide, hslash, by decide, List.forall_mem_nil _⟩
  rw [PurePosixPath.ofText, hsplit]
  rfl

theorem strip_provision (run : Text) :
    strip (provisionRun ++ run ++ container ++ ['\n']) = provisionRun ++ run ++ container := by
  refine strip_append_newline (fun c hc => ?_) fun c hc => ?_
  · have hhead : (provisionRun ++ run ++ container).head? = some '/' := by
      rw [List.append_assoc, List.head?_append_of_ne_nil _ (by decide)]
      decide
    obtain rfl := Option.some.inj (hhead.symm.trans hc)
    decide
  · have hlast : (provisionRun ++ run ++ container).getLast? = some 'r' := by
      rw [List.getLast?_append_of_ne_nil _ (by decide)]
      decide
    obtain rfl := Option.some.inj (hlast.symm.trans hc)
    decide

theorem preparedPath_provision {run : Text} {dir : RunDir} (h : ProvisionPath run)
    (hlinks : dir.pathSymlink = false ∧ dir.parentSymlink = false)
    (hready : dir.ready = .ok (provisionRun ++ run ++ container ++ ['\n']))
    (hfiles : dir.index = true ∧ dir.layout = true) :
    preparedPath (payloadMark ++ (provisionRun ++ run ++ container ++ ['\n'])) dir =
      .ok (provisionRun ++ run ++ container) := by
  have hvalue : strip (removePrefix payloadMark
      (payloadMark ++ (provisionRun ++ run ++ container ++ ['\n']))) = provisionRun ++ run ++ container := by
    rw [removePrefix, if_pos (List.isPrefixOf_iff_prefix.mpr (List.prefix_append _ _)), List.drop_left,
      strip_provision]
  have hruns : Prepare.runs = ⟨['/'], ["run".toList, "azurefin-work".toList, "runs".toList]⟩ := by
    decide
  have hpath : (PurePosixPath.ofText (provisionRun ++ run ++ container)).name = "container".toList ∧
      (PurePosixPath.ofText (provisionRun ++ run ++ container)).parent.parent = Prepare.runs := by
    rw [ofText_provision h, hruns]
    exact ⟨rfl, rfl⟩
  simp only [preparedPath, hvalue, hpath.1, hpath.2, hlinks.1, hlinks.2, hready, hfiles.1, hfiles.2,
    Except.ok_bind, strip_provision, beq_self_eq_true, Bool.and_self, Bool.not_false, Prepare.require,
    if_true]

/-- A script that is given the directory of the runs, and ends without an error, leaves a workspace
that the preparation takes, by the line that it printed, and `kickstart` takes the path of its
payload. -/
theorem finished_accepted (env : PayloadEnvironment) (i : Inputs) (work : Text) (s : PayloadSession)
    (hparent : ∀ s output, env.answer s (.realpath i.workParent) = .ok output →
      stripNewlines output = Prepare.root ++ "/runs".toList)
    (hok : preparePayload env i ⟨.empty, []⟩ = (.ok work, s)) :
    preparedPath (payloadMark ++ readyContents work) s.state.runDir = .ok (containerPath work) ∧
      isPayload (containerPath work) = true := by
  obtain ⟨-, ⟨oci, ⟨n, hindex, -⟩, ⟨m, hlayout, -⟩, hstate⟩, run, hrun, s₀, output, houtput, rfl⟩ :=
    holds_preparePayload.ok stage_start hok
  have hstem : provisionRun = Prepare.root ++ "/runs".toList ++ "/azurefin-provision.".toList := by
    decide
  have hpath : containerPath (stripNewlines output ++ "/azurefin-provision.".toList ++ run) =
      provisionRun ++ run ++ container := by
    rw [hparent s₀ output houtput, hstem]
    rfl
  rw [readyContents, hpath]
  refine ⟨preparedPath_provision hrun ⟨rfl, rfl⟩ ?_ ?_, isPayload_iff.mpr ⟨run, rfl, hrun.ne_nil, hrun.alphanum⟩⟩
  · rw [hstate, Workdir.runDir, readyContents, hpath]
  · rw [hstate]
    exact ⟨by simp [Workdir.runDir, hindex], by simp [Workdir.runDir, hlayout]⟩

theorem finished_accepted_sample :
    preparedPath (payloadMark ++ readyContents sampleWork)
        (preparePayload sampleEnv sampleInputs ⟨.empty, []⟩).2.state.runDir = .ok (containerPath sampleWork) ∧
      isPayload (containerPath sampleWork) = true :=
  finished_accepted sampleEnv sampleInputs sampleWork _
    (fun _ output h => by obtain rfl := Except.ok.inj h; decide +kernel)
    (Prod.ext preparePayload_sample rfl)

end Azurefin.Payload
