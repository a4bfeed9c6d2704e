import Azurefin.Lib.Calls
import Azurefin.Lib.Trace
import Azurefin.Update.Channel
import Mathlib.Data.List.DropRight

/-!
# Promotion of a release to the testing channel

`promote-testing.sh`, command by command, and any sequence of its runs. The concurrency group of the
workflow lets one run go on at a time; what each command answers, and whether it fails, is
up to the environment of the run, except that the registry tells the truth about the tag. The tag
moves only from what the operator expected to the digest whose checks have passed:
`promotions_safe`.
-/

namespace Azurefin

open Calls

/-! ## The script -/

/-- The environment variables, and the contract of the checkout. -/
structure PromotionInputs extends Promotion where
  ghcrToken : Text
  runnerTemp : Text
  githubActor : Text

/-- An image in `ghcr.io/xelef2000/azurefin`. -/
inductive Reference where
  | digest (d : Text)
  | tag (t : Text)
  deriving DecidableEq

/-- Whose signature `cosign verify` looks for. -/
inductive Signer where
  | keyless (identity issuer : Text)
  | key (file : Text)
  deriving DecidableEq

/-- The identity of the workflow that signs the release. -/
def releaseSigner (releaseTag : Text) : Signer :=
  .keyless ("https://github.com/Xelef2000/azurefin/.github/workflows/release-romulus.yml@refs/tags/".toList
    ++ releaseTag) "https://token.actions.githubusercontent.com".toList

def nativeSigner : Signer := .key "surface/ota-signing.pub".toList

/-- `-a release=… -a component=base` -/
def baseAnnotations (releaseTag : Text) : List (Text × Text) :=
  [("release".toList, releaseTag), ("component".toList, "base".toList)]

/-- The commands that the script starts. -/
inductive PromotionCommand where
  | makeResults
  | cosignVerify (signer : Signer) (annotations : List (Text × Text)) (reference : Reference)
  | inspectConfig (reference : Reference)
  | checkUpdateContract
  | listTags
  | findTesting
  | inspectDigest (reference : Reference)
  | writeResult (name : Text) (contents : Text)
  | makeAuthDir
  | login
  | copyToTesting (digest : Text)

abbrev ExitStatus := Nat

/-- The state is the digest under the tag. -/
abbrev PromotionSession := Calls.Session (Option Text) PromotionCommand (fun _ => Text) ExitStatus

abbrev PromotionEvent := Calls.Event (Option Text) PromotionCommand (fun _ => Text) ExitStatus

def testingTag : Reference := .tag "testing".toList

/-- `$( )` drops newlines at the end. -/
def stripNewlines (output : Text) : Text := output.rdropWhile (· = '\n')

/-- `"testing" in json.load(…)["Tags"]` -/
def testingListed (loads : Text → Except PyError Json) (document : Text) : Except PyError Bool := do
  (← (← loads document).item "Tags".toList).has "testing".toList

/-- The exit status of a Python program. -/
def python {α : Type} (result : Except PyError α) : Act PromotionSession ExitStatus α :=
  .ofExcept (result.mapError fun _ => 1)

/-- What the environment of a run keeps to. -/
structure RegistryEnvironment (loads : Text → Except PyError Json) extends
    Calls.Environment (Option Text) PromotionCommand (fun _ => Text) ExitStatus where
  /-- `skopeo copy` sets the tag to the digest or leaves it, whether it fails or not. -/
  next_copy : ∀ s digest, next s (.copyToTesting digest) = some digest ∨
    next s (.copyToTesting digest) = s.state
  /-- Nothing else writes the tag. -/
  next_other : ∀ s c, (∀ digest, c ≠ .copyToTesting digest) → next s c = s.state
  inspect_truthful : ∀ s output, answer s (.inspectDigest testingTag) = .ok output →
    s.state = some (stripNewlines output)
  list_truthful : ∀ s output listed, answer s .listTags = .ok output →
    testingListed loads output = .ok listed → listed = s.state.isSome

variable {loads : Text → Except PyError Json}

/-- The digest of the tag, or `absent`. -/
def currentDigest (env : RegistryEnvironment loads) : Act PromotionSession ExitStatus Text := do
  let tags ← call env.toEnvironment .listTags
  let _ ← call env.toEnvironment .findTesting
  let listed ← python (testingListed loads tags)
  if listed then
    let output ← call env.toEnvironment (.inspectDigest testingTag)
    pure (stripNewlines output)
  else pure absent

/-- `promote-testing.sh` -/
def promoteTesting (env : RegistryEnvironment loads) (p : PromotionInputs) :
    Act PromotionSession ExitStatus Unit := do
  Act.require ([p.releaseTag, p.imageDigest, p.expectedCurrent, p.ghcrToken, p.runnerTemp,
    p.githubActor].all fun value => !value.isEmpty) 1
  Act.require (isReleaseTag p.releaseTag) 1
  Act.require (isImageDigest p.imageDigest) 1
  Act.require (p.expectedCurrent == absent || isImageDigest p.expectedCurrent) 1
  let reference := Reference.digest p.imageDigest
  let _ ← call env.toEnvironment .makeResults
  let _ ← call env.toEnvironment
    (.cosignVerify (releaseSigner p.releaseTag) (baseAnnotations p.releaseTag) reference)
  let _ ← call env.toEnvironment
    (.cosignVerify nativeSigner (baseAnnotations p.releaseTag) reference)
  let config ← call env.toEnvironment (.inspectConfig reference)
  let _ ← call env.toEnvironment .checkUpdateContract
  python (do checkUpdateContract (← loads config) p.contract)
  -- registry errors fail, rather than being treated as a missing channel
  let current ← currentDigest env
  Act.require (current == p.expectedCurrent) 1
  let _ ← call env.toEnvironment (.writeResult "previous-digest.txt".toList (current ++ ['\n']))
  let _ ← call env.toEnvironment .makeAuthDir
  let _ ← call env.toEnvironment .login
  let _ ← call env.toEnvironment (.copyToTesting p.imageDigest)
  let published ← call env.toEnvironment (.inspectDigest testingTag)
  Act.require (stripNewlines published == p.imageDigest) 1
  let _ ← call env.toEnvironment
    (.writeResult "published-digest.txt".toList (stripNewlines published ++ ['\n']))
  let _ ← call env.toEnvironment
    (.cosignVerify nativeSigner (baseAnnotations p.releaseTag) testingTag)
  pure ()

/-! ## What a run does to the tag -/

/-- What is expected is what the tag has; `absent` is no tag. -/
def Expects (expected : Text) (tag : Option Text) : Prop :=
  (tag = none ∧ expected = absent) ∨ tag = some expected

/-- Both signatures of the digest as the base of the release, and the contract of its configuration. -/
structure ChecksPassed (loads : Text → Except PyError Json) (p : PromotionInputs)
    (log : List PromotionEvent) : Prop where
  keyless : ∃ output, Answered (.cosignVerify (releaseSigner p.releaseTag)
    (baseAnnotations p.releaseTag) (.digest p.imageDigest)) output log
  native : ∃ output, Answered (.cosignVerify nativeSigner (baseAnnotations p.releaseTag)
    (.digest p.imageDigest)) output log
  contract : ∃ output config, Answered (.inspectConfig (.digest p.imageDigest)) output log ∧
    loads output = .ok config ∧ checkUpdateContract config p.contract = .ok ()

/-- The event moves the tag, which nothing moved before in this run, from what was expected. -/
structure Moves (loads : Text → Except PyError Json) (p : PromotionInputs) (tag : Option Text)
    (seen : List PromotionEvent) (event : PromotionEvent) : Prop where
  copies : event.call = .copyToTesting p.imageDigest
  moved : event.state = some p.imageDigest
  unmoved : lastState tag seen = tag
  expected : Expects p.expectedCurrent tag
  passed : ChecksPassed loads p seen

/-- The event leaves the tag or moves it with all checks passed. -/
def Careful (loads : Text → Except PyError Json) (p : PromotionInputs) (tag : Option Text)
    (seen : List PromotionEvent) (event : PromotionEvent) : Prop :=
  event.state = lastState tag seen ∨ Moves loads p tag seen event

/-- The invariant of a run that starts on the tag. -/
structure PromotionInv (loads : Text → Except PyError Json) (p : PromotionInputs) (tag : Option Text)
    (s : PromotionSession) : Prop where
  state : s.state = lastState tag s.log
  careful : Always (Careful loads p tag) s.log

abbrev PromotionFacts := Facts (Option Text) PromotionCommand (fun _ => Text) ExitStatus

/-- The tag has not been moved, and these facts are on record. -/
structure PromotionReady (loads : Text → Except PyError Json) (p : PromotionInputs) (tag : Option Text)
    (F : PromotionFacts) (s : PromotionSession) : Prop where
  inv : PromotionInv loads p tag s
  unmoved : s.state = tag
  facts : F.holds s.log

variable {env : RegistryEnvironment loads} {p : PromotionInputs} {tag : Option Text}
  {s : PromotionSession} {c : PromotionCommand} {F : PromotionFacts}

theorem PromotionInv.after (h : PromotionInv loads p tag s)
    (hcall : Careful loads p tag s.log (env.event s c)) : PromotionInv loads p tag (env.after s c) where
  state := by
    rw [after_log, lastState_snoc]
    rfl
  careful := always_snoc.mpr ⟨h.careful, hcall⟩

/-- Other commands leave the tag. -/
theorem PromotionInv.quiet (h : PromotionInv loads p tag s)
    (hc : ∀ digest, c ≠ .copyToTesting digest) : PromotionInv loads p tag (env.after s c) :=
  h.after (.inl ((env.next_other s c hc).trans h.state))

theorem holds_quiet (hc : ∀ digest, c ≠ .copyToTesting digest) :
    Act.Holds (PromotionInv loads p tag) (call env.toEnvironment c)
      (fun _ => PromotionInv loads p tag) (fun _ => PromotionInv loads p tag) :=
  holds_call (fun _ _ h _ => h.quiet hc) (fun _ _ h _ => h.quiet hc)

/-- Before the copy, a command that answers leaves the tag and the facts. -/
theorem PromotionReady.quiet (h : PromotionReady loads p tag F s) (hc : ∀ digest, c ≠ .copyToTesting digest) :
    PromotionReady loads p tag F (env.after s c) :=
  ⟨h.inv.quiet hc, (env.next_other s c hc).trans h.unmoved, F.snoc s.log _ h.facts⟩

theorem PromotionReady.known (h : PromotionReady loads p tag F s) {fact : Prop} (hfact : fact) :
    PromotionReady loads p tag (F.known fact) s :=
  ⟨h.inv, h.unmoved, h.facts, hfact⟩

/-- A command before the copy adds its answer to the record. -/
theorem holds_ready (hc : ∀ digest, c ≠ .copyToTesting digest) :
    Act.Holds (PromotionReady loads p tag F) (call env.toEnvironment c)
      (fun output => PromotionReady loads p tag (F.answered c output)) (fun _ => PromotionInv loads p tag) := by
  apply holds_call
  · intro s output h hanswer
    have hafter : PromotionReady loads p tag F (env.after s c) := h.quiet hc
    exact ⟨hafter.inv, hafter.unmoved, hafter.facts, answered_after hanswer⟩
  · intro s _ h _
    exact h.inv.quiet hc

/-- What an answer says of the state at the time of the call becomes known. -/
theorem holds_learns {fact : Text → Prop} (hc : ∀ digest, c ≠ .copyToTesting digest)
    (hfact : ∀ s output, s.state = tag → env.answer s c = .ok output → fact output) :
    Act.Holds (PromotionReady loads p tag F) (call env.toEnvironment c)
      (fun output => PromotionReady loads p tag (F.known (fact output))) (fun _ => PromotionInv loads p tag) :=
  holds_call (fun s output h hanswer => (h.quiet hc).known (hfact s output h.unmoved hanswer))
    (fun _ _ h _ => h.inv.quiet hc)

theorem python_eq_ok {α : Type} {result : Except PyError α} {a : α} :
    (result.mapError fun _ => (1 : ExitStatus)) = .ok a ↔ result = .ok a := by
  cases result <;> simp [Except.mapError]

/-- A program that does not look at the tag adds its result to what is known. -/
theorem holds_python {α : Type} {result : Except PyError α} :
    Act.Holds (PromotionReady loads p tag F) (python result)
      (fun a => PromotionReady loads p tag (F.known (result = .ok a))) (fun _ => PromotionInv loads p tag) :=
  .ofExcept (fun _ _ h ha => h.known (python_eq_ok.mp ha)) (fun _ _ h _ => h.inv)

theorem holds_passes {check : Bool} :
    Act.Holds (PromotionReady loads p tag F) (Act.require check 1)
      (fun _ => PromotionReady loads p tag (F.known (check = true))) (fun _ => PromotionInv loads p tag) :=
  .require (fun _ h hc => h.known hc) (fun _ h _ => h.inv)

/-- What the script takes for the current digest is what the tag has. -/
theorem holds_currentDigest :
    Act.Holds (PromotionReady loads p tag F) (currentDigest env)
      (fun current => PromotionReady loads p tag (F.known (Expects current tag)))
      (fun _ => PromotionInv loads p tag) := by
  -- the answers are about the tag as it was, and nothing has moved it since
  have hlist : ∀ s output, s.state = tag → env.answer s .listTags = .ok output →
      ∀ listed, testingListed loads output = .ok listed → listed = tag.isSome := by
    intro s output hs hanswer listed hlisted
    rw [env.list_truthful s output listed hanswer hlisted, hs]
  have hinspect : ∀ s output, s.state = tag → env.answer s (.inspectDigest testingTag) = .ok output →
      tag = some (stripNewlines output) := by
    intro s output hs hanswer
    rw [← hs, env.inspect_truthful s output hanswer]
  refine .bind (holds_learns (by simp) hlist) fun tags => .bind (holds_ready (by simp)) fun _ => ?_
  refine .bind holds_python fun listed => ?_
  cases listed with
  | false =>
    refine .pure fun s h => ⟨h.inv, h.unmoved, h.facts.1.1.1, .inl ⟨?_, rfl⟩⟩
    have hnone := h.facts.1.1.2 false h.facts.2
    simpa using hnone.symm
  | true =>
    refine .bind (holds_learns (by simp) hinspect) fun output => ?_
    exact .pure fun s h => ⟨h.inv, h.unmoved, h.facts.1.1.1.1, .inr h.facts.2⟩

/-- The copy, with everything checked. -/
theorem holds_copy (hF : ∀ log, F.holds log → Expects p.expectedCurrent tag ∧ ChecksPassed loads p log) :
    Act.Holds (PromotionReady loads p tag F) (call env.toEnvironment (.copyToTesting p.imageDigest))
      (fun _ => PromotionInv loads p tag) (fun _ => PromotionInv loads p tag) := by
  have hafter : ∀ s, PromotionReady loads p tag F s →
      PromotionInv loads p tag (env.after s (.copyToTesting p.imageDigest)) := by
    intro s h
    apply h.inv.after
    obtain hmoved | hleft := env.next_copy s p.imageDigest
    · obtain ⟨hexpected, hpassed⟩ := hF s.log h.facts
      exact .inr ⟨rfl, hmoved, h.inv.state.symm.trans h.unmoved, hexpected, hpassed⟩
    · exact .inl (hleft.trans h.inv.state)
  exact holds_call (fun s _ h _ => hafter s h) (fun s _ h _ => hafter s h)

/-- The run keeps to its invariant, wherever it ends. -/
theorem promoteTesting_inv :
    Act.Holds (· = ⟨tag, []⟩) (promoteTesting env p)
      (fun _ => PromotionInv loads p tag) (fun _ => PromotionInv loads p tag) := by
  have hstart : ∀ s : PromotionSession, s = ⟨tag, []⟩ → PromotionReady loads p tag .nothing s := by
    rintro s rfl
    exact ⟨⟨rfl, always_nil⟩, rfl, trivial⟩
  refine .pre (P := PromotionReady loads p tag .nothing) ?_ hstart
  refine .bind holds_passes fun _ => .bind holds_passes fun _ => ?_
  refine .bind holds_passes fun _ => .bind holds_passes fun _ => ?_
  refine .bind (holds_ready (by simp)) fun _ => .bind (holds_ready (by simp)) fun keyless => ?_
  refine .bind (holds_ready (by simp)) fun native => .bind (holds_ready (by simp)) fun config => ?_
  refine .bind (holds_ready (by simp)) fun _ => .bind holds_python fun _ => ?_
  refine .bind holds_currentDigest fun current => .bind holds_passes fun _ => ?_
  refine .bind (holds_ready (by simp)) fun _ => .bind (holds_ready (by simp)) fun _ => ?_
  refine .bind (holds_ready (by simp)) fun _ => .bind (holds_copy ?_) fun _ => ?_
  · rintro log ⟨⟨⟨⟨⟨hchecks, hcurrent⟩, hsame⟩, -⟩, -⟩, -⟩
    obtain ⟨⟨⟨⟨⟨-, hkeyless⟩, hnative⟩, hconfig⟩, -⟩, hcontract⟩ := hchecks
    obtain ⟨document, hloads, hcheck⟩ := Except.bind_eq_ok.mp hcontract
    obtain rfl : current = p.expectedCurrent := by simpa using hsame
    exact ⟨hcurrent, ⟨keyless, hkeyless⟩, ⟨native, hnative⟩, config, document, hconfig, hloads, hcheck⟩
  -- what follows the copy changes nothing
  refine .bind (holds_quiet (by simp)) fun published => ?_
  refine .bind (.require (Q := fun _ => PromotionInv loads p tag) (fun _ h _ => h) fun _ h _ => h) fun _ => ?_
  refine .bind (holds_quiet (by simp)) fun _ => .bind (holds_quiet (by simp)) fun _ => ?_
  exact .pure fun _ h => h

theorem ChecksPassed.snoc {log : List PromotionEvent} (h : ChecksPassed loads p log) (event : PromotionEvent) :
    ChecksPassed loads p (log ++ [event]) := by
  obtain ⟨⟨keyless, hkeyless⟩, ⟨native, hnative⟩, config, document, hconfig, hcheck⟩ := h
  exact ⟨⟨keyless, hkeyless.snoc⟩, ⟨native, hnative.snoc⟩, config, document, hconfig.snoc, hcheck⟩

/-- The tag at any moment of a run. -/
theorem PromotionInv.tag_of_mem (h : PromotionInv loads p tag s) : ∀ event ∈ s.log, event.state = tag ∨
    (event.state = some p.imageDigest ∧ Expects p.expectedCurrent tag ∧ ChecksPassed loads p s.log) := by
  refine h.careful.induction (I := fun log => ∀ event ∈ log, event.state = tag ∨
    (event.state = some p.imageDigest ∧ Expects p.expectedCurrent tag ∧ ChecksPassed loads p log))
    (by simp) ?_
  intro seen event ih hcareful
  have hseen : ∀ e ∈ seen, e.state = tag ∨ (e.state = some p.imageDigest ∧
      Expects p.expectedCurrent tag ∧ ChecksPassed loads p (seen ++ [event])) := by
    intro e he
    obtain hleft | ⟨hstate, hexpected, hpassed⟩ := ih e he
    · exact .inl hleft
    · exact .inr ⟨hstate, hexpected, hpassed.snoc event⟩
  intro e he
  rcases List.mem_append.mp he with he | he
  · exact hseen e he
  · obtain rfl := List.mem_singleton.mp he
    obtain hsame | hmoves := hcareful
    · obtain hstart | ⟨last, hlast, hstate⟩ := lastState_eq_or_mem tag seen
      · exact .inl (hsame.trans hstart)
      · rw [hsame, ← hstate]
        exact hseen last hlast
    · exact .inr ⟨hmoves.moved, hmoves.expected, hmoves.passed.snoc e⟩

/-! ## Any sequence of runs -/

/-- A run, with all that its environment does. -/
structure PromotionRun (loads : Text → Except PyError Json) where
  inputs : PromotionInputs
  environment : RegistryEnvironment loads

/-- The run on the tag, up to its end or its failure. -/
def PromotionRun.session (run : PromotionRun loads) (tag : Option Text) : PromotionSession :=
  (promoteTesting run.environment run.inputs ⟨tag, []⟩).2

/-- The tag after the runs, one after the other. -/
def tagAfter (initial : Option Text) (runs : List (PromotionRun loads)) : Option Text :=
  runs.foldl (fun tag run => (run.session tag).state) initial

/-- The digest of one of the runs, which has passed its checks there. -/
def PromotedBy (initial : Option Text) (runs : List (PromotionRun loads)) (tag : Option Text) : Prop :=
  ∃ earlier run later, runs = earlier ++ run :: later ∧ tag = some run.inputs.imageDigest ∧
    ChecksPassed loads run.inputs (run.session (tagAfter initial earlier)).log

theorem PromotionRun.session_inv (run : PromotionRun loads) (tag : Option Text) :
    PromotionInv loads run.inputs tag (run.session tag) :=
  promoteTesting_inv.final rfl

theorem PromotedBy.snoc {initial : Option Text} {runs : List (PromotionRun loads)} {tag : Option Text}
    (h : PromotedBy initial runs tag) (run : PromotionRun loads) : PromotedBy initial (runs ++ [run]) tag := by
  obtain ⟨earlier, promoter, later, rfl, htag⟩ := h
  exact ⟨earlier, promoter, later ++ [run], by simp, htag⟩

theorem tagAfter_snoc {initial : Option Text} {runs : List (PromotionRun loads)} {run : PromotionRun loads} :
    tagAfter initial (runs ++ [run]) = (run.session (tagAfter initial runs)).state := by
  simp [tagAfter]

/-- At any moment of a run, the tag is what it was before or what the run promotes. -/
theorem promotedBy_of_event {initial : Option Text} {before : List (PromotionRun loads)}
    {run : PromotionRun loads} {event : PromotionEvent}
    (hmem : event ∈ (run.session (tagAfter initial before)).log) :
    event.state = tagAfter initial before ∨ PromotedBy initial (before ++ [run]) event.state := by
  obtain hleft | ⟨hstate, -, hpassed⟩ := (run.session_inv _).tag_of_mem event hmem
  · exact .inl hleft
  · exact .inr ⟨before, run, [], rfl, hstate, hpassed⟩

/-- After any runs, the tag is the initial one or a digest that passed. -/
theorem tagAfter_promotedBy (initial : Option Text) (runs : List (PromotionRun loads)) :
    tagAfter initial runs = initial ∨ PromotedBy initial runs (tagAfter initial runs) := by
  induction runs using List.reverseRecOn with
  | nil => exact .inl rfl
  | append_singleton runs run ih =>
    have hkept (hsame : tagAfter initial (runs ++ [run]) = tagAfter initial runs) :
        tagAfter initial (runs ++ [run]) = initial ∨
          PromotedBy initial (runs ++ [run]) (tagAfter initial (runs ++ [run])) := by
      rw [hsame]
      exact ih.imp_right fun h => h.snoc run
    have hlast := (run.session_inv (tagAfter initial runs)).state
    rw [← tagAfter_snoc] at hlast
    obtain hstart | ⟨event, hmem, hstate⟩ := lastState_eq_or_mem (tagAfter initial runs)
      (run.session (tagAfter initial runs)).log
    · exact hkept (hlast.trans hstart)
    · rw [← hlast] at hstate
      obtain hleft | hpromoted := promotedBy_of_event hmem
      · exact hkept (hstate.symm.trans hleft)
      · rw [hstate] at hpromoted
        exact .inr hpromoted

/-- **Promotion is safe in any order.** In every run of any sequence: each command leaves the tag, or
it is the copy that moves the tag from what was expected to the digest, with all checks passed before
in this run; a run that expects something else changes nothing; and at every moment the tag is the
initial one or a digest that has passed all checks. -/
theorem promotions_safe (initial : Option Text) (before : List (PromotionRun loads))
    (run : PromotionRun loads) :
    (∀ seen event rest, (run.session (tagAfter initial before)).log = seen ++ event :: rest →
      Careful loads run.inputs (tagAfter initial before) seen event) ∧
    (¬ Expects run.inputs.expectedCurrent (tagAfter initial before) →
      tagAfter initial (before ++ [run]) = tagAfter initial before ∧
        ∀ event ∈ (run.session (tagAfter initial before)).log, event.state = tagAfter initial before) ∧
    (tagAfter initial before = initial ∨ PromotedBy initial before (tagAfter initial before)) ∧
    ∀ event ∈ (run.session (tagAfter initial before)).log,
      event.state = initial ∨ PromotedBy initial (before ++ [run]) event.state := by
  have hinv := run.session_inv (tagAfter initial before)
  have hbefore := tagAfter_promotedBy initial before
  refine ⟨hinv.careful, ?_, hbefore, ?_⟩
  · intro hother
    have hleft : ∀ event ∈ (run.session (tagAfter initial before)).log,
        event.state = tagAfter initial before := by
      intro event hmem
      obtain hleft | ⟨-, hexpected, -⟩ := hinv.tag_of_mem event hmem
      · exact hleft
      · exact absurd hexpected hother
    refine ⟨?_, hleft⟩
    rw [tagAfter_snoc, hinv.state]
    obtain hstart | ⟨event, hmem, hstate⟩ := lastState_eq_or_mem (tagAfter initial before)
      (run.session (tagAfter initial before)).log
    · exact hstart
    · rw [← hstate, hleft event hmem]
  · intro event hmem
    obtain hleft | hpromoted := promotedBy_of_event hmem
    · rw [hleft]
      exact hbefore.imp_right fun h => h.snoc run
    · exact .inr hpromoted

/-! ## A registry without failures -/

/-- The documents of the registry below: `testing` or nothing is tagged. -/
def obedientLoads (document : Text) : Except PyError Json :=
  if document = "config".toList then
    .ok (.obj [("config".toList, .obj [("Labels".toList, .obj
      [(firmwareLabel, .str "bundle".toList), (loaderLabel, .str "1".toList)])])])
  else .ok (.obj [("Tags".toList, .arr (if document = "tagged".toList then [.str "testing".toList] else []))])

theorem testingListed_tagged : testingListed obedientLoads "tagged".toList = .ok true := by decide +kernel

theorem testingListed_none : testingListed obedientLoads "none".toList = .ok false := by decide +kernel

/-- Every command succeeds, and the registry does as it is told. -/
def obedientRegistry : RegistryEnvironment obedientLoads where
  answer s
    | .inspectConfig _ => .ok "config".toList
    | .listTags => .ok (if s.state.isSome then "tagged".toList else "none".toList)
    | .inspectDigest _ =>
      match s.state with
      | some digest => if stripNewlines digest = digest then .ok digest else .error 1
      | none => .error 1
    | _ => .ok []
  next s
    | .copyToTesting digest => some digest
    | _ => s.state
  next_copy _ _ := .inl rfl
  next_other s c hc := by
    cases c with
    | copyToTesting digest => exact absurd rfl (hc digest)
    | _ => rfl
  inspect_truthful s output h := by
    simp only at h
    cases hstate : s.state with
    | none => simp [hstate] at h
    | some digest =>
      simp only [hstate] at h
      split at h
      case isFalse => cases h
      case isTrue hstrip =>
        obtain rfl := Except.ok.inj h
        rw [hstrip]
  list_truthful s output listed h hlisted := by
    obtain rfl := Except.ok.inj h
    cases hstate : s.state with
    | none =>
      simp only [hstate, Option.isSome_none, Bool.false_eq_true, if_false, testingListed_none,
        Except.ok.injEq] at hlisted
      exact hlisted.symm
    | some digest =>
      simp only [hstate, Option.isSome_some, if_true, testingListed_tagged, Except.ok.injEq] at hlisted
      exact hlisted.symm

/-- The first promotion of a release. -/
def firstPromotion : PromotionInputs where
  releaseTag := "v0.0.7-alpha".toList
  imageDigest := "sha256:".toList ++ List.replicate 64 'a'
  expectedCurrent := absent
  contract := .obj [("firmware_bundle".toList, .str "bundle".toList),
    ("firmware_loader_abi".toList, .str "1".toList)]
  ghcrToken := "token".toList
  runnerTemp := "/tmp".toList
  githubActor := "actor".toList

example : tagAfter none [⟨firstPromotion, obedientRegistry⟩] = some firstPromotion.imageDigest := by
  decide +kernel

end Azurefin
