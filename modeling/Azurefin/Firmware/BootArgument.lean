import Azurefin.Firmware.Acceptance
import Azurefin.Firmware.SetupMain
import Azurefin.Lib.Lines

/-!
# The boot argument

`validate_host`, `validate_mount` and `load-firmware.sh` each look for `azurefin.boot_uuid` on the
command line: two list comprehensions and a loop of the shell. They agree on every line, and on what
the one that setup writes becomes of it (`bootArgument_agreed`).
-/

namespace Azurefin

open Prog Shell

/-- A kernel command line: printable characters of ASCII, of which the space separates words. -/
structure CommandLine where
  line : Text
  printable : ∀ c ∈ line, ' ' ≤ c ∧ c ≤ '~'

namespace CommandLine

/-- `/proc/cmdline` -/
def text (l : CommandLine) : Text := l.line ++ ['\n']

def words (l : CommandLine) : List Text := wordsBy (· == ' ') l.line

def uuidWords (l : CommandLine) : List Text := l.words.filter uuidArgument.isPrefixOf

def otherWords (l : CommandLine) : List Text := l.words.filter fun w => !uuidArgument.isPrefixOf w

/-- The one line has the UUID where the other had it or did not have it, and the same words beside it. -/
structure Replaces (old new : CommandLine) (uuid : Text) : Prop where
  argument : new.uuidWords = [uuidArgument ++ uuid]
  others : new.otherWords = old.otherWords

/-- There is one argument, with a valid UUID. -/
def OneUuid (l : CommandLine) : Prop := ∃ uuid, isUuidText uuid = true ∧ l.uuidWords = [uuidArgument ++ uuid]

end CommandLine

/-- The loop of the loader comes to its end with the UUID. -/
def Selects (cmdline uuid : Text) : Prop :=
  uuid ≠ [] ∧ ∃ line, (linesOf cmdline).head? = some line ∧
    ∀ b, Goes ((readWords line).foldlM bootArgument []) b uuid b

/-- The loader leaves everything as it is, whatever there is and whatever fails. -/
def ExposesNothing (cmdline : Text) : Prop :=
  ∀ (env : Environment) (run : Disk) (fates : List Fate), env.cmdline = cmdline →
    (loadFirmware env ⟨fates, .start run⟩).2.state = .start run

variable {l old new : CommandLine} {mounts status : Json} {uuid u cmdline : Text}

/-! ## Words -/

theorem isSpace_of_printable {c : Char} (h : ' ' ≤ c ∧ c ≤ '~') :
    isSpace c = (c == ' ') ∧ isBlank c = (c == ' ') ∧ c ≠ '\n' := by
  have hlt : c.toNat < 127 := Nat.lt_succ_of_le (UInt32.le_iff_toNat_le.mp h.2)
  have hall : ∀ n < 127, ' ' ≤ Char.ofNat n → isSpace (Char.ofNat n) = (Char.ofNat n == ' ') ∧
      isBlank (Char.ofNat n) = (Char.ofNat n == ' ') ∧ Char.ofNat n ≠ '\n' := by
    decide +kernel
  have hc := hall c.toNat hlt
  rw [Char.ofNat_toNat] at hc
  exact hc h.1

theorem pySplit_text (l : CommandLine) : pySplit l.text = l.words := by
  rw [pySplit, CommandLine.text, wordsBy_concat (by decide)]
  exact wordsBy_congr fun c hc => (isSpace_of_printable (l.printable c hc)).1

theorem readWords_line (l : CommandLine) : readWords l.line = l.words :=
  wordsBy_congr fun c hc => (isSpace_of_printable (l.printable c hc)).2.1

theorem linesOf_text (l : CommandLine) : (linesOf l.text).head? = some l.line := by
  have hline : '\n' ∉ l.line := fun hc => (isSpace_of_printable (l.printable _ hc)).2.2 rfl
  rw [CommandLine.text, linesOf_append hline]
  rfl

theorem afterFirst_uuidArgument (u : Text) : afterFirst '=' (uuidArgument ++ u) = u := rfl

/-- The words are known from the values behind them. -/
theorem uuidValues_eq {words us : List Text} :
    uuidValues words = us ↔ words.filter uuidArgument.isPrefixOf = us.map (uuidArgument ++ ·) := by
  have hmap : ∀ ws : List Text, (∀ w ∈ ws, uuidArgument <+: w) →
      (ws.map (afterFirst '=')).map (uuidArgument ++ ·) = ws := by
    intro ws hws
    rw [List.map_map]
    conv_rhs => rw [← List.map_id ws]
    refine List.map_congr_left fun w hw => ?_
    obtain ⟨u, rfl⟩ := hws w hw
    rfl
  constructor
  · intro h
    rw [← h, uuidValues, hmap]
    exact fun w hw => List.isPrefixOf_iff_prefix.mp (List.mem_filter.mp hw).2
  · intro h
    rw [uuidValues, h, List.map_map]
    conv_rhs => rw [← List.map_id us]
    exact List.map_congr_left fun u _ => afterFirst_uuidArgument u

theorem uuidValues_words : uuidValues l.words = [u] ↔ l.uuidWords = [uuidArgument ++ u] := uuidValues_eq

/-! ## The checks in Python -/

/-- Of the command line, the check of the mount looks at the values alone. -/
theorem validateMount_congr {cmdline' : Text} (h : uuidValues (pySplit cmdline) = uuidValues (pySplit cmdline')) :
    validateMount mounts cmdline = validateMount mounts cmdline' := by
  simp only [validateMount, h]

/-- What setup returns passed the check of the mount, and no other UUID is asked for. -/
theorem validateHost_eq_ok (h : validateHost mounts cmdline status = .ok u) :
    (∃ v, validateMount mounts (uuidArgument ++ v) = .ok u) ∧
      ((pySplit cmdline).filter uuidArgument.isPrefixOf = [] ∨
        (pySplit cmdline).filter uuidArgument.isPrefixOf = [uuidArgument ++ u]) := by
  have checked : ∀ v w, validateMount mounts (uuidArgument ++ v) = .ok w ∧
      ¬ ((pySplit cmdline).filter uuidArgument.isPrefixOf ≠ [] ∧
        (pySplit cmdline).filter uuidArgument.isPrefixOf ≠ [uuidArgument ++ w]) ∧ Except.ok (ε := PyError) w = .ok u →
      (∃ v, validateMount mounts (uuidArgument ++ v) = .ok u) ∧
        ((pySplit cmdline).filter uuidArgument.isPrefixOf = [] ∨
          (pySplit cmdline).filter uuidArgument.isPrefixOf = [uuidArgument ++ u]) := by
    intro v w ⟨hmount, harguments, hw⟩
    obtain rfl := Except.ok.inj hw
    exact ⟨⟨v, hmount⟩, by grind⟩
  simp only [validateHost, Except.bind_eq_ok, Except.check_eq_ok] at h
  obtain ⟨host, -, booted, -, staged, -, queued, -, overlay, -, -, -, entries, -, count, -, h⟩ := h
  split at h
  · simp only [Except.bind_eq_ok, Except.check_eq_ok] at h
    obtain ⟨first, -, v, -, w, hw⟩ := h
    exact checked _ w hw
  · simp only [Except.bind_eq_ok, Except.check_eq_ok] at h
    obtain ⟨v, -, w, hw⟩ := h
    exact checked _ w hw

theorem validateMount_selects (h : validateMount mounts l.text = .ok u) :
    isUuidText u = true ∧ l.uuidWords = [uuidArgument ++ u] := by
  obtain ⟨huuid, hvalues⟩ := validateMount_eq_ok h
  rw [pySplit_text, uuidValues_words] at hvalues
  exact ⟨huuid, hvalues⟩

/-! ## The loader -/

theorem ne_nil_of_isUuidText (h : isUuidText u = true) : u ≠ [] := by
  rintro rfl
  exact absurd h (by decide)

theorem selects_of_uuidWords (huuid : isUuidText u = true) (h : l.uuidWords = [uuidArgument ++ u]) :
    Selects l.text u := by
  refine ⟨ne_nil_of_isUuidText huuid, l.line, linesOf_text l, fun b => ?_⟩
  rw [readWords_line]
  exact bootArguments_goes (uuidValues_words.mpr h) huuid b

/-- Where the loop does not find one valid UUID, the script stops before it has done anything. -/
theorem loadFirmware_ensures_nothing {env : Environment} {b : Boot}
    (h : ∀ line uuid, (linesOf env.cmdline).head? = some line → uuidValues (readWords line) = [uuid] →
      isUuidText uuid = false) :
    Ensures (· = b) (loadFirmware env) (fun _ => (· = b)) (fun _ => (· = b)) (· = b) := by
  have same : ∀ c, c = b → c = b := fun _ hc => hc
  refine .bind (command_ensures same) fun _ => .bind (command_ensures same) fun _ => ?_
  refine .bind (asking_ensures same) fun line => .assume fun hline => ?_
  have hhead : (linesOf env.cmdline).head? = some line := by
    cases hl : (linesOf env.cmdline).head? with
    | none => rw [hl] at hline; cases hline
    | some l => rw [hl] at hline; exact congrArg some (Except.ok.inj hline)
  refine .bind (bootArguments_ensures (readWords line)) fun uuid => .assume fun hfound => ?_
  refine .ite (fun _ => command_ensures same) fun hne => ?_
  have hvalues := hfound.values
  rw [if_neg hne] at hvalues
  have htext := hfound.text hne
  rw [h line uuid hhead hvalues] at htext
  cases htext

theorem exposesNothing_of_not_oneUuid (h : ¬ l.OneUuid) : ExposesNothing l.text := by
  intro env run fates henv
  refine (loadFirmware_ensures_nothing fun line uuid hline hvalues => ?_).invariant rfl rfl
  obtain rfl : l.line = line := by
    rw [henv, linesOf_text] at hline
    exact Option.some.inj hline
  rw [readWords_line, uuidValues_words] at hvalues
  rw [Bool.eq_false_iff]
  exact fun huuid => h ⟨uuid, huuid, hvalues⟩

/-! ## Agreement -/

/-- What setup writes passes the check of the mount, and the loader selects it. -/
theorem validateHost_selects (h : validateHost mounts old.text status = .ok u) (hr : old.Replaces new u) :
    validateMount mounts new.text = .ok u ∧ Selects new.text u := by
  obtain ⟨⟨v, hmount⟩, -⟩ := validateHost_eq_ok h
  obtain ⟨huuid, hvalues⟩ := validateMount_eq_ok hmount
  refine ⟨?_, selects_of_uuidWords huuid hr.argument⟩
  rw [← hmount]
  apply validateMount_congr
  rw [hvalues, pySplit_text, uuidValues_words, hr.argument]

theorem validateMount_refuses (h : ¬ l.OneUuid) (mounts : Json) :
    ∃ e, validateMount mounts l.text = .error e := by
  cases hmount : validateMount mounts l.text with
  | error e => exact ⟨e, rfl⟩
  | ok u => exact absurd ⟨u, validateMount_selects hmount⟩ h

theorem validateHost_refuses (h : ¬ l.OneUuid) (hsome : l.uuidWords ≠ []) (mounts status : Json) :
    ∃ e, validateHost mounts l.text status = .error e := by
  cases hhost : validateHost mounts l.text status with
  | error e => exact ⟨e, rfl⟩
  | ok u =>
    obtain ⟨⟨v, hmount⟩, hwords⟩ := validateHost_eq_ok hhost
    rw [pySplit_text] at hwords
    obtain ⟨huuid, -⟩ := validateMount_eq_ok hmount
    exact absurd ⟨u, huuid, hwords.resolve_left hsome⟩ h

/-- **Setup, preflight and loader agree on the boot argument.** What setup returns is checked and selected
once it is on the command line; what preflight returns is selected; and a line without exactly one valid
UUID is refused by both, but for setup where there is none, and makes the loader do nothing. -/
theorem bootArgument_agreed :
    (∀ (old new : CommandLine) mounts status u, validateHost mounts old.text status = .ok u → old.Replaces new u →
      validateMount mounts new.text = .ok u ∧ Selects new.text u) ∧
    (∀ (l : CommandLine) mounts u, validateMount mounts l.text = .ok u → Selects l.text u) ∧
    ∀ l : CommandLine, ¬ l.OneUuid → ExposesNothing l.text ∧
      (∀ mounts, ∃ e, validateMount mounts l.text = .error e) ∧
      (l.uuidWords ≠ [] → ∀ mounts status, ∃ e, validateHost mounts l.text status = .error e) := by
  refine ⟨fun old new mounts status u => validateHost_selects, fun l mounts u h => ?_, fun l h => ?_⟩
  · obtain ⟨huuid, hwords⟩ := validateMount_selects h
    exact selects_of_uuidWords huuid hwords
  · exact ⟨exposesNothing_of_not_oneUuid h, validateMount_refuses h, validateHost_refuses h⟩

def quietStatus : Json := .obj [("status".toList, .obj [("booted".toList, .bool true)])]

/-- A line without the argument. -/
def quietLine : CommandLine where
  line := "ro quiet".toList
  printable := forall_mem_of_all (by decide +kernel)

/-- The line that setup makes of it. -/
def uuidLine : CommandLine where
  line := "ro quiet ".toList ++ uuidArgument ++ sampleUuid
  printable := forall_mem_of_all (by decide +kernel)

theorem bootArgument_agreed_sample : validateMount sampleFindmnt uuidLine.text = .ok sampleUuid ∧
    Selects uuidLine.text sampleUuid ∧ ExposesNothing quietLine.text := by
  have hhost : validateHost sampleFindmnt quietLine.text quietStatus = .ok sampleUuid := by
    decide +kernel
  have hreplaces : quietLine.Replaces uuidLine sampleUuid := ⟨by decide +kernel, by decide +kernel⟩
  have hnone : quietLine.uuidWords = [] := by decide +kernel
  obtain ⟨hmount, hselects⟩ := bootArgument_agreed.1 _ _ _ _ _ hhost hreplaces
  refine ⟨hmount, hselects, (bootArgument_agreed.2.2 quietLine ?_).1⟩
  intro ⟨uuid, _, huuid⟩
  rw [hnone] at huuid
  cases huuid

end Azurefin
