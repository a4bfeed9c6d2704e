import Azurefin.Update.Channel
import Azurefin.Update.Versions

/-!
# The gates of a release tag

The release path tests its tag at four places, with `[0-9]` or with `\d` and never for leading
zeros, while `validate_version` recognises canonical versions only. The gates agree on a tag, and
hosts recognise it, exactly when no gate accepts it or it is canonical: `tagGates_iff`.
-/

namespace Azurefin

open Decimal

/-! ## The gates -/

/-- `v[0-9]+\.[0-9]+\.[0-9]+(?:-alpha)?` for some class of digits. -/
def matchesTag (digit : Char → Bool) (t : Text) : Bool :=
  match splitVersion t with
  | some (fields, _) => fields.all fun f => !f.isEmpty && f.all digit
  | none => false

/-- `release(value)` from `update.py` -/
def updateRelease (value : Text) : Except PyError Text :=
  if !matchesTag Char.isDigit value then
    .error (.argumentTypeError "Expected vMAJOR.MINOR.PATCH[-alpha]")
  else .ok value

/-- The tag that `assemble` takes. -/
def checkAssembleTag (tag : Text) : Except PyError Unit :=
  if !matchesTag isDecimal tag then .error (.valueError "Invalid release tag") else .ok ()

/-- The tag that `main` from `finalize_iso_release.py` takes. -/
def checkFinalizeTag (tag : Text) : Except PyError Unit :=
  if !matchesTag isDecimal tag then .error (.valueError "Invalid release tag") else .ok ()

/-- All gates give the same answer, and hosts recognise what a gate accepts. -/
def GatesAgree (t : Text) : Prop :=
  (updateRelease t).isOk = isReleaseTag t ∧ (checkAssembleTag t).isOk = isReleaseTag t ∧
    (checkFinalizeTag t).isOk = isReleaseTag t ∧
      ((isReleaseTag t || (updateRelease t).isOk || (checkAssembleTag t).isOk ||
        (checkFinalizeTag t).isOk) = true → ∃ l, version (.str t) = .ok l)

/-! ## The patterns -/

variable {digit digit' : Char → Bool} {t : Text}

theorem matchesTag_isDigit (t : Text) : matchesTag Char.isDigit t = isReleaseTag t := rfl

theorem isOk_check {b : Bool} {e : PyError} {α : Type} {a : α} :
    (if !b then Except.error e else Except.ok a : Except PyError α).isOk = b := by
  cases b <;> rfl

/-- More digits match more tags. -/
theorem matchesTag_mono (hd : ∀ c, digit c = true → digit' c = true) (h : matchesTag digit t = true) :
    matchesTag digit' t = true := by
  unfold matchesTag at h ⊢
  split at h
  case h_2 => cases h
  case h_1 hsplit =>
    simp only [List.all_eq_true, Bool.and_eq_true] at h ⊢
    exact fun f hf => ⟨(h f hf).1, fun c hc => hd c ((h f hf).2 c hc)⟩

/-- The characters of a tag. -/
theorem mem_of_matchesTag {c : Char} (h : matchesTag digit t = true) (hc : c ∈ t) :
    digit c = true ∨ c ∈ ['v', '.', '-', 'a', 'l', 'p', 'h'] := by
  unfold matchesTag at h
  split at h
  case h_2 => cases h
  case h_1 fields alpha hsplit =>
    simp only [List.all_eq_true, Bool.and_eq_true] at h
    rw [(splitVersion_eq_some hsplit).2, joinVersion] at hc
    rcases List.mem_append.mp hc with hv | hc
    · refine .inr ?_
      simp_all
    rcases List.mem_append.mp hc with hfields | halpha
    · obtain rfl | ⟨f, hf, hcf⟩ := mem_intercalate hfields
      · exact .inr (by decide)
      · exact .inl ((h f hf).2 c hcf)
    · refine .inr ?_
      split at halpha
      case isTrue =>
        have hsubset : "-alpha".toList ⊆ ['v', '.', '-', 'a', 'l', 'p', 'h'] := by decide
        exact hsubset halpha
      case isFalse => cases halpha

theorem isDecimal_of_isDigit {c : Char} (h : c.isDigit = true) : isDecimal c = true := by
  have hbounds : 48 ≤ c.toNat ∧ c.toNat ≤ 57 := by
    simpa [Char.isDigit, UInt32.le_iff_toNat_le] using h
  simp only [isDecimal, List.any_eq_true, Bool.and_eq_true, decide_eq_true_eq]
  exact ⟨0x30, List.mem_cons_self, by omega⟩

/-- A canonical version passes every gate. -/
theorem matchesTag_text (hd : ∀ c : Char, c.isDigit = true → digit c = true) (v : Version) :
    matchesTag digit v.text = true := by
  have hparse := versionFields_eq_some.mpr ⟨v, rfl, rfl, rfl⟩
  rw [versionFields, Option.filter_eq_some_iff] at hparse
  have hnumeral : ∀ n, (!(numeral n).isEmpty && (numeral n).all digit) = true := by
    intro n
    simp only [Bool.and_eq_true, Bool.not_eq_true', List.isEmpty_eq_false_iff, List.all_eq_true]
    exact ⟨numeral_ne_nil n, fun c hc => hd c (isDigit_of_mem_numeral hc)⟩
  unfold matchesTag
  rw [hparse.1]
  simp only [List.all_cons, List.all_nil, hnumeral, Bool.and_self]

/-- **When a promoted release can be updated to and from.** The gates agree on a tag, and hosts
recognise it, exactly when it does not match the widest pattern or is a canonical version whose
numbers can be converted. -/
theorem tagGates_iff (t : Text) :
    GatesAgree t ↔ matchesTag isDecimal t = false ∨ ∃ v : Version, t = v.text ∧ v.Convertible := by
  simp only [GatesAgree, updateRelease, checkAssembleTag, checkFinalizeTag, isOk_check,
    ← matchesTag_isDigit]
  constructor
  · rintro ⟨-, -, -, hversion⟩
    cases hmatch : matchesTag isDecimal t with
    | false => exact .inl rfl
    | true =>
      obtain ⟨l, hl⟩ := hversion (by simp [hmatch])
      obtain ⟨v, hv, hconv, -⟩ := version_eq_ok.mp hl
      exact .inr ⟨v, by simpa using hv, hconv⟩
  · rintro (hmatch | ⟨v, rfl, hconv⟩)
    · have hascii : matchesTag Char.isDigit t = false := by
        rw [Bool.eq_false_iff] at hmatch ⊢
        exact fun h => hmatch (matchesTag_mono (fun _ => isDecimal_of_isDigit) h)
      simp [hmatch, hascii]
    · rw [matchesTag_text (fun _ h => h), matchesTag_text (fun _ => isDecimal_of_isDigit)]
      exact ⟨trivial, rfl, rfl, fun _ => ⟨_, version_eq_ok.mpr ⟨v, rfl, hconv, rfl⟩⟩⟩

/-- A tag with a leading zero passes every gate and is not recognised; one with other digits passes
only some of the gates. -/
theorem tagGates_disagree : ¬ GatesAgree "v01.0.0".toList ∧ isReleaseTag "v01.0.0".toList = true ∧
    version (.str "v01.0.0".toList) =
      .error (.valueError "Unrecognized OS version; refusing automatic update") ∧
    isReleaseTag ['v', '\u0661', '.', '0', '.', '0'] = false ∧
    (checkAssembleTag ['v', '\u0661', '.', '0', '.', '0']).isOk = true := by
  have hversion : version (.str "v01.0.0".toList) =
      .error (.valueError "Unrecognized OS version; refusing automatic update") := by rfl
  have hgate : isReleaseTag "v01.0.0".toList = true := by decide +kernel
  refine ⟨fun h => ?_, hgate, hversion, by decide +kernel, by decide +kernel⟩
  obtain ⟨l, hl⟩ := h.2.2.2 (by rw [hgate]; rfl)
  rw [hversion] at hl
  cases hl

end Azurefin
