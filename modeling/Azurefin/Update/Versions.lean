import Azurefin.Lib.Decimal
import Azurefin.Lib.Trace
import Azurefin.Update.Preflight
import Mathlib.Data.Prod.Lex

/-!
# Versions never go back

`Version` is what a version means, and its order: the numbers count, and an alpha version
precedes the final one. `validate_version` accepts exactly what does not go back in this order,
and so does any sequence of updates: `updates_never_go_back`.
-/

namespace Azurefin

open Decimal

/-! ## What a version means -/

structure Version where
  major : Nat
  minor : Nat
  patch : Nat
  alpha : Bool
  deriving DecidableEq

namespace Version

/-- `vA.B.C` or `vA.B.C-alpha` -/
def text (v : Version) : Text :=
  "v".toList ++ numeral v.major ++ ".".toList ++ numeral v.minor ++ ".".toList ++ numeral v.patch ++
    if v.alpha then "-alpha".toList else []

/-- An alpha version precedes the final one. -/
def stage (v : Version) : Nat := if v.alpha then 0 else 1

def key (v : Version) : ℕ ×ₗ ℕ ×ₗ ℕ ×ₗ ℕ :=
  toLex (v.major, toLex (v.minor, toLex (v.patch, v.stage)))

theorem stage_inj {v w : Version} : v.stage = w.stage ↔ v.alpha = w.alpha := by
  unfold stage
  cases v.alpha <;> cases w.alpha <;> simp

theorem key_injective : Function.Injective key := by
  intro v w h
  simp only [key, toLex_inj, Prod.mk.injEq, stage_inj] at h
  obtain ⟨hmajor, hminor, hpatch, halpha⟩ := h
  cases v
  cases w
  simp_all

instance : LinearOrder Version := LinearOrder.lift' key key_injective

/-- What `version` returns. -/
def fields (v : Version) : List Nat := [v.major, v.minor, v.patch, v.stage]

theorem fields_lt_fields {v w : Version} : v.fields < w.fields ↔ v < w := by
  change _ ↔ v.key < w.key
  simp only [fields, key, Prod.Lex.toLex_lt_toLex, List.cons_lt_cons_iff, List.not_lt_nil, and_false,
    or_false]

theorem fields_injective : Function.Injective fields := by
  intro v w h
  simp only [fields, List.cons.injEq, and_true, stage_inj] at h
  obtain ⟨hmajor, hminor, hpatch, halpha⟩ := h
  cases v
  cases w
  simp_all

/-- The numbers have no more digits than the interpreter converts. -/
structure Convertible (v : Version) : Prop where
  major : (numeral v.major).length ≤ 4300
  minor : (numeral v.minor).length ≤ 4300
  patch : (numeral v.patch).length ≤ 4300

end Version

/-! ## Splitting a version -/

/-- What is split into these fields. -/
def joinVersion (fields : List Text) (alpha : Bool) : Text :=
  "v".toList ++ (List.intercalate ['.'] fields ++ if alpha then "-alpha".toList else [])

theorem Version.text_eq (v : Version) :
    v.text = joinVersion [numeral v.major, numeral v.minor, numeral v.patch] v.alpha := by
  simp [text, joinVersion, List.intercalate, List.append_assoc]

theorem splitVersion_eq_some {t : Text} {fields : List Text} {alpha : Bool}
    (h : splitVersion t = some (fields, alpha)) : fields.length = 3 ∧ t = joinVersion fields alpha := by
  unfold splitVersion at h
  split at h
  case isFalse => cases h
  case isTrue hv =>
  obtain ⟨rest, rfl⟩ := List.isPrefixOf_iff_prefix.mp hv
  simp only [Option.ite_none_right_eq_some, Option.some.injEq, Prod.mk.injEq, beq_iff_eq] at h
  obtain ⟨hlen, rfl, halpha⟩ := h
  refine ⟨hlen, ?_⟩
  rw [joinVersion, ← halpha, List.intercalate_splitOn]
  simp only [List.drop_left' (show "v".toList.length = 1 from rfl)] at halpha ⊢
  split
  case isTrue hsuffix =>
    obtain ⟨body, rfl⟩ := List.isSuffixOf_iff_suffix.mp hsuffix
    congr 2
    exact (List.take_left' (by simp)).symm
  case isFalse => rw [List.append_nil]

/-- Three fields are found again, when neither a dot nor the suffix can be in them. -/
theorem splitVersion_joinVersion {fields : List Text} {alpha : Bool} (hlen : fields.length = 3)
    (hf : ∀ f ∈ fields, '.' ∉ f ∧ 'a' ∉ f) :
    splitVersion (joinVersion fields alpha) = some (fields, alpha) := by
  have hsplit : (List.intercalate ['.'] fields).splitOn '.' = fields := by
    refine List.splitOn_intercalate '.' (fun f h => (hf f h).1) ?_
    rintro rfl
    cases hlen
  have hstarts : "v".toList.isPrefixOf (joinVersion fields alpha) = true :=
    List.isPrefixOf_iff_prefix.mpr (List.prefix_append _ _)
  have hdrop : (joinVersion fields alpha).drop 1 =
      List.intercalate ['.'] fields ++ if alpha then "-alpha".toList else [] := rfl
  have hsuffix : "-alpha".toList.isSuffixOf (List.intercalate ['.'] fields ++
      if alpha then "-alpha".toList else []) = alpha := by
    cases alpha with
    | true => exact List.isSuffixOf_iff_suffix.mpr (List.suffix_append _ _)
    | false =>
      rw [if_neg (by decide), List.append_nil, Bool.eq_false_iff]
      intro h
      have hmem : 'a' ∈ List.intercalate ['.'] fields :=
        (List.isSuffixOf_iff_suffix.mp h).subset (by decide)
      rcases mem_intercalate hmem with hdot | ⟨f, hmf, ha⟩
      · exact absurd hdot (by decide)
      · exact (hf f hmf).2 ha
  unfold splitVersion
  rw [if_pos hstarts]
  simp only [hdrop, hsuffix]
  cases alpha with
  | true =>
    have htake : (List.intercalate ['.'] fields ++ "-alpha".toList).take
        ((List.intercalate ['.'] fields ++ "-alpha".toList).length - 6) =
          List.intercalate ['.'] fields := List.take_left' (by simp)
    simp only [if_true, htake, hsplit, hlen, beq_self_eq_true]
  | false => simp [hsplit, hlen]

/-! ## Parsing -/

theorem isNumeral_iff {t : Text} : isNumeral t = true ↔ numeral (value t) = t := by
  constructor
  · intro h
    simp only [isNumeral, Bool.or_eq_true, Bool.and_eq_true, beq_iff_eq, List.all_eq_true,
      bne_iff_ne, ne_eq] at h
    rcases h with rfl | ⟨⟨hd, hne⟩, hhead⟩
    · rfl
    · exact (numeral_value_of_head hd hne hhead).1
  · intro h
    by_cases h0 : value t = 0
    · rw [← h, h0]
      rfl
    · simp only [isNumeral, Bool.or_eq_true, Bool.and_eq_true, List.all_eq_true, bne_iff_ne, ne_eq]
      rw [← h]
      exact .inr ⟨⟨fun c hc => isDigit_of_mem_numeral hc, numeral_ne_nil _⟩,
        fun hhead => h0 (head?_numeral hhead)⟩

theorem isNumeral_numeral (n : Nat) : isNumeral (numeral n) = true := by
  rw [isNumeral_iff, value_numeral]

theorem not_mem_numeral {n : Nat} {c : Char} (hc : c.isDigit = false) : c ∉ numeral n := fun h => by
  rw [isDigit_of_mem_numeral h] at hc
  cases hc

theorem pyInt_numeral {n m : Nat} :
    pyInt (numeral n) = .ok m ↔ (numeral n).length ≤ 4300 ∧ m = n := by
  have hvalue : (numeral n).foldl (fun n c => 10 * n + (c.toNat - '0'.toNat)) 0 = n :=
    value_numeral n
  simp only [pyInt, Except.check_eq_ok, Nat.not_lt, gt_iff_lt, Except.ok.injEq, hvalue]
  exact and_congr_right fun _ => eq_comm

/-- The pattern matches exactly the canonical texts. -/
theorem versionFields_eq_some {t : Text} {fields : List Text} {alpha : Bool} :
    versionFields t = some (fields, alpha) ↔ ∃ v : Version, t = v.text ∧ alpha = v.alpha ∧
      fields = [numeral v.major, numeral v.minor, numeral v.patch] := by
  rw [versionFields, Option.filter_eq_some_iff]
  constructor
  · rintro ⟨hsplit, hall⟩
    obtain ⟨hlen, rfl⟩ := splitVersion_eq_some hsplit
    obtain ⟨a, b, c, rfl⟩ := List.length_eq_three.mp hlen
    simp only [List.all_cons, List.all_nil, Bool.and_true, Bool.and_eq_true, isNumeral_iff] at hall
    obtain ⟨ha, hb, hc⟩ := hall
    refine ⟨⟨value a, value b, value c, alpha⟩, ?_, rfl, ?_⟩
    · rw [Version.text_eq, ha, hb, hc]
    · rw [ha, hb, hc]
  · rintro ⟨v, rfl, rfl, rfl⟩
    refine ⟨?_, by simp [isNumeral_numeral]⟩
    rw [Version.text_eq]
    refine splitVersion_joinVersion rfl fun f hf => ?_
    simp only [List.mem_cons, List.not_mem_nil, or_false] at hf
    rcases hf with rfl | rfl | rfl <;> exact ⟨not_mem_numeral rfl, not_mem_numeral rfl⟩

theorem Version.text_injective : Function.Injective Version.text := by
  intro v w h
  have hv := versionFields_eq_some.mpr ⟨v, rfl, rfl, rfl⟩
  have hw := versionFields_eq_some.mpr ⟨w, rfl, rfl, rfl⟩
  rw [h, hw] at hv
  simp only [Option.some.injEq, Prod.mk.injEq, List.cons.injEq, and_true,
    numeral_injective.eq_iff] at hv
  obtain ⟨⟨hmajor, hminor, hpatch⟩, halpha⟩ := hv
  cases v
  cases w
  simp_all

theorem mapM_pyInt {v : Version} {l : List Nat} :
    [numeral v.major, numeral v.minor, numeral v.patch].mapM pyInt = .ok l ↔
      v.Convertible ∧ l = [v.major, v.minor, v.patch] := by
  simp only [List.mapM_cons, List.mapM_nil, Except.bind_eq_ok, pyInt_numeral]
  constructor
  · rintro ⟨_, ⟨hmajor, rfl⟩, _, ⟨_, ⟨hminor, rfl⟩, _, ⟨_, ⟨hpatch, rfl⟩, _, hnil, hc⟩, hb⟩, ha⟩
    cases hnil
    cases hc
    cases hb
    exact ⟨⟨hmajor, hminor, hpatch⟩, (Except.ok.inj ha).symm⟩
  · rintro ⟨⟨hmajor, hminor, hpatch⟩, rfl⟩
    exact ⟨_, ⟨hmajor, rfl⟩, _, ⟨_, ⟨hminor, rfl⟩, _, ⟨_, ⟨hpatch, rfl⟩, [], rfl, rfl⟩, rfl⟩, rfl⟩

/-- `version` recognises the canonical texts that `int` converts. -/
theorem version_eq_ok {j : Json} {l : List Nat} :
    version j = .ok l ↔ ∃ v : Version, j = .str v.text ∧ v.Convertible ∧ l = v.fields := by
  have hfields : ∀ v : Version, v.fields =
      [v.major, v.minor, v.patch] ++ [if v.alpha then 0 else 1] := fun _ => rfl
  have hnil : versionFields [] = none := rfl
  simp only [version, Except.bind_eq_ok]
  constructor
  · rintro ⟨t, ht, h⟩
    split at h
    case h_1 => cases h
    case h_2 fields alpha hparse =>
      obtain ⟨v, rfl, rfl, rfl⟩ := versionFields_eq_some.mp hparse
      obtain ⟨numbers, hnumbers, h⟩ := Except.bind_eq_ok.mp h
      obtain ⟨hconv, rfl⟩ := mapM_pyInt.mp hnumbers
      refine ⟨v, ?_, hconv, (Except.ok.inj h).symm.trans (hfields v).symm⟩
      unfold Json.orElse at ht
      split at ht
      case isTrue =>
        cases j with
        | str s =>
          obtain rfl := Except.ok.inj ht
          rfl
        | _ => cases ht
      case isFalse =>
        have hempty : [] = v.text := Except.ok.inj ht
        rw [← hempty, hnil] at hparse
        cases hparse
  · rintro ⟨v, rfl, hconv, rfl⟩
    have htruthy : (Json.str v.text).truthy = true := rfl
    refine ⟨v.text, by rw [Json.orElse, if_pos htruthy]; rfl, ?_⟩
    rw [versionFields_eq_some.mpr ⟨v, rfl, rfl, rfl⟩]
    exact Except.bind_eq_ok.mpr ⟨_, mapM_pyInt.mpr ⟨hconv, rfl⟩, rfl⟩

/-! ## What is accepted -/

/-- `config.get('config', {}).get('Labels', {}).get('org.opencontainers.image.version')` -/
def targetVersion (config : Json) : Except PyError Json := do
  (← imageLabels config).get versionLabel

/-- An image is accepted when it is of a version that is not older. -/
theorem validateVersion_eq_ok {state config : Json} :
    validateVersion state config = .ok () ↔ ∃ v w : Version,
      currentVersion state = .ok (.str v.text) ∧ targetVersion config = .ok (.str w.text) ∧
        v.Convertible ∧ w.Convertible ∧ v ≤ w := by
  simp only [validateVersion, targetVersion, Except.bind_eq_ok, Except.check_eq_ok, version_eq_ok]
  constructor
  · rintro ⟨_, hcurrent, labels, hlabels, _, htarget, _, ⟨w, rfl, hw, rfl⟩, _, ⟨v, rfl, hv, rfl⟩, hlt, -⟩
    rw [Version.fields_lt_fields, not_lt] at hlt
    exact ⟨v, w, hcurrent, ⟨labels, hlabels, htarget⟩, hv, hw, hlt⟩
  · rintro ⟨v, w, hcurrent, ⟨labels, hlabels, htarget⟩, hv, hw, hle⟩
    refine ⟨_, hcurrent, labels, hlabels, _, htarget, _, ⟨w, rfl, hw, rfl⟩, _, ⟨v, rfl, hv, rfl⟩, ?_, trivial⟩
    rw [Version.fields_lt_fields, not_lt]
    exact hle

/-! ## Sequences of updates -/

/-- An update from the version that is booted: what is reported then, and the image, which is
booted when it is accepted. -/
def bootUpdate (booted : Text) (update : Json × Json) : Option Text :=
  match currentVersion update.1, validateVersion update.1 update.2, targetVersion update.2 with
  | .ok (.str current), .ok (), .ok (.str target) => if current = booted then some target else none
  | _, _, _ => none

/-- The second version is not older, and is the same text when it is not newer. -/
def Advances (s t : Text) : Prop :=
  s = t ∨ ∃ v w : Version, s = v.text ∧ t = w.text ∧ v < w

theorem bootUpdate_advances {s t : Text} {update : Json × Json}
    (h : bootUpdate s update = some t) : Advances s t := by
  unfold bootUpdate at h
  split at h
  case h_1 hcurrent hvalid htarget =>
    obtain ⟨rfl, rfl⟩ : _ = s ∧ _ = t := by simpa using h
    obtain ⟨v, w, hv, hw, -, -, hle⟩ := validateVersion_eq_ok.mp hvalid
    rw [hcurrent] at hv
    rw [htarget] at hw
    obtain rfl : _ = v.text := by simpa using hv
    obtain rfl : _ = w.text := by simpa using hw
    rcases eq_or_lt_of_le hle with rfl | hlt
    · exact .inl rfl
    · exact .inr ⟨v, w, rfl, rfl, hlt⟩
  case h_2 => cases h

theorem Advances.trans {s t u : Text} (hst : Advances s t) (htu : Advances t u) : Advances s u := by
  rcases hst with rfl | ⟨v, w, rfl, rfl, hvw⟩
  · exact htu
  · rcases htu with rfl | ⟨w', x, hw, rfl, hwx⟩
    · exact .inr ⟨v, w, rfl, rfl, hvw⟩
    · obtain rfl := Version.text_injective hw
      exact .inr ⟨v, x, rfl, rfl, hvw.trans hwx⟩

/-- What has been left for another version is not come back to. -/
theorem Advances.antisymm {s t : Text} (hst : Advances s t) (hts : Advances t s) : s = t := by
  rcases hst with rfl | ⟨v, w, rfl, rfl, hvw⟩
  · rfl
  · rcases hts with h | ⟨w', v', hw, hv, hwv⟩
    · exact h.symm
    · obtain rfl := Version.text_injective hw
      obtain rfl := Version.text_injective hv
      exact absurd hwv hvw.asymm

theorem run_advances {l : List (Json × Json)} {s t : Text}
    (h : Trace.run bootUpdate l s = some t) : Advances s t :=
  Trace.run_rel (R := Advances) (fun _ => .inl rfl) (fun _ _ _ => Advances.trans)
    (fun _ _ _ => bootUpdate_advances) h

/-- **Accepted updates never move backwards.** What `validate_version` accepts is of a version that
is not older, in an order in which no two versions that it recognises are equal; so no sequence of
updates goes back, or returns to a version that it has left. -/
theorem updates_never_go_back :
    (∀ state config, validateVersion state config = .ok () ↔ ∃ v w : Version,
      currentVersion state = .ok (.str v.text) ∧ targetVersion config = .ok (.str w.text) ∧
        v.Convertible ∧ w.Convertible ∧ v ≤ w) ∧
    (∀ s t m n, version (.str s) = .ok m → version (.str t) = .ok n →
      (m = n → s = t) ∧ (m < n ∨ m = n ∨ n < m)) ∧
    (∀ updates s t, Trace.run bootUpdate updates s = some t →
      s = t ∨ ∃ v w : Version, s = v.text ∧ t = w.text ∧ v < w) ∧
    ∀ before after s t u, Trace.run bootUpdate before s = some t →
      Trace.run bootUpdate after t = some u → s ≠ t → u ≠ s := by
  refine ⟨fun _ _ => validateVersion_eq_ok, fun s t m n hs ht => ?_, fun _ _ _ => run_advances, ?_⟩
  · obtain ⟨v, hv, -, rfl⟩ := version_eq_ok.mp hs
    obtain ⟨w, hw, -, rfl⟩ := version_eq_ok.mp ht
    obtain rfl : s = v.text := by simpa using hv
    obtain rfl : t = w.text := by simpa using hw
    refine ⟨fun h => by rw [Version.fields_injective h], ?_⟩
    rw [Version.fields_lt_fields, Version.fields_lt_fields, Version.fields_injective.eq_iff]
    exact lt_trichotomy v w
  · rintro before after s t u hst htu hne rfl
    exact hne ((run_advances hst).antisymm (run_advances htu))

/-- The status of a host that booted a version. -/
def bootedStatus (v : String) : Json :=
  .obj [("status".toList, .obj [("booted".toList, .obj [("image".toList,
    .obj [("version".toList, .str v.toList)])])])]

/-- The configuration of an image of a version. -/
def versionConfig (v : String) : Json :=
  .obj [("config".toList, .obj [("Labels".toList, .obj [(versionLabel, .str v.toList)])])]

/-- Two updates in a row, from an alpha version to the final one. -/
theorem updates_never_go_back_sample :
    Trace.run bootUpdate [(bootedStatus "v0.0.9-alpha", versionConfig "v0.0.10-alpha")]
      "v0.0.9-alpha".toList = some "v0.0.10-alpha".toList ∧
    Trace.run bootUpdate [(bootedStatus "v0.0.10-alpha", versionConfig "v0.0.10")]
      "v0.0.10-alpha".toList = some "v0.0.10".toList ∧
    "v0.0.10".toList ≠ "v0.0.9-alpha".toList := by
  have hfirst : Trace.run bootUpdate [(bootedStatus "v0.0.9-alpha", versionConfig "v0.0.10-alpha")]
      "v0.0.9-alpha".toList = some "v0.0.10-alpha".toList := by decide +kernel
  have hsecond : Trace.run bootUpdate [(bootedStatus "v0.0.10-alpha", versionConfig "v0.0.10")]
      "v0.0.10-alpha".toList = some "v0.0.10".toList := by decide +kernel
  exact ⟨hfirst, hsecond,
    updates_never_go_back.2.2.2 _ _ _ _ _ hfirst hsecond (by decide +kernel)⟩

end Azurefin
