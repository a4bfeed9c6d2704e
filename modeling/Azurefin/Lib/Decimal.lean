import Azurefin.Lib.Python
import Mathlib.Data.List.Induction

/-!
# Decimal numerals

The numeral of a number, and the number that digits stand for. Digits without a leading zero are
the numeral of their number. Numerals of one width are in the order of their numbers.
-/

namespace Decimal

/-- The digits of a number, without leading zeros. -/
def numeral (n : Nat) : Text := Nat.toDigits 10 n

/-- The number that digits stand for. -/
def value (t : Text) : Nat := Nat.ofDigitChars 10 t 0

@[simp] theorem value_numeral (n : Nat) : value (numeral n) = n := Nat.ofDigitChars_ten_toDigits

theorem numeral_injective : Function.Injective numeral := fun m n h => by
  rw [← value_numeral m, h, value_numeral]

theorem numeral_ne_nil (n : Nat) : numeral n ≠ [] := Nat.toDigits_ne_nil

theorem isDigit_of_mem_numeral {n : Nat} {c : Char} (h : c ∈ numeral n) : c.isDigit = true :=
  Nat.isDigit_of_mem_toDigits (by decide) (by decide) h

theorem head?_append {s t : Text} (h : s ≠ []) : (s ++ t).head? = s.head? := by
  obtain ⟨c, s, rfl⟩ := List.exists_cons_of_ne_nil h
  rfl

/-- A number that is not zero has no leading zero. -/
theorem head?_numeral {n : Nat} (h : (numeral n).head? = some '0') : n = 0 := by
  unfold numeral at h
  induction n using Nat.strongRecOn with
  | ind n ih =>
    rw [Nat.toDigits_eq_if (by decide)] at h
    split at h
    case isTrue hlt => simpa using h
    case isFalse hge =>
      have hhead : (Nat.toDigits 10 (n / 10)).head? = some '0' := by
        rwa [head?_append Nat.toDigits_ne_nil] at h
      have := ih (n / 10) (by omega) hhead
      omega

theorem digitChar_of_isDigit {c : Char} (h : c.isDigit = true) :
    c.toNat - '0'.toNat < 10 ∧ Nat.digitChar (c.toNat - '0'.toNat) = c := by
  have hbounds : 48 ≤ c.toNat ∧ c.toNat ≤ 57 := by
    simpa [Char.isDigit, UInt32.le_iff_toNat_le] using h
  have hlt : c.toNat - '0'.toNat < 10 := by
    change c.toNat - 48 < 10
    omega
  refine ⟨hlt, Char.toNat_inj.mp ?_⟩
  rw [Nat.toNat_digitChar_of_lt_ten hlt]
  change 48 + (c.toNat - 48) = c.toNat
  omega

/-- Digits that do not begin with zero are the numeral of what they stand for. -/
theorem numeral_value_of_head {t : Text} (hd : ∀ c ∈ t, c.isDigit = true) (hne : t ≠ [])
    (hhead : t.head? ≠ some '0') : numeral (value t) = t ∧ 0 < value t := by
  induction t using List.reverseRecOn with
  | nil => exact absurd rfl hne
  | append_singleton s c ih =>
    obtain ⟨hlt, hc⟩ := digitChar_of_isDigit (hd c (by simp))
    have hvalue : value (s ++ [c]) = 10 * value s + (c.toNat - '0'.toNat) := by
      rw [value, Nat.ofDigitChars_append, Nat.ofDigitChars_cons, Nat.ofDigitChars_nil]
      rfl
    by_cases hs : s = []
    · subst hs
      have hzero : c.toNat - '0'.toNat ≠ 0 := by
        intro h0
        rw [h0] at hc
        exact hhead (by rw [← hc]; rfl)
      rw [hvalue, numeral, Nat.toDigits_of_lt_base (by simpa [value] using hlt)]
      simp only [value, Nat.ofDigitChars_nil, Nat.mul_zero, Nat.zero_add, List.nil_append]
      exact ⟨by rw [hc], by omega⟩
    · obtain ⟨hs', hpos⟩ := ih (fun d hd' => hd d (by simp [hd'])) hs
        (by rwa [head?_append hs] at hhead)
      refine ⟨?_, by omega⟩
      rw [hvalue, numeral, ← Nat.toDigits_append_toDigits (by decide) hpos hlt,
        Nat.toDigits_of_lt_base hlt, hc]
      exact congrArg (· ++ [c]) hs'

/-! ## Numerals of one width -/

/-- `f'{n:0{w}d}'` -/
def zeroPad (w n : Nat) : Text := List.replicate (w - (numeral n).length) '0' ++ numeral n

variable {w m n : Nat} {s t : Text}

@[simp] theorem value_zeroPad (w n : Nat) : value (zeroPad w n) = n := by
  rw [value, zeroPad, Nat.ofDigitChars_append, Nat.ofDigitChars_replicate_zero, Nat.mul_zero]
  exact value_numeral n

theorem zeroPad_injective (w : Nat) : Function.Injective (zeroPad w) := fun m n h => by
  rw [← value_zeroPad w m, h, value_zeroPad]

theorem isDigit_of_mem_zeroPad {c : Char} (h : c ∈ zeroPad w n) : c.isDigit = true := by
  rcases List.mem_append.mp h with h | h
  · obtain rfl := List.eq_of_mem_replicate h
    rfl
  · exact isDigit_of_mem_numeral h

/-- A number with at most `w` digits has exactly `w` with the zeros. -/
theorem length_zeroPad (hw : 0 < w) (h : n < 10 ^ w) : (zeroPad w n).length = w := by
  have hlen : (numeral n).length ≤ w := (Nat.length_toDigits_le_iff (by decide) hw).mpr h
  rw [zeroPad, List.length_append, List.length_replicate]
  omega

theorem value_cons (c : Char) (t : Text) :
    value (c :: t) = 10 ^ t.length * (c.toNat - '0'.toNat) + value t := by
  rw [value, Nat.ofDigitChars_cons, Nat.ofDigitChars_eq_ofDigitChars_zero, Nat.mul_zero, Nat.zero_add,
    value]

theorem value_lt (h : ∀ c ∈ t, c.isDigit = true) : value t < 10 ^ t.length := by
  induction t with
  | nil => simp [value]
  | cons c t ih =>
    have hc := (digitChar_of_isDigit (h c List.mem_cons_self)).1
    have ht := ih fun d hd => h d (List.mem_cons_of_mem _ hd)
    calc value (c :: t) = 10 ^ t.length * (c.toNat - '0'.toNat) + value t := value_cons c t
      _ < 10 ^ t.length * (c.toNat - '0'.toNat) + 10 ^ t.length := by omega
      _ = 10 ^ t.length * (c.toNat - '0'.toNat + 1) := by rw [Nat.mul_add, Nat.mul_one]
      _ ≤ 10 ^ t.length * 10 := Nat.mul_le_mul_left _ (by omega)
      _ = 10 ^ (c :: t).length := (Nat.pow_succ ..).symm

/-- Digits of one length are in the order of what they stand for. -/
theorem lt_of_value_lt (hs : ∀ c ∈ s, c.isDigit = true) (ht : ∀ c ∈ t, c.isDigit = true)
    (hlen : s.length = t.length) (h : value s < value t) : s < t := by
  induction s generalizing t with
  | nil =>
    obtain rfl := List.length_eq_zero_iff.mp hlen.symm
    exact absurd h (Nat.lt_irrefl _)
  | cons c s ih =>
    cases t with
    | nil => cases hlen
    | cons d t =>
      have hlen : s.length = t.length := by simpa using hlen
      obtain ⟨-, hc⟩ := digitChar_of_isDigit (hs c List.mem_cons_self)
      obtain ⟨-, hd⟩ := digitChar_of_isDigit (ht d List.mem_cons_self)
      have hs' : ∀ x ∈ s, x.isDigit = true := fun x hx => hs x (List.mem_cons_of_mem _ hx)
      have ht' : ∀ x ∈ t, x.isDigit = true := fun x hx => ht x (List.mem_cons_of_mem _ hx)
      rw [value_cons, value_cons, hlen] at h
      -- the first digits decide, unless they are the same
      rcases Nat.lt_trichotomy (c.toNat - '0'.toNat) (d.toNat - '0'.toNat) with hlt | heq | hgt
      · have hcd : c.toNat < d.toNat := by omega
        exact List.Lex.rel (UInt32.lt_iff_toNat_lt.mpr hcd)
      · have hcd : c = d := by rw [← hc, heq, hd]
        rw [heq] at h
        rw [hcd]
        exact List.Lex.cons (ih hs' ht' hlen (by omega))
      · have hbound := value_lt ht'
        have hstep : 10 ^ t.length * (d.toNat - '0'.toNat) + 10 ^ t.length ≤
            10 ^ t.length * (c.toNat - '0'.toNat) := by
          rw [← Nat.mul_succ]
          exact Nat.mul_le_mul_left _ hgt
        omega

theorem zeroPad_lt_zeroPad (hw : 0 < w) (hn : n < 10 ^ w) (h : m < n) : zeroPad w m < zeroPad w n := by
  refine lt_of_value_lt (fun _ => isDigit_of_mem_zeroPad) (fun _ => isDigit_of_mem_zeroPad) ?_ ?_
  · rw [length_zeroPad hw (Nat.lt_trans h hn), length_zeroPad hw hn]
  · simpa using h

end Decimal
