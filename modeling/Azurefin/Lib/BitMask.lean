import Mathlib.Data.List.Basic
import Mathlib.Data.List.Nodup

/-!
# Bit masks

A mask of 32 bits next to `1UL << n`, which has 64, as C computes with the two: the mask is
widened, and what is stored is cut off again. Up to bit 63 these are the operations on the set of
the bits of the mask.
-/

namespace BitMask

/-- `1UL << n`. -/
def bit (n : Nat) : BitVec 64 := 1#64 <<< n

/-- `mask & (1UL << n)`. -/
def test (mask : BitVec 32) (n : Nat) : Bool := mask.setWidth 64 &&& bit n != 0#64

/-- `mask |= 1UL << n`. -/
def set (mask : BitVec 32) (n : Nat) : BitVec 32 := (mask.setWidth 64 ||| bit n).setWidth 32

/-- `mask &= ~(1UL << n)`. -/
def clear (mask : BitVec 32) (n : Nat) : BitVec 32 := (mask.setWidth 64 &&& ~~~bit n).setWidth 32

/-- The number of bits that are set. -/
def weight (mask : BitVec 32) : Nat := (List.range 32).countP mask.getLsbD

variable {mask : BitVec 32} {n k : Nat}

theorem getLsbD_bit : (bit n).getLsbD k = (decide (k < 64) && decide (k = n)) := by
  simp only [bit, BitVec.getLsbD_shiftLeft, BitVec.getLsbD_one]
  grind

theorem test_eq_getLsbD (hn : n < 64) : test mask n = mask.getLsbD n := by
  have hbits : mask.setWidth 64 &&& bit n = 0#64 ↔ mask.getLsbD n = false := by
    constructor
    · intro h
      have hbit : (mask.setWidth 64 &&& bit n).getLsbD n = false := by
        simp only [h, BitVec.getLsbD_zero]
      simpa only [BitVec.getLsbD_and, BitVec.getLsbD_setWidth, getLsbD_bit, hn, decide_true,
        Bool.true_and, Bool.and_true] using hbit
    · intro h
      apply BitVec.eq_of_getLsbD_eq
      intro i hi
      simp only [BitVec.getLsbD_and, BitVec.getLsbD_setWidth, getLsbD_bit]
      grind
  simp only [test, bne]
  grind

theorem getLsbD_set (hn : n < 32) :
    (set mask n).getLsbD k = (mask.getLsbD k || decide (k = n)) := by
  simp only [set, BitVec.getLsbD_setWidth, BitVec.getLsbD_or, getLsbD_bit]
  grind

theorem getLsbD_clear : (clear mask n).getLsbD k = (mask.getLsbD k && decide (k ≠ n)) := by
  simp only [clear, BitVec.getLsbD_setWidth, BitVec.getLsbD_and, BitVec.getLsbD_not, getLsbD_bit]
  grind

theorem test_set (hn : n < 32) (hk : k < 64) :
    test (set mask n) k = (test mask k || decide (k = n)) := by
  rw [test_eq_getLsbD hk, test_eq_getLsbD hk, getLsbD_set hn]

theorem test_clear (hk : k < 64) : test (clear mask n) k = (test mask k && decide (k ≠ n)) := by
  rw [test_eq_getLsbD hk, test_eq_getLsbD hk, getLsbD_clear]

theorem weight_pos : 0 < weight mask ↔ ∃ n, mask.getLsbD n := by
  simp only [weight, List.countP_pos_iff, List.mem_range]
  constructor
  · rintro ⟨n, -, hn⟩
    exact ⟨n, hn⟩
  · rintro ⟨n, hn⟩
    exact ⟨n, by grind, hn⟩

end BitMask
