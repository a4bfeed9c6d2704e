import Azurefin.Parking.Module
import Mathlib.Data.List.Perm.Subperm
import Mathlib.Algebra.Ring.Nat
import Mathlib.Data.List.Nodup

/-!
# The sample of the parking module

What the loop over the online CPUs adds up: the counts are exact, and although the elapsed time is
multiplied by 100 in 64 bits, which may wrap, the average stays a percentage, `sample_avg_le`.
-/

namespace Azurefin

open BitMask

variable {cpus : Cpus} {s : Parking}

/-- A CPU that the loop does not skip. -/
def Counted (r : Nat → IdleTime) (cpu : Nat) : Bool :=
  decide (cpu < maxCpus) && (r cpu).idle != BitVec.allOnes 64

theorem addCpu_skipped {p : BitVec 32} {r : Nat → IdleTime} {a : Sample} {cpu : Nat}
    (h : Counted r cpu = false) : a.addCpu p r cpu = a := by
  unfold Sample.addCpu
  grind [Counted]

theorem addCpu_nrSampled {p : BitVec 32} {r : Nat → IdleTime} {a : Sample} {cpu : Nat}
    (h : Counted r cpu) : (a.addCpu p r cpu).nrSampled = a.nrSampled + 1 := by
  unfold Sample.addCpu
  grind [Counted]

theorem addCpu_onlineParkable {p : BitVec 32} {r : Nat → IdleTime} {a : Sample} {cpu : Nat}
    (h : Counted r cpu) : (a.addCpu p r cpu).onlineParkable =
      if test p cpu then a.onlineParkable + 1 else a.onlineParkable := by
  unfold Sample.addCpu
  grind [Counted]

/-- The product is taken modulo `2 ^ 64`, which makes it smaller. -/
theorem utilPct_le {dIdle dWall : BitVec 64} (hle : dIdle ≤ dWall) :
    (utilPct dIdle dWall).toNat ≤ 100 := by
  have hsub : (dWall - dIdle).toNat ≤ dWall.toNat := by
    rw [BitVec.toNat_sub_of_le hle]
    omega
  have hquot : ((dWall - dIdle) * 100#64 / dWall).toNat ≤ 100 := by
    rw [BitVec.toNat_udiv, BitVec.toNat_mul]
    calc (dWall - dIdle).toNat * (100#64).toNat % 2 ^ 64 / dWall.toNat
      _ ≤ (dWall - dIdle).toNat * 100 / dWall.toNat := Nat.div_le_div_right (Nat.mod_le _ _)
      _ ≤ 100 := Nat.div_le_of_le_mul (Nat.mul_le_mul_right 100 hsub)
  unfold utilPct
  rw [BitVec.toNat_setWidth]
  omega

theorem addCpu_totalUtil {p : BitVec 32} {r : Nat → IdleTime} {a : Sample} {cpu : Nat}
    (h : a.totalUtil.toNat + 100 < 2 ^ 32) :
    (a.addCpu p r cpu).totalUtil.toNat ≤ a.totalUtil.toNat + 100 := by
  unfold Sample.addCpu
  split
  · omega
  split
  · omega
  · dsimp only
    split
    · next hd =>
      have hpct := utilPct_le hd.2
      rw [BitVec.toNat_add, Nat.mod_eq_of_lt (by omega)]
      omega
    · omega

theorem toNat_succ {x : BitVec 32} (h : x.toNat + 1 < 2 ^ 32) : (x + 1).toNat = x.toNat + 1 := by
  rw [BitVec.toNat_add]
  exact Nat.mod_eq_of_lt h

/-- The loop, over any list of CPUs that does not overflow the counters. -/
theorem foldl_addCpu {p : BitVec 32} {r : Nat → IdleTime} {l : List Nat} {a : Sample}
    (hbound : a.nrSampled.toNat + l.countP (Counted r) ≤ 1000)
    (hutil : a.totalUtil.toNat ≤ 100 * a.nrSampled.toNat)
    (hpark : a.onlineParkable.toNat ≤ a.nrSampled.toNat) :
    (l.foldl (Sample.addCpu p r) a).nrSampled.toNat =
        a.nrSampled.toNat + l.countP (Counted r) ∧
      (l.foldl (Sample.addCpu p r) a).totalUtil.toNat ≤
        100 * (l.foldl (Sample.addCpu p r) a).nrSampled.toNat ∧
      (l.foldl (Sample.addCpu p r) a).onlineParkable.toNat =
        a.onlineParkable.toNat + l.countP (fun cpu => Counted r cpu && test p cpu) := by
  induction l generalizing a with
  | nil => simpa using hutil
  | cons cpu l ih =>
    rw [List.foldl_cons]
    by_cases hc : Counted r cpu
    · simp only [List.countP_cons, hc, if_true, Bool.true_and] at hbound ⊢
      have hnr : (a.addCpu p r cpu).nrSampled.toNat = a.nrSampled.toNat + 1 := by
        rw [addCpu_nrSampled hc, toNat_succ (by omega)]
      have hop : (a.addCpu p r cpu).onlineParkable.toNat =
          a.onlineParkable.toNat + if test p cpu then 1 else 0 := by
        rw [addCpu_onlineParkable hc]
        split
        · exact toNat_succ (by omega)
        · rfl
      have htot : (a.addCpu p r cpu).totalUtil.toNat ≤ a.totalUtil.toNat + 100 :=
        addCpu_totalUtil (by omega)
      obtain ⟨h₁, h₂, h₃⟩ := ih (a := a.addCpu p r cpu) (by omega) (by omega) (by split at hop <;> omega)
      exact ⟨by omega, h₂, by omega⟩
    · have hskip := Bool.eq_false_iff.mpr hc
      simp only [List.countP_cons, hskip, Bool.false_and, Bool.false_eq_true, if_false,
        Nat.add_zero] at hbound ⊢
      rw [addCpu_skipped hskip]
      exact ih hbound hutil hpark

/-- Distinct CPUs below 16 are at most 16. -/
theorem countP_counted_le (cpus : Cpus) (s : Parking) (r : Nat → IdleTime) :
    (s.onlineCpus cpus).countP (Counted r) ≤ maxCpus := by
  have hnodup : ((s.onlineCpus cpus).filter (Counted r)).Nodup :=
    ((cpus.sorted.imp Nat.ne_of_lt).filter _).filter _
  have hsub : (s.onlineCpus cpus).filter (Counted r) ⊆ List.range maxCpus := by
    intro cpu hcpu
    grind [Counted]
  rw [List.countP_eq_length_filter]
  simpa using (hnodup.subperm hsub).length_le

/-- The counts and the sum, and none of them overflows. -/
theorem sample_spec (cpus : Cpus) (s : Parking) (r : Nat → IdleTime) :
    (s.sample cpus r).nrSampled.toNat = (s.onlineCpus cpus).countP (Counted r) ∧
      (s.sample cpus r).totalUtil.toNat ≤ 100 * (s.sample cpus r).nrSampled.toNat ∧
      (s.sample cpus r).onlineParkable.toNat = (s.onlineCpus cpus).countP fun cpu =>
        Counted r cpu && test s.params.parkableCpus cpu := by
  have hle := countP_counted_le cpus s r
  have hmax : maxCpus = 16 := rfl
  have h := foldl_addCpu (p := s.params.parkableCpus) (r := r) (l := s.onlineCpus cpus)
    (a := ⟨s.prevIdle, s.prevWall, 0#32, 0#32, 0#32⟩) (by rw [BitVec.toNat_zero]; omega) (Nat.zero_le _)
    (Nat.le_refl _)
  simpa only [Parking.sample, BitVec.toNat_zero, Nat.zero_add] using h

theorem sample_avg_le (cpus : Cpus) (s : Parking) (r : Nat → IdleTime) :
    (s.sample cpus r).totalUtil / (s.sample cpus r).nrSampled ≤ 100#32 := by
  rw [BitVec.le_def, BitVec.toNat_udiv]
  apply Nat.div_le_of_le_mul
  rw [Nat.mul_comm]
  exact (sample_spec cpus s r).2.1

end Azurefin
