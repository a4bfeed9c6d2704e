import Mathlib.Logic.Function.Basic

/-!
# Advisory file locks

Processes that take exclusive locks without waiting, and critical sections that are entered
only with the lock of the section.
-/

/-- Who holds each lock file. -/
structure Flock (κ π : Type) where
  holder : κ → Option π

namespace Flock

variable {κ π : Type} {l m : Flock κ π} {k j : κ} {p q : π} {critical critical' : π → κ → Prop}

def free : Flock κ π := ⟨fun _ => none⟩

/-- Every process in a critical section holds the lock of the section. -/
def Guarded (l : Flock κ π) (critical : π → κ → Prop) : Prop :=
  ∀ p k, critical p k → l.holder k = some p

/-- Two processes are not in critical sections of one lock. -/
theorem Guarded.exclusive (h : l.Guarded critical) (hp : critical p k) (hq : critical q k) :
    p = q := Option.some.inj ((h p k hp).symm.trans (h q k hq))

theorem Guarded.mono (h : l.Guarded critical) (hsub : ∀ q j, critical' q j → critical q j) :
    l.Guarded critical' := fun q j hq => h q j (hsub q j hq)

variable [DecidableEq κ]

/-- `flock(fd, LOCK_EX | LOCK_NB)` -/
def lock (l : Flock κ π) (k : κ) (p : π) : Option (Flock κ π) :=
  match l.holder k with
  | none => some ⟨Function.update l.holder k (some p)⟩
  | some _ => none

theorem lock_eq_some (h : l.lock k p = some m) :
    l.holder k = none ∧ m.holder = Function.update l.holder k (some p) := by
  unfold lock at h
  split at h
  case h_1 hfree => exact ⟨hfree, by rw [← Option.some.inj h]⟩
  case h_2 => cases h

/-- A process enters a section with the lock. -/
theorem Guarded.lock (h : l.Guarded critical) (hl : l.lock k p = some m)
    (hsub : ∀ q j, critical' q j → critical q j ∨ q = p ∧ j = k) : m.Guarded critical' := by
  intro q j hq
  obtain ⟨hfree, hm⟩ := lock_eq_some hl
  rw [hm]
  rcases hsub q j hq with hold | ⟨rfl, rfl⟩
  · have hj := h q j hold
    have hne : j ≠ k := by
      rintro rfl
      simp [hfree] at hj
    rw [Function.update_of_ne hne, hj]
  · exact Function.update_self ..

/-- A process that ends no longer holds the lock. -/
def unlock [DecidableEq π] (l : Flock κ π) (k : κ) (p : π) : Flock κ π :=
  if l.holder k = some p then ⟨Function.update l.holder k none⟩ else l

/-- A process leaves its sections and gives up the lock. -/
theorem Guarded.unlock [DecidableEq π] (h : l.Guarded critical)
    (hsub : ∀ q j, critical' q j → critical q j ∧ q ≠ p) : (l.unlock k p).Guarded critical' := by
  intro q j hq
  obtain ⟨hold, hne⟩ := hsub q j hq
  have hj := h q j hold
  unfold Flock.unlock
  split
  case isTrue hk =>
    have hjk : j ≠ k := by
      rintro rfl
      exact hne (Option.some.inj (hj.symm.trans hk))
    simp only [Function.update_of_ne hjk, hj]
  case isFalse => exact hj

end Flock
