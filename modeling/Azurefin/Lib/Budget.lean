import Azurefin.Lib.Act

/-!
# Programs that spend a budget

`Act.Spends left p S`: the runs of `p` that yield a value are exactly those that `S` names
with their cost, where the budget `left` covers it. The rules follow the constructors of a
program, as equivalences.
-/

namespace Act

variable {σ ε α β γ : Type} {left : σ → Nat}

/-- From a state with the budget `c + k` the program yields `a` and leaves `k`, exactly when `S`
says that `a` costs `c`. -/
def Spends (left : σ → Nat) (p : Act σ ε α) (S : α → Nat → Prop) : Prop :=
  ∀ s a k, (∃ t, p s = (.ok a, t) ∧ left t = k) ↔ ∃ c, S a c ∧ left s = c + k

/-- What a loop yields from `a`, and its cost, when `T` says so of each pass. -/
def Folds (T : α → γ → α → Nat → Prop) : List γ → α → α → Nat → Prop
  | [], a, b, c => b = a ∧ c = 0
  | x :: xs, a, b, c => ∃ m c₁ c₂, T a x m c₁ ∧ Folds T xs m b c₂ ∧ c = c₁ + c₂

namespace Spends

variable {p : Act σ ε α} {S S' : α → Nat → Prop}

/-- A value is yielded exactly when the budget covers its cost. -/
theorem yields_iff (h : Spends left p S) {s : σ} {a : α} :
    (∃ t, p s = (.ok a, t)) ↔ ∃ c, S a c ∧ c ≤ left s := by
  constructor
  · rintro ⟨t, ht⟩
    obtain ⟨c, hc, hs⟩ := (h s a (left t)).mp ⟨t, ht, rfl⟩
    exact ⟨c, hc, by omega⟩
  · rintro ⟨c, hc, hle⟩
    obtain ⟨t, ht, -⟩ := (h s a (left s - c)).mpr ⟨c, hc, by omega⟩
    exact ⟨t, ht⟩

theorem congr (h : Spends left p S) (hS : ∀ a c, S a c ↔ S' a c) : Spends left p S' := by
  intro s a k
  simp only [h s a k, hS]

theorem pure (a : α) : Spends left (Pure.pure a : Act σ ε α) fun b c => b = a ∧ c = 0 := by
  intro s b k
  constructor
  · rintro ⟨t, ht, rfl⟩
    obtain ⟨hb, rfl⟩ := Prod.mk.inj ht
    exact ⟨0, ⟨(Except.ok.inj hb).symm, rfl⟩, (Nat.zero_add _).symm⟩
  · rintro ⟨c, ⟨rfl, rfl⟩, hs⟩
    exact ⟨s, rfl, by omega⟩

theorem raise (e : ε) : Spends left (Act.raise e : Act σ ε α) fun _ _ => False := by
  intro s a k
  simp [Act.raise]

theorem ofExcept (x : Except ε α) :
    Spends left (Act.ofExcept x) fun a c => x = .ok a ∧ c = 0 := by
  cases x with
  | error e => exact (raise e).congr fun a c => by simp
  | ok a => exact (pure a).congr fun b c => by simp [eq_comm]

/-- The costs of both parts add up. -/
theorem bind {f : α → Act σ ε β} {T : α → β → Nat → Prop} (hp : Spends left p S)
    (hf : ∀ a c, S a c → Spends left (f a) (T a)) :
    Spends left (p >>= f) fun b c => ∃ a c₁ c₂, S a c₁ ∧ T a b c₂ ∧ c = c₁ + c₂ := by
  intro s b k
  constructor
  · rintro ⟨u, hu, hk⟩
    obtain ⟨a, t, ht, hfa⟩ := bind_eq_ok.mp hu
    obtain ⟨c₁, hc₁, hs⟩ := (hp s a (left t)).mp ⟨t, ht, rfl⟩
    obtain ⟨c₂, hc₂, ht⟩ := (hf a c₁ hc₁ t b k).mp ⟨u, hfa, hk⟩
    exact ⟨c₁ + c₂, ⟨a, c₁, c₂, hc₁, hc₂, rfl⟩, by omega⟩
  · rintro ⟨c, ⟨a, c₁, c₂, hc₁, hc₂, rfl⟩, hs⟩
    obtain ⟨t, ht, hleft⟩ := (hp s a (c₂ + k)).mpr ⟨c₁, hc₁, by omega⟩
    obtain ⟨u, hu, hk⟩ := (hf a c₁ hc₁ t b k).mpr ⟨c₂, hc₂, hleft⟩
    exact ⟨u, bind_eq_ok.mpr ⟨a, t, ht, hu⟩, hk⟩

/-- A part that costs nothing. -/
theorem check {c : Prop} [Decidable c] {e : ε} (hp : Spends left p S) :
    Spends left (if c then Act.raise e else p) fun a k => ¬ c ∧ S a k := by
  split
  case isTrue hc => exact (raise e).congr fun a k => by simp [hc]
  case isFalse hc => exact hp.congr fun a k => by simp [hc]

theorem foldlM {f : α → γ → Act σ ε α} {T : α → γ → α → Nat → Prop} {xs : List γ}
    (hf : ∀ a, ∀ x ∈ xs, Spends left (f a x) (T a x)) (a : α) :
    Spends left (xs.foldlM f a) (Folds T xs a) := by
  induction xs generalizing a with
  | nil => exact pure a
  | cons x xs ih =>
    rw [List.foldlM_cons]
    refine (hf a x List.mem_cons_self).bind fun b _ _ => ?_
    exact ih (fun c y hy => hf c y (List.mem_cons_of_mem _ hy)) b

end Spends

end Act
