import Mathlib.Algebra.Ring.Int.Defs
import Mathlib.Algebra.Ring.Nat
import Mathlib.Data.List.Basic
import Mathlib.Data.List.Forall2
import Mathlib.Logic.Function.Basic

/-!
# Programs that change a state and may stop early

`Act σ ε α` is a program over a state `σ` that yields an `α` or stops with an `ε`, and leaves
a state behind in both cases. `Act.Holds` is the triple for it, with one postcondition for
each way to end. The rules follow the constructors of a program: a value, a stop, a sequence,
a choice, a loop over a list.
-/

/-- Two failing computations in a row succeed exactly when both do. -/
theorem Except.bind_eq_ok {ε α β : Type} {x : Except ε α} {f : α → Except ε β} {b : β} :
    (x >>= f) = .ok b ↔ ∃ a, x = .ok a ∧ f a = .ok b := by
  cases x <;> simp [bind, Except.bind]

@[simp] theorem Except.ok_bind {ε α β : Type} (a : α) (f : α → Except ε β) :
    (Except.ok a >>= f) = f a := rfl

@[simp] theorem Except.error_bind {ε α β : Type} (e : ε) (f : α → Except ε β) :
    (Except.error e >>= f) = .error e := rfl

/-- A loop of checks passes when every check passes. -/
theorem Except.forM_eq_ok {ε α : Type} {xs : List α} {g : α → Except ε PUnit} {u : PUnit} :
    xs.forM g = .ok u ↔ ∀ x ∈ xs, g x = .ok () := by
  induction xs with
  | nil => simp [List.forM, pure, Except.pure]
  | cons x xs ih =>
    change (g x >>= fun _ => xs.forM g) = .ok u ↔ _
    simp only [Except.bind_eq_ok, ih, List.forall_mem_cons]
    exact ⟨fun ⟨_, hx, hs⟩ => ⟨hx, hs⟩, fun ⟨hx, hs⟩ => ⟨(), hx, hs⟩⟩

/-- A computation that succeeds on each item succeeds on all of them. -/
theorem Except.mapM_eq_ok {ε α β : Type} {xs : List α} {f : α → Except ε β} {g : α → β}
    (h : ∀ x ∈ xs, f x = .ok (g x)) : xs.mapM f = .ok (xs.map g) := by
  induction xs with
  | nil => rfl
  | cons x xs ih =>
    rw [List.mapM_cons, h x List.mem_cons_self, ih fun y hy => h y (List.mem_cons_of_mem _ hy)]
    rfl

/-- A computation that succeeds on a list yields one value for each item. -/
theorem Except.mapM_eq_ok_iff {ε α β : Type} {xs : List α} {ys : List β} {f : α → Except ε β} :
    xs.mapM f = .ok ys ↔ List.Forall₂ (fun x y => f x = .ok y) xs ys := by
  induction xs generalizing ys with
  | nil => simp [pure, Except.pure, eq_comm]
  | cons x xs ih =>
    rw [List.mapM_cons, Except.bind_eq_ok, List.forall₂_cons_left_iff]
    simp only [Except.bind_eq_ok, ih, pure, Except.pure, Except.ok.injEq]
    grind

/-- A loop with an accumulator that yields a value: what each step keeps holds at the end, and what
each step finds out about its item holds of every item. -/
theorem Except.foldlM_invariant {ε α β : Type} {I : β → Prop} {Q : α → Prop} {f : β → α → Except ε β}
    (step : ∀ b x c, I b → f b x = .ok c → I c ∧ Q x) :
    ∀ {xs : List α} {b c : β}, I b → xs.foldlM f b = .ok c → I c ∧ ∀ x ∈ xs, Q x := by
  intro xs
  induction xs with
  | nil =>
    intro b c hb h
    obtain rfl : b = c := by simpa [pure, Except.pure] using h
    exact ⟨hb, by simp⟩
  | cons x xs ih =>
    intro b c hb h
    rw [List.foldlM_cons] at h
    obtain ⟨b', hx, hxs⟩ := Except.bind_eq_ok.mp h
    obtain ⟨hb', hq⟩ := step b x b' hb hx
    obtain ⟨hc, hall⟩ := ih hb' hxs
    exact ⟨hc, List.forall_mem_cons.mpr ⟨hq, hall⟩⟩

/-- A check that stops with an error passes exactly when its condition fails. -/
theorem Except.check_eq_ok {ε α : Type} {c : Prop} [Decidable c] {e : ε} {x : Except ε α} {a : α} :
    (if c then .error e else x) = .ok a ↔ ¬ c ∧ x = .ok a := by
  split <;> simp_all

/-- A program over the state `σ`. Stopping with an `ε` does not undo what was done. -/
def Act (σ ε α : Type) := σ → Except ε α × σ

namespace Act

variable {σ ε α β : Type}

protected def pure (a : α) : Act σ ε α := fun s => (.ok a, s)

protected def bind (p : Act σ ε α) (f : α → Act σ ε β) : Act σ ε β := fun s =>
  match p s with
  | (.ok a, t) => f a t
  | (.error e, t) => (.error e, t)

instance : Monad (Act σ ε) where
  pure := Act.pure
  bind := Act.bind

/-- Stop here with `e`. -/
def raise (e : ε) : Act σ ε α := fun s => (.error e, s)

/-- The value of a computation that does not touch the state. -/
def ofExcept (r : Except ε α) : Act σ ε α := fun s => (r, s)

/-- Stop with `e` unless `c` holds. -/
def require (c : Bool) (e : ε) : Act σ ε Unit := if c then pure () else raise e

/-- Run `cleanup` when `p` ends, with a value or an error. -/
def ensuring (p : Act σ ε α) (cleanup : Act σ ε Unit) : Act σ ε α := fun s =>
  match p s with
  | (.ok a, t) => Act.bind cleanup (fun _ => Act.pure a) t
  | (.error e, t) => Act.bind cleanup (fun _ => raise e) t

/-- Go on with how `p` ends, with a value or an error. -/
def attempt (p : Act σ ε α) : Act σ ε (Except ε α) := fun s => (.ok (p s).1, (p s).2)

def read : Act σ ε σ := fun s => (.ok s, s)

/-- A program on the first part of a state. -/
def onFirst {τ : Type} (p : Act σ ε α) : Act (σ × τ) ε α := fun s => ((p s.1).1, (p s.1).2, s.2)

/-- Run a program with a part of the state that begins as `t` and is forgotten. -/
def within {τ : Type} (t : τ) (p : Act (σ × τ) ε α) : Act σ ε α := fun s => ((p (s, t)).1, (p (s, t)).2.1)

@[simp] theorem pure_apply (a : α) (s : σ) : (pure a : Act σ ε α) s = (.ok a, s) := rfl

@[simp] theorem raise_apply (e : ε) (s : σ) : (raise e : Act σ ε α) s = (.error e, s) := rfl

@[simp] theorem ofExcept_apply (r : Except ε α) (s : σ) : ofExcept r s = (r, s) := rfl

@[simp] theorem read_apply (s : σ) : (read : Act σ ε σ) s = (.ok s, s) := rfl

theorem bind_apply (p : Act σ ε α) (f : α → Act σ ε β) (s : σ) :
    (p >>= f) s = match p s with
      | (.ok a, t) => f a t
      | (.error e, t) => (.error e, t) := rfl

theorem bind_of_ok {p : Act σ ε α} {f : α → Act σ ε β} {s t : σ} {a : α}
    (h : p s = (.ok a, t)) : (p >>= f) s = f a t := by
  rw [bind_apply, h]

theorem bind_of_error {p : Act σ ε α} {f : α → Act σ ε β} {s t : σ} {e : ε}
    (h : p s = (.error e, t)) : (p >>= f) s = (.error e, t) := by
  rw [bind_apply, h]

/-- A sequence yields a value exactly when both parts do. -/
theorem bind_eq_ok {p : Act σ ε α} {f : α → Act σ ε β} {s u : σ} {b : β} :
    (p >>= f) s = (.ok b, u) ↔ ∃ a t, p s = (.ok a, t) ∧ f a t = (.ok b, u) := by
  rw [bind_apply]
  rcases p s with ⟨e | a, t⟩ <;> simp

theorem require_eq_ok {c : Bool} {e : ε} {s t : σ} {u : Unit} :
    require c e s = (.ok u, t) ↔ c = true ∧ s = t := by
  cases c <;> simp [require]

theorem ofExcept_eq_ok {r : Except ε α} {a : α} {s t : σ} :
    ofExcept r s = (.ok a, t) ↔ r = .ok a ∧ s = t := by
  simp

/-! ## Triples -/

/-- Every run from a state in `P` ends in `Q` when it yields a value and in `E` when it stops. -/
def Holds (P : σ → Prop) (p : Act σ ε α) (Q : α → σ → Prop) (E : ε → σ → Prop) : Prop :=
  ∀ s, P s → match p s with
    | (.ok a, t) => Q a t
    | (.error e, t) => E e t

namespace Holds

variable {P P' : σ → Prop} {Q Q' : α → σ → Prop} {E E' : ε → σ → Prop}

theorem ok {p : Act σ ε α} (h : Holds P p Q E) {s t : σ} {a : α} (hs : P s)
    (hp : p s = (.ok a, t)) : Q a t := by
  simpa [hp] using h s hs

theorem error {p : Act σ ε α} (h : Holds P p Q E) {s t : σ} {e : ε} (hs : P s)
    (hp : p s = (.error e, t)) : E e t := by
  simpa [hp] using h s hs

/-- What holds wherever the program ends. -/
theorem final {I : σ → Prop} {p : Act σ ε α} (h : Holds P p (fun _ => I) (fun _ => I)) {s : σ}
    (hs : P s) : I (p s).2 := by
  have hp := h s hs
  rcases hr : p s with ⟨e | a, t⟩ <;> simpa [hr] using hp

theorem weaken {p : Act σ ε α} (h : Holds P p Q E) (hP : ∀ s, P' s → P s)
    (hQ : ∀ a s, Q a s → Q' a s) (hE : ∀ e s, E e s → E' e s) : Holds P' p Q' E' := by
  intro s hs
  have hp := h s (hP s hs)
  rcases hr : p s with ⟨e | a, t⟩
  · exact hE e t (by simpa [hr] using hp)
  · exact hQ a t (by simpa [hr] using hp)

theorem pre {p : Act σ ε α} (h : Holds P p Q E) (hP : ∀ s, P' s → P s) : Holds P' p Q E :=
  h.weaken hP (fun _ _ h => h) fun _ _ h => h

theorem post {p : Act σ ε α} (h : Holds P p Q E) (hQ : ∀ a s, Q a s → Q' a s) : Holds P p Q' E :=
  h.weaken (fun _ h => h) hQ fun _ _ h => h

theorem and {p : Act σ ε α} (h : Holds P p Q E) (h' : Holds P' p Q' E') :
    Holds (fun s => P s ∧ P' s) p (fun a s => Q a s ∧ Q' a s) (fun e s => E e s ∧ E' e s) := by
  rintro s ⟨hs, hs'⟩
  have hp := h s hs
  have hp' := h' s hs'
  rcases hr : p s with ⟨e | a, t⟩ <;> rw [hr] at hp hp' <;> exact ⟨hp, hp'⟩

theorem pure {a : α} (h : ∀ s, P s → Q a s) : Holds P (pure a) Q E := fun s hs => h s hs

theorem raise {e : ε} (h : ∀ s, P s → E e s) : Holds P (raise e) Q E := fun s hs => h s hs

theorem read {Q : σ → σ → Prop} (h : ∀ s, P s → Q s s) : Holds P (read : Act σ ε σ) Q E :=
  fun s hs => h s hs

theorem ofExcept {r : Except ε α} (hok : ∀ s a, P s → r = .ok a → Q a s)
    (herr : ∀ s e, P s → r = .error e → E e s) : Holds P (ofExcept r) Q E := by
  intro s hs
  rcases r with e | a
  · exact herr s e hs rfl
  · exact hok s a hs rfl

theorem require {c : Bool} {e : ε} {Q : Unit → σ → Prop} (hc : ∀ s, P s → c = true → Q () s)
    (hn : ∀ s, P s → c = false → E e s) : Holds P (require c e) Q E := by
  intro s hs
  cases c with
  | true => exact hc s hs rfl
  | false => exact hn s hs rfl

/-- What was computed is remembered. -/
theorem computed {r : Except ε α} (h : ∀ s e, P s → E e s) :
    Holds P (Act.ofExcept r) (fun a s => P s ∧ r = .ok a) E :=
  .ofExcept (fun _ _ hs hr => ⟨hs, hr⟩) fun s e hs _ => h s e hs

/-- What was checked is remembered. -/
theorem required {c : Bool} {e : ε} (h : ∀ s, P s → E e s) :
    Holds P (Act.require c e) (fun _ s => P s ∧ c = true) E :=
  .require (fun _ hs hc => ⟨hs, hc⟩) fun s hs _ => h s hs

theorem bind {M : α → σ → Prop} {R : β → σ → Prop} {p : Act σ ε α} {f : α → Act σ ε β}
    (hp : Holds P p M E) (hf : ∀ a, Holds (M a) (f a) R E) : Holds P (p >>= f) R E := by
  intro s hs
  have h := hp s hs
  rw [bind_apply]
  rcases hr : p s with ⟨e | a, t⟩
  · simpa [hr] using h
  · exact hf a t (by simpa [hr] using h)

theorem ensuring {M : α → σ → Prop} {N : ε → σ → Prop} {p : Act σ ε α} {cleanup : Act σ ε Unit}
    (hp : Holds P p M N) (hok : ∀ a, Holds (M a) cleanup (fun _ => Q a) E)
    (herr : ∀ e, Holds (N e) cleanup (fun _ => E e) E) : Holds P (ensuring p cleanup) Q E := by
  intro s hs
  have h := hp s hs
  unfold Act.ensuring
  rcases hr : p s with ⟨e | a, t⟩ <;> rw [hr] at h
  · exact bind (herr e) (fun _ => raise fun _ he => he) t h
  · exact bind (hok a) (fun _ => pure fun _ ha => ha) t h

theorem attempt {Q : Except ε α → σ → Prop} {E' : ε → σ → Prop} {p : Act σ ε α}
    (h : Holds P p (fun a => Q (.ok a)) (fun e => Q (.error e))) : Holds P (attempt p) Q E' := by
  intro s hs
  have hp := h s hs
  change Q (p s).1 (p s).2
  rcases hr : p s with ⟨e | a, t⟩ <;> rw [hr] at hp <;> exact hp

/-- Where the program yields a value, it was started somewhere. -/
theorem reached {p : Act σ ε α} (h : Holds P p Q E) :
    Holds P p (fun a t => Q a t ∧ ∃ s, P s ∧ p s = (.ok a, t)) E := by
  intro s hs
  have hp := h s hs
  rcases hr : p s with ⟨e | a, t⟩ <;> rw [hr] at hp
  · exact hp
  · exact ⟨hp, s, hs, hr⟩

theorem onFirst {τ : Type} {p : Act σ ε α} (h : Holds P p Q E) :
    Holds (fun s : σ × τ => P s.1) (onFirst p) (fun a s => Q a s.1) (fun e s => E e s.1) := by
  rintro ⟨s, t⟩ hs
  have hp := h s hs
  simp only [Act.onFirst]
  rcases hr : p s with ⟨e | a, u⟩ <;> rw [hr] at hp <;> exact hp

theorem within {τ : Type} {t : τ} {p : Act (σ × τ) ε α}
    (h : Holds (fun s => P s.1) p (fun a s => Q a s.1) (fun e s => E e s.1)) : Holds P (within t p) Q E := by
  intro s hs
  have hp := h (s, t) hs
  simp only [Act.within]
  rcases hr : p (s, t) with ⟨e | a, u⟩ <;> rw [hr] at hp <;> exact hp

theorem ite {c : Prop} [Decidable c] {p q : Act σ ε α}
    (ht : c → Holds P p Q E) (he : ¬ c → Holds P q Q E) :
    Holds P (if c then p else q) Q E := by
  split
  · exact ht ‹_›
  · exact he ‹_›

/-- A precondition may rest on a fact that does not mention the state. -/
theorem assume {c : Prop} {p : Act σ ε α} (h : c → Holds P p Q E) :
    Holds (fun s => c ∧ P s) p Q E := fun s hs => h hs.1 s hs.2

theorem assume_right {c : Prop} {p : Act σ ε α} (h : c → Holds P p Q E) :
    Holds (fun s => P s ∧ c) p Q E := fun s hs => h hs.2 s hs.1

/-- A computation that yields a value goes on with it. -/
theorem bind_ok {r : Except ε α} {a : α} {f : α → Act σ ε β} {R : β → σ → Prop} (hr : r = .ok a)
    (h : Holds P (f a) R E) : Holds P (Act.ofExcept r >>= f) R E := by
  subst hr
  exact h

/-- A check that passes goes on. -/
theorem bind_true {c : Bool} {e : ε} {f : Unit → Act σ ε β} {R : β → σ → Prop} (hc : c = true)
    (h : Holds P (f ()) R E) : Holds P (Act.require c e >>= f) R E := by
  subst hc
  exact h

/-- A program may rest on a fact that its precondition implies. -/
theorem of_pre {c : Prop} {p : Act σ ε α} (hc : ∀ s, P s → c) (h : c → Holds P p Q E) :
    Holds P p Q E := fun s hs => h (hc s hs) s hs

theorem exists_pre {ι : Type} {P : ι → σ → Prop} {p : Act σ ε α}
    (h : ∀ i, Holds (P i) p Q E) : Holds (fun s => ∃ i, P i s) p Q E :=
  fun s ⟨i, hi⟩ => h i s hi

/-- A loop with an accumulator: the invariant speaks of the items still to come. -/
theorem foldlM {γ : Type} {I : List γ → α → σ → Prop} {f : α → γ → Act σ ε α}
    (step : ∀ x rest a, Holds (I (x :: rest) a) (f a x) (I rest) E) (xs : List γ) (a : α) :
    Holds (I xs a) (xs.foldlM f a) (I []) E := by
  induction xs generalizing a with
  | nil => exact pure fun _ hs => hs
  | cons x rest ih =>
    rw [List.foldlM_cons]
    exact bind (step x rest a) fun b => ih b

theorem forM {γ : Type} {I : List γ → σ → Prop} {f : γ → Act σ ε PUnit}
    (step : ∀ x rest, Holds (I (x :: rest)) (f x) (fun _ => I rest) E) (xs : List γ) :
    Holds (I xs) (xs.forM f) (fun _ => I []) E := by
  induction xs with
  | nil => exact pure fun _ hs => hs
  | cons x rest ih =>
    exact bind (step x rest) fun _ => ih

end Holds

end Act
