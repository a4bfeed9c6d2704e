import Mathlib.Data.List.Induction
import Mathlib.Data.Option.Basic

/-!
# Traces

A system takes one action at a time, where it can, and a trace is a sequence of actions.
Parties that run side by side are one system, whose actions name the party that acts.
-/

namespace Trace

variable {σ ι : Type} {step : σ → ι → Option σ}

/-- The state that the actions lead to; `none` when one of them cannot be taken. -/
def run (step : σ → ι → Option σ) : List ι → σ → Option σ
  | [], s => some s
  | i :: l, s => (step s i).bind (run step l)

@[simp]
theorem run_nil (s : σ) : run step [] s = some s := rfl

theorem run_cons_eq_some {i : ι} {l : List ι} {s t : σ} :
    run step (i :: l) s = some t ↔ ∃ u, step s i = some u ∧ run step l u = some t :=
  Option.bind_eq_some_iff

theorem run_append_eq_some {l m : List ι} {s t : σ} :
    run step (l ++ m) s = some t ↔ ∃ u, run step l s = some u ∧ run step m u = some t := by
  induction l generalizing s with
  | nil => simp
  | cons i l ih =>
    simp only [List.cons_append, run_cons_eq_some, ih]
    constructor
    · rintro ⟨v, hv, u, hu, ht⟩
      exact ⟨u, ⟨v, hv, hu⟩, ht⟩
    · rintro ⟨u, ⟨v, hv, hu⟩, ht⟩
      exact ⟨v, hv, u, hu, ht⟩

/-- What every action of a trace keeps holds after the trace. -/
theorem run_invariant {I : σ → Prop} {l : List ι} {s t : σ}
    (hstep : ∀ i ∈ l, ∀ u v, I u → step u i = some v → I v) (hs : I s)
    (h : run step l s = some t) : I t := by
  induction l generalizing s with
  | nil =>
    obtain rfl : s = t := by simpa using h
    exact hs
  | cons i l ih =>
    obtain ⟨u, hu, h⟩ := run_cons_eq_some.mp h
    apply ih (fun j hj => hstep j (List.mem_cons_of_mem _ hj)) _ h
    exact hstep i List.mem_cons_self s u hs hu

/-- A trace keeps to what its actions keep to. -/
theorem run_rel {R : σ → σ → Prop} (refl : ∀ s, R s s) (trans : ∀ s t u, R s t → R t u → R s u)
    (hstep : ∀ i s t, step s i = some t → R s t) {l : List ι} {s t : σ}
    (h : run step l s = some t) : R s t :=
  run_invariant (I := R s) (fun i _ u v hu hv => trans s u v hu (hstep i u v hv)) (refl s) h

/-- Induction over traces that grow at the end, with what was reached on the way. -/
theorem run_induction {I : List ι → σ → Prop} {l : List ι} {s t : σ} (nil : I [] s)
    (snoc : ∀ l i u v, run step l s = some u → I l u → step u i = some v → I (l ++ [i]) v)
    (h : run step l s = some t) : I l t := by
  induction l using List.reverseRecOn generalizing t with
  | nil =>
    obtain rfl : s = t := by simpa using h
    exact nil
  | append_singleton l i ih =>
    obtain ⟨u, hu, h⟩ := run_append_eq_some.mp h
    obtain ⟨v, hv, h⟩ := run_cons_eq_some.mp h
    obtain rfl : v = t := by simpa using h
    exact snoc l i u v hu (ih hu) hv

/-- A trace to a state with the property takes an action that brings it about. -/
theorem run_first {P : σ → Prop} {l : List ι} {s t : σ} (hs : ¬ P s) (ht : P t)
    (h : run step l s = some t) : ∃ l₁ i l₂ u v, l = l₁ ++ i :: l₂ ∧ run step l₁ s = some u ∧
      ¬ P u ∧ step u i = some v ∧ P v ∧ run step l₂ v = some t := by
  induction l generalizing s with
  | nil =>
    obtain rfl : s = t := by simpa using h
    exact absurd ht hs
  | cons i l ih =>
    obtain ⟨u, hu, h⟩ := run_cons_eq_some.mp h
    by_cases hp : P u
    · exact ⟨[], i, l, s, u, rfl, rfl, hs, hu, hp, h⟩
    · obtain ⟨l₁, j, l₂, v, w, rfl, hv, hrest⟩ := ih hp h
      exact ⟨i :: l₁, j, l₂, v, w, rfl, run_cons_eq_some.mpr ⟨u, hu, hv⟩, hrest⟩

end Trace
