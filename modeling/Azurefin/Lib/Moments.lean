import Azurefin.Lib.Prog

/-!
# Two moments of one run

The state that a schedule leaves is the state of every longer run at that moment. `Prog.Advances P p Q R`
relates two moments of one run: what is left when the schedule is cut off somewhere, and what is left when
it is longer. So a fact that must not be undone, once it holds, is a relation `R` that each operation
keeps.

## Main results

* `Prog.Advances.pairwise_moments` — every moment of a run is related to every later one.
-/

namespace Prog

variable {σ ε α β : Type} {P : σ → Prop} {R : σ → σ → Prop}

/-- From a state in `P`, every moment is related to every later one by `R`, a run that is not cut off
ends in the same way however long its schedule is, and a run that returns ends in `Q`. -/
structure Advances (P : σ → Prop) (p : Prog σ ε α) (Q : α → σ → Prop) (R : σ → σ → Prop) : Prop where
  start : ∀ {s fates}, P s → R s (p ⟨fates, s⟩).2.state
  cut : ∀ {s fates rest v}, P s → p ⟨fates, s⟩ = (.error .killed, v) → R v.state (p ⟨fates ++ rest, s⟩).2.state
  ended : ∀ {s fates rest r v}, P s → p ⟨fates, s⟩ = (r, v) → r ≠ .error .killed →
    p ⟨fates ++ rest, s⟩ = (r, ⟨v.fates ++ rest, v.state⟩)
  post : ∀ {s fates a v}, P s → p ⟨fates, s⟩ = (.ok a, v) → Q a v.state

namespace Advances

variable {Q : α → σ → Prop}

theorem weaken {P' : σ → Prop} {Q' : α → σ → Prop} {p : Prog σ ε α} (h : Advances P p Q R) (hP : ∀ s, P' s → P s)
    (hQ : ∀ a s, Q a s → Q' a s) : Advances P' p Q' R where
  start hs := h.start (hP _ hs)
  cut hs hp := h.cut (hP _ hs) hp
  ended hs hp hr := h.ended (hP _ hs) hp hr
  post hs hp := hQ _ _ (h.post (hP _ hs) hp)

theorem assume {c : Prop} {p : Prog σ ε α} (h : c → Advances P p Q R) : Advances (fun s => c ∧ P s) p Q R where
  start hs := (h hs.1).start hs.2
  cut hs hp := (h hs.1).cut hs.2 hp
  ended hs hp hr := (h hs.1).ended hs.2 hp hr
  post hs hp := (h hs.1).post hs.2 hp

theorem ite {c : Prop} [Decidable c] {p q : Prog σ ε α} (ht : c → Advances P p Q R) (he : ¬ c → Advances P q Q R) :
    Advances P (if c then p else q) Q R := by
  split
  · exact ht ‹_›
  · exact he ‹_›

variable [IsPreorder σ R]

theorem pure {a : α} (h : ∀ s, P s → Q a s) : Advances P (pure a : Prog σ ε α) Q R where
  start _ := refl_of R _
  cut _ hp := by cases hp
  ended _ hp _ := by
    cases hp
    rfl
  post hs hp := by
    cases hp
    exact h _ hs

theorem raise {e : ε} : Advances P (raise e : Prog σ ε α) Q R where
  start _ := refl_of R _
  cut _ hp := by cases hp
  ended _ hp _ := by
    cases hp
    rfl
  post _ hp := by cases hp

theorem ofExcept {r : Except ε α} (h : ∀ s a, P s → r = .ok a → Q a s) : Advances P (ofExcept r) Q R := by
  cases r with
  | error e => exact raise
  | ok a => exact pure fun s hs => h s a hs rfl

theorem require {c : Bool} {e : ε} {Q : Unit → σ → Prop} (h : ∀ s, P s → c = true → Q () s) :
    Advances P (require c e) Q R := by
  cases c with
  | false => exact raise
  | true => exact pure fun s hs => h s hs rfl

/-- One operation: a run is cut off before it or not at all. -/
theorem step {act : Fate → σ → Except ε α × σ} (h : ∀ c s, P s → R s (act c s).2 ∧
    ∀ a, (act c s).1 = .ok a → Q a (act c s).2) : Advances P (Prog.step act) Q R := by
  have hrun : ∀ c rest s, Prog.step act ⟨c :: rest, s⟩ =
      ((act c s).1.mapError Stop.raised, ⟨rest, (act c s).2⟩) := by
    intro c rest s
    simp only [Prog.step]
    rcases act c s with ⟨e | a, t⟩ <;> rfl
  refine ⟨fun {s fates} hs => ?_, fun {s fates rest v} hs hp => ?_, fun {s fates rest r v} hs hp hr => ?_,
    fun {s fates a v} hs hp => ?_⟩
  · cases fates with
    | nil => exact refl_of R s
    | cons c fates => exact hrun c fates s ▸ (h c s hs).1
  · cases fates with
    | nil =>
      cases hp
      cases rest with
      | nil => exact refl_of R s
      | cons c rest => exact hrun c rest s ▸ (h c s hs).1
    | cons c fates =>
      rw [hrun] at hp
      rcases hact : (act c s).1 with e | a <;> rw [hact] at hp <;> cases hp
  · cases fates with
    | nil =>
      cases hp
      exact absurd rfl hr
    | cons c fates =>
      rw [hrun] at hp
      obtain ⟨rfl, rfl⟩ := Prod.mk.inj hp
      exact hrun c (fates ++ rest) s
  · cases fates with
    | nil => cases hp
    | cons c fates =>
      rw [hrun] at hp
      obtain ⟨hresult, rfl⟩ := Prod.mk.inj hp
      rcases hact : (act c s).1 with e | b <;> rw [hact] at hresult
      · cases hresult
      · obtain rfl := Except.ok.inj hresult
        exact (h c s hs).2 b hact

theorem look {onFail : ε} {f : σ → Except ε α} (h : ∀ s a, P s → f s = .ok a → Q a s) :
    Advances P (look onFail f) Q R := by
  refine step fun c s hs => ?_
  cases c with
  | go => exact ⟨refl_of R s, fun a ha => h s a hs ha⟩
  | fail progress => exact ⟨refl_of R s, fun a ha => by cases ha⟩

theorem bind {M : α → σ → Prop} {Q : β → σ → Prop} {p : Prog σ ε α} {f : α → Prog σ ε β}
    (hp : Advances P p M R) (hf : ∀ a, Advances (M a) (f a) Q R) : Advances P (p >>= f) Q R := by
  have hstart : ∀ {s fates}, P s → R s (p ⟨fates, s⟩).2.state → R s ((p >>= f) ⟨fates, s⟩).2.state ∧
      R (p ⟨fates, s⟩).2.state ((p >>= f) ⟨fates, s⟩).2.state := by
    intro s fates hs hfirst
    rw [Act.bind_apply]
    rcases hrun : p ⟨fates, s⟩ with ⟨e | a, v⟩ <;> rw [hrun] at hfirst
    · exact ⟨hfirst, refl_of R v.state⟩
    · have hsecond : R v.state (f a ⟨v.fates, v.state⟩).2.state := (hf a).start (hp.post hs hrun)
      exact ⟨trans_of R hfirst hsecond, hsecond⟩
  refine ⟨fun {s fates} hs => (hstart hs (hp.start hs)).1, fun {s fates rest v} hs hrun => ?_,
    fun {s fates rest r v} hs hrun hr => ?_, fun {s fates b v} hs hrun => ?_⟩
  · rcases hfirst : p ⟨fates, s⟩ with ⟨e | a, u⟩ <;> rw [Act.bind_apply, hfirst] at hrun
    · obtain ⟨rfl, rfl⟩ : e = .killed ∧ u = v := by simpa using hrun
      exact trans_of R (hp.cut hs hfirst) (hstart hs (hp.start hs)).2
    · rw [Act.bind_of_ok (hp.ended hs hfirst (by simp))]
      exact (hf a).cut (hp.post hs hfirst) hrun
  · rcases hfirst : p ⟨fates, s⟩ with ⟨e | a, u⟩ <;> rw [Act.bind_apply, hfirst] at hrun
    · obtain ⟨rfl, rfl⟩ := Prod.mk.inj hrun
      exact Act.bind_of_error (hp.ended hs hfirst (by simpa using hr))
    · rw [Act.bind_of_ok (hp.ended hs hfirst (by simp))]
      exact (hf a).ended (hp.post hs hfirst) hrun hr
  · obtain ⟨a, u, hfirst, hsecond⟩ := Act.bind_eq_ok.mp hrun
    exact (hf a).post (hp.post hs hfirst) hsecond

theorem forM {γ : Type} {I : List γ → σ → Prop} {f : γ → Prog σ ε PUnit}
    (step : ∀ x rest, Advances (I (x :: rest)) (f x) (fun _ => I rest) R) (xs : List γ) :
    Advances (I xs) (xs.forM f) (fun _ => I []) R := by
  induction xs with
  | nil => exact pure fun _ hs => hs
  | cons x rest ih => exact (step x rest).bind fun _ => ih

end Advances

/-! ## Moments -/

/-- The states that a run goes through, the last one included. -/
def moments (p : Prog σ ε α) (fates : List Fate) (s : σ) : List σ :=
  (List.range (fates.length + 1)).map fun n => (p ⟨fates.take n, s⟩).2.state

theorem mem_moments {p : Prog σ ε α} {fates : List Fate} {s t : σ} :
    t ∈ moments p fates s ↔ ∃ n ≤ fates.length, t = (p ⟨fates.take n, s⟩).2.state := by
  simp only [moments, List.mem_map, List.mem_range, Nat.lt_succ_iff]
  exact ⟨fun ⟨n, hn, ht⟩ => ⟨n, hn, ht.symm⟩, fun ⟨n, hn, ht⟩ => ⟨n, hn, ht.symm⟩⟩

variable {Q : α → σ → Prop} {p : Prog σ ε α} {s : σ} {fates : List Fate}

theorem Advances.later [IsPreorder σ R] (h : Advances P p Q R) (hs : P s) {n m : Nat} (hle : n ≤ m) :
    R (p ⟨fates.take n, s⟩).2.state (p ⟨fates.take m, s⟩).2.state := by
  obtain ⟨rest, hrest⟩ : fates.take n <+: fates.take m := List.take_prefix_take_left hle
  rw [← hrest]
  rcases hrun : p ⟨fates.take n, s⟩ with ⟨r, v⟩
  by_cases hr : r = .error .killed
  · exact h.cut hs (hr ▸ hrun)
  · rw [h.ended hs hrun hr]
    exact refl_of R v.state

/-- Every moment is related to every later one, and to the end. -/
theorem Advances.pairwise_moments [IsPreorder σ R] (h : Advances P p Q R) (hs : P s) (fates : List Fate) :
    (moments p fates s).Pairwise R ∧ ∀ t ∈ moments p fates s, R s t ∧ R t (p ⟨fates, s⟩).2.state := by
  constructor
  · rw [moments, List.pairwise_map]
    exact List.pairwise_lt_range.imp fun hlt => h.later hs (Nat.le_of_lt hlt)
  · intro t ht
    obtain ⟨n, hn, rfl⟩ := mem_moments.mp ht
    refine ⟨h.start hs, ?_⟩
    have hlast : R (p ⟨fates.take n, s⟩).2.state (p ⟨fates.take fates.length, s⟩).2.state := h.later hs hn
    rwa [List.take_length] at hlast

end Prog
