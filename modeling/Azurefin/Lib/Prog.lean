import Azurefin.Lib.Act

/-!
# Programs in a failing environment

`Prog σ ε α` is a program whose single operations may fail, and which may be killed between
any two of them. A schedule, a list of fates, decides this: every operation takes the next
fate, and a program whose schedule is used up is killed where it stands. So the state left by
a run is also the state of every longer run at that moment: a statement about all schedules
is a statement about every intermediate state of every run.

Cleanup handlers run when a program ends normally or by an error, and not when it is killed.

## Main definitions

* `Prog.Ensures` — the triple, with a postcondition for normal end, error and kill.
* `Prog.Goes` — the run in which no operation fails.
-/

/-- What the environment makes of one operation. A failing operation may have been carried
out in part; what `progress` means is up to the operation. -/
inductive Fate where
  | go
  | fail (progress : Nat)
  deriving DecidableEq, Repr

/-- How a program stops early. No handler of the program sees a kill. -/
inductive Stop (ε : Type) where
  | raised (e : ε)
  | killed
  deriving DecidableEq, Repr

structure World (σ : Type) where
  fates : List Fate
  state : σ

abbrev Prog (σ ε α : Type) := Act (World σ) (Stop ε) α

namespace Prog

variable {σ τ ε α β : Type}

/-- One operation of the program: it takes the next fate of the schedule. -/
def step (act : Fate → σ → Except ε α × σ) : Prog σ ε α := fun w =>
  match w.fates with
  | [] => (.error .killed, w)
  | c :: rest =>
    match act c w.state with
    | (.ok a, s) => (.ok a, ⟨rest, s⟩)
    | (.error e, s) => (.error (.raised e), ⟨rest, s⟩)

/-- An operation that can be cut off but does not fail. -/
def sure (f : σ → σ) : Prog σ ε Unit := step fun _ s => (.ok (), f s)

/-- An operation that reads the state and does not fail. -/
def observe (f : σ → α) : Prog σ ε α := step fun _ s => (.ok (f s), s)

/-- An operation that looks at the state and changes nothing. -/
def look (onFail : ε) (f : σ → Except ε α) : Prog σ ε α :=
  step fun
    | .go, s => (f s, s)
    | .fail _, s => (.error onFail, s)

/-- Stop with an error; this is not an operation, so it takes no fate. -/
def raise (e : ε) : Prog σ ε α := Act.raise (.raised e)

/-- A computation without operations. -/
def ofExcept : Except ε α → Prog σ ε α
  | .ok a => pure a
  | .error e => raise e

/-- Stop with `e` unless `c` holds. -/
def require (c : Bool) (e : ε) : Prog σ ε Unit := if c then pure () else raise e

/-- Run `cleanup` when `p` ends, normally or by an error. An error of the handler itself
replaces the one of `p`. -/
def withCleanup (p : Prog σ ε α) (cleanup : Prog σ ε Unit) : Prog σ ε α := fun w =>
  match p w with
  | (.ok a, v) => (cleanup >>= fun _ => pure a) v
  | (.error .killed, v) => (.error .killed, v)
  | (.error (.raised e), v) => (cleanup >>= fun _ => raise e) v

/-- Continue with `handler` after an error. -/
def orElse (p : Prog σ ε α) (handler : ε → Prog σ ε α) : Prog σ ε α := fun w =>
  match p w with
  | (.error (.raised e), v) => handler e v
  | r => r

/-- Run a program on a part of a larger state. -/
def zoom (part : τ → σ) (put : τ → σ → τ) (p : Prog σ ε α) : Prog τ ε α := fun w =>
  match p ⟨w.fates, part w.state⟩ with
  | (r, v) => (r, ⟨v.fates, put w.state v.state⟩)

/-! ## Triples -/

/-- From a state in `P`, a run ends in `Q` when it returns, in `R` when it raises, and leaves
a state in `K` when it is killed. -/
def Ensures (P : σ → Prop) (p : Prog σ ε α) (Q : α → σ → Prop) (R : ε → σ → Prop)
    (K : σ → Prop) : Prop :=
  Act.Holds (fun w => P w.state) p (fun a w => Q a w.state)
    (fun stop w => match stop with
      | .raised e => R e w.state
      | .killed => K w.state)

namespace Ensures

variable {P P' : σ → Prop} {Q Q' : α → σ → Prop} {R R' : ε → σ → Prop} {K K' : σ → Prop}

theorem returned {p : Prog σ ε α} (h : Ensures P p Q R K) {w v : World σ} {a : α}
    (hw : P w.state) (hp : p w = (.ok a, v)) : Q a v.state := Act.Holds.ok h hw hp

theorem raised {p : Prog σ ε α} (h : Ensures P p Q R K) {w v : World σ} {e : ε}
    (hw : P w.state) (hp : p w = (.error (.raised e), v)) : R e v.state :=
  Act.Holds.error h hw hp

theorem killed {p : Prog σ ε α} (h : Ensures P p Q R K) {w v : World σ}
    (hw : P w.state) (hp : p w = (.error .killed, v)) : K v.state := Act.Holds.error h hw hp

theorem weaken {p : Prog σ ε α} (h : Ensures P p Q R K) (hP : ∀ s, P' s → P s)
    (hQ : ∀ a s, Q a s → Q' a s) (hR : ∀ e s, R e s → R' e s) (hK : ∀ s, K s → K' s) :
    Ensures P' p Q' R' K' := by
  refine Act.Holds.weaken h (fun w hw => hP _ hw) (fun a w hw => hQ a _ hw) ?_
  rintro (e | _) w hw
  · exact hR e _ hw
  · exact hK _ hw

/-- An invariant is a postcondition for every way to end. -/
theorem invariant {p : Prog σ ε α} {I : σ → Prop}
    (h : Ensures P p (fun _ => I) (fun _ => I) I) {w v : World σ} {r : Except (Stop ε) α}
    (hw : P w.state) (hp : p w = (r, v)) : I v.state := by
  rcases r with (e | _) | a
  · exact h.raised hw hp
  · exact h.killed hw hp
  · exact h.returned hw hp

theorem pure {a : α} (h : ∀ s, P s → Q a s) : Ensures P (pure a : Prog σ ε α) Q R K :=
  Act.Holds.pure fun _ hw => h _ hw

theorem raise {e : ε} (h : ∀ s, P s → R e s) : Ensures P (raise e : Prog σ ε α) Q R K :=
  Act.Holds.raise fun _ hw => h _ hw

theorem ofExcept {r : Except ε α} (hok : ∀ s a, P s → r = .ok a → Q a s)
    (herr : ∀ s e, P s → r = .error e → R e s) : Ensures P (ofExcept r) Q R K := by
  rcases r with e | a
  · exact raise fun s hs => herr s e hs rfl
  · exact pure fun s hs => hok s a hs rfl

theorem require {c : Bool} {e : ε} {Q : Unit → σ → Prop} (hc : ∀ s, P s → c = true → Q () s)
    (he : ∀ s, P s → c = false → R e s) : Ensures P (require c e) Q R K := by
  cases c
  · exact raise fun s hs => he s hs rfl
  · exact pure fun s hs => hc s hs rfl

theorem bind {M : α → σ → Prop} {Q : β → σ → Prop} {p : Prog σ ε α} {f : α → Prog σ ε β}
    (hp : Ensures P p M R K) (hf : ∀ a, Ensures (M a) (f a) Q R K) :
    Ensures P (p >>= f) Q R K := Act.Holds.bind hp hf

theorem ite {c : Prop} [Decidable c] {p q : Prog σ ε α} (ht : c → Ensures P p Q R K)
    (he : ¬ c → Ensures P q Q R K) : Ensures P (if c then p else q) Q R K :=
  Act.Holds.ite ht he

theorem assume {c : Prop} {p : Prog σ ε α} (h : c → Ensures P p Q R K) :
    Ensures (fun s => c ∧ P s) p Q R K := Act.Holds.assume h

theorem exists_pre {ι : Type} {P : ι → σ → Prop} {p : Prog σ ε α}
    (h : ∀ i, Ensures (P i) p Q R K) : Ensures (fun s => ∃ i, P i s) p Q R K :=
  Act.Holds.exists_pre (P := fun i (w : World σ) => P i w.state) h

/-- A triple may be proved for each state of its precondition. -/
theorem each {p : Prog σ ε α} (h : ∀ s, P s → Ensures (· = s) p Q R K) : Ensures P p Q R K :=
  fun w hw => h w.state hw w rfl

/-- Two triples hold together. -/
theorem and {p : Prog σ ε α} (h : Ensures P p Q R K) (h' : Ensures P' p Q' R' K') :
    Ensures (fun s => P s ∧ P' s) p (fun a s => Q a s ∧ Q' a s) (fun e s => R e s ∧ R' e s)
      (fun s => K s ∧ K' s) := by
  intro w hw
  have h := h w hw.1
  have h' := h' w hw.2
  rcases hr : p w with ⟨(e | _) | a, v⟩ <;> rw [hr] at h h' <;> exact ⟨h, h'⟩

theorem or_pre {p : Prog σ ε α} (h : Ensures P p Q R K) (h' : Ensures P' p Q R K) :
    Ensures (fun s => P s ∨ P' s) p Q R K := fun w hw => hw.elim (h w) (h' w)

theorem step {act : Fate → σ → Except ε α × σ} (hK : ∀ s, P s → K s)
    (h : ∀ c s, P s → match act c s with
      | (.ok a, t) => Q a t
      | (.error e, t) => R e t) : Ensures P (step act) Q R K := by
  rintro ⟨_ | ⟨c, rest⟩, s⟩ hs
  · exact hK s hs
  · have hc := h c s hs
    simp only [Prog.step]
    rcases hact : act c s with ⟨e | a, t⟩ <;> simpa [hact] using hc

theorem sure {f : σ → σ} {Q : Unit → σ → Prop} (hK : ∀ s, P s → K s)
    (h : ∀ s, P s → Q () (f s)) : Ensures P (sure f : Prog σ ε Unit) Q R K :=
  step hK fun _ s hs => h s hs

theorem observe {f : σ → α} (hK : ∀ s, P s → K s) (h : ∀ s, P s → Q (f s) s) :
    Ensures P (observe f) Q R K :=
  step hK fun _ s hs => h s hs

theorem look {onFail : ε} {f : σ → Except ε α} (hK : ∀ s, P s → K s)
    (hok : ∀ s a, P s → f s = .ok a → Q a s) (herr : ∀ e s, P s → R e s) :
    Ensures P (look onFail f) Q R K := by
  refine step hK fun c s hs => ?_
  rcases c with _ | k
  · rcases hf : f s with e | a
    · simpa [hf] using herr e s hs
    · simpa [hf] using hok s a hs hf
  · exact herr onFail s hs

/-- The handler starts from what the body ensures when it returns or raises. -/
theorem withCleanup {M : α → σ → Prop} {N : ε → σ → Prop} {p : Prog σ ε α}
    {cleanup : Prog σ ε Unit} (hp : Ensures P p M N K)
    (hok : ∀ a, Ensures (M a) cleanup (fun _ => Q a) R K)
    (herr : ∀ e, Ensures (N e) cleanup (fun _ => R e) R K) :
    Ensures P (withCleanup p cleanup) Q R K := by
  intro w hw
  have h := hp w hw
  unfold Prog.withCleanup
  rcases hr : p w with ⟨(e | _) | a, v⟩
  · exact bind (herr e) (fun _ => raise fun _ hs => hs) v (by simpa [hr] using h)
  · simpa [hr] using h
  · exact bind (hok a) (fun _ => pure fun _ hs => hs) v (by simpa [hr] using h)

theorem orElse {N : ε → σ → Prop} {p : Prog σ ε α} {handler : ε → Prog σ ε α}
    (hp : Ensures P p Q N K) (herr : ∀ e, Ensures (N e) (handler e) Q R K) :
    Ensures P (orElse p handler) Q R K := by
  intro w hw
  have h := hp w hw
  unfold Prog.orElse
  rcases hr : p w with ⟨(e | _) | a, v⟩
  · exact herr e v (by simpa [hr] using h)
  · simpa [hr] using h
  · simpa [hr] using h

/-- What a program ensures of its part of the state, it ensures of the whole. -/
theorem zoom {part : τ → σ} {put : τ → σ → τ} {P : τ → Prop} {Q : α → τ → Prop}
    {R : ε → τ → Prop} {K : τ → Prop} {p : Prog σ ε α}
    (h : ∀ t, P t → Ensures (fun s => s = part t) p (fun a s => Q a (put t s))
      (fun e s => R e (put t s)) (fun s => K (put t s))) :
    Ensures P (zoom part put p) Q R K := by
  intro w hw
  have hp := h w.state hw ⟨w.fates, part w.state⟩ rfl
  unfold Prog.zoom
  rcases hr : p ⟨w.fates, part w.state⟩ with ⟨(e | _) | a, v⟩ <;> simpa [hr] using hp

theorem foldlM {γ : Type} {I : List γ → α → σ → Prop} {f : α → γ → Prog σ ε α}
    (step : ∀ x rest a, Ensures (I (x :: rest) a) (f a x) (I rest) R K) (xs : List γ) (a : α) :
    Ensures (I xs a) (xs.foldlM f a) (I []) R K :=
  Act.Holds.foldlM (I := fun ys b (w : World σ) => I ys b w.state) step xs a

theorem forM {γ : Type} {I : List γ → σ → Prop} {f : γ → Prog σ ε PUnit}
    (step : ∀ x rest, Ensures (I (x :: rest)) (f x) (fun _ => I rest) R K) (xs : List γ) :
    Ensures (I xs) (xs.forM f) (fun _ => I []) R K :=
  Act.Holds.forM (I := fun ys (w : World σ) => I ys w.state) step xs

end Ensures

/-! ## Returned values -/

/-- Every value that `p` returns is in `Q`, whatever the state. -/
def Returns (p : Prog σ ε α) (Q : α → Prop) : Prop := ∀ w a v, p w = (.ok a, v) → Q a

namespace Returns

variable {Q : α → Prop}

theorem any (p : Prog σ ε α) : Returns p fun _ => True := fun _ _ _ _ => trivial

theorem ensures {p : Prog σ ε α} (h : Returns p Q) {P : σ → Prop} :
    Ensures P p (fun a _ => Q a) (fun _ _ => True) (fun _ => True) := by
  intro w _
  rcases hr : p w with ⟨(e | _) | a, v⟩
  · trivial
  · trivial
  · exact h w a v hr

theorem pure {a : α} (h : Q a) : Returns (pure a : Prog σ ε α) Q := by
  rintro w b v hw
  cases hw
  exact h

theorem raise {e : ε} : Returns (raise e : Prog σ ε α) Q := fun _ _ _ h => by cases h

theorem ofExcept {r : Except ε α} (h : ∀ a, r = .ok a → Q a) :
    Returns (ofExcept r : Prog σ ε α) Q := by
  rcases r with e | a
  · exact raise
  · exact pure (h a rfl)

theorem bind {M : α → Prop} {Q : β → Prop} {p : Prog σ ε α} {f : α → Prog σ ε β}
    (hp : Returns p M) (hf : ∀ a, M a → Returns (f a) Q) : Returns (p >>= f) Q := by
  intro w b v h
  obtain ⟨a, u, ha, hb⟩ := Act.bind_eq_ok.mp h
  exact hf a (hp w a u ha) u b v hb

theorem ite {c : Prop} [Decidable c] {p q : Prog σ ε α} (ht : c → Returns p Q)
    (he : ¬ c → Returns q Q) : Returns (if c then p else q) Q := by
  split
  · exact ht ‹_›
  · exact he ‹_›

theorem look {onFail : ε} {f : σ → Except ε α} (h : ∀ s a, f s = .ok a → Q a) :
    Returns (look onFail f) Q := by
  rintro ⟨_ | ⟨_ | _, rest⟩, s⟩ a v hw <;> simp only [Prog.look, Prog.step] at hw
  · cases hw
  · rcases hf : f s with e | b
    · simp [hf] at hw
    · obtain ⟨rfl, -⟩ : b = a ∧ _ := by simpa [hf] using hw
      exact h s b hf
  · cases hw

theorem foldlM {γ : Type} {I : List γ → α → Prop} {f : α → γ → Prog σ ε α}
    (step : ∀ x rest a, I (x :: rest) a → Returns (f a x) (I rest)) (xs : List γ) {a : α}
    (h : I xs a) : Returns (xs.foldlM f a) (I []) := by
  induction xs generalizing a with
  | nil => exact pure h
  | cons x rest ih =>
    rw [List.foldlM_cons]
    exact bind (step x rest a h) fun _ hb => ih hb

theorem withCleanup {p : Prog σ ε α} {cleanup : Prog σ ε Unit} (h : Returns p Q) :
    Returns (withCleanup p cleanup) Q := by
  intro w a v hw
  unfold Prog.withCleanup at hw
  rcases hr : p w with ⟨(e | _) | b, u⟩ <;> simp only [hr] at hw
  · obtain ⟨_, _, _, h⟩ := Act.bind_eq_ok.mp hw
    cases h
  · cases hw
  · obtain ⟨_, _, _, h'⟩ := Act.bind_eq_ok.mp hw
    cases h'
    exact h w a u hr

end Returns

/-! ## Runs without a failure -/

/-- When no operation fails, `p` goes from `s` to `t` and yields `a`. The fates it does not
take are left for what follows. -/
def Goes (p : Prog σ ε α) (s : σ) (a : α) (t : σ) : Prop :=
  ∃ n, ∀ rest, p ⟨List.replicate n .go ++ rest, s⟩ = (.ok a, ⟨rest, t⟩)

namespace Goes

theorem pure (a : α) (s : σ) : Goes (pure a : Prog σ ε α) s a s := ⟨0, fun _ => rfl⟩

theorem ofExcept {r : Except ε α} {a : α} (h : r = .ok a) (s : σ) : Goes (ofExcept r) s a s := by
  subst h
  exact pure a s

theorem require {c : Bool} {e : ε} (h : c = true) (s : σ) : Goes (require c e) s () s := by
  subst h
  exact pure () s

theorem bind {p : Prog σ ε α} {f : α → Prog σ ε β} {s t u : σ} {a : α} {b : β}
    (hp : Goes p s a t) (hf : Goes (f a) t b u) : Goes (p >>= f) s b u := by
  obtain ⟨n, hp⟩ := hp
  obtain ⟨m, hf⟩ := hf
  refine ⟨n + m, fun rest => ?_⟩
  rw [← List.replicate_append_replicate, List.append_assoc, Act.bind_of_ok (hp _), hf]

/-- There is one run in which nothing fails. -/
theorem unique {p : Prog σ ε α} {s t t' : σ} {a a' : α} (h : Goes p s a t) (h' : Goes p s a' t') :
    a = a' ∧ t = t' := by
  have ordered : ∀ {n m : Nat} {a a' : α} {t t' : σ}, n ≤ m →
      (∀ rest, p ⟨List.replicate n .go ++ rest, s⟩ = (.ok a, ⟨rest, t⟩)) →
      (∀ rest, p ⟨List.replicate m .go ++ rest, s⟩ = (.ok a', ⟨rest, t'⟩)) → a = a' ∧ t = t' := by
    intro n m a a' t t' hle hn hm
    have hrun := hn (List.replicate (m - n) .go ++ [])
    rw [← List.append_assoc, List.replicate_append_replicate, Nat.add_sub_cancel' hle, hm] at hrun
    obtain ⟨hresult, hworld⟩ := Prod.mk.inj hrun
    exact ⟨(Except.ok.inj hresult).symm, (congrArg World.state hworld).symm⟩
  obtain ⟨n, hn⟩ := h
  obtain ⟨m, hm⟩ := h'
  rcases Nat.le_total n m with hle | hle
  · exact ordered hle hn hm
  · obtain ⟨hresult, hstate⟩ := ordered hle hm hn
    exact ⟨hresult.symm, hstate.symm⟩

/-- What a program ensures holds of the run in which nothing fails. -/
theorem ensures {p : Prog σ ε α} {s t : σ} {a : α} {P : σ → Prop} {Q : α → σ → Prop}
    {R : ε → σ → Prop} {K : σ → Prop} (hp : Goes p s a t) (h : Ensures P p Q R K) (hs : P s) :
    Q a t := by
  obtain ⟨n, hp⟩ := hp
  exact h.returned (w := ⟨List.replicate n .go ++ [], s⟩) hs (hp [])

theorem foldlM {γ : Type} {I : List γ → α → σ → Prop} {f : α → γ → Prog σ ε α}
    (step : ∀ x rest a s, I (x :: rest) a s → ∃ b t, Goes (f a x) s b t ∧ I rest b t)
    (xs : List γ) {a : α} {s : σ} (h : I xs a s) :
    ∃ b t, Goes (xs.foldlM f a) s b t ∧ I [] b t := by
  induction xs generalizing a s with
  | nil => exact ⟨a, s, pure a s, h⟩
  | cons x rest ih =>
    obtain ⟨b, t, hx, hb⟩ := step x rest a s h
    obtain ⟨c, u, hrest, hc⟩ := ih hb
    refine ⟨c, u, ?_, hc⟩
    rw [List.foldlM_cons]
    exact hx.bind hrest

theorem forM {γ : Type} {f : γ → Prog σ ε PUnit} {I : σ → Prop}
    (step : ∀ x s, I s → ∃ t, Goes (f x) s () t ∧ I t) (xs : List γ) {s : σ} (h : I s) :
    ∃ t, Goes (xs.forM f) s () t ∧ I t := by
  induction xs generalizing s with
  | nil => exact ⟨s, pure () s, h⟩
  | cons x rest ih =>
    obtain ⟨t, hx, ht⟩ := step x s h
    obtain ⟨u, hrest, hu⟩ := ih ht
    exact ⟨u, hx.bind hrest, hu⟩

theorem step {act : Fate → σ → Except ε α × σ} {s t : σ} {a : α}
    (h : act .go s = (.ok a, t)) : Goes (step act) s a t :=
  ⟨1, fun rest => by simp [Prog.step, h]⟩

theorem sure (f : σ → σ) (s : σ) : Goes (sure f : Prog σ ε Unit) s () (f s) := step rfl

theorem observe (f : σ → α) (s : σ) : Goes (observe f : Prog σ ε α) s (f s) s := step rfl

theorem look {onFail : ε} {f : σ → Except ε α} {s : σ} {a : α} (h : f s = .ok a) :
    Goes (look onFail f) s a s := step (by simp [h])

theorem withCleanup {p : Prog σ ε α} {cleanup : Prog σ ε Unit} {s t u : σ} {a : α}
    (hp : Goes p s a t) (hc : Goes cleanup t () u) : Goes (withCleanup p cleanup) s a u := by
  obtain ⟨n, hp⟩ := hp
  obtain ⟨m, hc⟩ := hc.bind (f := fun _ => Pure.pure a) (pure a u)
  refine ⟨n + m, fun rest => ?_⟩
  unfold Prog.withCleanup
  rw [← List.replicate_append_replicate, List.append_assoc, hp]
  exact hc rest

theorem orElse {p : Prog σ ε α} {handler : ε → Prog σ ε α} {s t : σ} {a : α}
    (hp : Goes p s a t) : Goes (orElse p handler) s a t := by
  obtain ⟨n, hp⟩ := hp
  exact ⟨n, fun rest => by simp [Prog.orElse, hp]⟩

/-- The first operation stops the program, and its handler goes on. -/
theorem orElse_raised {p : Prog σ ε α} {handler : ε → Prog σ ε α} {s t u : σ} {a : α} {e : ε}
    (hp : ∀ rest, p ⟨.go :: rest, s⟩ = (.error (.raised e), ⟨rest, t⟩)) (hh : Goes (handler e) t a u) :
    Goes (Prog.orElse p handler) s a u := by
  obtain ⟨n, hh⟩ := hh
  exact ⟨n + 1, fun rest => by simp [Prog.orElse, List.replicate_succ, hp, hh]⟩

theorem zoom {part : τ → σ} {put : τ → σ → τ} {p : Prog σ ε α} {s : τ} {t : σ} {a : α}
    (hp : Goes p (part s) a t) : Goes (zoom part put p) s a (put s t) := by
  obtain ⟨n, hp⟩ := hp
  exact ⟨n, fun rest => by simp [Prog.zoom, hp]⟩

end Goes

end Prog
