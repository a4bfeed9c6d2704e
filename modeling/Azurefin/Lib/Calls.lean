import Azurefin.Lib.Act
import Mathlib.Data.List.Induction

/-!
# Programs that call the outside

A program makes calls, one after the other. An environment answers each of them and moves a state
that the program sees through the answers only. Both may depend on everything that went before, so
what holds for all environments holds for every order of answers and for a failure at any call.

The log keeps the calls with their answers and the states they lead to. A run that dies leaves a
shorter log, so what is said of each event and the log before it is said of every moment of a run.

## Main definitions

* `Calls.call` — the operation.
* `Calls.Always` — each event of a log stands in a relation to the log before it.
* `Calls.lastState` — the state that a log leads to.
* `Calls.Facts` — what a log establishes, for good.
* `Calls.Records` — the invariant of a program that makes a call only when it has its reasons.
-/

namespace Calls

/-- A call, its answer, and the state afterwards. -/
structure Event (σ C : Type) (A : C → Type) (ε : Type) where
  call : C
  answer : Except ε (A call)
  state : σ

structure Session (σ C : Type) (A : C → Type) (ε : Type) where
  state : σ
  log : List (Event σ C A ε)

/-- It answers a call with a value of the type that belongs to the call. -/
structure Environment (σ C : Type) (A : C → Type) (ε : Type) where
  answer : Session σ C A ε → ∀ c : C, Except ε (A c)
  next : Session σ C A ε → C → σ

variable {σ C ε α : Type} {A : C → Type}

def Environment.event (env : Environment σ C A ε) (s : Session σ C A ε) (c : C) : Event σ C A ε :=
  ⟨c, env.answer s c, env.next s c⟩

def Environment.after (env : Environment σ C A ε) (s : Session σ C A ε) (c : C) : Session σ C A ε :=
  ⟨env.next s c, s.log ++ [env.event s c]⟩

/-- Make a call. Where it fails, the program stops with the error. -/
def call (env : Environment σ C A ε) (c : C) : Act (Session σ C A ε) ε (A c) := fun s =>
  (env.answer s c, env.after s c)

variable {env : Environment σ C A ε} {s : Session σ C A ε} {c : C}

@[simp] theorem after_state : (env.after s c).state = env.next s c := rfl

@[simp] theorem after_log : (env.after s c).log = s.log ++ [env.event s c] := rfl

theorem call_apply : call env c s = (env.answer s c, env.after s c) := rfl

/-- The rule for a call. -/
theorem holds_call {P : Session σ C A ε → Prop} {Q : A c → Session σ C A ε → Prop}
    {E : ε → Session σ C A ε → Prop}
    (hok : ∀ s a, P s → env.answer s c = .ok a → Q a (env.after s c))
    (herr : ∀ s e, P s → env.answer s c = .error e → E e (env.after s c)) :
    Act.Holds P (call env c) Q E := by
  intro s hs
  rw [call_apply]
  cases hanswer : env.answer s c with
  | ok a => exact hok s a hs hanswer
  | error e => exact herr s e hs hanswer

/-- A call that does not fail. -/
theorem holds_answered {P : Session σ C A ε → Prop} {Q : A c → Session σ C A ε → Prop}
    {E : ε → Session σ C A ε → Prop}
    (h : ∀ s, P s → ∃ a, env.answer s c = .ok a ∧ Q a (env.after s c)) :
    Act.Holds P (call env c) Q E := by
  intro s hs
  obtain ⟨a, hanswer, ha⟩ := h s hs
  rw [call_apply, hanswer]
  exact ha

/-! ## Logs -/

variable {R : List (Event σ C A ε) → Event σ C A ε → Prop} {log seen : List (Event σ C A ε)}
  {event : Event σ C A ε} {start : σ}

/-- Each event stands in the relation to the log before it. -/
def Always (R : List (Event σ C A ε) → Event σ C A ε → Prop) (log : List (Event σ C A ε)) : Prop :=
  ∀ seen event rest, log = seen ++ event :: rest → R seen event

theorem always_nil : Always R [] := fun _ _ _ h => absurd h (by simp)

theorem always_snoc : Always R (log ++ [event]) ↔ Always R log ∧ R log event := by
  constructor
  · intro h
    exact ⟨fun seen e rest he => h seen e (rest ++ [event]) (by simp [he]), h log event [] rfl⟩
  · rintro ⟨hlog, hevent⟩ seen e rest h
    rcases List.eq_nil_or_concat rest with rfl | ⟨rest, last, rfl⟩
    · obtain ⟨rfl, hlast⟩ := List.append_inj' h rfl
      obtain rfl := List.singleton_inj.mp hlast
      exact hevent
    · refine hlog seen e rest ?_
      have hsnoc : log ++ [event] = (seen ++ e :: rest) ++ [last] := by simpa using h
      exact (List.append_inj' hsnoc rfl).1

theorem Always.of_append {rest : List (Event σ C A ε)} (h : Always R (log ++ rest)) : Always R log :=
  fun seen event later he => h seen event (later ++ rest) (by simp [he])

theorem Always.of_mem (h : Always R log) (hmem : event ∈ log) :
    ∃ seen rest, log = seen ++ event :: rest ∧ R seen event := by
  obtain ⟨seen, rest, rfl⟩ := List.append_of_mem hmem
  exact ⟨seen, rest, rfl, h seen event rest rfl⟩

/-- What holds before the first event, and after each event if before it, holds at every moment. -/
theorem Always.induction {I : List (Event σ C A ε) → Prop} (h : Always R log) (nil : I [])
    (snoc : ∀ seen event, I seen → R seen event → I (seen ++ [event])) : I log := by
  induction log using List.reverseRecOn with
  | nil => exact nil
  | append_singleton log event ih =>
    obtain ⟨hlog, hevent⟩ := always_snoc.mp h
    exact snoc log event (ih hlog) hevent

/-- The state after the log, from the start of the session. -/
def lastState (start : σ) (log : List (Event σ C A ε)) : σ :=
  (log.getLast?.map Event.state).getD start

@[simp] theorem lastState_nil : lastState start ([] : List (Event σ C A ε)) = start := rfl

@[simp] theorem lastState_snoc : lastState start (log ++ [event]) = event.state := by
  simp [lastState]

theorem lastState_eq_or_mem (start : σ) (log : List (Event σ C A ε)) :
    lastState start log = start ∨ ∃ event ∈ log, event.state = lastState start log := by
  induction log using List.reverseRecOn with
  | nil => exact .inl rfl
  | append_singleton log event _ => exact .inr ⟨event, by simp, by simp⟩

/-- The call was made, and answered so. -/
def Answered (c : C) (a : A c) (log : List (Event σ C A ε)) : Prop :=
  ∃ state, ⟨c, .ok a, state⟩ ∈ log

theorem Answered.append {a : A c} {rest : List (Event σ C A ε)} (h : Answered c a log) :
    Answered c a (log ++ rest) := by
  obtain ⟨state, hmem⟩ := h
  exact ⟨state, List.mem_append_left _ hmem⟩

theorem Answered.snoc {a : A c} (h : Answered c a log) : Answered c a (log ++ [event]) := h.append

theorem answered_after {a : A c} (h : env.answer s c = .ok a) : Answered c a (env.after s c).log := by
  refine ⟨env.next s c, List.mem_append_right _ ?_⟩
  rw [Environment.event, h]
  exact List.mem_singleton_self _

/-- The first call was answered so, and later the second. -/
def AnsweredSince (c : C) (a : A c) (c' : C) (a' : A c') (log : List (Event σ C A ε)) : Prop :=
  ∃ before state rest, log = before ++ ⟨c, .ok a, state⟩ :: rest ∧ Answered c' a' rest

theorem AnsweredSince.snoc {c' : C} {a : A c} {a' : A c'} (h : AnsweredSince c a c' a' log) :
    AnsweredSince c a c' a' (log ++ [event]) := by
  obtain ⟨before, state, rest, rfl, hrest⟩ := h
  exact ⟨before, state, rest ++ [event], by simp, hrest.snoc⟩

theorem AnsweredSince.answered {c' : C} {a : A c} {a' : A c'} (h : AnsweredSince c a c' a' log) :
    Answered c' a' log := by
  obtain ⟨before, state, rest, rfl, later, hmem⟩ := h
  exact ⟨later, List.mem_append_right _ (List.mem_cons_of_mem _ hmem)⟩

theorem answeredSince_after {c' : C} {a : A c} {a' : A c'} (h : Answered c a s.log)
    (h' : env.answer s c' = .ok a') : AnsweredSince c a c' a' (env.after s c').log := by
  obtain ⟨state, hmem⟩ := h
  obtain ⟨before, rest, hlog⟩ := List.append_of_mem hmem
  refine ⟨before, state, rest ++ [env.event s c'], by simp [hlog], env.next s c', ?_⟩
  rw [Environment.event, h']
  exact List.mem_append_right _ (List.mem_singleton_self _)

/-- What a log establishes, and every longer log with it. -/
structure Facts (σ C : Type) (A : C → Type) (ε : Type) where
  holds : List (Event σ C A ε) → Prop
  snoc : ∀ log event, holds log → holds (log ++ [event])

namespace Facts

variable (F : Facts σ C A ε)

def nothing : Facts σ C A ε := ⟨fun _ => True, fun _ _ h => h⟩

/-- Also that the call was answered so. -/
def answered (c : C) (a : A c) : Facts σ C A ε where
  holds log := F.holds log ∧ Answered c a log
  snoc log event h := ⟨F.snoc log event h.1, h.2.snoc⟩

/-- Also that the first call was answered so, and later the second. -/
def since (c : C) (a : A c) (c' : C) (a' : A c') : Facts σ C A ε where
  holds log := F.holds log ∧ AnsweredSince c a c' a' log
  snoc log event h := ⟨F.snoc log event h.1, h.2.snoc⟩

/-- Also a fact that is not about the log. -/
def known (fact : Prop) : Facts σ C A ε where
  holds log := F.holds log ∧ fact
  snoc log event h := ⟨F.snoc log event h.1, h.2⟩

/-- Also what the log establishes in another way. -/
def and (G : Facts σ C A ε) : Facts σ C A ε where
  holds log := F.holds log ∧ G.holds log
  snoc log event h := ⟨F.snoc log event h.1, G.snoc log event h.2⟩

end Facts

/-! ## Programs whose calls need a reason -/

variable {F : Facts σ C A ε}

/-- Every event so far has its reason, and these facts are on record. -/
structure Records (R : List (Event σ C A ε) → Event σ C A ε → Prop) (F : Facts σ C A ε)
    (s : Session σ C A ε) : Prop where
  always : Always R s.log
  facts : F.holds s.log

theorem Records.known (h : Records R F s) {fact : Prop} (hfact : fact) : Records R (F.known fact) s :=
  ⟨h.always, h.facts, hfact⟩

/-- A call with a reason adds its answer to the record. -/
theorem holds_record (h : ∀ s, F.holds s.log → R s.log (env.event s c)) :
    Act.Holds (Records R F) (call env c) (fun a => Records R (F.answered c a))
      (fun _ s => Always R s.log) := by
  have hafter : ∀ s, Records R F s → Always R (env.after s c).log :=
    fun s hs => always_snoc.mpr ⟨hs.always, h s hs.facts⟩
  apply holds_call
  · intro s a hs ha
    exact ⟨hafter s hs, F.snoc s.log _ hs.facts, answered_after ha⟩
  · intro s _ hs _
    exact hafter s hs

theorem holds_known {r : Except ε α} :
    Act.Holds (Records R F) (Act.ofExcept r) (fun a => Records R (F.known (r = .ok a)))
      (fun _ s => Always R s.log) :=
  .ofExcept (fun _ _ hs h => hs.known h) (fun _ _ hs _ => hs.always)

theorem holds_check {check : Bool} {e : ε} :
    Act.Holds (Records R F) (Act.require check e) (fun _ => Records R (F.known (check = true)))
      (fun _ s => Always R s.log) :=
  .require (fun _ hs h => hs.known h) (fun _ hs _ => hs.always)

end Calls
