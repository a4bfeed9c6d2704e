import Azurefin.Lib.Act
import Mathlib.Logic.Relation

/-!
# Working a stack off

A loop takes an item from a stack, visits it and puts its successors there. Where everything below an
item ends at some depth, the loop visits what the item leads to, one after the other, and stops at the
first visit that fails.
-/

namespace Worklist

variable {α σ ε : Type}

section Loop

variable (succs : α → List α) (visit : σ → α → Except ε σ)

/-- `while stack: …`, for so many rounds at most -/
def loop : Nat → List α → σ → Option (Except ε σ)
  | _, [], s => some (.ok s)
  | 0, _ :: _, _ => none
  | rounds + 1, x :: stack, s =>
    match visit s x with
    | .error e => some (.error e)
    | .ok t => loop rounds (succs x ++ stack) t

/-- What an item leads to, in the order of the loop. -/
def order : Nat → α → List α
  | 0, x => [x]
  | depth + 1, x => x :: (succs x).flatMap (order depth)

/-- Nothing below an item is deeper. -/
def Shallow : Nat → α → Prop
  | 0, x => succs x = []
  | depth + 1, x => ∀ y ∈ succs x, Shallow depth y

end Loop

variable {succs : α → List α} {visit : σ → α → Except ε σ} {depth rounds : Nat} {x y : α}
  {xs stack : List α} {s : σ} {r : Except ε σ}

/-- More rounds make no difference to a loop that ended. -/
theorem loop_mono (h : loop succs visit rounds stack s = some r) :
    loop succs visit (rounds + 1) stack s = some r := by
  fun_induction loop succs visit rounds stack s with
  | case1 => exact h
  | case2 => cases h
  | case3 rounds x stack s e he =>
    rw [loop, he]
    exact h
  | case4 rounds x stack s t ht ih =>
    rw [loop, ht]
    exact ih h

theorem loop_add (h : loop succs visit rounds stack s = some r) (more : Nat) :
    loop succs visit (rounds + more) stack s = some r := by
  induction more with
  | zero => exact h
  | succ more ih => exact loop_mono ih

/-- A stack of items is worked off item by item. -/
theorem loop_append (orders : α → List α) (hone : ∀ x ∈ xs, ∀ rounds stack s,
      loop succs visit (rounds + (orders x).length) (x :: stack) s = match (orders x).foldlM visit s with
        | .error e => some (.error e)
        | .ok t => loop succs visit rounds stack t) (rounds : Nat) (stack : List α) (s : σ) :
    loop succs visit (rounds + (xs.flatMap orders).length) (xs ++ stack) s =
      match (xs.flatMap orders).foldlM visit s with
      | .error e => some (.error e)
      | .ok t => loop succs visit rounds stack t := by
  induction xs generalizing s with
  | nil => rfl
  | cons x xs ih =>
    obtain ⟨hx, hxs⟩ := List.forall_mem_cons.mp hone
    have hrounds : rounds + ((x :: xs).flatMap orders).length =
        rounds + (xs.flatMap orders).length + (orders x).length := by
      rw [List.flatMap_cons, List.length_append]
      omega
    rw [hrounds, List.cons_append, hx, List.flatMap_cons, List.foldlM_append]
    cases (orders x).foldlM visit s with
    | error e => rfl
    | ok t => exact ih hxs t

/-- The loop on an item is the loop over what the item leads to, and then the rest of the stack. -/
theorem loop_order (hx : Shallow succs depth x) (rounds : Nat) (stack : List α) (s : σ) :
    loop succs visit (rounds + (order succs depth x).length) (x :: stack) s =
      match (order succs depth x).foldlM visit s with
      | .error e => some (.error e)
      | .ok t => loop succs visit rounds stack t := by
  induction depth generalizing x rounds stack s with
  | zero =>
    have hnone : succs x = [] := hx
    rw [order, List.length_singleton, loop, hnone, List.nil_append, List.foldlM_cons]
    cases visit s x <;> rfl
  | succ depth ih =>
    rw [order, List.length_cons, ← Nat.add_assoc, loop, List.foldlM_cons]
    cases visit s x with
    | error e => rfl
    | ok t => exact loop_append (order succs depth) (fun y hy => ih (hx y hy)) rounds stack t

/-- What is visited is what can be reached. -/
theorem mem_order (hx : Shallow succs depth x) :
    y ∈ order succs depth x ↔ Relation.ReflTransGen (fun a b => b ∈ succs a) x y := by
  induction depth generalizing x with
  | zero =>
    have hnone : succs x = [] := hx
    rw [order, List.mem_singleton, Relation.ReflTransGen.cases_head_iff]
    simp [hnone, eq_comm]
  | succ depth ih =>
    rw [order, List.mem_cons, List.mem_flatMap, Relation.ReflTransGen.cases_head_iff]
    refine or_congr eq_comm (exists_congr fun z => and_congr_right fun hz => ih (hx z hz))

/-- A loop that keeps an invariant of what it has visited succeeds exactly where each visit is in
order. -/
theorem foldlM_isOk_iff {I : List α → σ → Prop} {Q : List α → α → Prop}
    (hkeep : ∀ seen x s t, I seen s → visit s x = .ok t → Q seen x ∧ I (seen ++ [x]) t)
    (hgo : ∀ seen x s, I seen s → Q seen x → ∃ t, visit s x = .ok t) {seen : List α} (hs : I seen s) :
    (∃ t, xs.foldlM visit s = .ok t) ↔
      ∀ before x after, xs = before ++ x :: after → Q (seen ++ before) x := by
  induction xs generalizing seen s with
  | nil => simp [pure, Except.pure]
  | cons x xs ih =>
    rw [List.foldlM_cons]
    simp only [Except.bind_eq_ok]
    constructor
    · rintro ⟨t, u, hu, ht⟩ before y after hsplit
      obtain ⟨hq, hinv⟩ := hkeep seen x s u hs hu
      cases before with
      | nil =>
        obtain ⟨rfl, rfl⟩ := List.cons.inj hsplit
        rwa [List.append_nil]
      | cons z before =>
        obtain ⟨rfl, rfl⟩ := List.cons.inj hsplit
        have hrest := (ih hinv).mp ⟨t, ht⟩ before y after rfl
        rwa [List.append_assoc] at hrest
    · intro h
      obtain ⟨u, hu⟩ := hgo seen x s hs (by simpa using h [] x xs rfl)
      obtain ⟨-, hinv⟩ := hkeep seen x s u hs hu
      obtain ⟨t, ht⟩ := (ih hinv).mpr fun before y after hsplit => by
        rw [List.append_assoc]
        exact h (x :: before) y after (by rw [hsplit, List.cons_append])
      exact ⟨t, u, hu, ht⟩

end Worklist
