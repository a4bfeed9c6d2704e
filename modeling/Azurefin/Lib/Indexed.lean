import Mathlib.Data.List.Basic

/-!
# Items found in a list

`indexed f l` lists what `f` finds in the items of `l`, each with its position. Callers describe the
only item found by a splitting of the list, so that no bound of a position is carried around.
-/

variable {α β : Type}

/-- `[(i, f(a)) for i, a in enumerate(l) if …]`, from position `n` on -/
def indexedFrom (f : α → Option β) : Nat → List α → List (Nat × β)
  | _, [] => []
  | n, a :: l => match f a with
    | some b => (n, b) :: indexedFrom f (n + 1) l
    | none => indexedFrom f (n + 1) l

def indexed (f : α → Option β) (l : List α) : List (Nat × β) := indexedFrom f 0 l

variable {f : α → Option β} {l : List α} {n i : Nat} {b : β}

theorem map_snd_indexedFrom (f : α → Option β) (n : Nat) (l : List α) :
    (indexedFrom f n l).map Prod.snd = l.filterMap f := by
  fun_induction indexedFrom f n l <;> grind

theorem map_snd_indexed (f : α → Option β) (l : List α) : (indexed f l).map Prod.snd = l.filterMap f :=
  map_snd_indexedFrom f 0 l

/-- What is found and passes a test is what a finer search finds. -/
theorem filter_indexedFrom (p : β → Bool) (n : Nat) (l : List α) :
    (indexedFrom f n l).filter (fun e => p e.2) = indexedFrom (fun a => (f a).filter p) n l := by
  fun_induction indexedFrom f n l <;> grind [indexedFrom, Option.filter]

theorem filter_indexed (p : β → Bool) (l : List α) :
    (indexed f l).filter (fun e => p e.2) = indexed (fun a => (f a).filter p) l :=
  filter_indexedFrom p 0 l

theorem indexedFrom_append (f : α → Option β) (n : Nat) (l m : List α) :
    indexedFrom f n (l ++ m) = indexedFrom f n l ++ indexedFrom f (n + l.length) m := by
  fun_induction indexedFrom f n l <;> grind [indexedFrom]

theorem exists_of_mem_indexedFrom {e : Nat × β} (h : e ∈ indexedFrom f n l) :
    n ≤ e.1 ∧ e.1 < n + l.length ∧ ∃ a ∈ l, f a = some e.2 := by
  fun_induction indexedFrom f n l with
  | case1 n => cases h
  | case2 n a l b hb ih => grind
  | case3 n a l ha ih => grind

/-- What is found is listed in the order of its positions. -/
theorem pairwise_indexedFrom (f : α → Option β) (n : Nat) (l : List α) :
    (indexedFrom f n l).Pairwise fun e e' => e.1 < e'.1 := by
  fun_induction indexedFrom f n l with
  | case1 n => exact .nil
  | case2 n a l b hb ih => exact List.pairwise_cons.mpr ⟨fun e he => (exists_of_mem_indexedFrom he).1, ih⟩
  | case3 n a l ha ih => exact ih

theorem indexedFrom_eq_nil : indexedFrom f n l = [] ↔ ∀ a ∈ l, f a = none := by
  fun_induction indexedFrom f n l <;> grind

theorem indexed_eq_nil : indexed f l = [] ↔ ∀ a ∈ l, f a = none := indexedFrom_eq_nil

/-- Only one item is found. -/
theorem indexedFrom_eq_singleton : indexedFrom f n l = [(i, b)] ↔ ∃ before a after,
    l = before ++ a :: after ∧ i = n + before.length ∧ f a = some b ∧ ∀ x ∈ before ++ after, f x = none := by
  constructor
  · intro h
    fun_induction indexedFrom f n l with
    | case1 n => cases h
    | case2 n a l c hc ih =>
      obtain ⟨⟨rfl, rfl⟩, hrest⟩ : (n = i ∧ c = b) ∧ indexedFrom f (n + 1) l = [] := by simpa using h
      exact ⟨[], a, l, rfl, rfl, hc, by simpa using indexedFrom_eq_nil.mp hrest⟩
    | case3 n a l ha ih =>
      obtain ⟨before, x, after, rfl, rfl, hx, hnone⟩ := ih h
      refine ⟨a :: before, x, after, rfl, ?_, hx, ?_⟩
      · rw [List.length_cons]
        omega
      · exact List.forall_mem_cons.mpr ⟨ha, hnone⟩
  · rintro ⟨before, a, after, rfl, rfl, ha, hnone⟩
    rw [indexedFrom_append, indexedFrom_eq_nil.mpr fun x hx => hnone x (List.mem_append_left _ hx),
      indexedFrom, ha, List.nil_append]
    simp only [indexedFrom_eq_nil.mpr fun x hx => hnone x (List.mem_append_right _ hx)]

theorem indexed_eq_singleton : indexed f l = [(i, b)] ↔ ∃ before a after,
    l = before ++ a :: after ∧ i = before.length ∧ f a = some b ∧ ∀ x ∈ before ++ after, f x = none := by
  simpa [indexed] using indexedFrom_eq_singleton (f := f) (n := 0)
