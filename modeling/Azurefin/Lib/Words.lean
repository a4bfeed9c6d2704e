import Mathlib.Data.List.Basic
import Mathlib.Data.List.Infix

/-!
# Searching text that is made of words

The first occurrence of a pattern, and where a pattern with separators can occur in words that are
joined by the separator: it begins at the end of a word, and each of its parts between separators
is a whole word.
-/

namespace Words

variable {α : Type} {sep : α} {x y z p q t T R : List α} {ps qs : List (List α)}

/-! ## The first occurrence -/

section First

variable [DecidableEq α]

/-- The rest of the text from the first occurrence of the pattern on. -/
def suffixAt (pat : List α) : List α → Option (List α)
  | [] => if pat = [] then some [] else none
  | a :: t => if pat.isPrefixOf (a :: t) then some (a :: t) else suffixAt pat t

/-- `pat in text` -/
def contains (pat t : List α) : Bool := (suffixAt pat t).isSome

theorem contains_iff {pat : List α} : contains pat t = true ↔ pat <:+: t := by
  induction t with
  | nil =>
    simp only [contains, suffixAt, List.infix_nil]
    split <;> simp_all
  | cons a t ih =>
    rw [List.infix_cons_iff, ← ih, ← List.isPrefixOf_iff_prefix]
    simp only [contains, suffixAt]
    split <;> simp_all

end First

/-! ## Prefixes of joined words -/

/-- Two words are the same where both are followed by a separator. -/
theorem prefix_word_iff (hy : sep ∉ y) (hq : sep ∉ q) :
    y ++ sep :: z <+: q ++ sep :: T ↔ y = q ∧ z <+: T := by
  induction y generalizing q with
  | nil =>
    cases q with
    | nil => simp
    | cons b q =>
      have hne : sep ≠ b := fun h => hq (h ▸ List.mem_cons_self)
      simp [hne]
  | cons a y ih =>
    obtain ⟨ha, hy⟩ := not_or.mp (mt List.mem_cons.mpr hy)
    cases q with
    | nil => simp [Ne.symm ha]
    | cons b q =>
      simp only [List.cons_append, List.cons_prefix_cons, List.cons.injEq, and_assoc,
        ih hy (List.not_mem_of_not_mem_cons hq)]

theorem not_prefix_word (hq : sep ∉ q) : ¬ y ++ sep :: z <+: q := by
  intro h
  exact hq (h.subset (by simp))

theorem prefix_word_append (hz : sep ∉ z) : z <+: q ++ sep :: T ↔ z <+: q := by
  refine ⟨fun h => ?_, fun h => h.trans (List.prefix_append _ _)⟩
  induction z generalizing q with
  | nil => exact List.nil_prefix
  | cons a z ih =>
    obtain ⟨ha, hz⟩ := not_or.mp (mt List.mem_cons.mpr hz)
    cases q with
    | nil =>
      rw [List.nil_append, List.cons_prefix_cons] at h
      exact absurd h.1.symm ha
    | cons b q =>
      rw [List.cons_append, List.cons_prefix_cons] at h
      exact List.cons_prefix_cons.mpr ⟨h.1, ih hz h.2⟩

/-- A word that the text begins with is a beginning of the first word. -/
theorem prefix_intercalate_cons (hz : sep ∉ z) :
    z <+: List.intercalate [sep] (q :: qs) ↔ z <+: q := by
  cases qs with
  | nil => rw [List.intercalate_singleton]
  | cons r qs =>
    rw [List.intercalate_cons_cons, List.append_assoc, List.singleton_append, prefix_word_append hz]

/-- A word and a separator that the text begins with are the first word, and there are others. -/
theorem prefix_intercalate_iff (hy : sep ∉ y) (hps : ∀ p ∈ ps, sep ∉ p) :
    y ++ sep :: z <+: List.intercalate [sep] ps ↔
      ∃ q qs, ps = y :: q :: qs ∧ z <+: List.intercalate [sep] (q :: qs) := by
  cases ps with
  | nil => simp
  | cons p ps =>
    have hp := hps p List.mem_cons_self
    cases ps with
    | nil =>
      rw [List.intercalate_singleton]
      refine iff_of_false (not_prefix_word hp) ?_
      rintro ⟨q, qs, h, -⟩
      simp at h
    | cons r ps =>
      rw [List.intercalate_cons_cons, List.append_assoc, List.singleton_append, prefix_word_iff hy hp]
      constructor
      · rintro ⟨rfl, hz⟩
        exact ⟨r, ps, rfl, hz⟩
      · rintro ⟨q, qs, h, hz⟩
        obtain ⟨rfl, rfl, rfl⟩ : p = y ∧ r = q ∧ ps = qs := by simpa using h
        exact ⟨rfl, hz⟩

theorem intercalate_append (hps : ps ≠ []) (hqs : qs ≠ []) :
    List.intercalate [sep] (ps ++ qs) =
      List.intercalate [sep] ps ++ sep :: List.intercalate [sep] qs := by
  induction ps with
  | nil => exact absurd rfl hps
  | cons p ps ih =>
    cases ps with
    | nil => simp [List.intercalate_cons_of_ne_nil hqs]
    | cons r ps =>
      rw [List.cons_append, List.intercalate_cons_of_ne_nil (by simp), ih (by simp),
        List.intercalate_cons_cons]
      simp

/-! ## Suffixes of joined words -/

theorem suffix_word_append (hz : sep ∉ z) : z <:+ T ++ sep :: q ↔ z <:+ q := by
  have h : z.reverse <+: q.reverse ++ sep :: T.reverse ↔ z.reverse <+: q.reverse :=
    prefix_word_append (by simpa using hz)
  rw [← List.reverse_prefix, ← List.reverse_prefix, ← h]
  simp

/-- A word that the text ends in is an end of the last word. -/
theorem suffix_intercalate_last (hz : sep ∉ z) :
    z <:+ List.intercalate [sep] (ps ++ [q]) ↔ z <:+ q := by
  induction ps with
  | nil => rw [List.nil_append, List.intercalate_singleton]
  | cons p ps ih =>
    rw [List.cons_append, List.intercalate_cons_of_ne_nil (by simp), List.append_assoc,
      List.singleton_append, suffix_word_append hz, ih]

/-! ## Patterns with a separator -/

/-- A pattern that begins with a word and a separator occurs at the end of the first word, or
behind it. -/
theorem infix_word_iff (hx : sep ∉ x) (hp : sep ∉ p) :
    x ++ sep :: R <:+: p ++ sep :: T ↔ x <:+ p ∧ R <+: T ∨ x ++ sep :: R <:+: T := by
  induction p with
  | nil =>
    rw [List.nil_append, List.infix_cons_iff, List.suffix_nil]
    refine or_congr_left ?_
    have h := prefix_word_iff (z := R) (T := T) hx (List.not_mem_nil (a := sep))
    rwa [List.nil_append] at h
  | cons a p ih =>
    rw [List.cons_append, List.infix_cons_iff, ih (List.not_mem_of_not_mem_cons hp),
      List.suffix_cons_iff, ← or_assoc, or_and_right]
    have h := prefix_word_iff (z := R) (T := T) hx hp
    rw [List.cons_append] at h
    rw [h]

theorem not_infix_word (hp : sep ∉ p) : ¬ x ++ sep :: R <:+: p := by
  intro h
  exact hp (h.subset (by simp))

/-- Where a pattern of three parts occurs. -/
theorem infix_three_iff (hx : sep ∉ x) (hy : sep ∉ y) (hz : sep ∉ z) (hps : ∀ p ∈ ps, sep ∉ p) :
    x ++ sep :: (y ++ sep :: z) <:+: List.intercalate [sep] ps ↔
      ∃ u a c v, ps = u ++ a :: y :: c :: v ∧ x <:+ a ∧ z <+: c := by
  induction ps with
  | nil =>
    simp only [List.intercalate_nil, List.infix_nil, List.append_eq_nil_iff, reduceCtorEq, and_false,
      false_iff, not_exists]
    rintro u a c v ⟨h, -⟩
    simp at h
  | cons p ps ih =>
    have hp := hps p List.mem_cons_self
    have hrest : ∀ q ∈ ps, sep ∉ q := fun q hq => hps q (List.mem_cons_of_mem _ hq)
    have ih := ih hrest
    cases ps with
    | nil =>
      rw [List.intercalate_singleton]
      refine iff_of_false (not_infix_word hp) ?_
      rintro ⟨u, a, c, v, h, -⟩
      have := congrArg List.length h
      simp at this
      omega
    | cons q qs =>
      rw [List.intercalate_cons_cons, List.append_assoc, List.singleton_append, infix_word_iff hx hp, ih]
      constructor
      · rintro (⟨hxp, hyz⟩ | ⟨u, a, c, v, h, hxa, hzc⟩)
        · obtain ⟨c, v, h, hzc⟩ := (prefix_intercalate_iff hy hrest).mp hyz
          rw [prefix_intercalate_cons hz] at hzc
          exact ⟨[], p, c, v, by rw [h, List.nil_append], hxp, hzc⟩
        · exact ⟨p :: u, a, c, v, by rw [h, List.cons_append], hxa, hzc⟩
      · rintro ⟨u, a, c, v, h, hxa, hzc⟩
        cases u with
        | nil =>
          rw [List.nil_append] at h
          obtain ⟨rfl, htail⟩ := List.cons.inj h
          refine .inl ⟨hxa, (prefix_intercalate_iff hy hrest).mpr ⟨c, v, htail, ?_⟩⟩
          rwa [prefix_intercalate_cons hz]
        | cons b u =>
          rw [List.cons_append, List.cons.injEq] at h
          exact .inr ⟨u, a, c, v, h.2, hxa, hzc⟩

/-! ## The words behind a first word -/

section Behind

variable [DecidableEq α]

/-- What follows the first word, but the last, that ends in the pattern. -/
def wordsBehind (x : List α) : List (List α) → Option (List (List α))
  | p :: q :: ps => if x.isSuffixOf p then some (q :: ps) else wordsBehind x (q :: ps)
  | _ => none

theorem wordsBehind_suffix {rest : List (List α)} (h : wordsBehind x ps = some rest) :
    rest <:+ ps ∧ rest ≠ [] := by
  induction ps with
  | nil => cases h
  | cons p ps ih =>
    cases ps with
    | nil => cases h
    | cons q qs =>
      rw [wordsBehind] at h
      split at h
      case isTrue =>
        obtain rfl := Option.some.inj h
        exact ⟨List.suffix_cons _ _, by simp⟩
      case isFalse =>
        obtain ⟨hsuffix, hne⟩ := ih h
        exact ⟨hsuffix.trans (List.suffix_cons _ _), hne⟩

theorem wordsBehind_append {rest : List (List α)} (h : wordsBehind x ps = some rest) :
    wordsBehind x (ps ++ qs) = some (rest ++ qs) := by
  induction ps with
  | nil => cases h
  | cons p ps ih =>
    cases ps with
    | nil => cases h
    | cons r ps =>
      rw [wordsBehind] at h
      rw [List.cons_append, List.cons_append, wordsBehind]
      split at h
      case isTrue hx =>
        obtain rfl := Option.some.inj h
        rw [if_pos hx, List.cons_append]
      case isFalse hx =>
        rw [if_neg hx]
        exact ih h

/-- What is searched for behind a word without separators is not found in the word. -/
theorem suffixAt_word (hx : sep ∉ x) (hp : sep ∉ p) :
    suffixAt (x ++ [sep]) (p ++ sep :: T) =
      if x.isSuffixOf p then some (x ++ sep :: T) else suffixAt (x ++ [sep]) T := by
  induction p with
  | nil =>
    have hstarts : (x ++ [sep]).isPrefixOf (sep :: T) = decide (x = []) := by
      rw [Bool.eq_iff_iff, List.isPrefixOf_iff_prefix, decide_eq_true_iff]
      have h := prefix_word_iff (z := []) (T := T) hx (List.not_mem_nil (a := sep))
      simpa using h
    have hsuffix : x.isSuffixOf ([] : List α) = decide (x = []) := by
      rw [Bool.eq_iff_iff, List.isSuffixOf_iff_suffix, List.suffix_nil, decide_eq_true_iff]
    rw [List.nil_append, suffixAt, hstarts, hsuffix]
    by_cases hnil : x = [] <;> simp [hnil]
  | cons a p ih =>
    have hstarts : (x ++ [sep]).isPrefixOf (a :: (p ++ sep :: T)) = decide (x = a :: p) := by
      rw [Bool.eq_iff_iff, List.isPrefixOf_iff_prefix, decide_eq_true_iff]
      have h := prefix_word_iff (z := []) (T := T) hx hp
      simpa using h
    have hsuffix : x.isSuffixOf (a :: p) = (decide (x = a :: p) || x.isSuffixOf p) := by
      rw [Bool.eq_iff_iff, List.isSuffixOf_iff_suffix, List.suffix_cons_iff]
      simp
    rw [List.cons_append, suffixAt, hstarts, ih (List.not_mem_of_not_mem_cons hp), hsuffix]
    by_cases heq : x = a :: p <;> simp [heq]

theorem suffixAt_none (hp : sep ∉ p) : suffixAt (x ++ [sep]) p = none := by
  rw [← Option.not_isSome_iff_eq_none]
  intro h
  exact not_infix_word (R := []) hp (contains_iff.mp h)

/-- The first occurrence of a pattern that ends in a separator, in joined words. -/
theorem suffixAt_intercalate (hx : sep ∉ x) (hps : ∀ p ∈ ps, sep ∉ p) (hne : ps ≠ []) :
    suffixAt (x ++ [sep]) (List.intercalate [sep] ps) =
      (wordsBehind x ps).map fun rest => x ++ sep :: List.intercalate [sep] rest := by
  induction ps with
  | nil => exact absurd rfl hne
  | cons p ps ih =>
    have hp := hps p List.mem_cons_self
    cases ps with
    | nil =>
      rw [List.intercalate_singleton, suffixAt_none hp]
      rfl
    | cons q qs =>
      rw [List.intercalate_cons_cons, List.append_assoc, List.singleton_append, suffixAt_word hx hp,
        ih (fun r hr => hps r (List.mem_cons_of_mem _ hr)) (by simp), wordsBehind]
      split <;> rfl

end Behind

end Words
