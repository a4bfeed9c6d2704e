import Azurefin.Lib.TextFile

/-!
# Lines with their ends and words between spaces

`text.splitlines(keepends=True)` on a text whose only line breaks are newlines: the lines are the
text, and lines that are put one after the other are the lines of what they are together. With other
line ends this holds up to a newline behind a carriage return. Words are read as they were written when
something separates them.
-/

/-! ## Words -/

variable {sep : Char → Bool} {w t u : Text} {c : Char}

@[simp] theorem wordsBy_nil (sep : Char → Bool) : wordsBy sep [] = [] := by
  simp [wordsBy]

/-- Only what separates the words of the text at hand matters. -/
theorem wordsBy_congr {sep' : Char → Bool} (h : ∀ c ∈ t, sep c = sep' c) : wordsBy sep t = wordsBy sep' t := by
  have hsplit : t.splitOnP sep = t.splitOnP sep' := by
    induction t with
    | nil => rfl
    | cons c t ih =>
      obtain ⟨hc, ht⟩ := List.forall_mem_cons.mp h
      rw [List.splitOnP_cons_eq_if_modifyHead, List.splitOnP_cons_eq_if_modifyHead, hc, ih ht]
  rw [wordsBy, hsplit, wordsBy]

theorem wordsBy_append_cons (h : sep c = true) (t u : Text) :
    wordsBy sep (t ++ c :: u) = wordsBy sep t ++ wordsBy sep u := by
  rw [wordsBy, List.splitOnP_append_cons _ _ h, List.filter_append, wordsBy, wordsBy]

theorem wordsBy_cons (h : sep c = true) (t : Text) : wordsBy sep (c :: t) = wordsBy sep t := by
  simpa using wordsBy_append_cons h [] t

theorem wordsBy_word (hne : w ≠ []) (h : ∀ c ∈ w, sep c = false) : wordsBy sep w = [w] := by
  simp [wordsBy, List.splitOnP_eq_singleton h, hne]

theorem wordsBy_append_word (hne : w ≠ []) (h : ∀ c ∈ w, sep c = false) (hc : sep c = true) (t : Text) :
    wordsBy sep (w ++ c :: t) = w :: wordsBy sep t := by
  rw [wordsBy_append_cons hc, wordsBy_word hne h, List.singleton_append]

/-- Separators before a text make no difference. -/
theorem wordsBy_append_left (h : ∀ c ∈ u, sep c = true) (t : Text) :
    wordsBy sep (u ++ t) = wordsBy sep t := by
  induction u with
  | nil => rfl
  | cons c u ih => grind [wordsBy_cons]

theorem wordsBy_concat (h : sep c = true) (t : Text) : wordsBy sep (t ++ [c]) = wordsBy sep t := by
  rw [wordsBy_append_cons h, wordsBy_nil, List.append_nil]

/-- A text up to its first separator. -/
theorem exists_word (sep : Char → Bool) (t : Text) : ∃ w after,
    t = w ++ after ∧ (∀ c ∈ w, sep c = false) ∧ ∀ c ∈ after.head?, sep c = true := by
  refine ⟨t.takeWhile (!sep ·), t.dropWhile (!sep ·), List.takeWhile_append_dropWhile.symm, fun c hc => ?_,
    fun c hc => ?_⟩
  · simpa using List.mem_takeWhile_imp hc
  · have hnot := List.head?_dropWhile_not (!sep ·) t
    rw [Option.mem_def] at hc
    simpa [hc] using hnot

/-- A text that begins with no separator begins with its first word. -/
theorem wordsBy_start (hc : sep c = false) (t : Text) : ∃ w after,
    c :: t = w ++ after ∧ w ≠ [] ∧ (∀ c ∈ w, sep c = false) ∧ (∀ c ∈ after.head?, sep c = true) ∧
      wordsBy sep (c :: t) = w :: wordsBy sep after := by
  obtain ⟨w, after, hsplit, hw, hafter⟩ := exists_word sep (c :: t)
  have hne : w ≠ [] := by
    rintro rfl
    have hsep : sep c = true := hafter c (by rw [← List.nil_append after, ← hsplit]; rfl)
    rw [hc] at hsep
    cases hsep
  refine ⟨w, after, hsplit, hne, hw, hafter, ?_⟩
  rw [hsplit]
  cases after with
  | nil => rw [List.append_nil, wordsBy_word hne hw, wordsBy_nil]
  | cons d after => rw [wordsBy_append_word hne hw (hafter d rfl), wordsBy_cons (hafter d rfl)]

/-- Where the first word stands. -/
theorem wordsBy_eq_cons {ws : List Text} (h : wordsBy sep t = w :: ws) : ∃ gap after,
    t = gap ++ w ++ after ∧ (∀ c ∈ gap, sep c = true) ∧ w ≠ [] ∧ (∀ c ∈ w, sep c = false) ∧
      (∀ c ∈ after.head?, sep c = true) ∧ wordsBy sep after = ws := by
  induction t with
  | nil => simp at h
  | cons c t ih =>
    cases hc : sep c with
    | true =>
      rw [wordsBy_cons hc] at h
      obtain ⟨gap, after, rfl, hgap, hw⟩ := ih h
      exact ⟨c :: gap, after, rfl, List.forall_mem_cons.mpr ⟨hc, hgap⟩, hw⟩
    | false =>
      obtain ⟨word, after, hsplit, hne, hword, hafter, hwords⟩ := wordsBy_start hc t
      rw [hwords, List.cons.injEq] at h
      obtain ⟨rfl, rfl⟩ := h
      exact ⟨[], after, hsplit, List.forall_mem_nil _, hne, hword, hafter, rfl⟩

/-- A text without words has only separators. -/
theorem wordsBy_eq_nil (h : wordsBy sep t = []) : ∀ c ∈ t, sep c = true := by
  induction t with
  | nil => exact List.forall_mem_nil _
  | cons c t ih =>
    cases hc : sep c with
    | true => exact List.forall_mem_cons.mpr ⟨hc, ih (wordsBy_cons hc t ▸ h)⟩
    | false =>
      obtain ⟨w, after, -, -, -, -, hwords⟩ := wordsBy_start hc t
      rw [hwords] at h
      cases h

theorem mem_wordsBy (h : w ∈ wordsBy sep t) : w ≠ [] ∧ (∀ c ∈ w, sep c = false) ∧ w <:+: t := by
  induction hws : wordsBy sep t generalizing t with
  | nil => simp [hws] at h
  | cons v ws ih =>
    obtain ⟨gap, after, rfl, -, hne, hv, -, rfl⟩ := wordsBy_eq_cons hws
    rw [hws] at h
    rcases List.mem_cons.mp h with rfl | h
    · exact ⟨hne, hv, List.infix_append _ _ _⟩
    · obtain ⟨hw, hsep, hin⟩ := ih h rfl
      exact ⟨hw, hsep, hin.trans (List.suffix_append _ _).isInfix⟩

/-- What separates nothing stands in a word. -/
theorem exists_mem_wordsBy (hmem : c ∈ t) (hc : sep c = false) : ∃ w ∈ wordsBy sep t, c ∈ w := by
  induction hws : wordsBy sep t generalizing t with
  | nil =>
    rw [wordsBy_eq_nil hws c hmem] at hc
    cases hc
  | cons v ws ih =>
    obtain ⟨gap, after, rfl, hgap, -, -, -, rfl⟩ := wordsBy_eq_cons hws
    rcases List.mem_append.mp hmem with hmem | hmem
    · rcases List.mem_append.mp hmem with hmem | hmem
      · rw [hgap c hmem] at hc
        cases hc
      · exact ⟨v, List.mem_cons_self, hmem⟩
    · obtain ⟨w, hw, hin⟩ := ih hmem rfl
      exact ⟨w, List.mem_cons_of_mem v hw, hin⟩

/-- What stands directly in front of a separator ends a word. -/
theorem exists_mem_wordsBy_suffix (hne : w ≠ []) (hw : ∀ c ∈ w, sep c = false) (hc : sep c = true) (t u : Text) :
    ∃ v ∈ wordsBy sep (t ++ (w ++ c :: u)), w <:+ v := by
  induction hn : t.length using Nat.strong_induction_on generalizing t with
  | _ n ih =>
    subst hn
    by_cases h : ∃ d ∈ t, sep d = true
    · -- the words in front of the separator are others
      obtain ⟨d, hd, hsep⟩ := h
      obtain ⟨a, b, rfl⟩ := List.append_of_mem hd
      obtain ⟨v, hv, hsuffix⟩ := ih b.length (by simp; omega) b rfl
      refine ⟨v, ?_, hsuffix⟩
      rw [List.append_assoc, List.cons_append, wordsBy_append_cons hsep]
      exact List.mem_append_right _ hv
    · have hword : ∀ d ∈ t ++ w, sep d = false := by
        refine List.forall_mem_append.mpr ⟨fun d hd => ?_, hw⟩
        simpa using fun hsep => h ⟨d, hd, hsep⟩
      refine ⟨t ++ w, ?_, List.suffix_append t w⟩
      rw [← List.append_assoc, wordsBy_append_word (by simp [hne]) hword hc]
      exact List.mem_cons_self

/-- Words that are put together with a separator between them are read as they were. -/
theorem wordsBy_intercalate (hc : sep c = true) {ws : List Text} (h : ∀ w ∈ ws, w ≠ [] ∧ ∀ c ∈ w, sep c = false) :
    wordsBy sep (List.intercalate [c] ws) = ws := by
  induction ws with
  | nil => exact wordsBy_nil sep
  | cons w ws ih =>
    obtain ⟨⟨hne, hw⟩, hws⟩ := List.forall_mem_cons.mp h
    cases ws with
    | nil => rw [List.intercalate_singleton, wordsBy_word hne hw]
    | cons v ws =>
      rw [List.intercalate_cons_cons, List.append_assoc, List.singleton_append,
        wordsBy_append_word hne hw hc, ih hws]

/-! ## Lines -/

/-- `text.splitlines(keepends=True)` -/
def splitlinesKeep : Text → List Text
  | [] => []
  | '\r' :: '\n' :: t => ['\r', '\n'] :: splitlinesKeep t
  | c :: t =>
    if isLineEnd c then [c] :: splitlinesKeep t
    else match splitlinesKeep t with
      | [] => [[c]]
      | l :: ls => (c :: l) :: ls

/-- The only line breaks are newlines. -/
def NewlineBreaks (t : Text) : Prop := ∀ c ∈ t, isLineEnd c = true → c = '\n'

/-- A line up to its newline. -/
def Body (l : Text) : Prop := ∀ c ∈ l, isLineEnd c = false

/-- A line with a newline at its end. -/
def Closed (l : Text) : Prop := ∃ body, Body body ∧ l = body ++ ['\n']

/-- The lines of a text: all but the last have a newline, and the last is not empty. -/
inductive Lines : List Text → Prop
  | nil : Lines []
  | last {l : Text} : l ≠ [] → Body l → Lines [l]
  | cons {l : Text} {ls : List Text} : Closed l → Lines ls → Lines (l :: ls)

variable {l : Text} {ls ms : List Text}

theorem splitlinesKeep_cons (hc : isLineEnd c = false) (t : Text) :
    splitlinesKeep (c :: t) = match splitlinesKeep t with
      | [] => [[c]]
      | l :: ls => (c :: l) :: ls := by
  have hne : c ≠ '\r' := by
    rintro rfl
    cases hc
  rw [splitlinesKeep, if_neg (by simp [hc])]
  rintro t' rfl
  exact absurd rfl hne

theorem splitlinesKeep_body (hne : l ≠ []) (h : Body l) : splitlinesKeep l = [l] := by
  induction l with
  | nil => exact absurd rfl hne
  | cons c l ih =>
    obtain ⟨hc, hl⟩ := List.forall_mem_cons.mp h
    rw [splitlinesKeep_cons hc]
    cases l with
    | nil => rfl
    | cons d l => rw [ih (by simp) hl]

theorem splitlinesKeep_closed (h : Closed l) (t : Text) :
    splitlinesKeep (l ++ t) = l :: splitlinesKeep t := by
  obtain ⟨body, hbody, rfl⟩ := h
  induction body with
  | nil => rfl
  | cons c body ih =>
    obtain ⟨hc, hbody⟩ := List.forall_mem_cons.mp hbody
    rw [List.cons_append, List.cons_append, splitlinesKeep_cons hc, ih hbody]

/-- Lines that are put together are read as they are. -/
theorem splitlinesKeep_flatten (h : Lines ls) : splitlinesKeep ls.flatten = ls := by
  induction h with
  | nil => rfl
  | last hne h => rw [List.flatten_singleton, splitlinesKeep_body hne h]
  | cons hl _ ih => rw [List.flatten_cons, splitlinesKeep_closed hl, ih]

theorem Lines.cons_char (hc : isLineEnd c = false) (h : Lines (l :: ls)) : Lines ((c :: l) :: ls) := by
  cases h with
  | last hne h => exact .last (by simp) (List.forall_mem_cons.mpr ⟨hc, h⟩)
  | cons hl hls =>
    obtain ⟨body, hbody, rfl⟩ := hl
    exact .cons ⟨c :: body, List.forall_mem_cons.mpr ⟨hc, hbody⟩, rfl⟩ hls

theorem lines_splitlinesKeep (h : NewlineBreaks t) : Lines (splitlinesKeep t) := by
  induction t with
  | nil => exact .nil
  | cons c t ih =>
    obtain ⟨hc, ht⟩ := List.forall_mem_cons.mp h
    cases hend : isLineEnd c with
    | true =>
      obtain rfl := hc hend
      exact .cons ⟨[], List.forall_mem_nil _, rfl⟩ (ih ht)
    | false =>
      rw [splitlinesKeep_cons hend]
      have hlines := ih ht
      cases hsplit : splitlinesKeep t with
      | nil => exact .last (by simp) (by simpa [Body] using hend)
      | cons l ls =>
        rw [hsplit] at hlines
        exact hlines.cons_char hend

/-- Lines are cut anywhere. -/
theorem lines_append_cons : Lines (ms ++ l :: ls) ↔ (∀ m ∈ ms, Closed m) ∧ Lines (l :: ls) := by
  induction ms with
  | nil => simp
  | cons m ms ih =>
    rw [List.cons_append, List.forall_mem_cons, and_assoc, ← ih]
    constructor
    · intro h
      generalize hrest : ms ++ l :: ls = rest at h ⊢
      cases h with
      | last => simp at hrest
      | cons hm h => exact ⟨hm, h⟩
    · exact fun h => .cons h.1 h.2

/-- The first line ends in a newline or is the last. -/
theorem Lines.head_tail (h : Lines (l :: ls)) : (Closed l ∨ Body l) ∧ Lines ls := by
  cases h with
  | last hne h => exact ⟨.inr h, .nil⟩
  | cons hl hls => exact ⟨.inl hl, hls⟩

/-- A line that begins in another way and ends alike. -/
theorem Lines.start (h : Lines ((t ++ [c]) :: ls)) (hu : Body t → Body u) : Lines ((u ++ [c]) :: ls) := by
  cases h with
  | last hne h =>
    obtain ⟨ht, hc⟩ := List.forall_mem_append.mp h
    exact .last (by simp) (List.forall_mem_append.mpr ⟨hu ht, hc⟩)
  | cons hl hls =>
    obtain ⟨body, hbody, heq⟩ := hl
    obtain ⟨rfl, hc⟩ := List.append_inj' heq rfl
    exact .cons ⟨u, hu hbody, by rw [hc]⟩ hls

theorem newlineBreaks_flatten (h : Lines ls) : NewlineBreaks ls.flatten := by
  have hbody : ∀ l, Body l → NewlineBreaks l := fun l hl c hc hend => by
    rw [hl c hc] at hend
    cases hend
  induction h with
  | nil => exact List.forall_mem_nil _
  | last hne h =>
    rw [List.flatten_singleton]
    exact hbody _ h
  | cons hl _ ih =>
    obtain ⟨body, hl, rfl⟩ := hl
    rw [List.flatten_cons, NewlineBreaks, List.forall_mem_append, List.forall_mem_append]
    exact ⟨⟨hbody body hl, by simp⟩, ih⟩

theorem NewlineBreaks.universalNewlines_eq (h : NewlineBreaks t) : universalNewlines t = t :=
  universalNewlines_eq_self fun hc => by cases h _ hc (by decide)

/-! ## Lines that are read -/

/-- A carriage return in front of a newline is a part of it. -/
def trimReturn (l : Text) : Text := if l.getLast? = some '\r' then l.dropLast else l

theorem trimReturn_concat (l : Text) : trimReturn (l ++ ['\r']) = l := by
  simp [trimReturn]

theorem trimReturn_eq_self (h : l.getLast? ≠ some '\r') : trimReturn l = l := if_neg h

theorem trimReturn_append {u : Text} (hne : u ≠ []) (l : Text) : trimReturn (l ++ u) = l ++ trimReturn u := by
  unfold trimReturn
  rw [List.getLast?_append_of_ne_nil _ hne]
  split
  · rw [List.dropLast_append_of_ne_nil hne]
  · rfl

/-- A line is as it was, or is without its last carriage return. -/
theorem trimReturn_cases (l : Text) : trimReturn l = l ∨ l = trimReturn l ++ ['\r'] := by
  by_cases h : l.getLast? = some '\r'
  · obtain ⟨u, rfl⟩ := List.getLast?_eq_some_iff.mp h
    exact .inr (by rw [trimReturn_concat])
  · exact .inl (trimReturn_eq_self h)

/-- Texts are read without regard to each other, unless a newline stands behind a carriage return. -/
theorem joinLineEnds_append_of_not_mem (hl : '\n' ∉ l) (h : l.getLast? ≠ some '\r' ∨ u.head? ≠ some '\n') :
    joinLineEnds (l ++ u) = l ++ joinLineEnds u := by
  induction l with
  | nil => rfl
  | cons c l ih =>
    cases l with
    | nil => exact joinLineEnds_cons (h.imp_left fun hlast => by simpa using hlast)
    | cons d l =>
      have hd : d ≠ '\n' := fun he => hl (by simp [he])
      have hrest := ih (List.not_mem_of_not_mem_cons hl) (by simpa using h)
      rw [List.cons_append, joinLineEnds_cons (.inr (by simpa using hd)), hrest]
      rfl

/-- A line is read without regard to what follows its newline. -/
theorem joinLineEnds_append_newline (h : '\n' ∉ l) (t : Text) :
    joinLineEnds (l ++ '\n' :: t) = trimReturn l ++ '\n' :: joinLineEnds t := by
  have hend : joinLineEnds ('\n' :: t) = '\n' :: joinLineEnds t := joinLineEnds_cons (.inl (by decide))
  by_cases hlast : l.getLast? = some '\r'
  · obtain ⟨u, rfl⟩ := List.getLast?_eq_some_iff.mp hlast
    have hu : '\n' ∉ u := fun hmem => h (List.mem_append_left _ hmem)
    rw [trimReturn_concat, List.append_assoc, joinLineEnds_append_of_not_mem hu (.inr (by simp))]
    rfl
  · rw [trimReturn_eq_self hlast, joinLineEnds_append_of_not_mem h (.inl hlast), hend]

/-- What becomes of a character that is read. -/
def readChar (c : Char) : Char := if c = '\r' then '\n' else c

theorem universalNewlines_append_newline (h : '\n' ∉ l) (t : Text) :
    universalNewlines (l ++ '\n' :: t) = (trimReturn l).map readChar ++ '\n' :: universalNewlines t := by
  rw [universalNewlines, joinLineEnds_append_newline h, List.map_append, List.map_cons, universalNewlines]
  rfl

/-- The lines of a file, each of which may be read as more than one. -/
theorem splitlines_universalNewlines (h : ∀ l ∈ ls, '\n' ∉ l) :
    splitlines (universalNewlines (ls.flatMap fun l => l ++ ['\n'])) =
      (ls.map trimReturn).flatMap fun l => (l.map readChar).splitOnP isLineEnd := by
  have hsplit : (universalNewlines (ls.flatMap fun l => l ++ ['\n'])).splitOnP isLineEnd =
      ((ls.map trimReturn).flatMap fun l => (l.map readChar).splitOnP isLineEnd) ++ [[]] := by
    induction ls with
    | nil => rfl
    | cons l ls ih =>
      obtain ⟨hn, h⟩ := List.forall_mem_cons.mp h
      rw [List.flatMap_cons, List.append_assoc, List.singleton_append, universalNewlines_append_newline hn,
        List.splitOnP_append_cons _ _ (by decide), ih h, List.map_cons, List.flatMap_cons, List.append_assoc]
  simp only [splitlines, joinLineEnds_eq_self (not_mem_universalNewlines _), hsplit, List.getLast?_concat, if_true,
    List.dropLast_concat]

theorem map_readChar (h : Body l) : l.map readChar = l := by
  conv_rhs => rw [← List.map_id l]
  refine List.map_congr_left fun c hc => if_neg ?_
  rintro rfl
  cases h _ hc

/-- A line without line ends is read as one line. -/
theorem splitOnP_readChar (h : Body l) : (l.map readChar).splitOnP isLineEnd = [l] := by
  rw [map_readChar h, List.splitOnP_eq_singleton h]

/-- A line that is read as one line has no line end. -/
theorem body_of_length (h : ((l.map readChar).splitOnP isLineEnd).length = 1) : Body l := by
  intro c hc
  by_contra hend
  have hread : isLineEnd (readChar c) = true := by
    rw [readChar]
    split
    · decide
    · simpa using hend
  obtain ⟨u, v, hsplit⟩ := List.append_of_mem (List.mem_map_of_mem hc)
  rw [hsplit, List.splitOnP_append_cons _ _ hread, List.length_append] at h
  have hu := List.length_pos_of_ne_nil (List.splitOnP_ne_nil isLineEnd u)
  have hv := List.length_pos_of_ne_nil (List.splitOnP_ne_nil isLineEnd v)
  omega

/-- Where as many lines are read as were written, none has a line end. -/
theorem body_of_length_flatMap
    (h : (ls.flatMap fun l => (l.map readChar).splitOnP isLineEnd).length = ls.length) : ∀ l ∈ ls, Body l := by
  have hpos : ∀ l : Text, 0 < ((l.map readChar).splitOnP isLineEnd).length := fun l =>
    List.length_pos_of_ne_nil (List.splitOnP_ne_nil _ _)
  have hle : ∀ ls : List Text, ls.length ≤ (ls.flatMap fun l => (l.map readChar).splitOnP isLineEnd).length := by
    intro ls
    induction ls with
    | nil => exact Nat.le_refl 0
    | cons l ls ih =>
      rw [List.flatMap_cons, List.length_append, List.length_cons]
      have := hpos l
      omega
  induction ls with
  | nil => exact List.forall_mem_nil _
  | cons l ls ih =>
    rw [List.flatMap_cons, List.length_append, List.length_cons] at h
    have hl := hpos l
    have hls := hle ls
    exact List.forall_mem_cons.mpr ⟨body_of_length (by omega), ih (by omega)⟩

/-! ## Line ends of any kind -/

theorem splitlinesKeep_cons_if (h : c ≠ '\r' ∨ t.head? ≠ some '\n') :
    splitlinesKeep (c :: t) = if isLineEnd c then [c] :: splitlinesKeep t
      else match splitlinesKeep t with
        | [] => [[c]]
        | l :: ls => (c :: l) :: ls := by
  rw [splitlinesKeep]
  rintro t' rfl rfl
  simp at h

/-- The text is empty or ends with a line end. -/
def Terminated (t : Text) : Prop := ∀ c ∈ t.getLast?, isLineEnd c = true

theorem terminated_of_getLast? (h : t.getLast? = some c) (hc : isLineEnd c = true) : Terminated t := fun d hd => by
  obtain rfl : c = d := Option.some.inj (h.symm.trans hd)
  exact hc

theorem splitlinesKeep_eq_nil : splitlinesKeep t = [] ↔ t = [] := by
  fun_cases splitlinesKeep t <;> simp

/-- Texts that are put together after a line end have their own lines. -/
theorem splitlinesKeep_append (hl : Terminated l) (h : l.getLast? ≠ some '\r' ∨ u.head? ≠ some '\n') :
    splitlinesKeep (l ++ u) = splitlinesKeep l ++ splitlinesKeep u := by
  fun_induction splitlinesKeep l with
  | case1 => rfl
  | case2 t ih =>
    rw [List.cons_append, List.cons_append, splitlinesKeep]
    cases t with
    | nil => rfl
    | cons d t => rw [ih (by simpa [Terminated] using hl) (by simpa using h), List.cons_append]
  | case3 c t hjoin hend ih =>
    have hc : c ≠ '\r' ∨ (t ++ u).head? ≠ some '\n' := by
      cases t with
      | nil => simpa using h
      | cons d t => exact Decidable.not_and_iff_not_or_not.mp fun ⟨hc, hd⟩ => hjoin t hc (by simpa using hd)
    have ht : Terminated t ∧ (t.getLast? ≠ some '\r' ∨ u.head? ≠ some '\n') := by
      cases t <;> grind [Terminated]
    rw [List.cons_append, splitlinesKeep_cons_if hc, if_pos hend, ih ht.1 ht.2, List.cons_append]
  | case4 c t hjoin hend hsplit ih =>
    obtain rfl := splitlinesKeep_eq_nil.mp hsplit
    exact absurd (hl c rfl) hend
  | case5 c t hjoin hend l ls hsplit ih =>
    have hne : t ≠ [] := by
      rintro rfl
      cases hsplit
    have hc : c ≠ '\r' := by
      rintro rfl
      exact hend (by decide)
    have ht : Terminated t ∧ (t.getLast? ≠ some '\r' ∨ u.head? ≠ some '\n') := by
      cases t <;> grind [Terminated]
    rw [List.cons_append, splitlinesKeep_cons_if (.inl hc), if_neg hend, ih ht.1 ht.2, hsplit]
    rfl

/-- A newline behind a text makes a line of its own or ends the last. -/
theorem splitlinesKeep_newline (t : Text) :
    splitlinesKeep (t ++ ['\n']) = splitlinesKeep t ++ [['\n']] ∨ ∃ ls l, splitlinesKeep t = ls ++ [l] ∧
      splitlinesKeep (t ++ ['\n']) = ls ++ [l ++ ['\n']] := by
  by_cases hend : Terminated t ∧ t.getLast? ≠ some '\r'
  · exact .inl (splitlinesKeep_append hend.1 (.inl hend.2))
  · right
    fun_induction splitlinesKeep t with
    | case1 => simp [Terminated] at hend
    | case2 t ih =>
      have ht : t ≠ [] := by
        rintro rfl
        exact hend ⟨by simp [Terminated]; decide, by simp⟩
      obtain ⟨d, t, rfl⟩ := List.exists_cons_of_ne_nil ht
      obtain ⟨ls, l, hls, hnew⟩ := ih (by simpa [Terminated] using hend)
      refine ⟨['\r', '\n'] :: ls, l, by rw [hls, List.cons_append], ?_⟩
      rw [List.cons_append, List.cons_append, splitlinesKeep, hnew, List.cons_append]
    | case3 c t hjoin hc ih =>
      cases t with
      | nil =>
        have hreturn : c = '\r' := by simpa [Terminated, hc] using hend
        exact ⟨[], [c], rfl, hreturn ▸ rfl⟩
      | cons d t =>
        obtain ⟨ls, l, hls, hnew⟩ := ih (by simpa [Terminated] using hend)
        refine ⟨[c] :: ls, l, by rw [hls, List.cons_append], ?_⟩
        have hd : c ≠ '\r' ∨ (d :: t ++ ['\n']).head? ≠ some '\n' :=
          Decidable.not_and_iff_not_or_not.mp fun ⟨hc, hd⟩ => hjoin t hc (by simpa using hd)
        rw [List.cons_append, splitlinesKeep_cons_if hd, if_pos hc, hnew, List.cons_append]
    | case4 c t hjoin hc hsplit ih =>
      obtain rfl := splitlinesKeep_eq_nil.mp hsplit
      exact ⟨[], [c], rfl, by rw [List.singleton_append, splitlinesKeep_cons (by simpa using hc)]; rfl⟩
    | case5 c t hjoin hc l ls hsplit ih =>
      have hne : t ≠ [] := by
        rintro rfl
        cases hsplit
      obtain ⟨d, t, rfl⟩ := List.exists_cons_of_ne_nil hne
      obtain ⟨ms, m, hms, hnew⟩ := ih (by simpa [Terminated] using hend)
      rw [List.cons_append, splitlinesKeep_cons (by simpa using hc), hnew]
      cases ms with
      | nil =>
        obtain ⟨rfl, rfl⟩ := List.cons.inj (hsplit.symm.trans hms)
        exact ⟨[], c :: l, rfl, rfl⟩
      | cons k ms =>
        obtain ⟨rfl, rfl⟩ := List.cons.inj (hsplit.symm.trans hms)
        exact ⟨(c :: l) :: ms, m, rfl, rfl⟩

/-- One line -/
def IsLine (l : Text) : Prop := splitlinesKeep l = [l]

theorem isLine_cons (hne : t ≠ []) (h : c ≠ '\r' ∨ t ≠ ['\n']) :
    IsLine (c :: t) ↔ isLineEnd c = false ∧ IsLine t := by
  by_cases hjoin : c ≠ '\r' ∨ t.head? ≠ some '\n'
  · rw [IsLine, splitlinesKeep_cons_if hjoin]
    cases hc : isLineEnd c with
    | true => simp [Ne.symm hne]
    | false =>
      cases hsplit : splitlinesKeep t with
      | nil => exact absurd (splitlinesKeep_eq_nil.mp hsplit) hne
      | cons m ms => simp [IsLine, hsplit]
  · obtain ⟨rfl, hd⟩ : c = '\r' ∧ t.head? = some '\n' := by simpa using hjoin
    obtain ⟨d, t, rfl⟩ := List.exists_cons_of_ne_nil hne
    obtain rfl := Option.some.inj hd
    have hend : isLineEnd '\r' = true := by decide
    simp_all [IsLine, splitlinesKeep]

theorem isLine_append (hne : t ≠ []) (h : u.getLast? ≠ some '\r' ∨ t ≠ ['\n']) :
    IsLine (u ++ t) ↔ Body u ∧ IsLine t := by
  induction u with
  | nil => simp [Body]
  | cons c u ih =>
    cases u with
    | nil => simpa [Body] using isLine_cons hne (by simpa using h)
    | cons d u =>
      have hne' : d :: u ++ t ≠ [] := by simp
      have h' : c ≠ '\r' ∨ d :: u ++ t ≠ ['\n'] := .inr (by simp [hne])
      rw [List.cons_append, isLine_cons hne' h', ih (by simpa using h), ← and_assoc]
      simp [Body]

/-- The lines of a text are lines. -/
theorem isLine_splitlinesKeep (t : Text) : ∀ l ∈ splitlinesKeep t, IsLine l := by
  fun_induction splitlinesKeep t with
  | case1 => exact List.forall_mem_nil _
  | case2 t ih => exact List.forall_mem_cons.mpr ⟨rfl, ih⟩
  | case3 c t hc hend ih =>
    exact List.forall_mem_cons.mpr ⟨by simp [IsLine, splitlinesKeep_cons_if, hend, splitlinesKeep], ih⟩
  | case4 c t hc hend hsplit ih =>
    exact List.forall_mem_singleton.mpr (splitlinesKeep_body (by simp) (by simpa [Body] using hend))
  | case5 c t hc hend m ms hsplit ih =>
    rw [hsplit] at ih
    obtain ⟨hm, hms⟩ := List.forall_mem_cons.mp ih
    exact List.forall_mem_cons.mpr ⟨by rw [IsLine, splitlinesKeep_cons (by simpa using hend), hm], hms⟩

theorem IsLine.ne_nil (h : IsLine l) : l ≠ [] := by
  rintro rfl
  cases h

/-- Each line that another follows has its line end. -/
theorem terminated_splitlinesKeep (t : Text) : (splitlinesKeep t).Pairwise fun l _ => Terminated l := by
  fun_induction splitlinesKeep t with
  | case1 => exact .nil
  | case2 t ih =>
    refine List.pairwise_cons.mpr ⟨fun _ _ => ?_, ih⟩
    simp [Terminated]
    decide
  | case3 c t hc hend ih =>
    exact List.pairwise_cons.mpr ⟨fun _ _ => by simpa [Terminated] using hend, ih⟩
  | case4 c t hc hend hsplit ih => exact List.pairwise_singleton _ _
  | case5 c t hc hend m ms hsplit ih =>
    obtain ⟨d, m, rfl⟩ := List.exists_cons_of_ne_nil (isLine_splitlinesKeep t m (by simp [hsplit])).ne_nil
    rw [hsplit] at ih
    obtain ⟨hm, hms⟩ := List.pairwise_cons.mp ih
    exact List.pairwise_cons.mpr ⟨fun k hk => by simpa [Terminated] using hm k hk, hms⟩
