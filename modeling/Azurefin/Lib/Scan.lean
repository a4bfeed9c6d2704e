import Azurefin.Lib.Lines
import Azurefin.Lib.Regex

/-!
# Searching a text line by line

`findall`, `search`, `split` and `sub` with a pattern that is anchored at the start of a line. What is
found depends on the tails of the text at which its lines start; where the pattern begins with `^\s*`,
a blank line stands for the line after it.

## Main results

* `Regex.findall_eq_filterMap` — with matches that do not overlap, one result for each line that starts
  a match.
* `Regex.matchAt_indented_word` — an indented word in front of a space.
-/

namespace Regex

/-- The matches of a pattern from left to right, each as what its first group captured, with the
characters between them. The pattern does not match the empty text. -/
def scan (r : Regex) : Nat → Bool → Text → List (Char ⊕ Text)
  | _, _, [] => []
  | n + 1, _, x :: t => scan r n (x == '\n') t
  | 0, s, x :: t =>
    match r.matchAt s (x :: t) with
    | some m => .inr (m.1.headD []) :: scan r (t.length - m.2.length) (x == '\n') t
    | none => .inl x :: scan r 0 (x == '\n') t

/-- `re.findall(r, t, re.MULTILINE)` -/
def findall (r : Regex) (t : Text) : List Text := (r.scan 0 true t).filterMap Sum.getRight?

/-- `re.search(r, t, re.MULTILINE)`, with `group(1)` -/
def search (r : Regex) (t : Text) : Option Text := (r.findall t).head?

/-- `re.split(r, t, maxsplit=1, flags=re.MULTILINE)[0]` -/
def before (r : Regex) (t : Text) : Text :=
  ((r.scan 0 true t).takeWhile Sum.isLeft).filterMap Sum.getLeft?

/-- `re.sub(r, '', t, flags=re.MULTILINE)` -/
def delete (r : Regex) (t : Text) : Text := (r.scan 0 true t).filterMap Sum.getLeft?

/-- A pattern that begins with `^` -/
def Anchored (r : Regex) : Prop := ∀ t, r.matchAt false t = none

/-- A pattern that does not match the empty text -/
def Consumes (r : Regex) : Prop := ∀ c, ∀ d ∈ r.ends c, d.rest.length < c.rest.length

variable {r r' : Regex} {s : Bool} {x : Char} {l t u v w : Text} {gs ls ms ws : List Text} {m : List Text × Text}

/-! ## One match -/

theorem anchored_seq (r : Regex) : Anchored (seq lineStart r) := fun _ => rfl

theorem Consumes.seq_left (h : Consumes r) (r' : Regex) : Consumes (seq r r') := fun c d hd => by
  obtain ⟨b, hb, hd⟩ := mem_ends_seq.mp hd
  exact (rest_suffix r' hd).length_le.trans_lt (h c b hb)

theorem Consumes.seq_right (r : Regex) (h : Consumes r') : Consumes (seq r r') := fun c d hd => by
  obtain ⟨b, hb, hd⟩ := mem_ends_seq.mp hd
  exact (h b d hd).trans_le (rest_suffix r hb).length_le

theorem consumes_char (p : Char → Bool) : Consumes (char p) := fun c d hd => by
  obtain ⟨x, t, hrest, -, rfl⟩ := mem_ends_char.mp hd
  simp [hrest]

theorem consumes_literal (h : w ≠ []) : Consumes (literal w) := by
  cases w with
  | nil => exact absurd rfl h
  | cons x w => exact (consumes_char _).seq_left _

theorem matchAt_eq_some (h : r.matchAt s t = some m) : ∃ d ∈ r.ends ⟨s, t, []⟩, m = (d.groups, d.rest) := by
  obtain ⟨d, hd, rfl⟩ := Option.map_eq_some_iff.mp h
  exact ⟨d, List.mem_of_head? hd, rfl⟩

theorem matchAt_eq_none : r.matchAt s t = none ↔ r.ends ⟨s, t, []⟩ = [] := by
  rw [matchAt, Option.map_eq_none_iff, List.head?_eq_none_iff]

/-- What a match takes is a start of the text that is not empty. -/
theorem Consumes.exists_append (hc : Consumes r) (h : r.matchAt s t = some m) : ∃ u, u ≠ [] ∧ t = u ++ m.2 := by
  obtain ⟨d, hd, rfl⟩ := matchAt_eq_some h
  obtain ⟨u, hu⟩ := rest_suffix r hd
  refine ⟨u, ?_, hu.symm⟩
  rintro rfl
  have hlt := hc _ d hd
  rw [← hu] at hlt
  exact lt_irrefl _ hlt

theorem Consumes.matchAt_nil (hc : Consumes r) (s : Bool) : r.matchAt s [] = none := by
  cases h : r.matchAt s [] with
  | none => rfl
  | some m =>
    obtain ⟨u, hu, hnil⟩ := hc.exists_append h
    exact absurd (List.append_eq_nil_iff.mp hnil.symm).1 hu

theorem groups_of_matchAt (h : r.matchAt s t = some m) : ∀ g ∈ m.1, g <:+: t := by
  obtain ⟨d, hd, rfl⟩ := matchAt_eq_some h
  exact fun g hg => (subtext_of_mem_groups r hd g hg).resolve_left List.not_mem_nil

/-! ## Scanning -/

theorem scan_skip (r : Regex) (s : Bool) (u v : Text) :
    r.scan u.length s (u ++ v) = r.scan 0 (startsLine s u) v := by
  induction u generalizing s with
  | nil => rfl
  | cons x u ih => exact ih _

theorem scan_match (hu : u ≠ []) (h : r.matchAt s (u ++ v) = some (gs, v)) :
    r.scan 0 s (u ++ v) = .inr (gs.headD []) :: r.scan 0 (startsLine s u) v := by
  cases u with
  | nil => exact absurd rfl hu
  | cons x u =>
    rw [List.cons_append] at h ⊢
    rw [scan, h]
    dsimp only
    rw [List.length_append, Nat.add_sub_cancel, scan_skip]
    rfl

theorem Anchored.scan_append (ha : Anchored r) (hl : '\n' ∉ l) (t : Text) :
    r.scan 0 false (l ++ t) = l.map .inl ++ r.scan 0 false t := by
  induction l with
  | nil => rfl
  | cons x l ih =>
    obtain ⟨hx, hl⟩ := not_or.mp (List.mem_cons.not.mp hl)
    have hstart : (x == '\n') = false := beq_eq_false_iff_ne.mpr (Ne.symm hx)
    rw [List.cons_append, scan, ha]
    simp only [hstart, ih hl, List.map_cons, List.cons_append]

/-- A line at whose start there is no match. -/
theorem Anchored.scan_line (ha : Anchored r) (hl : '\n' ∉ l) (h : r.matchAt true (l ++ '\n' :: t) = none) :
    r.scan 0 true (l ++ '\n' :: t) = (l ++ ['\n']).map .inl ++ r.scan 0 true t := by
  cases l with
  | nil =>
    rw [List.nil_append] at h ⊢
    rw [scan, h]
    rfl
  | cons x l =>
    obtain ⟨hx, hl⟩ := not_or.mp (List.mem_cons.not.mp hl)
    rw [List.cons_append] at h ⊢
    rw [scan, h]
    have hstart : (x == '\n') = false := beq_eq_false_iff_ne.mpr (Ne.symm hx)
    simp only [hstart, ha.scan_append hl]
    rw [scan, ha]
    simp

theorem Anchored.scan_last (ha : Anchored r) (hl : '\n' ∉ l) (h : r.matchAt true l = none) :
    r.scan 0 true l = l.map .inl := by
  cases l with
  | nil => rfl
  | cons x l =>
    obtain ⟨hx, hl⟩ := not_or.mp (List.mem_cons.not.mp hl)
    have hstart : (x == '\n') = false := beq_eq_false_iff_ne.mpr (Ne.symm hx)
    have hrest : r.scan 0 false l = l.map .inl := by
      simpa [scan] using ha.scan_append hl []
    rw [scan, h]
    simp [hstart, hrest]

/-! ## Lines -/

/-- A text with these lines -/
def unlines (ls : List Text) : Text := ls.flatMap fun l => l ++ ['\n']

@[simp] theorem unlines_nil : unlines [] = [] := rfl

theorem unlines_cons (l : Text) (ls : List Text) : unlines (l :: ls) = l ++ '\n' :: unlines ls := by
  simp [unlines]

theorem unlines_cons_append (l : Text) (ls : List Text) (t : Text) :
    unlines (l :: ls) ++ t = l ++ '\n' :: (unlines ls ++ t) := by
  simp [unlines]

theorem unlines_append (ls ms : List Text) : unlines (ls ++ ms) = unlines ls ++ unlines ms :=
  List.flatMap_append

/-- A text is its lines, each with a newline, and what follows the last newline. -/
theorem lineInduction {P : Text → Prop} (last : ∀ l, '\n' ∉ l → P l)
    (cons : ∀ l t, '\n' ∉ l → P t → P (l ++ '\n' :: t)) (t : Text) : P t := by
  induction hn : t.length using Nat.strong_induction_on generalizing t with
  | _ n ih =>
    subst hn
    by_cases h : '\n' ∈ t
    · obtain ⟨l, u, rfl, hl⟩ := List.eq_append_cons_of_mem h
      exact cons l u hl (ih u.length (by simp only [List.length_append, List.length_cons]; omega) u rfl)
    · exact last t h

theorem Body.newline_not_mem (h : Body l) : '\n' ∉ l := fun hn => by
  have hend := h '\n' hn
  exact absurd hend (by decide)

theorem splitlines_line (hl : Body l) (t : Text) : splitlines (l ++ '\n' :: t) = l :: splitlines t := by
  have hreturn : '\r' ∉ l := not_mem_of_isLineEnd hl (by decide)
  obtain ⟨k, ks, hsplit⟩ := List.exists_cons_of_ne_nil (List.splitOnP_ne_nil isLineEnd (joinLineEnds t))
  simp only [splitlines, joinLineEnds_append hreturn, joinLineEnds_cons (.inl (by decide) : '\n' ≠ '\r' ∨ _),
    List.splitOnP_append_cons_of_forall_mem hl '\n' (by decide), hsplit]
  rw [List.getLast?_cons_cons]
  split <;> rfl

theorem splitlines_body (hl : Body l) : splitlines l = if l = [] then [] else [l] := by
  have hreturn : '\r' ∉ l := not_mem_of_isLineEnd hl (by decide)
  simp only [splitlines, joinLineEnds_eq_self hreturn, List.splitOnP_eq_singleton hl]
  split <;> simp_all

/-- The lines of a text whose only line breaks are newlines. -/
theorem exists_lines (h : NewlineBreaks t) : ∃ ls last, t = unlines ls ++ last ∧ (∀ l ∈ ls, Body l) ∧ Body last ∧
    splitlines t = if last = [] then ls else ls ++ [last] := by
  have hbody : ∀ l, NewlineBreaks l → '\n' ∉ l → Body l := fun l hl hn c hc => by
    by_contra hend
    rw [Bool.not_eq_false] at hend
    exact hn (hl c hc hend ▸ hc)
  induction t using lineInduction with
  | last l hl => exact ⟨[], l, rfl, List.forall_mem_nil _, hbody l h hl, splitlines_body (hbody l h hl)⟩
  | cons l t hl ih =>
    have hline : Body l := hbody l (fun c hc => h c (List.mem_append_left _ hc)) hl
    obtain ⟨ls, last, rfl, hls, hlast, hsplit⟩ :=
      ih fun c hc => h c (List.mem_append_right _ (List.mem_cons_of_mem _ hc))
    refine ⟨l :: ls, last, (unlines_cons_append l ls last).symm, List.forall_mem_cons.mpr ⟨hline, hls⟩, hlast, ?_⟩
    rw [splitlines_line hline, hsplit]
    split <;> rfl

theorem splitlines_unlines (h : ∀ l ∈ ls, Body l) : splitlines (unlines ls) = ls := splitlines_flatMap h

theorem unlines_eq_intercalate (h : ls ≠ []) : unlines ls = List.intercalate ['\n'] ls ++ ['\n'] := by
  induction ls with
  | nil => exact absurd rfl h
  | cons l ls ih =>
    cases ls with
    | nil => simp [unlines]
    | cons k ls => rw [unlines_cons, ih (List.cons_ne_nil k ls), List.intercalate_cons_cons]; simp

/-- What follows each newline -/
def tailsAfter : Text → List Text
  | [] => []
  | x :: t => if x == '\n' then t :: tailsAfter t else tailsAfter t

/-- The tails of a text at which its lines start -/
def lineTails (t : Text) : List Text := t :: tailsAfter t

theorem tailsAfter_append (hl : '\n' ∉ l) (t : Text) : tailsAfter (l ++ t) = tailsAfter t := by
  induction l with
  | nil => rfl
  | cons x l ih =>
    obtain ⟨hx, hl⟩ := not_or.mp (List.mem_cons.not.mp hl)
    rw [List.cons_append, tailsAfter, if_neg (by simpa using Ne.symm hx), ih hl]

theorem tailsAfter_append_eq (u v : Text) :
    tailsAfter (u ++ v) = (tailsAfter u).map (· ++ v) ++ tailsAfter v := by
  induction u with
  | nil => rfl
  | cons x u ih =>
    rw [List.cons_append, tailsAfter, tailsAfter]
    split
    case isTrue => simp [ih]
    case isFalse => exact ih

theorem mem_tailsAfter : v ∈ tailsAfter t ↔ ∃ u, t = u ++ '\n' :: v := by
  induction t with
  | nil => simp [tailsAfter]
  | cons x t ih =>
    have hrest : (∃ u, x :: t = u ++ '\n' :: v) ↔ x = '\n' ∧ t = v ∨ v ∈ tailsAfter t := by
      rw [ih]
      constructor
      · rintro ⟨u, hu⟩
        cases u with
        | nil => exact .inl (List.cons.inj hu)
        | cons y u => exact .inr ⟨u, (List.cons.inj hu).2⟩
      · rintro (⟨rfl, rfl⟩ | ⟨u, rfl⟩)
        · exact ⟨[], rfl⟩
        · exact ⟨x :: u, rfl⟩
    rw [hrest, tailsAfter]
    split
    case isTrue hx => simp [beq_iff_eq.mp hx, eq_comm]
    case isFalse hx => simp [beq_iff_eq.not.mp hx]

theorem tailsAfter_line (hl : '\n' ∉ l) (t : Text) : tailsAfter (l ++ '\n' :: t) = lineTails t :=
  tailsAfter_append hl _

theorem tailsAfter_eq_nil (hl : '\n' ∉ l) : tailsAfter l = [] := by
  simpa [tailsAfter] using tailsAfter_append hl []

theorem mem_lineTails_unlines (ls : List Text) (t : Text) : t ∈ lineTails (unlines ls ++ t) := by
  rcases ls.eq_nil_or_concat' with rfl | ⟨ls, l, rfl⟩
  · exact List.mem_cons_self
  · refine List.mem_cons_of_mem _ (mem_tailsAfter.mpr ⟨unlines ls ++ l, ?_⟩)
    rw [unlines_append]
    simp [unlines]

/-! ## Results -/

/-- What is found behind the start of a line -/
def findFrom (r : Regex) (s : Bool) (t : Text) : List Text := (r.scan 0 s t).filterMap Sum.getRight?

theorem findall_eq_findFrom (r : Regex) (t : Text) : r.findall t = r.findFrom true t := rfl

theorem filterMap_getRight?_inl (l : Text) :
    (l.map (Sum.inl : Char → Char ⊕ Text)).filterMap Sum.getRight? = [] := by
  simp [List.filterMap_map, List.filterMap_eq_nil_iff]

theorem findFrom_match (hu : u ≠ []) (h : r.matchAt s (u ++ v) = some (gs, v)) :
    r.findFrom s (u ++ v) = gs.headD [] :: r.findFrom (startsLine s u) v := by
  rw [findFrom, scan_match hu h]
  rfl

theorem Anchored.findFrom_append (ha : Anchored r) (hl : '\n' ∉ l) (t : Text) :
    r.findFrom false (l ++ t) = r.findFrom false t := by
  rw [findFrom, ha.scan_append hl, List.filterMap_append, filterMap_getRight?_inl]
  rfl

theorem Anchored.findFrom_newline (ha : Anchored r) (t : Text) :
    r.findFrom false ('\n' :: t) = r.findFrom true t := by
  rw [findFrom, scan, ha]
  rfl

theorem Anchored.findFrom_line (ha : Anchored r) (hl : '\n' ∉ l)
    (h : r.matchAt true (l ++ '\n' :: t) = none) : r.findFrom true (l ++ '\n' :: t) = r.findFrom true t := by
  rw [findFrom, ha.scan_line hl h, List.filterMap_append, filterMap_getRight?_inl]
  rfl

theorem Anchored.findFrom_last (ha : Anchored r) (hl : '\n' ∉ l) (h : r.matchAt true l = none) :
    r.findFrom true l = [] := by
  rw [findFrom, ha.scan_last hl h, filterMap_getRight?_inl]

/-- What is found stands in the text. -/
theorem infix_of_mem_scan {n : Nat} {g : Text} (h : Sum.inr g ∈ r.scan n s t) : g <:+: t := by
  induction t generalizing n s with
  | nil => simp [scan] at h
  | cons x t ih =>
    have hlater : ∀ {n s}, Sum.inr g ∈ r.scan n s t → g <:+: x :: t := fun h =>
      (ih h).trans (List.suffix_cons x t).isInfix
    cases n with
    | succ n => exact hlater h
    | zero =>
      rw [scan] at h
      cases hm : r.matchAt s (x :: t) with
      | none =>
        rw [hm] at h
        rcases List.mem_cons.mp h with h | h
        · cases h
        · exact hlater h
      | some m =>
        rw [hm] at h
        rcases List.mem_cons.mp h with h | h
        · rw [Sum.inr.inj h]
          cases hgs : m.1 with
          | nil => exact List.nil_infix
          | cons g' gs => exact groups_of_matchAt hm g' (by rw [hgs]; exact List.mem_cons_self)
        · exact hlater h

theorem infix_of_mem_findall {g : Text} (h : g ∈ r.findall t) : g <:+: t := by
  obtain ⟨e, he, hg⟩ := List.mem_filterMap.mp h
  cases e with
  | inl x => cases hg
  | inr g' =>
    obtain rfl : g' = g := Option.some.inj hg
    exact infix_of_mem_scan he

/-- Nothing is found where no line starts a match. -/
theorem Anchored.findall_eq_nil (ha : Anchored r) (hc : Consumes r) :
    r.findall t = [] ↔ ∀ u ∈ lineTails t, r.matchAt true u = none := by
  have hmatch : ∀ t, r.matchAt true t ≠ none → r.findall t ≠ [] := by
    intro t h
    obtain ⟨m, hm⟩ := Option.ne_none_iff_exists'.mp h
    obtain ⟨u, hu, rfl⟩ := hc.exists_append hm
    rw [findall_eq_findFrom, findFrom_match hu hm]
    exact List.cons_ne_nil _ _
  induction t using lineInduction with
  | last l hl =>
    rw [lineTails, tailsAfter_eq_nil hl, List.forall_mem_singleton]
    exact ⟨fun h => by_contra fun hm => hmatch l hm h, ha.findFrom_last hl⟩
  | cons l t hl ih =>
    rw [lineTails, tailsAfter_line hl, List.forall_mem_cons]
    constructor
    · intro h
      have hnone : r.matchAt true (l ++ '\n' :: t) = none := by_contra fun hm => hmatch _ hm h
      exact ⟨hnone, ih.mp ((ha.findFrom_line hl hnone).symm.trans h)⟩
    · exact fun h => (ha.findFrom_line hl h.1).trans (ih.mpr h.2)

/-- Matches end inside a line, and no line that starts inside a match starts another. -/
def Separate (r : Regex) : Prop := ∀ {u v gs}, r.matchAt true (u ++ v) = some (gs, v) →
  startsLine true u = false ∧ ∀ w ∈ tailsAfter u, r.matchAt true (w ++ v) = none

/-- What is captured by the match that starts with a line -/
def captured (r : Regex) (t : Text) : Option Text := (r.matchAt true t).map fun m => m.1.headD []

theorem findall_eq_filterMap (ha : Anchored r) (hc : Consumes r) (hs : Separate r) (t : Text) :
    r.findall t = (lineTails t).filterMap r.captured := by
  have both : r.findFrom true t = (lineTails t).filterMap r.captured ∧
      r.findFrom false t = (tailsAfter t).filterMap r.captured := by
    induction hn : t.length using Nat.strong_induction_on generalizing t with
    | _ n ih =>
      subst hn
      have later : ∀ v : Text, v.length < t.length → r.findFrom true v = (lineTails v).filterMap r.captured ∧
          r.findFrom false v = (tailsAfter v).filterMap r.captured := fun v hv => ih v.length hv v rfl
      -- what follows a newline, and what follows a match, is shorter
      have hfalse : r.findFrom false t = (tailsAfter t).filterMap r.captured := by
        by_cases h : '\n' ∈ t
        · obtain ⟨l, v, rfl, hl⟩ := List.eq_append_cons_of_mem h
          rw [ha.findFrom_append hl, ha.findFrom_newline, tailsAfter_line hl]
          exact (later v (by simp only [List.length_append, List.length_cons]; omega)).1
        · have hlast : r.findFrom false t = r.findFrom false [] := by simpa using ha.findFrom_append h []
          rw [hlast, tailsAfter_eq_nil h]
          rfl
      refine ⟨?_, hfalse⟩
      cases hm : r.matchAt true t with
      | none =>
        have hcap : r.captured t = none := by rw [captured, hm]; rfl
        rw [lineTails, List.filterMap_cons_none hcap, ← hfalse]
        by_cases h : '\n' ∈ t
        · obtain ⟨l, v, rfl, hl⟩ := List.eq_append_cons_of_mem h
          rw [ha.findFrom_line hl hm, ha.findFrom_append hl, ha.findFrom_newline]
        · rw [ha.findFrom_last h hm, hfalse, tailsAfter_eq_nil h]
          rfl
      | some m =>
        obtain ⟨u, hu, rfl⟩ := hc.exists_append hm
        obtain ⟨hstart, hnone⟩ := hs hm
        have hcap : r.captured (u ++ m.2) = some (m.1.headD []) := by rw [captured, hm]; rfl
        have hlt : m.2.length < (u ++ m.2).length := by
          have hpos := List.length_pos_iff.mpr hu
          simp only [List.length_append]
          omega
        have hinside : ((tailsAfter u).map (· ++ m.2)).filterMap r.captured = [] := by
          rw [List.filterMap_eq_nil_iff]
          intro y hy
          obtain ⟨w, hw, rfl⟩ := List.mem_map.mp hy
          rw [captured, hnone w hw]
          rfl
        rw [lineTails, List.filterMap_cons_some hcap, findFrom_match hu hm, hstart, (later m.2 hlt).2,
          tailsAfter_append_eq, List.filterMap_append, hinside, List.nil_append]
  exact both.1

/-! ## Cutting and deleting -/

theorem before_of_match (h : r.matchAt true t ≠ none) (ht : t ≠ []) : r.before t = [] := by
  obtain ⟨m, hm⟩ := Option.ne_none_iff_exists'.mp h
  cases t with
  | nil => exact absurd rfl ht
  | cons x t =>
    rw [before, scan, hm]
    rfl

theorem filterMap_getLeft?_inl (l : Text) :
    (l.map (Sum.inl : Char → Char ⊕ Text)).filterMap Sum.getLeft? = l := by
  simp [List.filterMap_map, Function.comp_def]

theorem takeWhile_isLeft_inl (l : Text) (es : List (Char ⊕ Text)) :
    (l.map Sum.inl ++ es).takeWhile Sum.isLeft = l.map Sum.inl ++ es.takeWhile Sum.isLeft :=
  List.takeWhile_append_of_pos (by simp)

theorem Anchored.before_line (ha : Anchored r) (hl : '\n' ∉ l) (h : r.matchAt true (l ++ '\n' :: t) = none) :
    r.before (l ++ '\n' :: t) = l ++ '\n' :: r.before t := by
  rw [before, ha.scan_line hl h, takeWhile_isLeft_inl, List.filterMap_append, filterMap_getLeft?_inl,
    List.append_assoc]
  rfl

/-- What stands before the first match are lines that start none. -/
theorem Anchored.exists_before (ha : Anchored r) (hc : Consumes r)
    (h : ∃ u ∈ lineTails t, r.matchAt true u ≠ none) :
    ∃ ls v, t = unlines ls ++ v ∧ r.before t = unlines ls ∧ (∀ l ∈ ls, '\n' ∉ l) ∧
      ∀ ms, ms <:+ ls → ms ≠ [] → r.matchAt true (unlines ms ++ v) = none := by
  have hhere : ∀ t, r.matchAt true t ≠ none → r.before t = [] := by
    intro t ht
    refine before_of_match ht ?_
    rintro rfl
    exact ht (hc.matchAt_nil true)
  induction t using lineInduction with
  | last l hl =>
    rw [lineTails, tailsAfter_eq_nil hl] at h
    obtain ⟨u, hu, hm⟩ := h
    rw [List.mem_singleton.mp hu] at hm
    exact ⟨[], l, rfl, hhere l hm, List.forall_mem_nil _, fun ms hms hne => absurd (List.suffix_nil.mp hms) hne⟩
  | cons l t hl ih =>
    by_cases hm : r.matchAt true (l ++ '\n' :: t) = none
    · have hlater : ∃ u ∈ lineTails t, r.matchAt true u ≠ none := by
        obtain ⟨u, hu, hmu⟩ := h
        rw [lineTails, tailsAfter_line hl] at hu
        rcases List.mem_cons.mp hu with rfl | hu
        · exact absurd hm hmu
        · exact ⟨u, hu, hmu⟩
      obtain ⟨ls, v, rfl, hbefore, hls, hnone⟩ := ih hlater
      refine ⟨l :: ls, v, (unlines_cons_append l ls v).symm, ?_, List.forall_mem_cons.mpr ⟨hl, hls⟩, fun ms hms hne => ?_⟩
      · rw [ha.before_line hl hm, hbefore]
        exact (unlines_cons l ls).symm
      · rcases List.suffix_cons_iff.mp hms with rfl | hms
        · rw [unlines_cons_append]
          exact hm
        · exact hnone ms hms hne
    · exact ⟨[], l ++ '\n' :: t, rfl, hhere _ hm, List.forall_mem_nil _,
        fun ms hms hne => absurd (List.suffix_nil.mp hms) hne⟩

theorem Anchored.delete_line (ha : Anchored r) (hl : '\n' ∉ l) (h : r.matchAt true (l ++ '\n' :: t) = none) :
    r.delete (l ++ '\n' :: t) = l ++ '\n' :: r.delete t := by
  rw [delete, ha.scan_line hl h, List.filterMap_append, filterMap_getLeft?_inl, List.append_assoc]
  rfl

theorem delete_match (hu : u ≠ []) (hstart : startsLine true u = true)
    (h : r.matchAt true (u ++ v) = some (gs, v)) : r.delete (u ++ v) = r.delete v := by
  rw [delete, scan_match hu h, hstart]
  rfl

/-! ## Indented patterns -/

/-- `^\s*…` -/
def indented (r : Regex) : Regex := seq lineStart (seq (many isSpace) r)

/-- A pattern that does not begin with a space -/
def Solid (r : Regex) : Prop := ∀ s x t gs, isSpace x = true → r.ends ⟨s, x :: t, gs⟩ = []

/-- The first word, behind any blank lines -/
def firstWord (t : Text) : Text := (t.dropWhile isSpace).takeWhile (!isSpace ·)

/-- What follows the first word -/
def afterWord (t : Text) : Text := (t.dropWhile isSpace).dropWhile (!isSpace ·)

theorem anchored_indented (r : Regex) : Anchored (indented r) := anchored_seq _

theorem Consumes.indented (h : Consumes r) : Consumes (indented r) := (h.seq_right _).seq_right _

theorem Solid.seq (h : Solid r) (r' : Regex) : Solid (seq r r') := fun s x t gs hx => by
  rw [ends_seq, h s x t gs hx]
  rfl

theorem solid_literal (hx : isSpace x = false) (w : Text) : Solid (literal (x :: w)) := by
  intro s y t gs hy
  refine ends_literal_eq_nil fun hpre => ?_
  obtain ⟨rfl, -⟩ := List.cons_prefix_cons.mp hpre
  rw [hx] at hy
  cases hy

theorem solid_spells (hr : Spells r ws) (hws : ∀ w ∈ ws, w ≠ [] ∧ ∀ x ∈ w, isSpace x = false) : Solid r := by
  intro s y t gs hy
  rw [hr, List.flatMap_eq_nil_iff]
  intro w hw
  obtain ⟨hne, hspace⟩ := hws w hw
  cases w with
  | nil => exact absurd rfl hne
  | cons x w => exact solid_literal (hspace x List.mem_cons_self) w s y t gs hy

theorem ends_indented (h : Solid r) (t : Text) : (indented r).ends ⟨true, t, []⟩ =
    r.ends ⟨startsLine true (t.takeWhile isSpace), t.dropWhile isSpace, []⟩ :=
  (List.flatMap_singleton _ _).trans (flatMap_runs (fun s x t hx => h s x t [] hx) true t)

/-- A blank line stands for the line after it. -/
theorem matchAt_indented_blank (h : Solid r) (hl : ∀ x ∈ l, isSpace x = true) (t : Text) :
    (indented r).matchAt true (l ++ '\n' :: t) = (indented r).matchAt true t := by
  have hspace : isSpace '\n' = true := by decide
  have hblank : ∀ x ∈ l ++ ['\n'], isSpace x = true :=
    List.forall_mem_append.mpr ⟨hl, List.forall_mem_singleton.mpr hspace⟩
  have htext : l ++ '\n' :: t = (l ++ ['\n']) ++ t := by simp
  rw [matchAt, matchAt, ends_indented h, ends_indented h, htext, List.takeWhile_append_of_pos hblank,
    List.dropWhile_append_of_pos hblank, startsLine_append, startsLine_newline]

theorem firstWord_append_afterWord (t : Text) : firstWord t ++ afterWord t = t.dropWhile isSpace :=
  List.takeWhile_append_dropWhile

theorem text_eq (t : Text) : t = t.takeWhile isSpace ++ (firstWord t ++ afterWord t) := by
  rw [firstWord_append_afterWord, List.takeWhile_append_dropWhile]

theorem isSpace_firstWord (t : Text) : ∀ x ∈ firstWord t, isSpace x = false := fun x hx => by
  simpa using List.mem_takeWhile_imp hx

theorem isSpace_afterWord (t : Text) : ∀ x ∈ (afterWord t).head?, isSpace x = true := by
  intro x hx
  have hnot := List.head?_dropWhile_not (!isSpace ·) (t.dropWhile isSpace)
  rw [← afterWord, Option.mem_def.mp hx] at hnot
  simpa using hnot

theorem firstWord_eq_nil : firstWord l = [] ↔ ∀ x ∈ l, isSpace x = true := by
  rw [← List.dropWhile_eq_nil_iff, firstWord]
  cases hdrop : l.dropWhile isSpace with
  | nil => simp
  | cons x t =>
    have hnot := List.head?_dropWhile_not isSpace l
    rw [hdrop] at hnot
    have hx : isSpace x = false := by simpa using hnot
    simp [hx]

theorem pySplit_eq_cons (h : firstWord l ≠ []) : pySplit l = firstWord l :: pySplit (afterWord l) := by
  conv_lhs => rw [pySplit, text_eq l, wordsBy_append_left fun c hc => List.mem_takeWhile_imp hc]
  cases hafter : afterWord l with
  | nil => rw [List.append_nil, wordsBy_word h (isSpace_firstWord l), pySplit, wordsBy_nil]
  | cons c u =>
    have hc : isSpace c = true := isSpace_afterWord l c (by rw [hafter]; rfl)
    rw [wordsBy_append_word h (isSpace_firstWord l) hc, pySplit, wordsBy_cons hc]

theorem head?_pySplit_eq_some (hw : w ≠ []) : (pySplit l).head? = some w ↔ firstWord l = w := by
  by_cases h : firstWord l = []
  · have hblank := firstWord_eq_nil.mp h
    have hnil := wordsBy_append_left hblank []
    rw [List.append_nil, wordsBy_nil] at hnil
    rw [pySplit, hnil, h]
    simp [hw.symm]
  · rw [pySplit_eq_cons h, List.head?_cons, Option.some.injEq]

/-- A line that is not blank keeps its words when something follows it. -/
theorem word_append (h : firstWord l ≠ []) (hu : ∀ x ∈ u.head?, isSpace x = true) :
    firstWord (l ++ u) = firstWord l ∧ afterWord (l ++ u) = afterWord l ++ u := by
  have hne : l.dropWhile isSpace ≠ [] := fun hnil => h (by rw [firstWord, hnil]; rfl)
  have hdrop : (l ++ u).dropWhile isSpace = firstWord l ++ (afterWord l ++ u) := by
    rw [← List.append_assoc, firstWord_append_afterWord, List.dropWhile_append]
    simp [hne]
  have hword : ∀ x ∈ firstWord l, (!isSpace x) = true := fun x hx => by simp [isSpace_firstWord l x hx]
  have hafter : ∀ x ∈ (afterWord l ++ u).head?, (!isSpace x) = false := by
    cases hcase : afterWord l with
    | nil => exact fun x hx => by simp [hu x hx]
    | cons y v =>
      intro x hx
      simp [isSpace_afterWord l x (by rw [hcase]; exact hx)]
  rw [firstWord, afterWord, hdrop, takeWhile_append_of_head hword hafter, dropWhile_append_of_head hword hafter]
  exact ⟨rfl, rfl⟩

theorem word_blank (hl : ∀ x ∈ l, isSpace x = true) (t : Text) :
    firstWord (l ++ t) = firstWord t ∧ afterWord (l ++ t) = afterWord t := by
  rw [firstWord, afterWord, List.dropWhile_append_of_pos hl]
  exact ⟨rfl, rfl⟩

/-- The first word of lines of which the last is not blank is the first word of one of them. -/
theorem firstWord_unlines (hlast : ∀ l ∈ ls.getLast?, firstWord l ≠ []) (hne : ls ≠ []) (t : Text) :
    ∃ l ∈ ls, firstWord (unlines ls ++ t) = firstWord l := by
  have hnewline : isSpace '\n' = true := by decide
  induction ls with
  | nil => exact absurd rfl hne
  | cons l ls ih =>
    rw [unlines_cons_append]
    by_cases hl : firstWord l = []
    · have hblank : ∀ x ∈ l ++ ['\n'], isSpace x = true :=
        List.forall_mem_append.mpr ⟨firstWord_eq_nil.mp hl, List.forall_mem_singleton.mpr hnewline⟩
      have hls : ls ≠ [] := by
        rintro rfl
        exact hlast l rfl hl
      obtain ⟨m, hm, hfirst⟩ := ih (fun m hm => hlast m (by rw [List.getLast?_cons, Option.mem_def.mp hm]; rfl)) hls
      refine ⟨m, List.mem_cons_of_mem l hm, ?_⟩
      rw [← hfirst, ← (word_blank hblank (unlines ls ++ t)).1, List.append_assoc, List.singleton_append]
    · exact ⟨l, List.mem_cons_self, (word_append hl (by simp [hnewline])).1⟩

/-- Spaces, a word, and more behind a space -/
theorem word_split (hu : ∀ x ∈ u, isSpace x = true) (hne : w ≠ []) (hw : ∀ x ∈ w, isSpace x = false)
    (hv : ∀ x ∈ v.head?, isSpace x = true) : (u ++ (w ++ v)).takeWhile isSpace = u ∧
      firstWord (u ++ (w ++ v)) = w ∧ afterWord (u ++ (w ++ v)) = v := by
  have hhead : ∀ x ∈ (w ++ v).head?, isSpace x = false := by
    obtain ⟨y, w, rfl⟩ := List.exists_cons_of_ne_nil hne
    intro x hx
    obtain rfl : y = x := by simpa using hx
    exact hw y List.mem_cons_self
  have hword : ∀ x ∈ w, (!isSpace x) = true := fun x hx => by simp [hw x hx]
  have hafter : ∀ x ∈ v.head?, (!isSpace x) = false := fun x hx => by simp [hv x hx]
  rw [firstWord, afterWord, dropWhile_append_of_head hu hhead, takeWhile_append_of_head hu hhead,
    takeWhile_append_of_head hword hafter, dropWhile_append_of_head hword hafter]
  exact ⟨rfl, rfl, rfl⟩

/-- A blank line makes no difference to what is found. -/
theorem findall_indented_blank (h : Solid r) (hc : Consumes r) (hl : ∀ x ∈ l, isSpace x = true)
    (hline : '\n' ∉ l) (t : Text) : (indented r).findall (l ++ '\n' :: t) = (indented r).findall t := by
  have hblank := matchAt_indented_blank h hl t
  rw [findall_eq_findFrom, findall_eq_findFrom]
  cases hm : (indented r).matchAt true t with
  | none => exact (anchored_indented r).findFrom_line hline (hblank.trans hm)
  | some m =>
    obtain ⟨u, hu, rfl⟩ := hc.indented.exists_append hm
    have htext : l ++ '\n' :: (u ++ m.2) = (l ++ '\n' :: u) ++ m.2 := by simp
    have hstart : startsLine true (l ++ '\n' :: u) = startsLine true u := by
      have hsplit : l ++ '\n' :: u = (l ++ ['\n']) ++ u := by simp
      rw [hsplit, startsLine_append, startsLine_newline]
    rw [hm, htext] at hblank
    rw [htext, findFrom_match (by simp) hblank, findFrom_match hu hm, hstart]

/-- An indented word in front of a space. -/
theorem matchAt_indented_word (hr : Spells r ws) (hws : ∀ w ∈ ws, w ≠ [] ∧ ∀ x ∈ w, isSpace x = false)
    (hr' : ∀ c : Cursor, (∀ x ∈ c.rest.head?, isSpace x = false) → r'.ends c = []) (t : Text) :
    (indented (seq r r')).matchAt true t =
      if firstWord t ∈ ws then r'.matchAt false (afterWord t) else none := by
  have hnewline : '\n' ∉ firstWord t := fun hmem => by
    have hspace := isSpace_firstWord t '\n' hmem
    exact absurd hspace (by decide)
  rw [matchAt, ends_indented ((solid_spells hr hws).seq r'), ends_seq, ← firstWord_append_afterWord,
    head?_spells hr (fun w hw => (hws w hw).2) hr' (isSpace_firstWord t) (isSpace_afterWord t)]
  split
  case isTrue hw => rw [startsLine_of_not_mem (hws _ hw).1 hnewline, matchAt]
  case isFalse => rfl

end Regex
