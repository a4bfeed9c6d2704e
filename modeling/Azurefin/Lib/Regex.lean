import Azurefin.Lib.Python

/-!
# Regular expressions with priorities

The patterns of a backtracking matcher. A pattern denotes the list of the places where its matches end,
the preferred one first: repetition is greedy and the first alternative comes before the second. So a
match is the head of that list, and there is none where the list is empty. Groups are not nested.

## Main results

* `Regex.flatMap_runs`, `Regex.head?_flatMap_runs` — a repetition takes all it can where what follows
  cannot begin with what it repeats, or succeeds there.
* `Regex.head?_spells` — a word from a list, in front of a separator.
-/

/-- Where a match stands: whether a line starts here, the text that follows, and what was captured. -/
structure Cursor where
  start : Bool
  rest : Text
  groups : List Text

/-- The end of a group that began here, with what it captured -/
def Cursor.capture (c d : Cursor) : Cursor :=
  { d with groups := d.groups ++ [c.rest.take (c.rest.length - d.rest.length)] }

inductive Regex where
  | empty
  | char (p : Char → Bool)
  | many (p : Char → Bool)
  | seq (r s : Regex)
  | alt (r s : Regex)
  | lineStart
  | lineEnd
  | group (r : Regex)

namespace Regex

/-- Where `[…]*` ends, the longest run first -/
def runs (p : Char → Bool) (groups : List Text) : Bool → Text → List Cursor
  | s, [] => [⟨s, [], groups⟩]
  | s, x :: t =>
    if p x then runs p groups (x == '\n') t ++ [⟨s, x :: t, groups⟩] else [⟨s, x :: t, groups⟩]

/-- Where the matches of a pattern end, the preferred one first -/
def ends : Regex → Cursor → List Cursor
  | empty, c => [c]
  | char p, c =>
    match c.rest with
    | [] => []
    | x :: t => if p x then [⟨x == '\n', t, c.groups⟩] else []
  | many p, c => runs p c.groups c.start c.rest
  | seq r s, c => (r.ends c).flatMap s.ends
  | alt r s, c => r.ends c ++ s.ends c
  | lineStart, c => if c.start then [c] else []
  | lineEnd, c => if c.rest.head?.all (· == '\n') then [c] else []
  | group r, c => (r.ends c).map c.capture

/-- `[…]+` -/
def some1 (p : Char → Bool) : Regex := seq (char p) (many p)

/-- `(?:…)?` -/
def opt (r : Regex) : Regex := alt r empty

/-- The pattern of a fixed text -/
def literal : Text → Regex
  | [] => empty
  | x :: w => seq (char (· == x)) (literal w)

/-- The match that begins here: what it captured, and the text behind it -/
def matchAt (r : Regex) (s : Bool) (t : Text) : Option (List Text × Text) :=
  (r.ends ⟨s, t, []⟩).head?.map fun d => (d.groups, d.rest)

/-- `re.fullmatch(r, t)` -/
def fullmatch (r : Regex) (t : Text) : Bool := (r.ends ⟨true, t, []⟩).any (·.rest.isEmpty)

/-- Whether a line starts behind a text. -/
def startsLine (s : Bool) (u : Text) : Bool := u.foldl (fun _ x => x == '\n') s

variable {α : Type} {r : Regex} {p sep : Char → Bool} {s : Bool} {x : Char} {t u v w : Text}
  {gs : List Text} {c d : Cursor} {f : Cursor → List α} {ws : List Text}

/-! ## Where lines start -/

@[simp] theorem startsLine_nil (s : Bool) : startsLine s [] = s := rfl

@[simp] theorem startsLine_cons (s : Bool) (x : Char) (u : Text) :
    startsLine s (x :: u) = startsLine (x == '\n') u := rfl

theorem startsLine_append (s : Bool) (u v : Text) :
    startsLine s (u ++ v) = startsLine (startsLine s u) v := List.foldl_append

@[simp] theorem startsLine_newline (s : Bool) (u : Text) : startsLine s (u ++ ['\n']) = true := by
  rw [startsLine_append]
  rfl

theorem startsLine_of_not_mem (hne : u ≠ []) (h : '\n' ∉ u) (s : Bool) : startsLine s u = false := by
  rw [← List.dropLast_append_getLast hne, startsLine_append]
  have hlast : u.getLast hne ≠ '\n' := fun hn => h (hn ▸ List.getLast_mem hne)
  simpa using hlast

theorem startsLine_iff (hne : u ≠ []) (s : Bool) : startsLine s u = true ↔ u.getLast? = some '\n' := by
  rw [← List.dropLast_append_getLast hne, startsLine_append, List.getLast?_concat]
  simp

/-! ## Runs -/

theorem takeWhile_append_of_head (hu : ∀ x ∈ u, p x = true) (hv : ∀ x ∈ v.head?, p x = false) :
    (u ++ v).takeWhile p = u := by
  rw [List.takeWhile_append_of_pos hu]
  cases v with
  | nil => simp
  | cons x v => simp [hv x rfl]

theorem dropWhile_append_of_head (hu : ∀ x ∈ u, p x = true) (hv : ∀ x ∈ v.head?, p x = false) :
    (u ++ v).dropWhile p = v := by
  rw [List.dropWhile_append_of_pos hu]
  cases v with
  | nil => rfl
  | cons x v => simp [hv x rfl]

theorem mem_runs : d ∈ runs p gs s t ↔
    ∃ u v, t = u ++ v ∧ (∀ x ∈ u, p x = true) ∧ d = ⟨startsLine s u, v, gs⟩ := by
  induction t generalizing s with
  | nil =>
    constructor
    · intro h
      exact ⟨[], [], rfl, List.forall_mem_nil _, List.mem_singleton.mp h⟩
    · rintro ⟨u, v, h, -, rfl⟩
      obtain ⟨rfl, rfl⟩ := List.append_eq_nil_iff.mp h.symm
      exact List.mem_singleton_self _
  | cons x t ih =>
    have hhere : (∃ u v, x :: t = u ++ v ∧ (∀ y ∈ u, p y = true) ∧ d = ⟨startsLine s u, v, gs⟩) ↔
        d = ⟨s, x :: t, gs⟩ ∨ p x = true ∧ d ∈ runs p gs (x == '\n') t := by
      rw [ih]
      constructor
      · rintro ⟨u, v, h, hu, rfl⟩
        cases u with
        | nil => exact .inl (by rw [h]; rfl)
        | cons y u =>
          obtain ⟨rfl, rfl⟩ := List.cons.inj h
          obtain ⟨hx, hu⟩ := List.forall_mem_cons.mp hu
          exact .inr ⟨hx, u, v, rfl, hu, rfl⟩
      · rintro (rfl | ⟨hx, u, v, rfl, hu, rfl⟩)
        · exact ⟨[], x :: t, rfl, List.forall_mem_nil _, rfl⟩
        · exact ⟨x :: u, v, rfl, List.forall_mem_cons.mpr ⟨hx, hu⟩, rfl⟩
    rw [hhere, runs]
    split
    case isTrue hx => simp [hx, or_comm]
    case isFalse hx => simp [hx]

/-- What follows cannot begin with a character that is repeated: the run is the longest. -/
theorem flatMap_runs (h : ∀ s x t, p x = true → f ⟨s, x :: t, gs⟩ = []) (s : Bool) (t : Text) :
    (runs p gs s t).flatMap f = f ⟨startsLine s (t.takeWhile p), t.dropWhile p, gs⟩ := by
  induction t generalizing s with
  | nil => simp [runs]
  | cons x t ih =>
    rw [runs]
    split
    case isTrue hx => simp [hx, ih, h]
    case isFalse hx => simp [hx]

/-- What follows succeeds behind the longest run. -/
theorem head?_flatMap_runs (h : f ⟨startsLine s (t.takeWhile p), t.dropWhile p, gs⟩ ≠ []) :
    ((runs p gs s t).flatMap f).head? = (f ⟨startsLine s (t.takeWhile p), t.dropWhile p, gs⟩).head? := by
  induction t generalizing s with
  | nil => simp [runs]
  | cons x t ih =>
    rw [runs]
    split
    case isTrue hx =>
      simp only [List.takeWhile_cons_of_pos hx, List.dropWhile_cons_of_pos hx, startsLine_cons] at h ⊢
      rw [List.flatMap_append, List.head?_append_of_ne_nil, ih h]
      intro hnil
      have hhead := ih h
      rw [hnil] at hhead
      exact h (List.head?_eq_none_iff.mp hhead.symm)
    case isFalse hx => simp [hx]

/-! ## Where each pattern ends -/

@[simp] theorem ends_empty (c : Cursor) : empty.ends c = [c] := rfl

@[simp] theorem ends_seq (r r' : Regex) (c : Cursor) : (seq r r').ends c = (r.ends c).flatMap r'.ends := rfl

@[simp] theorem ends_alt (r r' : Regex) (c : Cursor) : (alt r r').ends c = r.ends c ++ r'.ends c := rfl

@[simp] theorem ends_many (p : Char → Bool) (c : Cursor) :
    (many p).ends c = runs p c.groups c.start c.rest := rfl

@[simp] theorem ends_char_nil (p : Char → Bool) (s : Bool) (gs : List Text) :
    (char p).ends ⟨s, [], gs⟩ = [] := rfl

@[simp] theorem ends_char_cons (p : Char → Bool) (s : Bool) (x : Char) (t : Text) (gs : List Text) :
    (char p).ends ⟨s, x :: t, gs⟩ = if p x then [⟨x == '\n', t, gs⟩] else [] := rfl

@[simp] theorem ends_group (r : Regex) (c : Cursor) : (group r).ends c = (r.ends c).map c.capture := rfl

@[simp] theorem ends_lineStart (c : Cursor) : lineStart.ends c = if c.start then [c] else [] := rfl

theorem ends_literal (w : Text) (s : Bool) (t : Text) (gs : List Text) :
    (literal w).ends ⟨s, w ++ t, gs⟩ = [⟨startsLine s w, t, gs⟩] := by
  induction w generalizing s with
  | nil => rfl
  | cons x w ih => simp [literal, ih]

theorem ends_literal_eq_nil (h : ¬ w <+: t) : (literal w).ends ⟨s, t, gs⟩ = [] := by
  induction w generalizing s t with
  | nil => exact absurd List.nil_prefix h
  | cons x w ih =>
    cases t with
    | nil => rfl
    | cons y t =>
      rw [List.cons_prefix_cons, not_and] at h
      rw [literal, ends_seq, ends_char_cons]
      split
      case isTrue hy => simp [ih (h (beq_iff_eq.mp hy).symm)]
      case isFalse => rfl

theorem ends_literal_append (u v : Text) (c : Cursor) :
    (literal (u ++ v)).ends c = ((literal u).ends c).flatMap (literal v).ends := by
  induction u generalizing c with
  | nil => simp [literal]
  | cons x u ih =>
    simp only [List.cons_append, literal, ends_seq, List.flatMap_assoc]
    exact List.flatMap_congr fun d _ => ih d

theorem mem_ends_char : d ∈ (char p).ends c ↔
    ∃ x t, c.rest = x :: t ∧ p x = true ∧ d = ⟨x == '\n', t, c.groups⟩ := by
  obtain ⟨s, rest, gs⟩ := c
  cases rest with
  | nil => simp
  | cons x t =>
    rw [ends_char_cons]
    split
    case isTrue hx => simp [hx]
    case isFalse hx => simp [hx]

theorem mem_ends_many : d ∈ (many p).ends c ↔
    ∃ u v, c.rest = u ++ v ∧ (∀ x ∈ u, p x = true) ∧ d = ⟨startsLine c.start u, v, c.groups⟩ := mem_runs

theorem mem_ends_seq {r' : Regex} : d ∈ (seq r r').ends c ↔ ∃ b ∈ r.ends c, d ∈ r'.ends b := List.mem_flatMap

theorem mem_ends_some1 : d ∈ (some1 p).ends c ↔
    ∃ u v, c.rest = u ++ v ∧ u ≠ [] ∧ (∀ x ∈ u, p x = true) ∧ d = ⟨startsLine c.start u, v, c.groups⟩ := by
  rw [some1, mem_ends_seq]
  constructor
  · rintro ⟨b, hb, hd⟩
    obtain ⟨x, t, hrest, hx, rfl⟩ := mem_ends_char.mp hb
    obtain ⟨u, v, rfl, hu, rfl⟩ := mem_ends_many.mp hd
    exact ⟨x :: u, v, hrest, List.cons_ne_nil x u, List.forall_mem_cons.mpr ⟨hx, hu⟩, rfl⟩
  · rintro ⟨u, v, hrest, hne, hu, rfl⟩
    cases u with
    | nil => exact absurd rfl hne
    | cons x u =>
      obtain ⟨hx, hu⟩ := List.forall_mem_cons.mp hu
      exact ⟨_, mem_ends_char.mpr ⟨x, u ++ v, hrest, hx, rfl⟩, mem_ends_many.mpr ⟨u, v, rfl, hu, rfl⟩⟩

theorem mem_ends_lineEnd : d ∈ lineEnd.ends c ↔ (∀ x ∈ c.rest.head?, x = '\n') ∧ d = c := by
  have hall : c.rest.head?.all (· == '\n') = true ↔ ∀ x ∈ c.rest.head?, x = '\n' := by
    cases c.rest.head? with
    | none => simp
    | some x => simp
  rw [← hall, ends]
  split
  case isTrue h => simp [h]
  case isFalse h => simp [h]

theorem mem_ends_literal : d ∈ (literal w).ends c ↔
    ∃ t, c.rest = w ++ t ∧ d = ⟨startsLine c.start w, t, c.groups⟩ := by
  obtain ⟨s, rest, gs⟩ := c
  by_cases h : w <+: rest
  · obtain ⟨t, rfl⟩ := h
    simp [ends_literal]
  · rw [ends_literal_eq_nil h]
    constructor
    · intro hd
      cases hd
    · rintro ⟨t, hrest, -⟩
      exact absurd ⟨t, hrest.symm⟩ h

/-- What is left is the end of what was there. -/
theorem rest_suffix (r : Regex) : ∀ {c d : Cursor}, d ∈ r.ends c → d.rest <:+ c.rest := by
  induction r with
  | empty =>
    intro c d h
    rw [List.mem_singleton.mp h]
  | char p =>
    intro c d h
    obtain ⟨x, t, hrest, -, rfl⟩ := mem_ends_char.mp h
    exact ⟨[x], hrest.symm⟩
  | many p =>
    intro c d h
    obtain ⟨u, v, hrest, -, rfl⟩ := mem_ends_many.mp h
    exact ⟨u, hrest.symm⟩
  | seq r r' ihr ihr' =>
    intro c d h
    obtain ⟨b, hb, hd⟩ := mem_ends_seq.mp h
    exact (ihr' hd).trans (ihr hb)
  | alt r r' ihr ihr' =>
    intro c d h
    exact (List.mem_append.mp h).elim (fun h => ihr h) (fun h => ihr' h)
  | lineStart =>
    intro c d h
    rw [ends_lineStart] at h
    split at h
    case isTrue => rw [List.mem_singleton.mp h]
    case isFalse => cases h
  | lineEnd =>
    intro c d h
    rw [(mem_ends_lineEnd.mp h).2]
  | group r ih =>
    intro c d h
    obtain ⟨b, hb, rfl⟩ := List.mem_map.mp h
    exact (ih hb : b.rest <:+ c.rest)

theorem capture_append (h : c.rest = u ++ d.rest) : c.capture d = { d with groups := d.groups ++ [u] } := by
  simp [Cursor.capture, h]

/-- A group captures what was matched inside it. -/
theorem mem_ends_group : d ∈ (group r).ends c ↔
    ∃ u b, b ∈ r.ends c ∧ c.rest = u ++ b.rest ∧ d = { b with groups := b.groups ++ [u] } := by
  constructor
  · intro h
    obtain ⟨b, hb, rfl⟩ := List.mem_map.mp h
    obtain ⟨u, hu⟩ := rest_suffix r hb
    exact ⟨u, b, hb, hu.symm, capture_append hu.symm⟩
  · rintro ⟨u, b, hb, hu, rfl⟩
    exact List.mem_map.mpr ⟨b, hb, capture_append hu⟩

/-- What is captured stands in the text. -/
theorem subtext_of_mem_groups (r : Regex) : ∀ {c d : Cursor}, d ∈ r.ends c →
    ∀ g ∈ d.groups, g ∈ c.groups ∨ g <:+: c.rest := by
  have here : ∀ {c d : Cursor}, d.groups = c.groups → ∀ g ∈ d.groups, g ∈ c.groups ∨ g <:+: c.rest :=
    fun h g hg => .inl (h ▸ hg)
  induction r with
  | empty =>
    intro c d h
    exact here (by rw [List.mem_singleton.mp h])
  | char p =>
    intro c d h
    obtain ⟨x, t, -, -, rfl⟩ := mem_ends_char.mp h
    exact here rfl
  | many p =>
    intro c d h
    obtain ⟨u, v, -, -, rfl⟩ := mem_ends_many.mp h
    exact here rfl
  | seq r r' ihr ihr' =>
    intro c d h g hg
    obtain ⟨b, hb, hd⟩ := mem_ends_seq.mp h
    rcases ihr' hd g hg with hg | hg
    · exact ihr hb g hg
    · exact .inr (hg.trans (rest_suffix r hb).isInfix)
  | alt r r' ihr ihr' =>
    intro c d h
    exact (List.mem_append.mp h).elim (fun h => ihr h) (fun h => ihr' h)
  | lineStart =>
    intro c d h
    rw [ends_lineStart] at h
    split at h
    case isTrue => exact here (by rw [List.mem_singleton.mp h])
    case isFalse => cases h
  | lineEnd =>
    intro c d h
    exact here (by rw [(mem_ends_lineEnd.mp h).2])
  | group r ih =>
    intro c d h g hg
    obtain ⟨u, b, hb, hu, rfl⟩ := mem_ends_group.mp h
    rcases List.mem_append.mp hg with hg | hg
    · exact ih hb g hg
    · rw [List.mem_singleton.mp hg, hu]
      exact .inr (List.prefix_append u b.rest).isInfix

/-- Where all matches end alike, this is where the preferred one ends. -/
theorem head?_ends_eq (hd : d ∈ r.ends c) (h : ∀ b ∈ r.ends c, b = d) : (r.ends c).head? = some d := by
  cases hends : r.ends c with
  | nil => simp [hends] at hd
  | cons b bs => rw [List.head?_cons, h b (by simp [hends])]

/-! ## Words -/

/-- A pattern that matches the words of a list, earlier words first. -/
def Spells (r : Regex) (ws : List Text) : Prop := ∀ c, r.ends c = ws.flatMap fun w => (literal w).ends c

theorem spells_literal (w : Text) : Spells (literal w) [w] := fun _ => by simp

theorem Spells.alt {r' : Regex} {ws' : List Text} (h : Spells r ws) (h' : Spells r' ws') :
    Spells (alt r r') (ws ++ ws') := fun c => by
  rw [ends_alt, h c, h' c, List.flatMap_append]

/-- A word with an ending that may be left out -/
theorem spells_opt (u v : Text) : Spells (seq (literal u) (opt (literal v))) [u ++ v, u] := fun c => by
  obtain ⟨s, rest, gs⟩ := c
  simp only [List.flatMap_cons, List.flatMap_nil, List.append_nil, ends_literal_append, ends_seq]
  by_cases h : u <+: rest
  · obtain ⟨t, rfl⟩ := h
    simp [ends_literal, opt]
  · simp [ends_literal_eq_nil h]

theorem Spells.mem_ends (hr : Spells r ws) : d ∈ r.ends c ↔
    ∃ w ∈ ws, ∃ t, c.rest = w ++ t ∧ d = ⟨startsLine c.start w, t, c.groups⟩ := by
  simp only [hr c, List.mem_flatMap, mem_ends_literal]

/-- Of the words only the one up to the next separator can match in front of a separator. -/
theorem head?_spells (hr : Spells r ws) (hws : ∀ w ∈ ws, ∀ x ∈ w, sep x = false)
    (hf : ∀ c : Cursor, (∀ x ∈ c.rest.head?, sep x = false) → f c = [])
    (hu : ∀ x ∈ u, sep x = false) (hv : ∀ x ∈ v.head?, sep x = true) :
    ((r.ends ⟨s, u ++ v, gs⟩).flatMap f).head? =
      if u ∈ ws then (f ⟨startsLine s u, v, gs⟩).head? else none := by
  have hother : ∀ w, (∀ x ∈ w, sep x = false) → w ≠ u →
      ((literal w).ends ⟨s, u ++ v, gs⟩).flatMap f = [] := by
    intro w hw hne
    by_cases hpre : w <+: u ++ v
    · obtain ⟨t, ht⟩ := hpre
      rw [← ht, ends_literal]
      simp only [List.flatMap_cons, List.flatMap_nil, List.append_nil]
      refine hf _ fun x hx => ?_
      rcases List.append_eq_append_iff.mp ht with ⟨z, rfl, rfl⟩ | ⟨z, rfl, rfl⟩
      · -- the word ends inside the text up to the separator
        cases z with
        | nil => simp at hne
        | cons y z =>
          obtain rfl : y = x := by simpa using hx
          exact hu y (by simp)
      · -- the word would go beyond the separator
        cases z with
        | nil => simp at hne
        | cons y z =>
          have hsep := hv y (by simp)
          rw [hw y (by simp)] at hsep
          cases hsep
    · rw [ends_literal_eq_nil hpre]
      rfl
  rw [hr]
  clear hr
  induction ws with
  | nil => rfl
  | cons w ws ih =>
    obtain ⟨hw, hws⟩ := List.forall_mem_cons.mp hws
    rw [List.flatMap_cons, List.flatMap_append, List.head?_append, ih hws]
    by_cases heq : w = u
    · subst heq
      simp only [ends_literal, List.flatMap_cons, List.flatMap_nil, List.append_nil, List.mem_cons, true_or,
        if_true]
      split <;> simp
    · rw [hother w hw heq]
      simp [Ne.symm heq]

end Regex
