import Azurefin.Lib.Python

/-!
# Octal escapes

The characters that separate the fields of a line are printed as a backslash and three octal digits,
and so is the backslash. Reading the escapes undoes it, and every other character stands for itself.
-/

def isOctal (c : Char) : Bool := '0' ≤ c && c ≤ '7'

def octalValue (c : Char) : Nat := c.toNat - '0'.toNat

/-- `re.sub(r'\\([0-7]{3})', lambda m: chr(int(m[1], 8)), text)` -/
def unescapeOctal : Text → Text
  | '\\' :: a :: b :: c :: t =>
    if isOctal a && isOctal b && isOctal c then
      Char.ofNat (64 * octalValue a + 8 * octalValue b + octalValue c) :: unescapeOctal t
    else '\\' :: unescapeOctal (a :: b :: c :: t)
  | c :: t => c :: unescapeOctal t
  | [] => []

/-- The characters that are escaped. -/
def octalMarks : List Char := [' ', '\t', '\n', '\\']

def octalDigit (n : Nat) : Char := Char.ofNat ('0'.toNat + n)

/-- A character as it is printed. -/
def octalChar (c : Char) : Text :=
  if octalMarks.contains c then
    ['\\', octalDigit (c.toNat / 64), octalDigit (c.toNat / 8 % 8), octalDigit (c.toNat % 8)]
  else [c]

def escapeOctal (t : Text) : Text := t.flatMap octalChar

variable {t : Text} {c : Char}

theorem isSpace_of_isOctal (h : isOctal c = true) : isSpace c = false := by
  have hoctal : ∀ d, isSpace d = true → isOctal d = false := by
    simp only [isSpace, List.contains_iff_mem]
    exact forall_mem_of_all (by decide)
  cases hspace : isSpace c with
  | false => rfl
  | true => rw [← h, hoctal c hspace]

theorem escapeOctal_append (t u : Text) : escapeOctal (t ++ u) = escapeOctal t ++ escapeOctal u :=
  List.flatMap_append

theorem unescapeOctal_cons (hc : c ≠ '\\') (t : Text) : unescapeOctal (c :: t) = c :: unescapeOctal t := by
  rw [unescapeOctal]
  rintro a b d u rfl
  exact absurd rfl hc

theorem unescapeOctal_eq_self (h : '\\' ∉ t) : unescapeOctal t = t := by
  induction t with
  | nil => rfl
  | cons c t ih =>
    have hc : c ≠ '\\' := fun he => h (he ▸ List.mem_cons_self)
    rw [unescapeOctal_cons hc, ih (List.not_mem_of_not_mem_cons h)]

/-- Reading the escapes undoes them. -/
theorem unescapeOctal_escapeOctal (t : Text) : unescapeOctal (escapeOctal t) = t := by
  have hmarks : ∀ c ∈ octalMarks, ∀ u, unescapeOctal (octalChar c ++ u) = c :: unescapeOctal u := by
    intro c hc u
    rw [octalMarks, List.mem_cons, List.mem_cons, List.mem_cons, List.mem_singleton] at hc
    rcases hc with rfl | rfl | rfl | rfl <;> rfl
  induction t with
  | nil => rfl
  | cons c t ih =>
    rw [escapeOctal, List.flatMap_cons, ← escapeOctal]
    by_cases hc : c ∈ octalMarks
    · rw [hmarks c hc, ih]
    · have hne : c ≠ '\\' := fun he => hc (he ▸ by decide)
      rw [octalChar, if_neg (by simpa using hc), List.singleton_append, unescapeOctal_cons hne, ih]

theorem escapeOctal_ne_nil (h : t ≠ []) : escapeOctal t ≠ [] := by
  intro he
  rw [← unescapeOctal_escapeOctal t, he] at h
  exact h rfl

/-- What is printed has only digits and backslashes in the place of what is escaped. -/
theorem mem_escapeOctal (h : c ∈ escapeOctal t) : (c ∈ t ∧ c ∉ octalMarks) ∨ isOctal c = true ∨ c = '\\' := by
  have hmarks : ∀ x ∈ octalMarks, (octalChar x).all (fun d => isOctal d || d == '\\') = true :=
    forall_mem_of_all (by decide)
  obtain ⟨x, hx, hc⟩ := List.mem_flatMap.mp h
  by_cases hmark : x ∈ octalMarks
  · exact .inr (by simpa using List.all_eq_true.mp (hmarks x hmark) c hc)
  · rw [octalChar, if_neg (by simpa using hmark)] at hc
    obtain rfl := List.mem_singleton.mp hc
    exact .inl ⟨hx, hmark⟩

/-- A text without escaped characters is printed as it is. -/
theorem escapeOctal_eq_self (h : ∀ c ∈ t, c ∉ octalMarks) : escapeOctal t = t := by
  induction t with
  | nil => rfl
  | cons c t ih =>
    obtain ⟨hc, ht⟩ := List.forall_mem_cons.mp h
    rw [escapeOctal, List.flatMap_cons, ← escapeOctal, ih ht, octalChar, if_neg (by simpa using hc)]
    rfl
