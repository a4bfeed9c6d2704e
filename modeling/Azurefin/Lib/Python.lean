import Azurefin.Lib.Act
import Azurefin.Lib.Digest
import Azurefin.Lib.Fs
import Azurefin.Lib.Words
import Mathlib.Data.Char
import Mathlib.Data.List.DropRight
import Mathlib.Data.List.Lex

/-!
# The parts of Python the sources use

Exceptions, JSON values with the accessors of `dict`, pure POSIX paths, and splitting of text.
Text is a list of Unicode characters, ordered by code points.
-/

/-- The exceptions of the modelled functions. -/
inductive PyError where
  | valueError (message : String)
  | unicodeDecodeError
  | osError (errno : Errno)
  | subprocessError
  | attributeError
  | keyError (key : Text)
  | typeError
  | structError
  | indexError
  | argumentTypeError (message : String)
  | systemExit (message : String)
  | runtimeError (message : String)
  | recursionError
  | overflowError
  deriving DecidableEq, Repr

/-- `isinstance(error, ValueError)`: decoding errors are a subclass. -/
def PyError.isValueError : PyError → Bool
  | .valueError _ | .unicodeDecodeError => true
  | _ => false

/-! ## JSON values -/

/-- What `json.loads` returns. Numbers are integers where the sources read them. -/
inductive Json where
  | null
  | bool (b : Bool)
  | num (n : Int)
  | str (s : Text)
  | arr (items : List Json)
  | obj (fields : List (Text × Json))

namespace Json

/-- `value.get(key)` -/
def get (j : Json) (key : Text) : Except PyError Json :=
  match j with
  | obj fields => .ok ((fields.lookup key).getD null)
  | _ => .error .attributeError

/-- `value.get(key, default)` -/
def getD (j : Json) (key : Text) (default : Json) : Except PyError Json :=
  match j with
  | obj fields => .ok ((fields.lookup key).getD default)
  | _ => .error .attributeError

/-- `value[key]` -/
def item (j : Json) (key : Text) : Except PyError Json :=
  match j with
  | obj fields =>
    match fields.lookup key with
    | some v => .ok v
    | none => .error (.keyError key)
  | _ => .error .typeError

theorem item_of_get {j v : Json} {key : Text} (h : j.get key = .ok v) (hv : v ≠ null) :
    j.item key = .ok v := by
  cases j with
  | obj fields =>
    simp only [get, Except.ok.injEq] at h
    rcases hl : fields.lookup key with _ | w
    · exact absurd (by simpa [hl] using h.symm) hv
    · simp_all [item]
  | _ => simp [get] at h

/-- `bool(value)` -/
def truthy : Json → Bool
  | null => false
  | bool b => b
  | num n => n != 0
  | str s => !s.isEmpty
  | arr items => !items.isEmpty
  | obj fields => !fields.isEmpty

/-- `value or default` -/
def orElse (j default : Json) : Json := if j.truthy then j else default

/-- The text a value is, for functions that take a `str` only. -/
def text : Json → Except PyError Text
  | str s => .ok s
  | _ => .error .typeError

/-- `len(value)` -/
def len : Json → Except PyError Nat
  | str s => .ok s.length
  | arr items => .ok items.length
  | obj fields => .ok fields.length
  | _ => .error .typeError

/-- What iterating over the value yields. -/
def elements : Json → Except PyError (List Json)
  | str s => .ok (s.map fun c => str [c])
  | arr items => .ok items
  | obj fields => .ok (fields.map fun f => str f.1)
  | _ => .error .typeError

/-- `value[0]` -/
def first : Json → Except PyError Json
  | str (c :: _) => .ok (str [c])
  | arr (item :: _) => .ok item
  | str [] | arr [] => .error .indexError
  | obj _ => .error (.keyError "0".toList)
  | _ => .error .typeError

/-- The text whose method is called; other values have no such method. -/
def strMethod : Json → Except PyError Text
  | str s => .ok s
  | _ => .error .attributeError

/-- The number a value compares as: `True` is 1 and `False` is 0. -/
def number? : Json → Option Int
  | bool b => some (if b then 1 else 0)
  | num n => some n
  | _ => none

/-- `key in value` for a text -/
def has (j : Json) (key : Text) : Except PyError Bool :=
  match j with
  | str s => .ok (Words.contains key s)
  | arr items => .ok (items.any fun item => match item with
    | str t => t == key
    | _ => false)
  | obj fields => .ok (fields.lookup key).isSome
  | _ => .error .typeError

mutual

/-- `a == b`: dictionaries compare as maps. -/
def eq : Json → Json → Bool
  | null, b => match b with
    | null => true
    | _ => false
  | bool x, b => b.number? == some (if x then 1 else 0)
  | num n, b => b.number? == some n
  | str s, b => match b with
    | str t => s == t
    | _ => false
  | arr items, b => match b with
    | arr others => eqItems items others
    | _ => false
  | obj fields, b => match b with
    | obj others => fields.length == others.length && eqFields fields others
    | _ => false

def eqItems : List Json → List Json → Bool
  | [], b => b.isEmpty
  | a :: as, b => match b with
    | c :: cs => eq a c && eqItems as cs
    | [] => false

def eqFields : List (Text × Json) → List (Text × Json) → Bool
  | [], _ => true
  | (key, a) :: as, others =>
    (match others.lookup key with
      | some c => eq a c
      | none => false) && eqFields as others

end

/-- The four hexadecimal digits of a code unit. -/
def hex4 (n : Nat) : Text := [12, 8, 4, 0].map fun k => Digest.hexDigit (n >>> k)

/-- A character in a literal of ASCII characters. -/
def dumpChar (c : Char) : Text :=
  if c = '"' then ['\\', '"']
  else if c = '\\' then ['\\', '\\']
  else if c = '\n' then ['\\', 'n']
  else if c = '\r' then ['\\', 'r']
  else if c = '\t' then ['\\', 't']
  else if c = '\x08' then ['\\', 'b']
  else if c = '\x0c' then ['\\', 'f']
  else if ' ' ≤ c ∧ c ≤ '~' then [c]
  else if c.toNat < 0x10000 then '\\' :: 'u' :: hex4 c.toNat
  else
    '\\' :: 'u' :: hex4 (0xd800 + (c.toNat - 0x10000) / 0x400) ++
      '\\' :: 'u' :: hex4 (0xdc00 + (c.toNat - 0x10000) % 0x400)

def dumpStr (t : Text) : Text := '"' :: t.flatMap dumpChar ++ ['"']

mutual

/-- `json.dumps(value)` -/
def dumps : Json → Text
  | null => "null".toList
  | bool b => if b then "true".toList else "false".toList
  | num n => (toString n).toList
  | str s => dumpStr s
  | arr items => '[' :: List.intercalate ", ".toList (dumpItems items) ++ [']']
  | obj fields => '\x7b' :: List.intercalate ", ".toList (dumpFields fields) ++ ['\x7d']

def dumpItems : List Json → List Text
  | [] => []
  | a :: as => dumps a :: dumpItems as

def dumpFields : List (Text × Json) → List Text
  | [] => []
  | (key, a) :: as => (dumpStr key ++ ": ".toList ++ dumps a) :: dumpFields as

end

theorem eq_str {j : Json} {s : Text} (h : j.eq (str s) = true) : j = str s := by
  cases j <;> simp_all [eq, number?]

theorem str_eq {j : Json} {s : Text} (h : (str s).eq j = true) : j = str s := by
  cases j <;> simp_all [eq]

end Json

/-! ## Paths -/

theorem mem_intercalate {ls : List Text} {sep c : Char} (h : c ∈ List.intercalate [sep] ls) :
    c = sep ∨ ∃ l ∈ ls, c ∈ l := by
  induction ls with
  | nil => simp at h
  | cons l ls ih =>
    cases ls with
    | nil => exact .inr ⟨l, List.mem_cons_self, by simpa using h⟩
    | cons m ls =>
      rw [List.intercalate_cons_cons, List.mem_append, List.mem_append] at h
      rcases h with (h | h) | h
      · exact .inr ⟨l, List.mem_cons_self, h⟩
      · exact .inl (by simpa using h)
      · obtain hsep | ⟨k, hk, hc⟩ := ih h
        · exact .inl hsep
        · exact .inr ⟨k, List.mem_cons_of_mem _ hk, hc⟩

theorem mem_intercalate_of_mem {ls : List Text} {l : Text} {sep c : Char} (hl : l ∈ ls) (hc : c ∈ l) :
    c ∈ List.intercalate [sep] ls := by
  induction ls with
  | nil => cases hl
  | cons m ls ih =>
    cases ls with
    | nil =>
      obtain rfl := List.mem_singleton.mp hl
      rwa [List.intercalate_singleton]
    | cons k ls =>
      rw [List.intercalate_cons_cons, List.mem_append, List.mem_append]
      rcases List.mem_cons.mp hl with rfl | hl
      · exact .inl (.inl hc)
      · exact .inr (ih hl)

theorem not_mem_of_mem_splitOn {c : Char} {t l : Text} (h : l ∈ t.splitOn c) : c ∉ l := by
  induction t generalizing l with
  | nil =>
    obtain rfl : l = [] := by simpa using h
    simp
  | cons x t ih =>
    rw [List.splitOn_cons_eq_if_modifyHead] at h
    obtain ⟨first, rest, hsplit⟩ := List.exists_cons_of_ne_nil (List.splitOn_ne_nil c t)
    rw [hsplit] at h ih
    split at h
    case isTrue =>
      rcases List.mem_cons.mp h with rfl | h
      · simp
      · exact ih h
    case isFalse hx =>
      rcases List.mem_cons.mp h with rfl | h
      · have hfirst := @ih first (by simp)
        have hcx : c ≠ x := fun he => hx (by simp [he])
        simp [hfirst, hcx]
      · exact ih (List.mem_cons_of_mem _ h)

/-- `pathlib.PurePosixPath`: the root and the names below it. -/
structure PurePosixPath where
  root : Text
  names : List Text
  deriving DecidableEq, Repr

namespace PurePosixPath

/-- Empty and `.` components are dropped; two leading slashes are a root of their own. -/
def ofText (t : Text) : PurePosixPath where
  root :=
    if "//".toList.isPrefixOf t && !"///".toList.isPrefixOf t then "//".toList
    else if "/".toList.isPrefixOf t then "/".toList
    else []
  names := (t.splitOn '/').filter fun n => n != [] && n != ".".toList

def isAbsolute (p : PurePosixPath) : Bool := p.root != []

def parts (p : PurePosixPath) : List Text := if p.isAbsolute then p.root :: p.names else p.names

/-- The last component; the empty text when there is none. -/
def name (p : PurePosixPath) : Text := p.names.getLast?.getD []

def parent (p : PurePosixPath) : PurePosixPath := { p with names := p.names.dropLast }

/-- `path / name` for one component -/
def child (p : PurePosixPath) (name : Text) : PurePosixPath := { p with names := p.names ++ [name] }

/-- `str(path)` -/
def str (p : PurePosixPath) : Text :=
  if p.parts = [] then ".".toList else p.root ++ List.intercalate "/".toList p.names

theorem root_eq_nil {p : PurePosixPath} (h : p.isAbsolute = false) : p.root = [] := by
  simpa [isAbsolute] using h

theorem parts_eq_names {p : PurePosixPath} (h : p.isAbsolute = false) : p.parts = p.names := by
  simp [parts, h]

/-- The components of a text that is its own canonical form are its names. -/
theorem splitOn_eq_names {t : Text} (habs : (ofText t).isAbsolute = false)
    (hne : (ofText t).names ≠ []) (hstr : (ofText t).str = t) :
    t.splitOn '/' = (ofText t).names := by
  rw [str, if_neg (by rw [parts_eq_names habs]; exact hne), root_eq_nil habs, List.nil_append] at hstr
  conv_lhs => rw [← hstr]
  refine List.splitOn_intercalate '/' (fun l hl => ?_) hne
  exact not_mem_of_mem_splitOn (List.mem_filter.mp hl).1

theorem dropLast_append_name {p : PurePosixPath} (h : p.names ≠ []) :
    p.names.dropLast ++ [p.name] = p.names := by
  rw [name, List.getLast?_eq_some_getLast h]
  exact List.dropLast_append_getLast h

end PurePosixPath

/-! ## Reading in chunks -/

/-- What repeated `stream.read(n)` calls return until the empty one, for a file that is not
longer than `fuel`. -/
def chunksAux (n : Nat) : Nat → Bytes → List Bytes
  | _, [] => []
  | 0, _ => []
  | fuel + 1, b :: data => (b :: data).take n :: chunksAux n fuel ((b :: data).drop n)

/-- `iter(lambda: stream.read(n), b'')` over a file. -/
def chunks (n : Nat) (data : Bytes) : List Bytes := chunksAux n data.length data

theorem flatten_chunksAux {n fuel : Nat} {data : Bytes} (hn : 0 < n) (h : data.length ≤ fuel) :
    (chunksAux n fuel data).flatten = data := by
  induction fuel generalizing data with
  | zero =>
    obtain rfl : data = [] := List.length_eq_zero_iff.mp (by omega)
    simp [chunksAux]
  | succ fuel ih =>
    cases data with
    | nil => simp [chunksAux]
    | cons b data =>
      have hl : ((b :: data).drop n).length ≤ fuel := by
        rw [List.length_drop]
        simp only [List.length_cons] at h ⊢
        omega
      rw [chunksAux, List.flatten_cons, ih hl, List.take_append_drop]

@[simp] theorem flatten_chunks {n : Nat} (hn : 0 < n) (data : Bytes) :
    (chunks n data).flatten = data := flatten_chunksAux hn (Nat.le_refl _)

/-! ## Text -/

/-- `str.isspace` for one character. -/
def isSpace (c : Char) : Bool :=
  ['\t', '\n', '\x0b', '\x0c', '\r', '\x1c', '\x1d', '\x1e', '\x1f', ' ', '\x85', '\xa0',
    '\u1680', '\u2000', '\u2001', '\u2002', '\u2003', '\u2004', '\u2005', '\u2006', '\u2007',
    '\u2008', '\u2009', '\u200a', '\u2028', '\u2029', '\u202f', '\u205f', '\u3000'].contains c

/-- The maximal runs of characters that are not separators. -/
def wordsBy (sep : Char → Bool) (t : Text) : List Text := (t.splitOnP sep).filter (· ≠ [])

/-- `text.split()` -/
def pySplit (t : Text) : List Text := wordsBy isSpace t

/-- `text.strip()` -/
def strip (t : Text) : Text := (t.dropWhile isSpace).rdropWhile isSpace

/-- A line that neither begins nor ends with a space loses its line end only. -/
theorem strip_append_newline {t : Text} (hfirst : ∀ c ∈ t.head?, isSpace c = false)
    (hlast : ∀ c ∈ t.getLast?, isSpace c = false) : strip (t ++ ['\n']) = t := by
  cases t with
  | nil => rfl
  | cons c t =>
    have hend : (c :: t).rdropWhile isSpace = c :: t :=
      List.rdropWhile_eq_self_iff.mpr fun hl => by simp [hlast _ (List.getLast?_eq_some_getLast hl)]
    rw [strip, List.cons_append, List.dropWhile_cons_of_neg (by simp [hfirst c rfl]),
      ← List.cons_append, List.rdropWhile_concat_pos _ _ _ rfl, hend]

theorem isSpace_of_isSha256Text {t : Text} (h : isSha256Text t = true) : ∀ c ∈ t, isSpace c = false := by
  have hdigits : ∀ c ∈ Digest.hexDigits, isSpace c = false := forall_mem_of_all (by decide)
  intro c hc
  simp only [isSha256Text, Bool.and_eq_true, List.all_eq_true] at h
  exact hdigits c (by simpa [Digest.isHexDigit] using h.2 c hc)

/-- What follows the first `c` of a text: `text.split(c, 1)[1]` and the shell's `${text#*c}`. -/
def afterFirst (c : Char) (t : Text) : Text := (t.dropWhile (· ≠ c)).drop 1

/-- The characters outside ASCII with an ASCII character in what they fold to. -/
def asciiFoldings : List (Char × Text) :=
  [('\u00df', ['s', 's']), ('\u0130', ['i', '\u0307']), ('\u0149', ['\u02bc', 'n']),
    ('\u017f', ['s']), ('\u01f0', ['j', '\u030c']), ('\u1e96', ['h', '\u0331']),
    ('\u1e97', ['t', '\u0308']), ('\u1e98', ['w', '\u030a']), ('\u1e99', ['y', '\u030a']),
    ('\u1e9a', ['a', '\u02be']), ('\u1e9e', ['s', 's']), ('\u212a', ['k']), ('\ufb00', ['f', 'f']),
    ('\ufb01', ['f', 'i']), ('\ufb02', ['f', 'l']), ('\ufb03', ['f', 'f', 'i']),
    ('\ufb04', ['f', 'f', 'l']), ('\ufb05', ['s', 't']), ('\ufb06', ['s', 't'])]

/-- `text.casefold()`, for a comparison with ASCII text: what folds to characters outside ASCII
only is left as it is. -/
def casefold (t : Text) : Text :=
  t.flatMap fun c => (asciiFoldings.lookup c).getD [c.toLower]

/-- `text.removeprefix(prefix)` -/
def removePrefix (p t : Text) : Text := if p.isPrefixOf t then t.drop p.length else t

/-- The characters outside ASCII with an ASCII character in what they are in lower case. -/
def asciiLowerings : List (Char × Text) := [('\u0130', ['i', '\u0307']), ('\u212a', ['k'])]

/-- `text.lower()`, for a comparison with ASCII text: what has no ASCII character in lower case is
left as it is. -/
def lower (t : Text) : Text := t.flatMap fun c => (asciiLowerings.lookup c).getD [c.toLower]

/-- The characters outside ASCII with an ASCII character in what they are in upper case. -/
def asciiUppercasings : List (Char × Text) :=
  [('\u00df', ['S', 'S']), ('\u0131', ['I']), ('\u0149', ['\u02bc', 'N']), ('\u017f', ['S']),
    ('\u01f0', ['J', '\u030c']), ('\u1e96', ['H', '\u0331']), ('\u1e97', ['T', '\u0308']),
    ('\u1e98', ['W', '\u030a']), ('\u1e99', ['Y', '\u030a']), ('\u1e9a', ['A', '\u02be']),
    ('\ufb00', ['F', 'F']), ('\ufb01', ['F', 'I']), ('\ufb02', ['F', 'L']), ('\ufb03', ['F', 'F', 'I']),
    ('\ufb04', ['F', 'F', 'L']), ('\ufb05', ['S', 'T']), ('\ufb06', ['S', 'T'])]

/-- `text.upper()`, for a comparison with ASCII text: what has no ASCII character in upper case is
left as it is. -/
def upper (t : Text) : Text := t.flatMap fun c => (asciiUppercasings.lookup c).getD [c.toUpper]

/-- Where the ranges of ten decimal digits of Unicode 15 begin. -/
def decimalZeros : List Nat :=
  [0x30, 0x660, 0x6f0, 0x7c0, 0x966, 0x9e6, 0xa66, 0xae6, 0xb66, 0xbe6, 0xc66, 0xce6, 0xd66, 0xde6,
    0xe50, 0xed0, 0xf20, 0x1040, 0x1090, 0x17e0, 0x1810, 0x1946, 0x19d0, 0x1a80, 0x1a90, 0x1b50,
    0x1bb0, 0x1c40, 0x1c50, 0xa620, 0xa8d0, 0xa900, 0xa9d0, 0xa9f0, 0xaa50, 0xabf0, 0xff10, 0x104a0,
    0x10d30, 0x11066, 0x110f0, 0x11136, 0x111d0, 0x112f0, 0x11450, 0x114d0, 0x11650, 0x116c0,
    0x11730, 0x118e0, 0x11950, 0x11c50, 0x11d50, 0x11da0, 0x11f50, 0x16a60, 0x16ac0, 0x16b50,
    0x1d7ce, 0x1d7d8, 0x1d7e2, 0x1d7ec, 0x1d7f6, 0x1e140, 0x1e2f0, 0x1e4f0, 0x1e950, 0x1fbf0]

/-- What `\d` matches. -/
def isDecimal (c : Char) : Bool := decimalZeros.any fun first => first ≤ c.toNat && c.toNat < first + 10

/-- No space is a digit. -/
theorem isSpace_of_isDecimal {c : Char} (h : isDecimal c = true) : isSpace c = false := by
  have hdecimal : ∀ d, isSpace d = true → isDecimal d = false := by
    simp only [isSpace, List.contains_iff_mem]
    exact forall_mem_of_all (by decide +kernel)
  cases hspace : isSpace c with
  | false => rfl
  | true => rw [← h, hdecimal c hspace]
