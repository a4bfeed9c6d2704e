import Azurefin.Lib.Python

/-!
# Reading integers

`int(text, base)` for the bases that the sources use: ten, and zero for a base that the text tells.
-/

namespace PyInt

/-- The zeros of the scripts whose ten digits are decimal. -/
def decimalZeros : List Nat :=
  [0x660, 0x6f0, 0x7c0, 0x966, 0x9e6, 0xa66, 0xae6, 0xb66, 0xbe6, 0xc66, 0xce6, 0xd66, 0xde6, 0xe50,
    0xed0, 0xf20, 0x1040, 0x1090, 0x17e0, 0x1810, 0x1946, 0x19d0, 0x1a80, 0x1a90, 0x1b50, 0x1bb0,
    0x1c40, 0x1c50, 0xa620, 0xa8d0, 0xa900, 0xa9d0, 0xa9f0, 0xaa50, 0xabf0, 0xff10, 0x104a0, 0x10d30,
    0x10d40, 0x11066, 0x110f0, 0x11136, 0x111d0, 0x112f0, 0x11450, 0x114d0, 0x11650, 0x116c0, 0x116d0,
    0x116da, 0x11730, 0x118e0, 0x11950, 0x11bf0, 0x11c50, 0x11d50, 0x11da0, 0x11f50, 0x16130, 0x16a60,
    0x16ac0, 0x16b50, 0x16d70, 0x1ccf0, 0x1d7ce, 0x1d7d8, 0x1d7e2, 0x1d7ec, 0x1d7f6, 0x1e140, 0x1e2f0,
    0x1e4f0, 0x1e5f1, 0x1e950, 0x1fbf0]

/-- The ASCII character that a character is read as. -/
def asciiForm (c : Char) : Char :=
  if c.toNat < 127 then c
  else if isSpace c then ' '
  else match decimalZeros.find? fun first => decide (first ≤ c.toNat ∧ c.toNat < first + 10) with
    | some first => Char.ofNat (48 + (c.toNat - first))
    | none => '?'

/-- A space of the C library. -/
def isCSpace (c : Char) : Bool := ['\t', '\n', '\x0b', '\x0c', '\r', ' '].contains c

def digit (base : Nat) (c : Char) : Option Nat :=
  let value :=
    if c.isDigit then c.toNat - '0'.toNat
    else if c.isLower then c.toNat - 'a'.toNat + 10
    else if c.isUpper then c.toNat - 'A'.toNat + 10
    else base
  if value < base then some value else none

/-- Single underscores may stand between digits. -/
def digits (base : Nat) (t : Text) : Option (List Nat) :=
  if (t.splitOn '_').contains [] then none else (t.filter (· ≠ '_')).mapM (digit base)

/-- An underscore may follow the mark of a base. -/
def afterMark : Text → Text
  | '_' :: t => t
  | t => t

/-- The base that the text tells, and what is behind the mark of it. -/
def baseOf : Text → Nat × Text
  | '0' :: 'x' :: t | '0' :: 'X' :: t => (16, afterMark t)
  | '0' :: 'o' :: t | '0' :: 'O' :: t => (8, afterMark t)
  | '0' :: 'b' :: t | '0' :: 'B' :: t => (2, afterMark t)
  | t => (10, t)

def sign : Text → Int × Text
  | '-' :: t => (-1, t)
  | '+' :: t => (1, t)
  | t => (1, t)

/-- `int(text, base)`, for base zero or ten -/
def parse (base : Nat) (text : Text) : Except PyError Int :=
  let stripped := ((text.map asciiForm).dropWhile isCSpace).rdropWhile isCSpace
  let (sign, t) := sign stripped
  let (b, numeral) := if base = 0 then baseOf t else (base, t)
  match digits b numeral with
  | none => .error (.valueError "invalid literal for int()")
  | some ds =>
    let value := ds.foldl (fun n d => n * b + d) 0
    -- a decimal number has no leading zeros where the base is not given
    if base = 0 ∧ b = 10 ∧ numeral.head? = some '0' ∧ value ≠ 0 then
      .error (.valueError "invalid literal for int()")
    else if b = 10 ∧ ds.length > 4300 then
      .error (.valueError "Exceeds the limit for integer string conversion")
    else .ok (sign * value)

example : parse 0 "0x_1000\n".toList = .ok 0x1000 := by decide +kernel

example : parse 0 "010".toList = .error (.valueError "invalid literal for int()") := by decide +kernel

end PyInt
