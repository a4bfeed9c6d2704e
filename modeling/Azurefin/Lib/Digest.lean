import Mathlib.Algebra.Ring.Int.Defs
import Mathlib.Algebra.Ring.Nat
import Mathlib.Logic.Function.Iterate
import Mathlib.Tactic.Common

/-!
# Byte strings and their checksums

SHA-256 as lowercase hexadecimal text and CRC-32, over lists of bytes. Nothing in the
development rests on how the digests are computed, only on their form: a digest is 64
lowercase hexadecimal digits and a CRC fits 32 bits.
-/

abbrev Bytes := List UInt8
abbrev Text := List Char

/-- The text as bytes, one for each ASCII character. -/
def encodeAscii (t : Text) : Bytes := t.map fun c => UInt8.ofNat c.toNat

/-- What holds of all elements of a literal is decided element by element. -/
theorem forall_mem_of_all {α : Type} {p : α → Prop} [DecidablePred p] {l : List α}
    (h : l.all (fun x => p x) = true) : ∀ x ∈ l, p x := by
  simpa using h

namespace Digest

/-! ## Hexadecimal text -/

def hexDigits : Text := "0123456789abcdef".toList

def hexDigit (n : Nat) : Char := hexDigits.getD (n % 16) '0'

def isHexDigit (c : Char) : Bool := hexDigits.contains c

def byteHex (b : UInt8) : Text := [hexDigit (b.toNat / 16), hexDigit b.toNat]

/-- `bytes.hex()`. -/
def hex (b : Bytes) : Text := b.flatMap byteHex

theorem isHexDigit_hexDigit (n : Nat) : isHexDigit (hexDigit n) = true :=
  (by decide : ∀ m < 16, isHexDigit (hexDigits.getD m '0') = true) (n % 16)
    (Nat.mod_lt n (by decide))

@[simp] theorem length_hex (b : Bytes) : (hex b).length = 2 * b.length := by
  induction b with
  | nil => rfl
  | cons x b ih => simp_all [hex, byteHex]; omega

theorem isHexDigit_of_mem_hex {b : Bytes} {c : Char} (h : c ∈ hex b) : isHexDigit c = true := by
  obtain ⟨x, -, hx⟩ := List.mem_flatMap.mp h
  simp only [byteHex, List.mem_cons, List.not_mem_nil, or_false] at hx
  rcases hx with rfl | rfl <;> exact isHexDigit_hexDigit _

/-! ## SHA-256 -/

def roundConstants : List UInt32 :=
  [0x428a2f98, 0x71374491, 0xb5c0fbcf, 0xe9b5dba5, 0x3956c25b, 0x59f111f1, 0x923f82a4, 0xab1c5ed5,
   0xd807aa98, 0x12835b01, 0x243185be, 0x550c7dc3, 0x72be5d74, 0x80deb1fe, 0x9bdc06a7, 0xc19bf174,
   0xe49b69c1, 0xefbe4786, 0x0fc19dc6, 0x240ca1cc, 0x2de92c6f, 0x4a7484aa, 0x5cb0a9dc, 0x76f988da,
   0x983e5152, 0xa831c66d, 0xb00327c8, 0xbf597fc7, 0xc6e00bf3, 0xd5a79147, 0x06ca6351, 0x14292967,
   0x27b70a85, 0x2e1b2138, 0x4d2c6dfc, 0x53380d13, 0x650a7354, 0x766a0abb, 0x81c2c92e, 0x92722c85,
   0xa2bfe8a1, 0xa81a664b, 0xc24b8b70, 0xc76c51a3, 0xd192e819, 0xd6990624, 0xf40e3585, 0x106aa070,
   0x19a4c116, 0x1e376c08, 0x2748774c, 0x34b0bcb5, 0x391c0cb3, 0x4ed8aa4a, 0x5b9cca4f, 0x682e6ff3,
   0x748f82ee, 0x78a5636f, 0x84c87814, 0x8cc70208, 0x90befffa, 0xa4506ceb, 0xbef9a3f7, 0xc67178f2]

def rotr (x : UInt32) (n : UInt32) : UInt32 := (x >>> n) ||| (x <<< (32 - n))

/-- The eight working words of the compression function. -/
structure Sha where
  a : UInt32
  b : UInt32
  c : UInt32
  d : UInt32
  e : UInt32
  f : UInt32
  g : UInt32
  h : UInt32

def Sha.initial : Sha :=
  ⟨0x6a09e667, 0xbb67ae85, 0x3c6ef372, 0xa54ff53a, 0x510e527f, 0x9b05688c, 0x1f83d9ab, 0x5be0cd19⟩

def Sha.round (s : Sha) (k w : UInt32) : Sha :=
  let t1 := s.h + (rotr s.e 6 ^^^ rotr s.e 11 ^^^ rotr s.e 25)
    + ((s.e &&& s.f) ^^^ (~~~s.e &&& s.g)) + k + w
  let t2 := (rotr s.a 2 ^^^ rotr s.a 13 ^^^ rotr s.a 22)
    + ((s.a &&& s.b) ^^^ (s.a &&& s.c) ^^^ (s.b &&& s.c))
  ⟨t1 + t2, s.a, s.b, s.c, s.d + t1, s.e, s.f, s.g⟩

def Sha.add (s t : Sha) : Sha :=
  ⟨s.a + t.a, s.b + t.b, s.c + t.c, s.d + t.d, s.e + t.e, s.f + t.f, s.g + t.g, s.h + t.h⟩

/-- The next word of the message schedule, from the last sixteen, newest first. -/
def scheduleNext (ws : List UInt32) : UInt32 :=
  let w15 := ws.getD 14 0
  let w2 := ws.getD 1 0
  ws.getD 15 0 + (rotr w15 7 ^^^ rotr w15 18 ^^^ (w15 >>> 3)) + ws.getD 6 0
    + (rotr w2 17 ^^^ rotr w2 19 ^^^ (w2 >>> 10))

def schedule : Nat → List UInt32 → List UInt32
  | 0, ws => ws
  | n + 1, ws => schedule n (scheduleNext ws :: ws)

def word (b : Bytes) : UInt32 := b.foldl (fun acc x => acc * 256 + x.toUInt32) 0

def words : Nat → Bytes → List UInt32
  | 0, _ => []
  | n + 1, b => word (b.take 4) :: words n (b.drop 4)

def compress (s : Sha) (block : Bytes) : Sha :=
  let ws := (schedule 48 (words 16 block).reverse).reverse
  s.add ((roundConstants.zip ws).foldl (fun t kw => t.round kw.1 kw.2) s)

/-- The `n` low bytes of a number, most significant first. -/
def bigEndian (n x : Nat) : Bytes := (List.range n).reverse.map fun i => UInt8.ofNat (x / 256 ^ i)

def pad (b : Bytes) : Bytes :=
  b ++ 0x80 :: List.replicate ((119 - b.length % 64) % 64) 0 ++ bigEndian 8 (8 * b.length)

def blocks : Nat → Bytes → List Bytes
  | 0, _ => []
  | n + 1, b => b.take 64 :: blocks n (b.drop 64)

def Sha.bytes (s : Sha) : Bytes :=
  [s.a, s.b, s.c, s.d, s.e, s.f, s.g, s.h].flatMap fun w => bigEndian 4 w.toNat

end Digest

open Digest in
/-- `hashlib.sha256(b).hexdigest()`. -/
def sha256 (b : Bytes) : Text :=
  hex ((blocks ((pad b).length / 64) (pad b)).foldl compress Sha.initial).bytes

/-- Exactly 64 lowercase hexadecimal digits: what `[0-9a-f]{64}` matches. -/
def isSha256Text (t : Text) : Bool := t.length == 64 && t.all Digest.isHexDigit

theorem isSha256Text_sha256 (b : Bytes) : isSha256Text (sha256 b) = true := by
  have hlen : ∀ s : Digest.Sha, s.bytes.length = 32 := fun s => by
    simp [Digest.Sha.bytes, Digest.bigEndian]
  simp only [isSha256Text, sha256, Digest.length_hex, hlen, List.all_eq_true, Bool.and_eq_true]
  exact ⟨rfl, fun c hc => Digest.isHexDigit_of_mem_hex hc⟩

example : sha256 (encodeAscii "abc".toList) =
    "ba7816bf8f01cfea414140de5dae2223b00361a396177a9cb410ff61f20015ad".toList := by
  decide +kernel

/-! ## CRC-32 -/

/-- One bit of the reflected polynomial division. -/
def crcBit (c : UInt32) : UInt32 :=
  if c &&& 1 = 1 then (0xedb88320 : UInt32) ^^^ (c >>> 1) else c >>> 1

def crcByte (c : UInt32) (b : UInt8) : UInt32 := Nat.iterate crcBit 8 (c ^^^ b.toUInt32)

/-- `zlib.crc32(b)`. -/
def crc32 (b : Bytes) : Nat := (b.foldl crcByte 0xffffffff ^^^ (0xffffffff : UInt32)).toNat

theorem crc32_lt (b : Bytes) : crc32 b < 2 ^ 32 := UInt32.toNat_lt _

example : crc32 (encodeAscii "123456789".toList) = 0xcbf43926 := by decide +kernel
