import Azurefin.Lib.Python

/-!
# Binary data

Slices of byte strings, little-endian integers as `struct` unpacks them, CRC-32 as `zlib`
computes it, and text in UTF-16.
-/

/-! ## Slices and integers -/

/-- `data[start:stop]` -/
def slice (data : Bytes) (start stop : Nat) : Bytes := (data.drop start).take (stop - start)

theorem length_slice {data : Bytes} {start stop : Nat} (h : stop ≤ data.length) :
    (slice data start stop).length = stop - start := by
  rw [slice, List.length_take, List.length_drop]
  omega

/-- The number that the bytes are, with the lowest one first. -/
def leNat (data : Bytes) : Nat := data.foldr (fun b n => b.toNat + 256 * n) 0

/-- The unsigned integer of some width at an offset. -/
def uintAt (width : Nat) (data : Bytes) (offset : Nat) : Nat :=
  leNat (slice data offset (offset + width))

/-- The bytes of a number, with the lowest one first. -/
def leBytes : Nat → Nat → Bytes
  | 0, _ => []
  | width + 1, n => UInt8.ofNat (n % 256) :: leBytes width (n / 256)

@[simp] theorem length_leBytes (width n : Nat) : (leBytes width n).length = width := by
  induction width generalizing n with
  | zero => rfl
  | succ width ih => rw [leBytes, List.length_cons, ih]

theorem leNat_leBytes {width n : Nat} (h : n < 256 ^ width) : leNat (leBytes width n) = n := by
  induction width generalizing n with
  | zero =>
    rw [Nat.pow_zero] at h
    simp only [leBytes, leNat, List.foldr_nil]
    omega
  | succ width ih =>
    have hdiv : n / 256 < 256 ^ width := by
      rw [Nat.pow_succ] at h
      omega
    have hcons : leNat (leBytes (width + 1) n) =
        (UInt8.ofNat (n % 256)).toNat + 256 * leNat (leBytes width (n / 256)) := rfl
    have hlow : (UInt8.ofNat (n % 256)).toNat = n % 256 := by simp
    rw [hcons, hlow, ih hdiv]
    omega

section Append

variable {p q : Bytes} {start stop width k n : Nat}

theorem slice_append_left (h : stop ≤ p.length) : slice (p ++ q) start stop = slice p start stop := by
  rcases Nat.le_total start stop with hle | hle
  · rw [slice, slice, List.drop_append_of_le_length (by omega),
      List.take_append_of_le_length (by simp; omega)]
  · simp [slice, Nat.sub_eq_zero_of_le hle]

theorem slice_append_right (h : p.length ≤ start) :
    slice (p ++ q) start stop = slice q (start - p.length) (stop - p.length) := by
  rw [slice, slice, List.drop_append, List.drop_of_length_le h, List.nil_append]
  congr 1
  omega

theorem slice_zero (h : p.length = stop) : slice p 0 stop = p := by
  rw [slice, List.drop_zero, Nat.sub_zero, ← h, List.take_length]

theorem slice_append_append {r : Bytes} (hstart : p.length = start)
    (hstop : start + q.length = stop) : slice (p ++ (q ++ r)) start stop = q := by
  rw [slice_append_right (by omega), hstart, Nat.sub_self, slice_append_left (by omega),
    slice_zero (by omega)]

theorem uintAt_append_left (h : k + width ≤ p.length) : uintAt width (p ++ q) k = uintAt width p k := by
  rw [uintAt, uintAt, slice_append_left h]

theorem uintAt_append_right (h : p.length ≤ k) :
    uintAt width (p ++ q) k = uintAt width q (k - p.length) := by
  rw [uintAt, uintAt, slice_append_right h, Nat.sub_add_comm h]

theorem uintAt_leBytes (h : n < 256 ^ width) : uintAt width (leBytes width n) 0 = n := by
  rw [uintAt, slice_zero (by simp), leNat_leBytes h]

end Append

/-- `struct.unpack_from` for one unsigned integer. -/
def unpackUInt (width : Nat) (data : Bytes) (offset : Nat) : Except PyError Nat :=
  if offset + width ≤ data.length then .ok (uintAt width data offset) else .error .structError

theorem unpackUInt_of_le {width offset : Nat} {data : Bytes} (h : offset + width ≤ data.length) :
    unpackUInt width data offset = .ok (uintAt width data offset) := if_pos h

/-! ## CRC-32 -/

namespace Zlib

/-- One bit of the division by the reflected polynomial. -/
def crcBit (crc : BitVec 32) : BitVec 32 :=
  if crc.getLsbD 0 then (crc >>> 1) ^^^ 0xEDB88320#32 else crc >>> 1

def crcByte (crc : BitVec 32) (b : UInt8) : BitVec 32 := crcBit^[8] (crc ^^^ b.toBitVec.setWidth 32)

def crc32 (data : Bytes) : Nat :=
  (data.foldl crcByte (BitVec.allOnes 32) ^^^ BitVec.allOnes 32).toNat

theorem crc32_lt (data : Bytes) : crc32 data < 256 ^ 4 := BitVec.isLt _

example : crc32 ("123456789".toList.map fun c => UInt8.ofNat c.toNat) = 0xCBF43926 := by
  decide +kernel

end Zlib

/-! ## UTF-16 -/

namespace Utf16

def isHigh (unit : Nat) : Bool := 0xD800 ≤ unit && unit < 0xDC00

def isLow (unit : Nat) : Bool := 0xDC00 ≤ unit && unit < 0xE000

/-- The code units of bytes in little-endian order; none when a byte is left over. -/
def unitsLE : Bytes → Option (List Nat)
  | [] => some []
  | [_] => none
  | a :: b :: data => (unitsLE data).map (leNat [a, b] :: ·)

/-- The characters of code units, which may not have a surrogate without the other half. -/
def ofUnits : List Nat → Option Text
  | [] => some []
  | [unit] => if isHigh unit || isLow unit then none else some [Char.ofNat unit]
  | unit :: next :: units =>
    if isHigh unit then
      if isLow next then
        (ofUnits units).map
          (Char.ofNat (0x10000 + (unit - 0xD800) * 0x400 + (next - 0xDC00)) :: ·)
      else none
    else if isLow unit then none
    else (ofUnits (next :: units)).map (Char.ofNat unit :: ·)

end Utf16

/-- `data.decode('utf-16-le')` -/
def decodeUtf16LE (data : Bytes) : Except PyError Text :=
  match Utf16.unitsLE data >>= Utf16.ofUnits with
  | some t => .ok t
  | none => .error .unicodeDecodeError

/-- `data.decode('utf-16-le').split('\0')[0]` -/
def decodeName (data : Bytes) : Except PyError Text := do
  let t ← decodeUtf16LE data
  pure (t.takeWhile (· ≠ '\x00'))
