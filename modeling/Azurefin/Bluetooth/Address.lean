import Azurefin.Lib.Act
import Azurefin.Lib.Binary

/-!
# The factory Bluetooth address

`Reader`, `dpp_partitions`, `read_record` and `read_factory` from `bluetooth_address.py`, with
`address` from `postinstall_firmware.py`. The device answers each read with any bytes, which
may depend on all that was read before.
-/

namespace Azurefin

/-! ## Reading -/

/-- One read that the device was asked for, and its answer. -/
structure Request where
  offset : Nat
  size : Nat
  answer : Bytes

/-- A reader of the sizes that the constructor takes. `pread` gets the requests so far, the
size and the offset. -/
structure Reader where
  pread : List Request → Nat → Nat → Bytes
  size : Nat
  supported : 0 < size ∧ size ≤ 128 * 1024 ^ 2

/-- What is left of the read budget, and the requests so far. -/
structure Session where
  remaining : Nat
  requests : List Request

def Session.start : Session := ⟨2 * 1024 ^ 2, []⟩

abbrev Reading := Act Session PyError

/-- `self.remaining -= size` and `self.pread(size, offset)` -/
def Reader.request (r : Reader) (offset size : Nat) : Reading Bytes := fun s =>
  let data := r.pread s.requests size offset
  (.ok data, ⟨s.remaining - size, s.requests ++ [⟨offset, size, data⟩]⟩)

/-- `read` -/
def Reader.read (r : Reader) (offset size : Int) : Reading Bytes := do
  if ¬ (0 ≤ offset ∧ offset ≤ r.size) ∨ ¬ (0 ≤ size ∧ size ≤ r.size - offset) then
    Act.raise (.valueError "Storage read out of bounds")
  else
    let s ← Act.read
    if size > s.remaining then Act.raise (.valueError "Diagnostic read budget exceeded")
    else
      let data ← r.request offset.toNat size.toNat
      if (data.length : Int) ≠ size then Act.raise (.valueError "Short storage read")
      else pure data

def u32 (data : Bytes) (offset : Nat) : Except PyError Nat := unpackUInt 4 data offset

/-- The field `Q` of `struct`. -/
def u64 (data : Bytes) (offset : Nat) : Except PyError Nat := unpackUInt 8 data offset

/-! ## The partition table -/

def efiPart : Bytes := encodeAscii "EFI PART".toList

/-- The fields of a GPT header that are used. -/
structure Gpt where
  first : Nat
  last : Nat
  table : Nat
  count : Nat
  entrySize : Nat
  checksum : Nat
  deriving DecidableEq

/-- The checks of a header that begins with `EFI PART`. -/
def checkHeader (size sector : Nat) (header : Bytes) : Except PyError Gpt := do
  let length ← u32 header 12
  let revision ← u32 header 8
  if ¬ (92 ≤ length ∧ length ≤ sector) ∨ revision ≠ 0x10000 then
    .error (.valueError "Invalid GPT header")
  else
    let check := slice header 0 length
    let check := check.take 16 ++ List.replicate 4 0 ++ check.drop 20
    let crc ← u32 header 16
    if Zlib.crc32 check ≠ crc then .error (.valueError "GPT header checksum mismatch")
    else
      let current ← u64 header 24
      let backup ← u64 header 32
      let first ← u64 header 40
      let last ← u64 header 48
      if current ≠ 1 ∨ ¬ (2 ≤ first ∧ first ≤ last ∧ last < backup ∧ backup < size / sector) then
        .error (.valueError "Invalid GPT geometry")
      else
        let table ← u64 header 72
        let count ← u32 header 80
        let entrySize ← u32 header 84
        let checksum ← u32 header 88
        if ¬ (0 < count ∧ count ≤ 4096) ∨ entrySize < 128 ∨ entrySize % 128 ≠ 0 ∨
            count * entrySize > 1024 ^ 2 ∨ table < 2 ∨
            table * sector + count * entrySize > first * sector then
          .error (.valueError "Invalid GPT table bounds")
        else .ok ⟨first, last, table, count, entrySize, checksum⟩

/-- The names of the two copies. -/
inductive DppName where
  | dpp
  | dppBackup
  deriving DecidableEq

def DppName.ofText (t : Text) : Option DppName :=
  if t = "DPP".toList then some dpp
  else if t = "DPP_BACKUP".toList then some dppBackup
  else none

/-- A partition: where it starts and how long it is, in bytes. -/
structure Extent where
  base : Nat
  length : Nat
  deriving DecidableEq

/-- The entry `i` of the table. -/
def tableEntry (g : Gpt) (entries : Bytes) (i : Nat) : Bytes :=
  slice entries (i * g.entrySize) ((i + 1) * g.entrySize)

/-- One pass of the loop over the table. -/
def findEntry (sector : Nat) (g : Gpt) (entries : Bytes) (found : DppName → Option Extent)
    (i : Nat) : Except PyError (DppName → Option Extent) := do
  let entry := tableEntry g entries i
  if slice entry 0 16 = List.replicate 16 0 then .ok found
  else
    let name ← decodeName (slice entry 56 128)
    match DppName.ofText name with
    | none => .ok found
    | some name =>
      let start ← u64 entry 32
      let stop ← u64 entry 40
      if (found name).isSome ∨ ¬ (g.first ≤ start ∧ start ≤ stop ∧ stop ≤ g.last) then
        .error (.valueError "Invalid or duplicate DPP partition")
      else .ok (Function.update found name
        (some ⟨start * sector, (stop - start + 1) * sector⟩))

structure Partitions where
  dpp : Extent
  dppBackup : Extent
  deriving DecidableEq

/-- `sorted` on two tuples. -/
def sortedExtents (a b : Extent) : Extent × Extent :=
  if b.base < a.base ∨ b.base = a.base ∧ b.length < a.length then (b, a) else (a, b)

/-- The checks of the table. -/
def findPartitions (sector : Nat) (g : Gpt) (entries : Bytes) : Except PyError Partitions := do
  if Zlib.crc32 entries ≠ g.checksum then .error (.valueError "GPT table checksum mismatch")
  else
    let found ← (List.range g.count).foldlM (findEntry sector g entries) fun _ => none
    match found .dpp, found .dppBackup with
    | some a, some b =>
      let ranges := sortedExtents a b
      if ranges.1.base + ranges.1.length > ranges.2.base then
        .error (.valueError "Overlapping DPP partitions")
      else .ok ⟨a, b⟩
    | _, _ => .error (.valueError "Both DPP copies are required")

/-- The loop over the sector sizes. -/
def probeSectors (r : Reader) : List Nat → Reading Partitions
  | [] => Act.raise (.valueError "No supported GPT found")
  | sector :: sectors => do
    let header ← r.read sector sector
    if header.take 8 ≠ efiPart then probeSectors r sectors
    else
      let g ← Act.ofExcept (checkHeader r.size sector header)
      let entries ← r.read (g.table * sector : Nat) (g.count * g.entrySize : Nat)
      Act.ofExcept (findPartitions sector g entries)

def dppPartitions (r : Reader) : Reading Partitions := probeSectors r [512, 4096]

/-! ## The record -/

def isUpperHex (c : Char) : Bool := c.isDigit || ('A' ≤ c && c ≤ 'F')

/-- `re.fullmatch(r'(?:[0-9A-F]{2}:){5}[0-9A-F]{2}', value)` -/
def isAddressText (t : Text) : Bool :=
  (t.splitOn ':').length == 6 && (t.splitOn ':').all fun part =>
    part.length == 2 && part.all isUpperHex

/-- `address(value)`, for ASCII text -/
def address (value : Text) : Except PyError Text :=
  let value := value.map Char.toUpper
  if !isAddressText value || value == "00:00:00:00:00:00".toList ||
      value == "FF:FF:FF:FF:FF:FF".toList then
    .error (.argumentTypeError
      "Use the Bluetooth public address from Windows, not the Wi-Fi MAC.")
  else .ok value

/-- `f'{b:02X}'` -/
def hexByte (b : UInt8) : Text :=
  [hexUpper (b.toNat / 16), hexUpper (b.toNat % 16)]
where
  hexUpper (n : Nat) : Char := "0123456789ABCDEF".toList.getD n '0'

/-- `':'.join(f'{b:02X}' for b in data)` -/
def formatAddress (data : Bytes) : Text := List.intercalate ":".toList (data.map hexByte)

/-- The function `read` of `read_record`. -/
def readWithin (r : Reader) (p : Extent) (offset size : Int) : Reading Bytes :=
  if ¬ (0 ≤ offset ∧ offset ≤ p.length) ∨ ¬ (0 ≤ size ∧ size ≤ p.length - offset) then
    Act.raise (.valueError "RWFS read out of bounds")
  else r.read (p.base + offset) size

def rwfs : Bytes := encodeAscii "RWFS".toList

/-- Where the second header is. -/
def secondOffset (header : Bytes) : Except PyError Nat := do
  if header.take 4 ≠ rwfs then .error (.valueError "Missing RWFS header")
  else
    let second ← u32 header 8
    if second < 68 then .error (.valueError "Invalid RWFS second header")
    else .ok second

/-- The directory, and where the data of the records starts. -/
structure Directory where
  table : Nat
  size : Nat
  start : Nat
  deriving DecidableEq

def checkDirectory (length secondOffset : Nat) (second : Bytes) : Except PyError Directory := do
  if second.take 4 ≠ rwfs then .error (.valueError "Missing RWFS directory header")
  else
    let table ← u32 second 8
    let size ← u32 second 12
    let start ← u32 second 20
    if ¬ (0 < size ∧ size ≤ 244 * 4096) ∨ size % 244 ≠ 0 ∨ table < secondOffset + 68 ∨
        ¬ (table + size ≤ start ∧ start ≤ length) then
      .error (.valueError "Invalid RWFS directory bounds")
    else .ok ⟨table, size, start⟩

/-- Where the data of an entry is, when it is the Bluetooth record. -/
def recordPosition (length start : Nat) (entry : Bytes) : Except PyError (Option Nat) := do
  let active ← u32 entry 204
  if active = 0 then .ok none -- directory holes are valid, including the first entry
  else
    let name ← decodeName (slice entry 0 98)
    let vendor ← decodeName (slice entry 98 196)
    if (casefold vendor, casefold name) ≠ ("qcom".toList, "bt.provision".toList) then .ok none
    else
      let region ← u32 entry 196
      let size ← u32 entry 200
      let relative ← u32 entry 208
      let position := start + relative
      if size ≠ 8 ∨ ¬ (size ≤ region ∧ (region : Int) ≤ (length : Int) - position) then
        .error (.valueError "Invalid Bluetooth record bounds")
      else .ok (some position)

/-- The address in a record. -/
def recordAddress (payload : Bytes) : Except PyError Text :=
  if payload.take 2 ≠ [1, 6] then
    .error (.valueError "Unsupported Bluetooth provisioning record")
  else
    match address (formatAddress (payload.drop 2)) with
    | .ok a => .ok a
    | .error (.argumentTypeError _) => .error (.valueError "Invalid factory Bluetooth address")
    | .error e => .error e

/-- One pass of the loop over the directory. -/
def matchEntry (r : Reader) (p : Extent) (d : Directory) (entries : Bytes) (found : List Text)
    (offset : Nat) : Reading (List Text) := do
  match ← Act.ofExcept (recordPosition p.length d.start (slice entries offset (offset + 244))) with
  | none => pure found
  | some position =>
    let payload ← readWithin r p position 8
    let a ← Act.ofExcept (recordAddress payload)
    pure (found ++ [a])

/-- `range(0, size, 244)` -/
def entryOffsets (size : Nat) : List Nat := (List.range ((size + 243) / 244)).map (· * 244)

def readRecord (r : Reader) (p : Extent) : Reading Text := do
  let header ← readWithin r p 0 68
  let second ← Act.ofExcept (secondOffset header)
  let header ← readWithin r p second 68
  let d ← Act.ofExcept (checkDirectory p.length second header)
  let entries ← readWithin r p d.table d.size
  match ← (entryOffsets d.size).foldlM (matchEntry r p d entries) [] with
  | [a] => pure a
  | _ => Act.raise (.valueError "Expected exactly one Bluetooth record")

def readFactory (r : Reader) : Reading Text := do
  let partitions ← dppPartitions r
  let a ← readRecord r partitions.dpp
  let b ← readRecord r partitions.dppBackup
  if a ≠ b then Act.raise (.valueError "DPP Bluetooth copies disagree")
  else pure a

end Azurefin
