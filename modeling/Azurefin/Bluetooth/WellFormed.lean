import Azurefin.Bluetooth.Image

/-!
# The storage format

`WellFormed img a`: the image is as the format demands and holds the address `a` in both copies.
`readFactory` yields exactly the addresses of well-formed images that it can read within its
budget: `readFactory_yields_iff`.
-/

namespace Azurefin

open Act

variable {img : DiskImage} {e : Extent} {a : Bytes}

/-! ## The format -/

/-- Where the second header of a partition is. -/
def DiskImage.secondAt (img : DiskImage) (e : Extent) : Nat := uintAt 4 (img.bytes e.base 68) 8

def DiskImage.directory (img : DiskImage) (e : Extent) : Directory :=
  .ofHeader (img.bytes (e.base + img.secondAt e) 68)

def Directory.count (d : Directory) : Nat := d.size / 244

/-- The entry `i` of the directory. -/
def DiskImage.entry (img : DiskImage) (e : Extent) (i : Nat) : Bytes :=
  img.bytes (e.base + (img.directory e).table + i * 244) 244

/-- The data of the entry `i`. -/
def DiskImage.payload (img : DiskImage) (e : Extent) (i : Nat) : Bytes :=
  img.bytes (e.base + dataPosition (img.directory e).start (img.entry e i)) 8

/-- The entry `i` is a Bluetooth record with the address `a`. -/
structure RecordAt (img : DiskImage) (e : Extent) (i : Nat) (a : Bytes) : Prop where
  name : IsBluetooth (img.entry e i)
  bounds : InBounds e.length (img.directory e).start (img.entry e i)
  payload : img.payload e i = [1, 6] ++ a
  ne_zero : a ≠ List.replicate 6 0
  ne_broadcast : a ≠ List.replicate 6 255

/-- The partition `e` has one Bluetooth record, with the address `a`. -/
structure HasRecord (img : DiskImage) (e : Extent) (a : Bytes) : Prop where
  first : 68 ≤ e.length ∧ (img.bytes e.base 68).take 4 = rwfs
  second : 68 ≤ img.secondAt e ∧ img.secondAt e + 68 ≤ e.length
  directory : DirectoryValid e.length (img.secondAt e) (img.bytes (e.base + img.secondAt e) 68)
  names : ∀ i < (img.directory e).count, IsActive (img.entry e i) → HasNames (img.entry e i)
  record : ∃ i < (img.directory e).count, RecordAt img e i a ∧
    ∀ j < (img.directory e).count, IsBluetooth (img.entry e j) → j = i

/-- The size of a sector is 4096 bytes when there is no table behind the first 512. -/
def DiskImage.sector (img : DiskImage) : Nat := if img.bytes 512 8 = efiPart then 512 else 4096

def DiskImage.gpt (img : DiskImage) : Gpt := .ofHeader (img.bytes img.sector img.sector)

/-- The entries of the partition table. -/
def DiskImage.tableBytes (img : DiskImage) : Bytes :=
  img.bytes (img.gpt.table * img.sector) (img.gpt.count * img.gpt.entrySize)

structure HasPartitions (img : DiskImage) (p : Partitions) : Prop where
  magic : img.bytes img.sector 8 = efiPart
  header : HeaderValid img.size img.sector (img.bytes img.sector img.sector)
  table : TableValid img.sector img.gpt img.tableBytes p

/-- The image holds the address `a` in the partitions `p`. -/
structure WellFormed (img : DiskImage) (p : Partitions) (a : Bytes) : Prop where
  partitions : HasPartitions img p
  dpp : HasRecord img p.dpp a
  dppBackup : HasRecord img p.dppBackup a

/-! ## Costs -/

/-- The bytes that are read to find the partitions. -/
def DiskImage.tableCost (img : DiskImage) : Nat :=
  (if img.sector = 512 then 512 else 512 + 4096) + img.gpt.count * img.gpt.entrySize

/-- The bytes that are read of a partition: two headers, the directory and the record. -/
def DiskImage.recordCost (img : DiskImage) (e : Extent) : Nat :=
  68 + 68 + (img.directory e).size + 8

def DiskImage.cost (img : DiskImage) (p : Partitions) : Nat :=
  img.tableCost + img.recordCost p.dpp + img.recordCost p.dppBackup

/-! ## The records -/

/-- What the entry `i` gives. -/
def Gives (img : DiskImage) (e : Extent) (i : Nat) : Option Text → Prop
  | none => (IsActive (img.entry e i) → HasNames (img.entry e i)) ∧ ¬ IsBluetooth (img.entry e i)
  | some t => ∃ a, RecordAt img e i a ∧ t = formatAddress a

theorem eq_append_drop {payload p : Bytes} :
    payload = p ++ a ↔ payload.take p.length = p ∧ payload.drop p.length = a := by
  constructor
  · rintro rfl
    simp
  · rintro ⟨hp, ha⟩
    rw [← List.take_append_drop p.length payload, hp, ha]

/-- One pass of the loop reads the payload of a Bluetooth record. -/
theorem matchEntry_spends (he : e.base + e.length ≤ img.size) {i : Nat}
    (hi : i < (img.directory e).count) (found : List Text) :
    Spends Session.remaining
      (matchEntry img.reader e (img.directory e)
        (img.bytes (e.base + (img.directory e).table) (img.directory e).size) found (i * 244))
      fun found' c => Gives img e i none ∧ found' = found ∧ c = 0 ∨
        ∃ t, Gives img e i (some t) ∧ found' = found ++ [t] ∧ c = 8 := by
  have hslice : slice (img.bytes (e.base + (img.directory e).table) (img.directory e).size)
      (i * 244) (i * 244 + 244) = img.entry e i := by
    rw [img.slice_bytes (by unfold Directory.count at hi; omega), Nat.add_sub_cancel_left]
    rfl
  have hcases := @recordPosition_cases e.length (img.directory e).start (img.entry e i)
    (by simp [DiskImage.entry])
  unfold matchEntry
  rw [hslice]
  cases hr : recordPosition e.length (img.directory e).start (img.entry e i) with
  | error error =>
    simp only [hr] at hcases
    refine (Spends.raise error).congr fun found' c => ?_
    simp only [Gives, false_iff]
    rintro (⟨⟨hnames, hbt⟩, -, -⟩ | ⟨t, ⟨a, ha, -⟩, -, -⟩)
    · exact hcases.2.elim (fun h => h (hnames hcases.1)) fun h => hbt h.1
    · refine hcases.2.elim (fun h => h ?_) fun h => h.2 ha.bounds
      obtain ⟨-, name, vendor, hn, hv, -⟩ := ha.name
      exact ⟨name, vendor, hn, hv⟩
  | ok position =>
    cases position with
    | none =>
      simp only [hr] at hcases
      refine (Spends.pure found).congr fun found' c => ?_
      simp only [Gives]
      constructor
      · rintro ⟨rfl, rfl⟩
        exact .inl ⟨hcases, rfl, rfl⟩
      · rintro (⟨-, rfl, rfl⟩ | ⟨t, ⟨a, ha, -⟩, -⟩)
        · exact ⟨rfl, rfl⟩
        · exact absurd ha.name hcases.2
    | some position =>
      simp only [hr] at hcases
      obtain ⟨hbt, hbounds, rfl⟩ := hcases
      refine (((img.readWithin_spends he (dataPosition (img.directory e).start (img.entry e i)) 8).bind
        fun payload _ hpayload => (Spends.ofExcept (recordAddress payload)).bind
          fun t _ _ => Spends.pure (found ++ [t]))).congr fun found' c => ?_
      have hlen : (img.payload e i).length = 8 := by simp [DiskImage.payload]
      have hfits := hbounds.fits
      have hregion := hbounds.region
      constructor
      · rintro ⟨payload, c₁, c₂, ⟨-, rfl, rfl⟩, ⟨t, c₃, c₄, ⟨ht, rfl⟩, ⟨rfl, rfl⟩, rfl⟩, rfl⟩
        obtain ⟨hmagic, hzero, hbroadcast, rfl⟩ := (recordAddress_eq_ok hlen).mp ht
        refine .inr ⟨_, ⟨_, ⟨hbt, hbounds, ?_, hzero, hbroadcast⟩, rfl⟩, rfl, rfl⟩
        exact eq_append_drop.mpr ⟨hmagic, rfl⟩
      · rintro (⟨⟨-, hnot⟩, -⟩ | ⟨t, ⟨a, ha, rfl⟩, rfl, rfl⟩)
        · exact absurd hbt hnot
        · obtain ⟨hmagic, hdrop⟩ := eq_append_drop.mp ha.payload
          refine ⟨img.payload e i, 8, 0, ⟨by omega, rfl, rfl⟩,
            ⟨formatAddress a, 0, 0, ⟨(recordAddress_eq_ok hlen).mpr ?_, rfl⟩, ⟨rfl, rfl⟩, rfl⟩, rfl⟩
          rw [← hdrop] at ha ⊢
          exact ⟨hmagic, ha.ne_zero, ha.ne_broadcast, rfl⟩

theorem HasRecord.count_eq (hv : DirectoryValid e.length (img.secondAt e)
    (img.bytes (e.base + img.secondAt e) 68)) :
    entryOffsets (img.directory e).size = (List.range (img.directory e).count).map (· * 244) := by
  have hunits : (img.directory e).size % 244 = 0 := hv.entries
  have hcount : ((img.directory e).size + 243) / 244 = (img.directory e).size / 244 := by omega
  rw [entryOffsets, hcount]
  rfl

/-- One output of the loop is the one record of the directory. -/
theorem gathers_record {n : Nat} {t : Text} :
    Gathers (Gives img e) (List.range n) [t] ↔
      ∃ a, (∀ i < n, IsActive (img.entry e i) → HasNames (img.entry e i)) ∧
        (∃ i < n, RecordAt img e i a ∧ ∀ j < n, IsBluetooth (img.entry e j) → j = i) ∧
          t = formatAddress a := by
  simp only [gathers_singleton List.nodup_range, List.mem_range, Gives]
  constructor
  · rintro ⟨i, hi, ⟨a, ha, rfl⟩, hrest⟩
    refine ⟨a, fun j hj hactive => ?_, ⟨i, hi, ha, fun j hj hbt => ?_⟩, rfl⟩
    · by_cases hji : j = i
      · subst hji
        obtain ⟨-, name, vendor, hn, hv, -⟩ := ha.name
        exact ⟨name, vendor, hn, hv⟩
      · exact (hrest j hj hji).1 hactive
    · by_contra hji
      exact (hrest j hj hji).2 hbt
  · rintro ⟨a, hnames, ⟨i, hi, ha, hsole⟩, rfl⟩
    exact ⟨i, hi, ⟨a, ha, rfl⟩, fun j hj hji => ⟨hnames j hj, fun hbt => hji (hsole j hj hbt)⟩⟩

/-- The check after the loop. -/
theorem sole_spends (found : List Text) :
    Spends Session.remaining
      (match found with
        | [a] => pure a
        | _ => Act.raise (.valueError "Expected exactly one Bluetooth record") : Reading Text)
      fun t c => found = [t] ∧ c = 0 := by
  split
  case h_1 a => exact (Spends.pure a).congr fun t c => by simp [eq_comm]
  case h_2 hne =>
    refine (Spends.raise _).congr fun t c => ?_
    simp only [false_iff, not_and]
    exact fun h => absurd h (hne t)

/-- A partition yields the address of its record. -/
theorem readRecord_spends (he : e.base + e.length ≤ img.size) :
    Spends Session.remaining (readRecord img.reader e) fun t c =>
      ∃ a, HasRecord img e a ∧ t = formatAddress a ∧ c = img.recordCost e := by
  have hdirectory : checkDirectory e.length (img.secondAt e)
      (img.bytes (e.base + img.secondAt e) 68) = .ok (img.directory e) ↔
        DirectoryValid e.length (img.secondAt e) (img.bytes (e.base + img.secondAt e) 68) := by
    rw [checkDirectory_eq_ok (by simp)]
    exact and_iff_left rfl
  have hsecond : ∀ {second}, secondOffset (img.bytes (e.base + 0) 68) = .ok second ↔
      (img.bytes e.base 68).take 4 = rwfs ∧ 68 ≤ img.secondAt e ∧ second = img.secondAt e :=
    secondOffset_eq_ok (by simp)
  have hread : ∀ offset size : Nat, Spends Session.remaining (readWithin img.reader e offset size) _ :=
    img.readWithin_spends he
  unfold readRecord
  refine ((hread 0 68).bind fun header _ hheader => (Spends.ofExcept (secondOffset header)).bind
    fun second _ hok => (hread second 68).bind fun header' _ hheader' =>
      (Spends.ofExcept (checkDirectory e.length second header')).bind fun d _ hd =>
        (hread d.table d.size).bind fun entries _ hentries =>
          Spends.bind (S := Folds (fun found i found' c => Gives img e i none ∧ found' = found ∧ c = 0 ∨
            ∃ t, Gives img e i (some t) ∧ found' = found ++ [t] ∧ c = 8)
              (List.range (img.directory e).count) []) ?_
            (T := fun found t c => found = [t] ∧ c = 0) fun found _ _ => ?_).congr fun t c => ?_
  · obtain ⟨-, rfl, -⟩ := hheader
    obtain ⟨-, -, rfl⟩ := hsecond.mp hok.1
    obtain ⟨-, rfl, -⟩ := hheader'
    obtain ⟨hv, rfl⟩ := (checkDirectory_eq_ok (by simp)).mp hd.1
    obtain ⟨-, rfl, -⟩ := hentries
    rw [show (Directory.ofHeader (img.bytes (e.base + img.secondAt e) 68)) = img.directory e from rfl,
      HasRecord.count_eq hv, List.foldlM_map]
    exact Spends.foldlM (fun found i hi => matchEntry_spends he (List.mem_range.mp hi) found) []
  · exact sole_spends found
  · simp only [folds_append, List.nil_append]
    constructor
    · rintro ⟨header, _, _, ⟨hfirst, rfl, rfl⟩, ⟨second, _, _, ⟨hok, rfl⟩, ⟨header', _, _,
        ⟨hfits, rfl, rfl⟩, ⟨d, _, _, ⟨hd, rfl⟩, ⟨entries, _, _, ⟨hentries, rfl, rfl⟩, ⟨found, _, _,
          ⟨_, hm, rfl, rfl⟩, ⟨rfl, rfl⟩, rfl⟩, rfl⟩, rfl⟩, rfl⟩, rfl⟩, rfl⟩
      obtain ⟨hmagic, hle, rfl⟩ := hsecond.mp hok
      obtain ⟨hv, rfl⟩ := (checkDirectory_eq_ok (by simp)).mp hd
      obtain ⟨a, hnames, hrecord, rfl⟩ := gathers_record.mp hm
      refine ⟨a, ⟨⟨by omega, hmagic⟩, ⟨hle, hfits⟩, hv, hnames, hrecord⟩, rfl, ?_⟩
      simp only [DiskImage.recordCost, DiskImage.directory, List.length_singleton]
      omega
    · rintro ⟨a, ha, rfl, rfl⟩
      have hstart := ha.directory.start
      have hm := gathers_record.mpr ⟨a, ha.names, ha.record, rfl⟩
      refine ⟨_, 68, 68 + (img.directory e).size + 8, ⟨by have := ha.first.1; omega, rfl, rfl⟩,
        ⟨img.secondAt e, 0, _, ⟨hsecond.mpr ⟨ha.first.2, ha.second.1, rfl⟩, rfl⟩, ⟨_, 68,
          (img.directory e).size + 8, ⟨ha.second.2, rfl, rfl⟩, ⟨img.directory e, 0, _,
            ⟨hdirectory.mpr ha.directory, rfl⟩, ⟨_, (img.directory e).size, 8, ⟨?_, rfl, rfl⟩, ⟨_, 8, 0,
              ⟨_, hm, rfl, rfl⟩, ⟨rfl, rfl⟩, rfl⟩, rfl⟩, (Nat.zero_add _).symm⟩, by omega⟩,
                (Nat.zero_add _).symm⟩, ?_⟩
      · unfold DiskImage.directory
        omega
      · simp only [DiskImage.recordCost]
        omega

/-! ## The partitions -/

/-- The partitions are those of the table behind the sector size `s`. -/
def TableAt (img : DiskImage) (s : Nat) (p : Partitions) : Prop :=
  HeaderValid img.size s (img.bytes s s) ∧
    TableValid s (.ofHeader (img.bytes s s))
      (img.bytes ((Gpt.ofHeader (img.bytes s s)).table * s)
        ((Gpt.ofHeader (img.bytes s s)).count * (Gpt.ofHeader (img.bytes s s)).entrySize)) p

/-- The usable sectors lie on the device. -/
theorem HeaderValid.fits {size sector : Nat} {header : Bytes} (h : HeaderValid size sector header) :
    ((Gpt.ofHeader header).last + 1) * sector ≤ size ∧
      (Gpt.ofHeader header).first * sector ≤ size ∧ 2 * sector ≤ size := by
  obtain ⟨hfirst, hle, hlast, hbackup⟩ := h.geometry
  have hsize : size / sector * sector ≤ size := Nat.div_mul_le_self size sector
  have below : ∀ n ≤ size / sector, n * sector ≤ size := fun n hn =>
    Nat.le_trans (Nat.mul_le_mul_right _ hn) hsize
  exact ⟨below _ (by omega), below _ (by omega), below _ (by omega)⟩

/-- A partition lies on the device. -/
theorem Sole.fits {size sector k : Nat} {header entries : Bytes} {n : DppName}
    (hv : HeaderValid size sector header)
    (h : Sole sector (.ofHeader header) entries k n e) : e.base + e.length ≤ size := by
  obtain ⟨i, -, -, ⟨hfirst, hle, hlast⟩, rfl, -⟩ := h
  have hlen : (entryExtent sector (.ofHeader header) entries i).base +
      (entryExtent sector (.ofHeader header) entries i).length =
        (entryStop (.ofHeader header) entries i + 1) * sector := by
    rw [entryExtent, ← Nat.add_mul]
    congr 1
    omega
  rw [hlen]
  exact Nat.le_trans (Nat.mul_le_mul_right sector (Nat.succ_le_succ hlast)) hv.fits.1

/-- One pass of the loop over the sector sizes. -/
theorem probeSectors_spends {s : Nat} {sectors : List Nat} {T : Partitions → Nat → Prop}
    (hs : 92 ≤ s) (hrest : Spends Session.remaining (probeSectors img.reader sectors) T) :
    Spends Session.remaining (probeSectors img.reader (s :: sectors)) fun p c =>
      2 * s ≤ img.size ∧ ∃ c', c = s + c' ∧
        if img.bytes s 8 = efiPart then TableAt img s p ∧
          c' = (Gpt.ofHeader (img.bytes s s)).count * (Gpt.ofHeader (img.bytes s s)).entrySize
        else T p c' := by
  have hmagic : (img.bytes s s).take 8 = img.bytes s 8 := img.take_bytes (by omega)
  have hheader : ∀ {g}, checkHeader img.size s (img.bytes s s) = .ok g ↔
      HeaderValid img.size s (img.bytes s s) ∧ g = .ofHeader (img.bytes s s) :=
    checkHeader_eq_ok (by simpa using hs)
  unfold probeSectors
  by_cases hefi : img.bytes s 8 = efiPart
  case neg =>
    refine ((img.read_spends s s).bind (T := fun _ p c => T p c) fun header _ hread => ?_).congr
      fun p c => ?_
    · obtain ⟨-, rfl, -⟩ := hread
      rw [hmagic, if_pos hefi]
      exact hrest
    · simp only [if_neg hefi]
      constructor
      · rintro ⟨_, _, c', ⟨hle, rfl, rfl⟩, hT, rfl⟩
        exact ⟨by omega, c', rfl, hT⟩
      · rintro ⟨hle, c', rfl, hT⟩
        exact ⟨_, s, c', ⟨by omega, rfl, rfl⟩, hT, rfl⟩
  case pos =>
    refine ((img.read_spends s s).bind (T := fun _ p c => TableAt img s p ∧
      c = (Gpt.ofHeader (img.bytes s s)).count * (Gpt.ofHeader (img.bytes s s)).entrySize)
        fun header _ hread => ?_).congr fun p c => ?_
    · obtain ⟨-, rfl, -⟩ := hread
      rw [hmagic, if_neg (not_not.mpr hefi)]
      refine ((Spends.ofExcept (checkHeader img.size s (img.bytes s s))).bind fun g _ _ =>
        (img.read_spends (g.table * s) (g.count * g.entrySize)).bind fun entries _ _ =>
          Spends.ofExcept (findPartitions s g entries)).congr fun p c => ?_
      have htable : ∀ hv : HeaderValid img.size s (img.bytes s s), _ := fun hv =>
        @findPartitions_eq_ok s (.ofHeader (img.bytes s s)) _ p
          (img.length_bytes ((Gpt.ofHeader (img.bytes s s)).table * s) _) hv.entrySize.1
      constructor
      · rintro ⟨g, _, _, ⟨hg, rfl⟩, ⟨entries, _, _, ⟨hfit, rfl, rfl⟩, ⟨hp, rfl⟩, rfl⟩, rfl⟩
        obtain ⟨hv, rfl⟩ := hheader.mp hg
        exact ⟨⟨hv, (htable hv).mp hp⟩, by omega⟩
      · rintro ⟨⟨hv, hp⟩, rfl⟩
        refine ⟨_, 0, _, ⟨hheader.mpr ⟨hv, rfl⟩, rfl⟩, ⟨_, _, 0, ⟨?_, rfl, rfl⟩,
          ⟨(htable hv).mpr hp, rfl⟩, rfl⟩, (Nat.zero_add _).symm⟩
        exact Nat.le_trans hv.table.2 hv.fits.2.1
    · simp only [if_pos hefi]
      constructor
      · rintro ⟨_, _, c', ⟨hle, rfl, rfl⟩, hT, rfl⟩
        exact ⟨by omega, c', rfl, hT⟩
      · rintro ⟨hle, c', rfl, hT⟩
        exact ⟨_, s, c', ⟨by omega, rfl, rfl⟩, hT, rfl⟩

theorem Sole.unique {s k : Nat} {g : Gpt} {entries : Bytes} {n : DppName} {e' : Extent}
    (h : Sole s g entries k n e) (h' : Sole s g entries k n e') : e = e' := by
  obtain ⟨i, hi, hn, -, rfl, -⟩ := h
  obtain ⟨j, -, -, -, rfl, hj⟩ := h'
  rw [hj i hi hn]

theorem hasPartitions_iff {s : Nat} {p : Partitions} (hs : img.sector = s) :
    HasPartitions img p ↔ img.bytes s 8 = efiPart ∧ TableAt img s p := by
  subst hs
  exact ⟨fun h => ⟨h.magic, h.header, h.table⟩, fun ⟨hmagic, hv, hp⟩ => ⟨hmagic, hv, hp⟩⟩

/-- The partitions are determined by the image. -/
theorem HasPartitions.unique {p p' : Partitions} (h : HasPartitions img p)
    (h' : HasPartitions img p') : p = p' := by
  have hdpp := h.table.dpp.unique h'.table.dpp
  have hbackup := h.table.dppBackup.unique h'.table.dppBackup
  cases p
  cases p'
  simp_all

theorem tableCost_eq {s : Nat} (hs : img.sector = s) :
    img.tableCost = (if s = 512 then 512 else 512 + 4096) +
      (Gpt.ofHeader (img.bytes s s)).count * (Gpt.ofHeader (img.bytes s s)).entrySize := by
  subst hs
  rfl

/-- The partitions are found in a table of the one or the other sector size. -/
theorem dppPartitions_spends :
    Spends Session.remaining (dppPartitions img.reader) fun p c =>
      HasPartitions img p ∧ c = img.tableCost := by
  have hnone : Spends Session.remaining (probeSectors img.reader []) fun _ _ => False :=
    Spends.raise _
  refine (probeSectors_spends (by omega) (probeSectors_spends (by omega) hnone)).congr
    fun p c => ?_
  by_cases hefi : img.bytes 512 8 = efiPart
  case pos =>
    have hsector : img.sector = 512 := if_pos hefi
    rw [hasPartitions_iff hsector, tableCost_eq hsector, if_pos rfl]
    simp only [if_pos hefi]
    constructor
    · rintro ⟨-, c', hc, hp, hc'⟩
      exact ⟨⟨hefi, hp⟩, hc' ▸ hc⟩
    · rintro ⟨⟨-, hp⟩, hc⟩
      exact ⟨hp.1.fits.2.2, _, hc, hp, rfl⟩
  case neg =>
    have hsector : img.sector = 4096 := if_neg hefi
    rw [hasPartitions_iff hsector, tableCost_eq hsector, if_neg (by decide)]
    simp only [if_neg hefi]
    constructor
    · rintro ⟨-, c₁, hc, -, c₂, hc₁, h⟩
      split at h
      case isTrue hefi' =>
        exact ⟨⟨hefi', h.1⟩, by omega⟩
      case isFalse => exact h.elim
    · rintro ⟨⟨hefi', hp⟩, hc⟩
      have hfits := hp.1.fits.2.2
      refine ⟨by omega, _, hc.trans (Nat.add_assoc _ _ _), hfits, _, rfl, ?_⟩
      rw [if_pos hefi']
      exact ⟨hp, rfl⟩

/-! ## The whole reading -/

theorem RecordAt.length {i : Nat} (h : RecordAt img e i a) : a.length = 6 := by
  have hlen := congrArg List.length h.payload
  simp only [DiskImage.payload, DiskImage.length_bytes, List.length_append, List.length_cons,
    List.length_nil] at hlen
  omega

theorem HasRecord.length (h : HasRecord img e a) : a.length = 6 := by
  obtain ⟨i, -, hi, -⟩ := h.record
  exact hi.length

theorem HasRecord.format_inj {e' : Extent} {b : Bytes} (h : HasRecord img e a)
    (h' : HasRecord img e' b) : formatAddress a = formatAddress b ↔ a = b := by
  have ha := h.length
  have hb := h'.length
  refine formatAddress_inj ?_ ?_
  · rintro rfl
    cases ha
  · rintro rfl
    cases hb

theorem readFactory_spends :
    Spends Session.remaining (readFactory img.reader) fun t c =>
      ∃ p a, WellFormed img p a ∧ t = formatAddress a ∧ c = img.cost p := by
  refine (dppPartitions_spends.bind (T := fun p t c => ∃ a, HasRecord img p.dpp a ∧
    HasRecord img p.dppBackup a ∧ t = formatAddress a ∧
      c = img.recordCost p.dpp + img.recordCost p.dppBackup) fun p _ hp => ?_).congr fun t c => ?_
  · obtain ⟨⟨-, hv, htable⟩, -⟩ := hp
    refine ((readRecord_spends (Sole.fits hv htable.dpp)).bind fun t _ _ =>
      (readRecord_spends (Sole.fits hv htable.dppBackup)).bind fun t' _ _ =>
        Spends.check (c := t ≠ t') (Spends.pure t)).congr fun t c => ?_
    constructor
    · rintro ⟨_, _, _, ⟨a, ha, rfl, rfl⟩, ⟨_, _, _, ⟨b, hb, rfl, rfl⟩, ⟨heq, rfl, rfl⟩, rfl⟩, rfl⟩
      obtain rfl := (ha.format_inj hb).mp (not_not.mp heq)
      exact ⟨a, ha, hb, rfl, rfl⟩
    · rintro ⟨a, ha, hb, rfl, rfl⟩
      exact ⟨_, _, _, ⟨a, ha, rfl, rfl⟩, ⟨_, _, 0, ⟨a, hb, rfl, rfl⟩, ⟨by simp, rfl, rfl⟩, rfl⟩, rfl⟩
  · constructor
    · rintro ⟨p, _, _, ⟨hp, rfl⟩, ⟨a, ha, hb, rfl, rfl⟩, rfl⟩
      exact ⟨p, a, ⟨hp, ha, hb⟩, rfl, (Nat.add_assoc _ _ _).symm⟩
    · rintro ⟨p, a, h, rfl, rfl⟩
      exact ⟨p, _, _, ⟨h.partitions, rfl⟩, ⟨a, h.dpp, h.dppBackup, rfl, rfl⟩, Nat.add_assoc _ _ _⟩

/-- **The parser accepts exactly its format.** The addresses that `read_factory` yields for an
image are those of the well-formed image whose parts, as they are read, are at most two MiB. -/
theorem readFactory_yields_iff (img : DiskImage) (t : Text) :
    (∃ s, readFactory img.reader .start = (.ok t, s)) ↔
      ∃ p a, WellFormed img p a ∧ img.cost p ≤ 2 * 1024 ^ 2 ∧ t = formatAddress a := by
  rw [readFactory_spends.yields_iff]
  constructor
  · rintro ⟨_, ⟨p, a, h, rfl, rfl⟩, hle⟩
    exact ⟨p, a, h, hle, rfl⟩
  · rintro ⟨p, a, h, hle, rfl⟩
    exact ⟨_, ⟨p, a, h, rfl, rfl⟩, hle⟩

end Azurefin
