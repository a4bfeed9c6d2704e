import Azurefin.Bluetooth.WellFormed

/-!
# Writing an image

`Layout` describes an image with sectors of 512 bytes, whose two partitions hold the same address
in a directory of a chosen size. Every such image is well formed, so its address is read back when
the directories are small: `Layout.readFactory_image`. With large directories the image is still
well formed, but is refused.
-/

namespace Azurefin

/-- The sizes of an image and its address: `pairs` is half the number of entries of the partition
table, and `records` the number of entries of a directory. -/
structure Layout where
  pairs : Nat
  records : Nat
  address : Bytes
  pairs_bounds : 1 ≤ pairs ∧ pairs ≤ 2048
  records_bounds : 1 ≤ records ∧ records ≤ 4096
  length_address : address.length = 6
  ne_zero : address ≠ List.replicate 6 0
  ne_broadcast : address ≠ List.replicate 6 255

namespace Layout

variable (l : Layout)

def zeros (n : Nat) : Bytes := List.replicate n 0

@[simp] theorem length_zeros (n : Nat) : (zeros n).length = n := List.length_replicate

/-- ASCII text in UTF-16, padded to `size` bytes. -/
def wide (size : Nat) (t : Text) : Bytes :=
  t.flatMap (fun c => [UInt8.ofNat c.toNat, 0]) ++ zeros (size - 2 * t.length)

/-! ## The partition table -/

/-- The first usable sector. -/
def first : Nat := 2 + l.pairs

/-- The first sectors of the partitions. -/
def start : DppName → Nat
  | .dpp => l.first
  | .dppBackup => l.first + (l.records + 1)

def stop (n : DppName) : Nat := l.start n + l.records

/-- The entry of a partition. -/
def tableEntry (n : DppName) : Bytes :=
  (List.replicate 32 1 : Bytes) ++ (leBytes 8 (l.start n) ++ (leBytes 8 (l.stop n) ++ (zeros 8 ++
    (wide 72 (match n with | .dpp => "DPP".toList | .dppBackup => "DPP_BACKUP".toList) ++ zeros 128))))

def table : Bytes :=
  l.tableEntry .dpp ++ (l.tableEntry .dppBackup ++ zeros (512 * (l.pairs - 1)))

/-- The header before its checksum. -/
def headerStart : Bytes := efiPart ++ (leBytes 4 0x10000 ++ leBytes 4 92)

/-- The header after its checksum. -/
def headerRest : Bytes :=
  zeros 4 ++ (leBytes 8 1 ++ (leBytes 8 (l.stop .dppBackup + 1) ++ (leBytes 8 l.first ++
    (leBytes 8 (l.stop .dppBackup) ++ (zeros 16 ++ (leBytes 8 2 ++ (leBytes 4 (2 * l.pairs) ++
      (leBytes 4 256 ++ leBytes 4 (Zlib.crc32 l.table)))))))))

def header : Bytes :=
  headerStart ++ (leBytes 4 (Zlib.crc32 (headerStart ++ zeros 4 ++ l.headerRest)) ++
    (l.headerRest ++ zeros 420))

/-! ## The partitions -/

def directoryEntry : Bytes :=
  wide 98 "BT.Provision".toList ++ (wide 98 "QCOM".toList ++ (leBytes 4 8 ++ (leBytes 4 8 ++
    (leBytes 4 1 ++ zeros 36))))

def firstHeader : Bytes := rwfs ++ (zeros 4 ++ (leBytes 4 68 ++ zeros 56))

def secondHeader : Bytes :=
  rwfs ++ (zeros 4 ++ (leBytes 4 136 ++ (leBytes 4 (244 * l.records) ++ (zeros 4 ++
    (leBytes 4 (136 + 244 * l.records) ++ zeros 44)))))

def partition : Bytes :=
  firstHeader ++ (l.secondHeader ++ (directoryEntry ++ (zeros (244 * (l.records - 1)) ++
    ([1, 6] ++ l.address ++ zeros (512 * (l.records + 1) - (144 + 244 * l.records))))))

/-! ## The image -/

def content : Bytes :=
  zeros 512 ++ (l.header ++ (l.table ++ (l.partition ++ (l.partition ++ zeros 1024))))

theorem length_table : l.table.length = 512 * l.pairs := by
  have := l.pairs_bounds
  have hentry : ∀ n, (l.tableEntry n).length = 256 := fun n => by
    cases n <;> simp [tableEntry, wide]
  simp only [table, List.length_append, hentry, length_zeros]
  omega

theorem length_header : l.header.length = 512 := by
  simp [header, headerStart, headerRest, efiPart, encodeAscii]

theorem length_partition : l.partition.length = 512 * (l.records + 1) := by
  have := l.records_bounds
  simp [partition, firstHeader, secondHeader, directoryEntry, wide, rwfs, encodeAscii,
    l.length_address]
  omega

theorem length_content : l.content.length = 512 * (6 + l.pairs + 2 * l.records) := by
  simp only [content, List.length_append, length_zeros, l.length_header, l.length_table,
    l.length_partition]
  omega

def image : DiskImage where
  size := 512 * (6 + l.pairs + 2 * l.records)
  byte i := l.content.getD i 0
  supported := by
    have := l.pairs_bounds
    have := l.records_bounds
    omega

/-! ## What is read -/

theorem bytes_image {offset size : Nat} (h : offset + size ≤ 512 * (6 + l.pairs + 2 * l.records)) :
    l.image.bytes offset size = slice l.content offset (offset + size) := by
  rw [← l.length_content] at h
  apply List.ext_getElem
  · rw [length_slice h, DiskImage.length_bytes, Nat.add_sub_cancel_left]
  · intro i hi hi'
    rw [DiskImage.length_bytes] at hi
    simp [slice, DiskImage.bytes, image, show offset + i < l.content.length by omega]

theorem bytes_header : l.image.bytes 512 512 = l.header := by
  rw [bytes_image l (by omega), content]
  exact slice_append_append (length_zeros 512) (by rw [l.length_header])

theorem bytes_table : l.image.bytes (2 * 512) (2 * l.pairs * 256) = l.table := by
  rw [bytes_image l (by omega), content, ← List.append_assoc]
  refine slice_append_append ?_ (by rw [l.length_table]; omega)
  rw [List.length_append, length_zeros, l.length_header]

/-- Both partitions have the same contents. -/
theorem bytes_partition (n : DppName) :
    l.image.bytes (l.start n * 512) (512 * (l.records + 1)) = l.partition := by
  cases n with
  | dpp =>
    rw [bytes_image l (by simp only [start, first]; omega), content, ← List.append_assoc,
      ← List.append_assoc]
    refine slice_append_append ?_ (by rw [l.length_partition])
    rw [List.length_append, List.length_append, length_zeros, l.length_header, l.length_table,
      start, first]
    omega
  | dppBackup =>
    rw [bytes_image l (by simp only [start, first]; omega), content, ← List.append_assoc,
      ← List.append_assoc, ← List.append_assoc]
    refine slice_append_append ?_ (by rw [l.length_partition])
    rw [List.length_append, List.length_append, List.length_append, length_zeros, l.length_header,
      l.length_table, l.length_partition, start, first]
    omega

/-! ## The header -/

@[simp] theorem length_efiPart : efiPart.length = 8 := rfl

@[simp] theorem length_rwfs : rwfs.length = 4 := rfl

@[simp] theorem length_headerStart : headerStart.length = 16 := by simp [headerStart]

@[simp] theorem length_headerRest : l.headerRest.length = 72 := by simp [headerRest]

theorem header_start {width k : Nat} (h : k + width ≤ 16) :
    uintAt width l.header k = uintAt width headerStart k :=
  uintAt_append_left (by rwa [length_headerStart])

theorem header_rest {width k : Nat} (h : 20 ≤ k) (h' : k + width ≤ 92) :
    uintAt width l.header k = uintAt width l.headerRest (k - 20) := by
  rw [header, uintAt_append_right (by simp; omega), uintAt_append_right (by simp; omega),
    uintAt_append_left (by simp; omega), length_headerStart, length_leBytes, Nat.sub_sub]

theorem header_crc :
    uintAt 4 l.header 16 = Zlib.crc32 (headerStart ++ zeros 4 ++ l.headerRest) := by
  rw [header, uintAt_append_right (by simp), length_headerStart, uintAt_append_left (by simp),
    uintAt_leBytes (Zlib.crc32_lt _)]

/-- The header without its checksum is what the checksum was taken of. -/
theorem checkedPart_header : checkedPart l.header = headerStart ++ zeros 4 ++ l.headerRest := by
  have hlength : uintAt 4 l.header 12 = 92 := by
    rw [header_start l (by omega), headerStart]
    rw [uintAt_append_right (by simp), uintAt_append_right (by simp)]
    exact uintAt_leBytes (by decide)
  have hslice : slice l.header 0 92 = headerStart ++ (leBytes 4
      (Zlib.crc32 (headerStart ++ zeros 4 ++ l.headerRest)) ++ l.headerRest) := by
    rw [header, ← List.append_assoc, ← List.append_assoc, slice_append_left (by simp),
      slice_zero (by simp), List.append_assoc]
  rw [checkedPart, hlength, hslice, List.take_left' length_headerStart,
    ← List.append_assoc headerStart (leBytes _ _), List.drop_left' (by simp)]
  rfl

/-- The fields of the header. -/
theorem ofHeader_header : Gpt.ofHeader l.header =
    ⟨l.first, l.stop .dppBackup, 2, 2 * l.pairs, 256, Zlib.crc32 l.table⟩ := by
  have := l.pairs_bounds
  have := l.records_bounds
  have hcrc := Zlib.crc32_lt l.table
  simp only [Gpt.ofHeader, header_rest l (show 20 ≤ 40 by omega) (show 40 + 8 ≤ 92 by omega),
    header_rest l (show 20 ≤ 48 by omega) (show 48 + 8 ≤ 92 by omega),
    header_rest l (show 20 ≤ 72 by omega) (show 72 + 8 ≤ 92 by omega),
    header_rest l (show 20 ≤ 80 by omega) (show 80 + 4 ≤ 92 by omega),
    header_rest l (show 20 ≤ 84 by omega) (show 84 + 4 ≤ 92 by omega),
    header_rest l (show 20 ≤ 88 by omega) (show 88 + 4 ≤ 92 by omega), headerRest]
  simp (disch := (simp [stop, start, first]; try omega)) only [uintAt_append_right, uintAt_append_left,
    length_leBytes, length_zeros, Nat.reduceSub]
  have hlast : l.stop .dppBackup < 256 ^ 8 := by simp [stop, start, first]; omega
  rw [uintAt_leBytes (n := l.first) (by simp [first]; omega), uintAt_leBytes hlast,
    uintAt_leBytes (by omega), uintAt_leBytes (by omega), uintAt_leBytes (by omega),
    uintAt_leBytes hcrc]

theorem header_valid : HeaderValid l.image.size 512 l.header := by
  have hrecords := l.records_bounds
  have hpairs := l.pairs_bounds
  have hlength : uintAt 4 l.header 12 = 92 := by
    rw [header_start l (by omega), headerStart, uintAt_append_right (by simp),
      uintAt_append_right (by simp)]
    exact uintAt_leBytes (by decide)
  have hrevision : uintAt 4 l.header 8 = 0x10000 := by
    rw [header_start l (by omega), headerStart, uintAt_append_right (by simp),
      uintAt_append_left (by simp)]
    exact uintAt_leBytes (by decide)
  have hcurrent : uintAt 8 l.header 24 = 1 := by
    rw [header_rest l (by omega) (by omega), headerRest, uintAt_append_right (by simp),
      uintAt_append_left (by simp)]
    exact uintAt_leBytes (by decide)
  have hbackup : uintAt 8 l.header 32 = l.stop .dppBackup + 1 := by
    rw [header_rest l (by omega) (by omega), headerRest, uintAt_append_right (by simp),
      uintAt_append_right (by simp), uintAt_append_left (by simp)]
    exact uintAt_leBytes (by simp [stop, start, first]; omega)
  have hsize : l.image.size / 512 = 6 + l.pairs + 2 * l.records :=
    Nat.mul_div_cancel_left _ (by omega)
  have hlast : l.stop .dppBackup = 3 + l.pairs + 2 * l.records := by
    simp only [stop, start, first]
    omega
  refine ⟨by omega, hrevision, ?_, hcurrent, ?_, ?_, ?_, ?_, ?_⟩
  · rw [checkedPart_header, header_crc]
  all_goals rw [ofHeader_header]
  · rw [hbackup, hsize, hlast]
    simp only [first]
    omega
  · simp only
    omega
  · simp only
    decide
  · simp only
    omega
  · simp only [first]
    omega

/-! ## The table -/

theorem length_tableEntry (n : DppName) : (l.tableEntry n).length = 256 := by
  cases n <;> simp [tableEntry, wide]

/-- The entries of the table. -/
theorem tableEntry_zero {g : Gpt} (hg : g.entrySize = 256) :
    Azurefin.tableEntry g l.table 0 = l.tableEntry .dpp := by
  rw [Azurefin.tableEntry, hg, table, slice_append_left (by simp only [length_tableEntry]; omega),
    Nat.zero_mul, slice_zero (l.length_tableEntry _)]

theorem tableEntry_one {g : Gpt} (hg : g.entrySize = 256) :
    Azurefin.tableEntry g l.table 1 = l.tableEntry .dppBackup := by
  rw [Azurefin.tableEntry, hg, table]
  exact slice_append_append (l.length_tableEntry _) (by simp only [length_tableEntry])

theorem slice_zeros {n start stop : Nat} (h : stop ≤ n) :
    slice (zeros n) start stop = zeros (stop - start) := by
  rw [slice, zeros, List.drop_replicate, List.take_replicate]
  congr 1
  omega

theorem tableEntry_unused {g : Gpt} (hg : g.entrySize = 256) {i : Nat} (hi : 2 ≤ i)
    (hlt : i < 2 * l.pairs) : ¬ IsUsed g l.table i := by
  have hentry : Azurefin.tableEntry g l.table i = zeros 256 := by
    rw [Azurefin.tableEntry, hg, table, slice_append_right (by rw [length_tableEntry]; omega),
      slice_append_right (by simp only [length_tableEntry]; omega), slice_zeros]
    · exact congrArg zeros (by simp only [length_tableEntry]; omega)
    · simp only [length_tableEntry]
      omega
  rw [IsUsed, hentry, not_not, slice_zeros (by omega)]
  rfl

theorem DppName.decode (n : DppName) :
    ∃ t, decodeName (wide 72 (match n with
      | .dpp => "DPP".toList
      | .dppBackup => "DPP_BACKUP".toList)) = .ok t ∧ DppName.ofText t = some n := by
  cases n with
  | dpp => exact ⟨"DPP".toList, by decide +kernel, rfl⟩
  | dppBackup => exact ⟨"DPP_BACKUP".toList, by decide +kernel, rfl⟩

/-- The entry of a partition has its name and its sectors. -/
theorem tableEntry_named {g : Gpt} {i : Nat} {n : DppName}
    (h : Azurefin.tableEntry g l.table i = l.tableEntry n) :
    IsNamed g l.table n i ∧ entryStart g l.table i = l.start n ∧
      entryStop g l.table i = l.stop n := by
  have := l.pairs_bounds
  have := l.records_bounds
  have hstop : l.stop n < 256 ^ 8 := by cases n <;> simp [stop, start, first] <;> omega
  have hstart : l.start n < 256 ^ 8 := Nat.lt_of_le_of_lt (Nat.le_add_right _ _) hstop
  rw [IsNamed, IsUsed, entryStart, entryStop, h, Layout.tableEntry.eq_def]
  refine ⟨⟨?_, ?_⟩, ?_, ?_⟩
  · rw [slice_append_left (by simp)]
    decide
  · obtain ⟨t, ht, hn⟩ := DppName.decode n
    refine ⟨t, ?_, hn⟩
    rw [← ht, ← List.append_assoc, ← List.append_assoc, ← List.append_assoc]
    congr 1
    exact slice_append_append (by simp) (by cases n <;> simp [wide])
  · rw [uintAt_append_right (by simp), uintAt_append_left (by simp)]
    exact uintAt_leBytes hstart
  · rw [uintAt_append_right (by simp), uintAt_append_right (by simp), uintAt_append_left (by simp)]
    exact uintAt_leBytes hstop

def extent (n : DppName) : Extent := ⟨l.start n * 512, 512 * (l.records + 1)⟩

def partitions : Partitions := ⟨l.extent .dpp, l.extent .dppBackup⟩

/-- Each name has one entry. -/
theorem table_sole {g : Gpt} (hg : g = Gpt.ofHeader l.header) {i : Nat} {n : DppName}
    (hi : i < 2) (h : Azurefin.tableEntry g l.table i = l.tableEntry n)
    (hother : ∀ j < 2, j ≠ i → ∃ m ≠ n, Azurefin.tableEntry g l.table j = l.tableEntry m) :
    Sole 512 g l.table g.count n (l.extent n) := by
  have hpairs := l.pairs_bounds
  have hrecords := l.records_bounds
  rw [ofHeader_header] at hg
  obtain ⟨hname, hstart, hstop⟩ := l.tableEntry_named h
  have hcount : g.count = 2 * l.pairs := by rw [hg]
  have hsize : g.entrySize = 256 := by rw [hg]
  have hlast : g.last = 3 + l.pairs + 2 * l.records := by
    rw [hg]
    simp only [stop, start, first]
    omega
  have hfirst : g.first = 2 + l.pairs := by rw [hg, first]
  refine ⟨i, by omega, hname, ?_, ?_, fun j hj hnamed => ?_⟩
  · rw [IsUsable, hstart, hstop, hfirst, hlast]
    cases n <;> simp only [stop, start, first] <;> omega
  · rw [entryExtent, hstart, hstop, extent, stop, Nat.add_sub_cancel_left, Nat.mul_comm 512]
  · by_contra hji
    rcases Nat.lt_or_ge j 2 with hj2 | hj2
    · obtain ⟨m, hm, hentry⟩ := hother j hj2 hji
      exact hm ((l.tableEntry_named hentry).1.unique hnamed)
    · exact l.tableEntry_unused hsize hj2 (by omega) hnamed.1

theorem table_valid : TableValid 512 (Gpt.ofHeader l.header) l.table l.partitions := by
  have hrecords := l.records_bounds
  have hsize : (Gpt.ofHeader l.header).entrySize = 256 := by rw [ofHeader_header]
  have hcount : (Gpt.ofHeader l.header).count = 2 * l.pairs := by rw [ofHeader_header]
  refine ⟨by rw [ofHeader_header], fun i hi hused => ?_, ?_, ?_, .inl ?_⟩
  · have hnamed : ∀ {n}, IsNamed (Gpt.ofHeader l.header) l.table n i →
        Decodable (Gpt.ofHeader l.header) l.table i := fun hn => hn.2.imp fun t ht => ht.1
    rcases Nat.lt_or_ge i 2 with hi2 | hi2
    · obtain rfl | rfl : i = 0 ∨ i = 1 := by omega
      · exact hnamed (l.tableEntry_named (l.tableEntry_zero hsize)).1
      · exact hnamed (l.tableEntry_named (l.tableEntry_one hsize)).1
    · exact absurd hused (l.tableEntry_unused hsize hi2 (by omega))
  · refine l.table_sole rfl (by omega) (l.tableEntry_zero hsize) fun j hj hne => ?_
    obtain rfl : j = 1 := by omega
    exact ⟨.dppBackup, by decide, l.tableEntry_one hsize⟩
  · refine l.table_sole rfl (by omega) (l.tableEntry_one hsize) fun j hj hne => ?_
    obtain rfl : j = 0 := by omega
    exact ⟨.dpp, by decide, l.tableEntry_zero hsize⟩
  · simp only [partitions, extent, start, first]
    omega

theorem magic_image : l.image.bytes 512 8 = efiPart := by
  rw [← l.image.take_bytes (show 8 ≤ 512 by omega), bytes_header, header, headerStart,
    List.append_assoc]
  exact List.take_left' length_efiPart

theorem image_partitions : HasPartitions l.image l.partitions := by
  refine (hasPartitions_iff (if_pos l.magic_image)).mpr ⟨l.magic_image, ?_⟩
  have htable : l.image.bytes ((Gpt.ofHeader l.header).table * 512)
      ((Gpt.ofHeader l.header).count * (Gpt.ofHeader l.header).entrySize) = l.table := by
    rw [ofHeader_header]
    exact l.bytes_table
  rw [TableAt, bytes_header, htable]
  exact ⟨l.header_valid, l.table_valid⟩

/-! ## The record -/

/-- A part of a partition. -/
theorem bytes_extent (n : DppName) {offset size : Nat} (h : offset + size ≤ 512 * (l.records + 1)) :
    l.image.bytes ((l.extent n).base + offset) size = slice l.partition offset (offset + size) := by
  rw [← l.bytes_partition n, l.image.slice_bytes h, Nat.add_sub_cancel_left]
  rfl

@[simp] theorem length_firstHeader : firstHeader.length = 68 := by simp [firstHeader]

@[simp] theorem length_secondHeader : l.secondHeader.length = 68 := by simp [secondHeader]

@[simp] theorem length_directoryEntry : directoryEntry.length = 244 := by
  simp [directoryEntry, wide]

theorem bytes_first (n : DppName) : l.image.bytes (l.extent n).base 68 = firstHeader := by
  have hbytes := @bytes_extent l n 0 68 (by omega)
  rw [Nat.add_zero] at hbytes
  rw [hbytes, partition, slice_append_left (by simp), slice_zero (by simp)]

theorem secondAt_image (n : DppName) : l.image.secondAt (l.extent n) = 68 := by
  rw [DiskImage.secondAt, bytes_first, firstHeader, uintAt_append_right (by simp),
    uintAt_append_right (by simp), uintAt_append_left (by simp)]
  exact uintAt_leBytes (by decide)

theorem bytes_second (n : DppName) :
    l.image.bytes ((l.extent n).base + 68) 68 = l.secondHeader := by
  rw [bytes_extent l n (by have := l.records_bounds; omega), partition]
  exact slice_append_append (by simp) (by simp)

theorem directory_image (n : DppName) :
    l.image.directory (l.extent n) = ⟨136, 244 * l.records, 136 + 244 * l.records⟩ := by
  have hrecords := l.records_bounds
  rw [DiskImage.directory, secondAt_image, bytes_second, Directory.ofHeader, secondHeader,
    uintAt_append_right (by simp), uintAt_append_right (by simp), uintAt_append_left (by simp),
    uintAt_append_right (by simp), uintAt_append_right (by simp), uintAt_append_right (by simp),
    uintAt_append_left (by simp), uintAt_append_right (by simp), uintAt_append_right (by simp),
    uintAt_append_right (by simp), uintAt_append_right (by simp), uintAt_append_right (by simp),
    uintAt_append_left (by simp)]
  simp only [length_rwfs, length_zeros, length_leBytes, Nat.reduceSub]
  rw [uintAt_leBytes (by decide), uintAt_leBytes (by omega), uintAt_leBytes (by omega)]

/-- The first entry of the directory is the record. -/
theorem entry_zero (n : DppName) : l.image.entry (l.extent n) 0 = directoryEntry := by
  have hrecords := l.records_bounds
  rw [DiskImage.entry, directory_image, Nat.zero_mul, Nat.add_zero,
    bytes_extent l n (by simp only; omega), partition, ← List.append_assoc]
  exact slice_append_append (by simp) (by simp)

/-- The other entries are holes. -/
theorem entry_hole (n : DppName) {i : Nat} (hi : 0 < i) (hlt : i < l.records) :
    ¬ IsActive (l.image.entry (l.extent n) i) := by
  have hentry : l.image.entry (l.extent n) i = zeros 244 := by
    rw [DiskImage.entry, directory_image, Nat.add_assoc, bytes_extent l n (by simp only; omega), partition,
      slice_append_right (by simp; omega), slice_append_right (by simp; omega),
      slice_append_right (by simp; omega), slice_append_left (by simp; omega),
      slice_zeros (by simp; omega)]
    exact congrArg zeros (by simp only [length_firstHeader, length_secondHeader, length_directoryEntry]; omega)
  rw [IsActive, hentry, not_not]
  decide

theorem payload_zero (n : DppName) : l.image.payload (l.extent n) 0 = [1, 6] ++ l.address := by
  have hrecords := l.records_bounds
  have hrelative : uintAt 4 directoryEntry 208 = 0 := by decide +kernel
  rw [DiskImage.payload, entry_zero, directory_image, dataPosition, hrelative, Nat.add_zero,
    bytes_extent l n (by simp only; omega), partition, ← List.append_assoc, ← List.append_assoc,
    ← List.append_assoc]
  exact slice_append_append (by simp; omega) (by simp [l.length_address])

theorem isBluetooth_directoryEntry : IsBluetooth directoryEntry := by
  have hactive : uintAt 4 directoryEntry 204 ≠ 0 := by decide +kernel
  refine ⟨hactive, "BT.Provision".toList, "QCOM".toList, ?_, ?_, ?_, ?_⟩ <;> decide +kernel

theorem image_record (n : DppName) : HasRecord l.image (l.extent n) l.address := by
  have hrecords := l.records_bounds
  have hlength : (l.extent n).length = 512 * (l.records + 1) := rfl
  have hcount : (l.image.directory (l.extent n)).count = l.records := by
    rw [directory_image, Directory.count]
    exact Nat.mul_div_cancel_left _ (by omega)
  have hrecord : RecordAt l.image (l.extent n) 0 l.address := by
    refine ⟨?_, ?_, l.payload_zero n, l.ne_zero, l.ne_broadcast⟩
    · rw [entry_zero]
      exact isBluetooth_directoryEntry
    · have hsize : uintAt 4 directoryEntry 200 = 8 := by decide +kernel
      have hregion : uintAt 4 directoryEntry 196 = 8 := by decide +kernel
      have hrelative : uintAt 4 directoryEntry 208 = 0 := by decide +kernel
      rw [entry_zero, directory_image]
      refine ⟨hsize, hregion.symm ▸ Nat.le_refl 8, ?_⟩
      rw [dataPosition, hrelative, hregion, hlength]
      simp only
      omega
  have hole : ∀ {i}, i < l.records → i ≠ 0 → ¬ IsActive (l.image.entry (l.extent n) i) :=
    fun hlt hne => l.entry_hole n (Nat.pos_of_ne_zero hne) hlt
  refine ⟨⟨by omega, ?_⟩, ?_, ?_, ?_, 0, by omega, hrecord, fun j hj hbt => ?_⟩
  · rw [bytes_first, firstHeader]
    exact List.take_left' length_rwfs
  · rw [secondAt_image]
    omega
  · rw [secondAt_image, bytes_second]
    have hd := l.directory_image n
    rw [DiskImage.directory, secondAt_image, bytes_second] at hd
    have hsize : (Directory.ofHeader l.secondHeader).size = 244 * l.records := by rw [hd]
    have htable : (Directory.ofHeader l.secondHeader).table = 136 := by rw [hd]
    have hstart : (Directory.ofHeader l.secondHeader).start = 136 + 244 * l.records := by rw [hd]
    refine ⟨?_, by omega, by omega, by omega, by omega⟩
    rw [secondHeader]
    exact List.take_left' length_rwfs
  · intro i hi hactive
    rw [hcount] at hi
    by_cases hi0 : i = 0
    · subst hi0
      obtain ⟨-, name, vendor, hname, hvendor, -⟩ := hrecord.name
      exact ⟨name, vendor, hname, hvendor⟩
    · exact absurd hactive (hole hi hi0)
  · by_contra hj0
    exact hole (hcount ▸ hj) hj0 hbt.1

/-- What a layout writes is well formed. -/
theorem image_wellFormed : WellFormed l.image l.partitions l.address :=
  ⟨l.image_partitions, l.image_record .dpp, l.image_record .dppBackup⟩

theorem cost_image : l.image.cost l.partitions =
    512 + 512 * l.pairs + 2 * (144 + 244 * l.records) := by
  have hsector : l.image.sector = 512 := if_pos l.magic_image
  rw [DiskImage.cost, tableCost_eq hsector, DiskImage.recordCost, DiskImage.recordCost, bytes_header,
    ofHeader_header, partitions, directory_image, directory_image, if_pos rfl]
  simp only
  omega

/-- **What is written is read back**, when the directories are not too large. -/
theorem readFactory_image (h : 512 * l.pairs + 488 * l.records ≤ 2 * 1024 ^ 2 - 800) :
    ∃ s, readFactory l.image.reader .start = (.ok (formatAddress l.address), s) := by
  refine readFactory_spends.yields_iff.mpr ⟨_, ⟨_, _, l.image_wellFormed, rfl, rfl⟩, ?_⟩
  rw [cost_image]
  simp only [Session.start]
  omega

/-- No address is read from a layout with large directories. -/
theorem readFactory_image_large (h : 2 * 1024 ^ 2 - 800 < 512 * l.pairs + 488 * l.records)
    (t : Text) (s : Session) : readFactory l.image.reader .start ≠ (.ok t, s) := by
  intro hread
  obtain ⟨_, ⟨p, a, hw, -, rfl⟩, hle⟩ := readFactory_spends.yields_iff.mp ⟨s, hread⟩
  rw [hw.partitions.unique l.image_partitions, cost_image] at hle
  simp only [Session.start] at hle
  omega

end Layout

/-- The whole partition table, and two directories of half a MiB each. -/
def largeLayout : Layout where
  pairs := 2048
  records := 2200
  address := [2, 0, 0, 0, 0, 1]
  pairs_bounds := by decide
  records_bounds := by decide
  length_address := rfl
  ne_zero := by decide
  ne_broadcast := by decide

/-- A well-formed image that is refused, since its parts are more than two MiB. -/
theorem largeLayout_refused :
    WellFormed largeLayout.image largeLayout.partitions largeLayout.address ∧
      ∀ t s, readFactory largeLayout.image.reader .start ≠ (.ok t, s) :=
  ⟨largeLayout.image_wellFormed, largeLayout.readFactory_image_large (by decide)⟩

end Azurefin
