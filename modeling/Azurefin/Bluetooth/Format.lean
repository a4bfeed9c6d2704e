import Azurefin.Bluetooth.Address

/-!
# What the checks of the storage format say

For each check of a part that has been read: it fails with a `ValueError` only, and it passes
exactly on the parts that are as the format demands.
-/

namespace Azurefin

variable {α β : Type}

/-! ## Failures -/

/-- The computation fails with a `ValueError` only. -/
def Checked (x : Except PyError α) : Prop := ∀ e, x = .error e → e.isValueError = true

namespace Checked

theorem ok (a : α) : Checked (.ok a) := by
  rintro e h
  cases h

theorem valueError (message : String) : Checked (.error (.valueError message) : Except PyError α) := by
  rintro e h
  cases h
  rfl

theorem bind {x : Except PyError α} {f : α → Except PyError β} (hx : Checked x)
    (hf : ∀ a, x = .ok a → Checked (f a)) : Checked (x >>= f) := by
  cases x with
  | ok a => exact hf a rfl
  | error e =>
    rintro e' h
    cases h
    exact hx e rfl

theorem ite {c : Prop} [Decidable c] {x y : Except PyError α} (hx : c → Checked x)
    (hy : ¬ c → Checked y) : Checked (if c then x else y) := by
  split
  case isTrue h => exact hx h
  case isFalse h => exact hy h

theorem foldlM {γ : Type} {f : α → γ → Except PyError α} {xs : List γ}
    (h : ∀ a, ∀ x ∈ xs, Checked (f a x)) (a : α) : Checked (xs.foldlM f a) := by
  induction xs generalizing a with
  | nil => exact ok a
  | cons x xs ih =>
    rw [List.foldlM_cons]
    exact bind (h a x List.mem_cons_self) fun b _ =>
      ih (fun c y hy => h c y (List.mem_cons_of_mem _ hy)) b

theorem u32 {data : Bytes} {offset : Nat} (h : offset + 4 ≤ data.length) :
    Checked (u32 data offset) := by
  rw [Azurefin.u32, unpackUInt_of_le h]
  exact ok _

theorem u64 {data : Bytes} {offset : Nat} (h : offset + 8 ≤ data.length) :
    Checked (u64 data offset) := by
  rw [Azurefin.u64, unpackUInt_of_le h]
  exact ok _

theorem name (data : Bytes) : Checked (decodeName data) := by
  unfold decodeName decodeUtf16LE
  split
  · exact ok _
  · rintro e h
    cases h
    rfl

end Checked

/-! ## The header -/

/-- The fields of a header. -/
def Gpt.ofHeader (header : Bytes) : Gpt where
  first := uintAt 8 header 40
  last := uintAt 8 header 48
  table := uintAt 8 header 72
  count := uintAt 4 header 80
  entrySize := uintAt 4 header 84
  checksum := uintAt 4 header 88

/-- The header with its checksum zeroed. -/
def checkedPart (header : Bytes) : Bytes :=
  (slice header 0 (uintAt 4 header 12)).take 16 ++ List.replicate 4 0 ++
    (slice header 0 (uintAt 4 header 12)).drop 20

/-- The header of a partition table on a device of `size` bytes. -/
structure HeaderValid (size sector : Nat) (header : Bytes) : Prop where
  length : 92 ≤ uintAt 4 header 12 ∧ uintAt 4 header 12 ≤ sector
  revision : uintAt 4 header 8 = 0x10000
  crc : Zlib.crc32 (checkedPart header) = uintAt 4 header 16
  current : uintAt 8 header 24 = 1
  geometry : 2 ≤ (Gpt.ofHeader header).first ∧
    (Gpt.ofHeader header).first ≤ (Gpt.ofHeader header).last ∧
    (Gpt.ofHeader header).last < uintAt 8 header 32 ∧ uintAt 8 header 32 < size / sector
  count : 0 < (Gpt.ofHeader header).count ∧ (Gpt.ofHeader header).count ≤ 4096
  entrySize : 128 ≤ (Gpt.ofHeader header).entrySize ∧ (Gpt.ofHeader header).entrySize % 128 = 0
  tableSize : (Gpt.ofHeader header).count * (Gpt.ofHeader header).entrySize ≤ 1024 ^ 2
  table : 2 ≤ (Gpt.ofHeader header).table ∧ (Gpt.ofHeader header).table * sector +
    (Gpt.ofHeader header).count * (Gpt.ofHeader header).entrySize ≤
      (Gpt.ofHeader header).first * sector

theorem checkHeader_checked {size sector : Nat} {header : Bytes} (h : 92 ≤ header.length) :
    Checked (checkHeader size sector header) := by
  refine .bind (.u32 (by omega)) fun length _ => .bind (.u32 (by omega)) fun revision _ => ?_
  refine .ite (fun _ => .valueError _) fun _ => .bind (.u32 (by omega)) fun crc _ => ?_
  refine .ite (fun _ => .valueError _) fun _ => .bind (.u64 (by omega)) fun current _ =>
    .bind (.u64 (by omega)) fun backup _ => .bind (.u64 (by omega)) fun first _ =>
    .bind (.u64 (by omega)) fun last _ => ?_
  refine .ite (fun _ => .valueError _) fun _ => .bind (.u64 (by omega)) fun table _ =>
    .bind (.u32 (by omega)) fun count _ => .bind (.u32 (by omega)) fun entrySize _ =>
    .bind (.u32 (by omega)) fun checksum _ => ?_
  exact .ite (fun _ => .valueError _) fun _ => .ok _

theorem checkHeader_eq_ok {size sector : Nat} {header : Bytes} {g : Gpt}
    (h : 92 ≤ header.length) :
    checkHeader size sector header = .ok g ↔
      HeaderValid size sector header ∧ g = .ofHeader header := by
  simp only [checkHeader, u32, u64, Except.ok_bind,
    unpackUInt_of_le (show 12 + 4 ≤ header.length by omega),
    unpackUInt_of_le (show 8 + 4 ≤ header.length by omega),
    unpackUInt_of_le (show 16 + 4 ≤ header.length by omega),
    unpackUInt_of_le (show 24 + 8 ≤ header.length by omega),
    unpackUInt_of_le (show 32 + 8 ≤ header.length by omega),
    unpackUInt_of_le (show 40 + 8 ≤ header.length by omega),
    unpackUInt_of_le (show 48 + 8 ≤ header.length by omega),
    unpackUInt_of_le (show 72 + 8 ≤ header.length by omega),
    unpackUInt_of_le (show 80 + 4 ≤ header.length by omega),
    unpackUInt_of_le (show 84 + 4 ≤ header.length by omega),
    unpackUInt_of_le (show 88 + 4 ≤ header.length by omega)]
  simp only [Except.check_eq_ok, Except.ok.injEq, not_or, not_not, Nat.not_lt, gt_iff_lt, ne_eq]
  constructor
  · rintro ⟨⟨hlength, hrevision⟩, hcrc, ⟨hcurrent, hgeometry⟩,
      ⟨hcount, hsize, hunits, htotal, htable⟩, rfl⟩
    exact ⟨⟨hlength, hrevision, hcrc, hcurrent, hgeometry, hcount, ⟨hsize, hunits⟩, htotal, htable⟩,
      rfl⟩
  · rintro ⟨hv, rfl⟩
    exact ⟨⟨hv.length, hv.revision⟩, hv.crc, ⟨hv.current, hv.geometry⟩,
      ⟨hv.count, hv.entrySize.1, hv.entrySize.2, hv.tableSize, hv.table⟩, rfl⟩

/-! ## The table -/

section Table

variable {sector k i : Nat} {g : Gpt} {entries : Bytes} {n : DppName} {found : DppName → Option Extent}

def IsUsed (g : Gpt) (entries : Bytes) (i : Nat) : Prop :=
  slice (tableEntry g entries i) 0 16 ≠ List.replicate 16 0

def Decodable (g : Gpt) (entries : Bytes) (i : Nat) : Prop :=
  ∃ t, decodeName (slice (tableEntry g entries i) 56 128) = .ok t

/-- The used entry `i` has the name. -/
def IsNamed (g : Gpt) (entries : Bytes) (n : DppName) (i : Nat) : Prop :=
  IsUsed g entries i ∧ ∃ t, decodeName (slice (tableEntry g entries i) 56 128) = .ok t ∧
    DppName.ofText t = some n

def entryStart (g : Gpt) (entries : Bytes) (i : Nat) : Nat := uintAt 8 (tableEntry g entries i) 32

def entryStop (g : Gpt) (entries : Bytes) (i : Nat) : Nat := uintAt 8 (tableEntry g entries i) 40

/-- The sectors of the entry are usable ones. -/
def IsUsable (g : Gpt) (entries : Bytes) (i : Nat) : Prop :=
  g.first ≤ entryStart g entries i ∧ entryStart g entries i ≤ entryStop g entries i ∧
    entryStop g entries i ≤ g.last

def entryExtent (sector : Nat) (g : Gpt) (entries : Bytes) (i : Nat) : Extent where
  base := entryStart g entries i * sector
  length := (entryStop g entries i - entryStart g entries i + 1) * sector

/-- Of the first `k` entries, exactly one has the name, and `e` is its extent. -/
def Sole (sector : Nat) (g : Gpt) (entries : Bytes) (k : Nat) (n : DppName) (e : Extent) : Prop :=
  ∃ i < k, IsNamed g entries n i ∧ IsUsable g entries i ∧ e = entryExtent sector g entries i ∧
    ∀ j < k, IsNamed g entries n j → j = i

/-- What the loop has found in the first `k` entries. -/
structure FoundIn (sector : Nat) (g : Gpt) (entries : Bytes) (k : Nat)
    (found : DppName → Option Extent) : Prop where
  decodable : ∀ i < k, IsUsed g entries i → Decodable g entries i
  absent : ∀ n, found n = none → ∀ i < k, ¬ IsNamed g entries n i
  sole : ∀ n e, found n = some e → Sole sector g entries k n e

theorem IsNamed.unique {n' : DppName} (h : IsNamed g entries n i) (h' : IsNamed g entries n' i) :
    n = n' := by
  obtain ⟨-, t, ht, hn⟩ := h
  obtain ⟨-, t', ht', hn'⟩ := h'
  obtain rfl := Except.ok.inj (ht.symm.trans ht')
  exact Option.some.inj (hn.symm.trans hn')

theorem FoundIn.isSome (h : FoundIn sector g entries k found) (hi : i < k)
    (hn : IsNamed g entries n i) : ∃ e, found n = some e := by
  cases he : found n with
  | none => exact absurd hn (h.absent n he i hi)
  | some e => exact ⟨e, rfl⟩

/-- What was found is determined by the entries. -/
theorem FoundIn.unique {found' : DppName → Option Extent} (h : FoundIn sector g entries k found)
    (h' : FoundIn sector g entries k found') : found = found' := by
  funext n
  cases he : found n with
  | none =>
    cases he' : found' n with
    | none => rfl
    | some e =>
      obtain ⟨i, hi, hn, -⟩ := h'.sole n e he'
      exact absurd hn (h.absent n he i hi)
  | some e =>
    obtain ⟨i, hi, hn, -, rfl, -⟩ := h.sole n e he
    obtain ⟨e', he'⟩ := h'.isSome hi hn
    obtain ⟨j, -, -, -, rfl, hj⟩ := h'.sole n e' he'
    rw [he', hj i hi hn]

/-- An entry that has none of the names changes nothing. -/
theorem FoundIn.skip (h : FoundIn sector g entries k found)
    (hd : IsUsed g entries k → Decodable g entries k) (hn : ∀ n, ¬ IsNamed g entries n k) :
    FoundIn sector g entries (k + 1) found := by
  have below : ∀ {n j}, j < k + 1 → IsNamed g entries n j → j < k := fun {n j} hj hnj =>
    Nat.lt_of_le_of_ne (Nat.le_of_lt_succ hj) fun he => hn n (he ▸ hnj)
  refine ⟨fun i hi hu => ?_, fun n hnone i hi hni => h.absent n hnone i (below hi hni) hni,
    fun n e he => ?_⟩
  · rcases Nat.lt_succ_iff_lt_or_eq.mp hi with hi | rfl
    · exact h.decodable i hi hu
    · exact hd hu
  · obtain ⟨i, hi, hni, hu, he, hsole⟩ := h.sole n e he
    exact ⟨i, Nat.lt_succ_of_lt hi, hni, hu, he, fun j hj hnj => hsole j (below hj hnj) hnj⟩

/-- The first entry with a name is found. -/
theorem FoundIn.add (h : FoundIn sector g entries k found) (hn : IsNamed g entries n k)
    (hnone : found n = none) (hu : IsUsable g entries k) :
    FoundIn sector g entries (k + 1)
      (Function.update found n (some (entryExtent sector g entries k))) := by
  refine ⟨fun i hi hused => ?_, fun m hm i hi hmi => ?_, fun m e he => ?_⟩
  · rcases Nat.lt_succ_iff_lt_or_eq.mp hi with hi | rfl
    · exact h.decodable i hi hused
    · exact hn.2.imp fun t ht => ht.1
  · have hne : m ≠ n := by
      rintro rfl
      simp at hm
    rw [Function.update_of_ne hne] at hm
    rcases Nat.lt_succ_iff_lt_or_eq.mp hi with hi | rfl
    · exact h.absent m hm i hi hmi
    · exact hne (hmi.unique hn)
  · by_cases hm : m = n
    · subst hm
      obtain rfl : entryExtent sector g entries k = e := by simpa using he
      refine ⟨k, Nat.lt_succ_self k, hn, hu, rfl, fun j hj hmj => ?_⟩
      rcases Nat.lt_succ_iff_lt_or_eq.mp hj with hj | rfl
      · exact absurd hmj (h.absent m hnone j hj)
      · rfl
    · rw [Function.update_of_ne hm] at he
      obtain ⟨i, hi, hmi, hu, he, hsole⟩ := h.sole m e he
      refine ⟨i, Nat.lt_succ_of_lt hi, hmi, hu, he, fun j hj hmj => ?_⟩
      rcases Nat.lt_succ_iff_lt_or_eq.mp hj with hj | rfl
      · exact hsole j hj hmj
      · exact absurd (hmj.unique hn) hm

open Classical in
/-- What can be found in a longer table, can be found in a shorter one. -/
theorem FoundIn.shorter (h : FoundIn sector g entries (k + 1) found) :
    ∃ found', FoundIn sector g entries k found' := by
  refine ⟨fun n => if IsNamed g entries n k then none else found n,
    fun i hi => h.decodable i (Nat.lt_succ_of_lt hi), fun n hn i hi hni => ?_, fun n e he => ?_⟩
  · split at hn
    case isTrue hnk =>
      obtain ⟨e, he⟩ := h.isSome (Nat.lt_succ_self k) hnk
      obtain ⟨j, -, -, -, -, hsole⟩ := h.sole n e he
      have hik : i = k := (hsole i (Nat.lt_succ_of_lt hi) hni).trans
        (hsole k (Nat.lt_succ_self k) hnk).symm
      omega
    case isFalse => exact h.absent n hn i (Nat.lt_succ_of_lt hi) hni
  · split at he
    case isTrue => cases he
    case isFalse hnk =>
      obtain ⟨i, hi, hni, hu, he, hsole⟩ := h.sole n e he
      have hne : i ≠ k := by
        rintro rfl
        exact hnk hni
      exact ⟨i, by omega, hni, hu, he, fun j hj => hsole j (Nat.lt_succ_of_lt hj)⟩

/-- What one pass of the loop does. -/
theorem findEntry_cases (h : 128 ≤ (tableEntry g entries k).length) :
    match findEntry sector g entries found k with
    | .ok found' =>
      found' = found ∧ (IsUsed g entries k → Decodable g entries k) ∧
          (∀ n, ¬ IsNamed g entries n k) ∨
        ∃ n, IsNamed g entries n k ∧ found n = none ∧ IsUsable g entries k ∧
          found' = Function.update found n (some (entryExtent sector g entries k))
    | .error _ => IsUsed g entries k ∧ ¬ Decodable g entries k ∨
        ∃ n, IsNamed g entries n k ∧ ((found n).isSome = true ∨ ¬ IsUsable g entries k) := by
  simp only [findEntry, u64, unpackUInt_of_le (show 32 + 8 ≤ (tableEntry g entries k).length by omega),
    unpackUInt_of_le (show 40 + 8 ≤ (tableEntry g entries k).length by omega), Except.ok_bind]
  by_cases hu : IsUsed g entries k
  case neg =>
    rw [if_pos (not_not.mp hu)]
    exact .inl ⟨rfl, fun h => absurd h hu, fun n hn => hu hn.1⟩
  case pos =>
  rw [if_neg hu]
  cases ht : decodeName (slice (tableEntry g entries k) 56 128) with
  | error e => exact .inl ⟨hu, fun ⟨t, ht'⟩ => by rw [ht] at ht'; cases ht'⟩
  | ok t =>
    rw [Except.ok_bind]
    cases hn : DppName.ofText t with
    | none =>
      refine .inl ⟨rfl, fun _ => ⟨t, ht⟩, fun n hnk => ?_⟩
      obtain ⟨-, t', ht', hn'⟩ := hnk
      obtain rfl := Except.ok.inj (ht.symm.trans ht')
      rw [hn] at hn'
      cases hn'
    | some n =>
      have hnamed : IsNamed g entries n k := ⟨hu, t, ht, hn⟩
      by_cases hc : (found n).isSome = true ∨ ¬ IsUsable g entries k
      · simp only [show ((found n).isSome = true ∨ ¬ (g.first ≤ uintAt 8 (tableEntry g entries k) 32 ∧
          uintAt 8 (tableEntry g entries k) 32 ≤ uintAt 8 (tableEntry g entries k) 40 ∧
            uintAt 8 (tableEntry g entries k) 40 ≤ g.last)) = True from eq_true hc, if_true]
        exact .inr ⟨n, hnamed, hc⟩
      · simp only [show ((found n).isSome = true ∨ ¬ (g.first ≤ uintAt 8 (tableEntry g entries k) 32 ∧
          uintAt 8 (tableEntry g entries k) 32 ≤ uintAt 8 (tableEntry g entries k) 40 ∧
            uintAt 8 (tableEntry g entries k) 40 ≤ g.last)) = False from eq_false hc, if_false]
        rw [not_or, Bool.not_eq_true, Option.isSome_eq_false_iff, Option.isNone_iff_eq_none,
          not_not] at hc
        exact .inr ⟨n, hnamed, hc.1, hc.2, rfl⟩

/-- The loop finds what there is to find in the first `k` entries, or there is no such thing. -/
theorem findEntries_spec (h : ∀ i < k, 128 ≤ (tableEntry g entries i).length) :
    match (List.range k).foldlM (findEntry sector g entries) fun _ => none with
    | .ok found => FoundIn sector g entries k found
    | .error _ => ∀ found, ¬ FoundIn sector g entries k found := by
  induction k with
  | zero => exact ⟨fun i hi => by omega, fun n hn i hi => by omega, fun n e he => by cases he⟩
  | succ k ih =>
    have ih := ih fun i hi => h i (Nat.lt_succ_of_lt hi)
    simp only [List.range_succ, List.foldlM_append, List.foldlM_cons, List.foldlM_nil, bind_pure]
    cases hr : (List.range k).foldlM (findEntry sector g entries) fun _ => none with
    | error e =>
      simp only [hr] at ih
      rw [Except.error_bind]
      exact fun found hf => (hf.shorter).elim ih
    | ok found =>
      simp only [hr] at ih
      have hstep := @findEntry_cases sector k g entries found (h k (Nat.lt_succ_self k))
      rw [Except.ok_bind]
      cases hs : findEntry sector g entries found k with
      | ok found' =>
        simp only [hs] at hstep
        rcases hstep with ⟨rfl, hd, hn⟩ | ⟨n, hn, hnone, hu, rfl⟩
        · exact ih.skip hd hn
        · exact ih.add hn hnone hu
      | error e =>
        simp only [hs] at hstep
        intro found' hf
        rcases hstep with ⟨hused, hd⟩ | ⟨n, hn, hbad⟩
        · exact hd (hf.decodable k (Nat.lt_succ_self k) hused)
        · obtain ⟨e', he'⟩ := hf.isSome (Nat.lt_succ_self k) hn
          obtain ⟨i, -, -, hu, -, hsole⟩ := hf.sole n e' he'
          have hk := hsole k (Nat.lt_succ_self k) hn
          rcases hbad with hsome | hbad
          · obtain ⟨e, he⟩ := Option.isSome_iff_exists.mp hsome
            obtain ⟨j, hj, hnj, -⟩ := ih.sole n e he
            have := hsole j (Nat.lt_succ_of_lt hj) hnj
            omega
          · exact hbad (hk ▸ hu)

/-- The table of partitions, with both copies in it. -/
structure TableValid (sector : Nat) (g : Gpt) (entries : Bytes) (p : Partitions) : Prop where
  crc : Zlib.crc32 entries = g.checksum
  decodable : ∀ i < g.count, IsUsed g entries i → Decodable g entries i
  dpp : Sole sector g entries g.count .dpp p.dpp
  dppBackup : Sole sector g entries g.count .dppBackup p.dppBackup
  disjoint : p.dpp.base + p.dpp.length ≤ p.dppBackup.base ∨
    p.dppBackup.base + p.dppBackup.length ≤ p.dpp.base

theorem sortedExtents_disjoint (a b : Extent) :
    (sortedExtents a b).1.base + (sortedExtents a b).1.length ≤ (sortedExtents a b).2.base ↔
      a.base + a.length ≤ b.base ∨ b.base + b.length ≤ a.base := by
  unfold sortedExtents
  split <;> simp only <;> omega

theorem length_tableEntry (hlen : entries.length = g.count * g.entrySize) (hi : i < g.count) :
    (tableEntry g entries i).length = g.entrySize := by
  have hle : (i + 1) * g.entrySize ≤ g.count * g.entrySize := Nat.mul_le_mul_right _ hi
  rw [tableEntry, length_slice (hlen ▸ hle), Nat.add_mul, Nat.one_mul]
  omega

theorem findPartitions_eq_ok {p : Partitions} (hlen : entries.length = g.count * g.entrySize)
    (hsize : 128 ≤ g.entrySize) :
    findPartitions sector g entries = .ok p ↔ TableValid sector g entries p := by
  have hspec := @findEntries_spec sector g.count g entries fun i hi =>
    (length_tableEntry hlen hi).symm ▸ hsize
  simp only [findPartitions, Except.check_eq_ok, Except.bind_eq_ok, not_not, ne_eq]
  constructor
  · rintro ⟨hcrc, found, hfound, hp⟩
    simp only [hfound] at hspec
    split at hp
    case h_1 a b ha hb =>
      simp only [Except.check_eq_ok, Except.ok.injEq, gt_iff_lt, Nat.not_lt,
        sortedExtents_disjoint] at hp
      obtain ⟨hdisjoint, rfl⟩ := hp
      exact ⟨hcrc, hspec.decodable, hspec.sole _ _ ha, hspec.sole _ _ hb, hdisjoint⟩
    case h_2 => cases hp
  · intro hv
    let target : DppName → Option Extent
      | .dpp => some p.dpp
      | .dppBackup => some p.dppBackup
    have htarget : FoundIn sector g entries g.count target := by
      refine ⟨hv.decodable, fun n hn => ?_, fun n e he => ?_⟩
      · cases n <;> cases hn
      · cases n <;> cases he
        · exact hv.dpp
        · exact hv.dppBackup
    refine ⟨hv.crc, ?_⟩
    cases hr : (List.range g.count).foldlM (findEntry sector g entries) fun _ => none with
    | error e =>
      simp only [hr] at hspec
      exact absurd htarget (hspec target)
    | ok found =>
      simp only [hr] at hspec
      obtain rfl := hspec.unique htarget
      refine ⟨target, rfl, ?_⟩
      simp only [target, Except.check_eq_ok, gt_iff_lt, Nat.not_lt, sortedExtents_disjoint]
      exact ⟨hv.disjoint, trivial⟩

theorem findPartitions_checked (hlen : entries.length = g.count * g.entrySize)
    (hsize : 128 ≤ g.entrySize) : Checked (findPartitions sector g entries) := by
  refine .ite (fun _ => .valueError _) fun _ => .bind (.foldlM (fun found i hi => ?_) _)
    fun found _ => ?_
  · have hentry : 128 ≤ (tableEntry g entries i).length :=
      (length_tableEntry hlen (List.mem_range.mp hi)).symm ▸ hsize
    refine .ite (fun _ => .ok _) fun _ => .bind (.name _) fun t _ => ?_
    split
    · exact .ok _
    · refine .bind (.u64 (by omega)) fun _ _ => .bind (.u64 (by omega)) fun _ _ => ?_
      exact .ite (fun _ => .valueError _) fun _ => .ok _
  · split
    · exact .ite (fun _ => .valueError _) fun _ => .ok _
    · exact .valueError _

end Table

/-! ## The directory -/

section Record

variable {length offset start : Nat} {header entry payload : Bytes}

theorem secondOffset_checked (h : 12 ≤ header.length) : Checked (secondOffset header) :=
  .ite (fun _ => .valueError _) fun _ => .bind (.u32 (by omega)) fun _ _ =>
    .ite (fun _ => .valueError _) fun _ => .ok _

theorem secondOffset_eq_ok {second : Nat} (h : 12 ≤ header.length) :
    secondOffset header = .ok second ↔
      header.take 4 = rwfs ∧ 68 ≤ uintAt 4 header 8 ∧ second = uintAt 4 header 8 := by
  simp only [secondOffset, u32, unpackUInt_of_le (show 8 + 4 ≤ header.length by omega),
    Except.ok_bind, Except.check_eq_ok, not_not, ne_eq, Nat.not_lt, Except.ok.injEq]
  exact and_congr_right fun _ => and_congr_right fun _ => eq_comm

/-- The fields of the second header. -/
def Directory.ofHeader (header : Bytes) : Directory :=
  ⟨uintAt 4 header 8, uintAt 4 header 12, uintAt 4 header 20⟩

/-- The second header, at `offset` of a partition of this length. -/
structure DirectoryValid (length offset : Nat) (header : Bytes) : Prop where
  magic : header.take 4 = rwfs
  size : 0 < (Directory.ofHeader header).size ∧ (Directory.ofHeader header).size ≤ 244 * 4096
  entries : (Directory.ofHeader header).size % 244 = 0
  table : offset + 68 ≤ (Directory.ofHeader header).table
  start : (Directory.ofHeader header).table + (Directory.ofHeader header).size ≤
    (Directory.ofHeader header).start ∧ (Directory.ofHeader header).start ≤ length

theorem checkDirectory_checked (h : 24 ≤ header.length) :
    Checked (checkDirectory length offset header) :=
  .ite (fun _ => .valueError _) fun _ => .bind (.u32 (by omega)) fun _ _ =>
    .bind (.u32 (by omega)) fun _ _ => .bind (.u32 (by omega)) fun _ _ =>
      .ite (fun _ => .valueError _) fun _ => .ok _

theorem checkDirectory_eq_ok {d : Directory} (h : 24 ≤ header.length) :
    checkDirectory length offset header = .ok d ↔
      DirectoryValid length offset header ∧ d = .ofHeader header := by
  simp only [checkDirectory, u32, unpackUInt_of_le (show 8 + 4 ≤ header.length by omega),
    unpackUInt_of_le (show 12 + 4 ≤ header.length by omega),
    unpackUInt_of_le (show 20 + 4 ≤ header.length by omega), Except.ok_bind, Except.check_eq_ok,
    not_or, not_not, ne_eq, Nat.not_lt, Except.ok.injEq]
  constructor
  · rintro ⟨hmagic, ⟨hsize, hentries, htable, hstart⟩, rfl⟩
    exact ⟨⟨hmagic, hsize, hentries, htable, hstart⟩, rfl⟩
  · rintro ⟨hv, rfl⟩
    exact ⟨hv.magic, ⟨hv.size, hv.entries, hv.table, hv.start⟩, rfl⟩

/-! ## The entries of the directory -/

def IsActive (entry : Bytes) : Prop := uintAt 4 entry 204 ≠ 0

/-- Both names of the entry can be decoded. -/
def HasNames (entry : Bytes) : Prop :=
  ∃ name vendor, decodeName (slice entry 0 98) = .ok name ∧
    decodeName (slice entry 98 196) = .ok vendor

/-- An active entry with the names of the Bluetooth record, up to case. -/
def IsBluetooth (entry : Bytes) : Prop :=
  IsActive entry ∧ ∃ name vendor, decodeName (slice entry 0 98) = .ok name ∧
    decodeName (slice entry 98 196) = .ok vendor ∧
      casefold vendor = "qcom".toList ∧ casefold name = "bt.provision".toList

def dataPosition (start : Nat) (entry : Bytes) : Nat := start + uintAt 4 entry 208

/-- The record has eight bytes, in a region of the partition. -/
structure InBounds (length start : Nat) (entry : Bytes) : Prop where
  size : uintAt 4 entry 200 = 8
  region : 8 ≤ uintAt 4 entry 196
  fits : dataPosition start entry + uintAt 4 entry 196 ≤ length

theorem recordPosition_checked (h : 212 ≤ entry.length) :
    Checked (recordPosition length start entry) := by
  refine .bind (.u32 (by omega)) fun _ _ => .ite (fun _ => .ok _) fun _ => .bind (.name _)
    fun _ _ => .bind (.name _) fun _ _ => .ite (fun _ => .ok _) fun _ => ?_
  exact .bind (.u32 (by omega)) fun _ _ => .bind (.u32 (by omega)) fun _ _ =>
    .bind (.u32 (by omega)) fun _ _ => .ite (fun _ => .valueError _) fun _ => .ok _

/-- What the checks of one entry say. -/
theorem recordPosition_cases (h : 212 ≤ entry.length) :
    match recordPosition length start entry with
    | .ok none => (IsActive entry → HasNames entry) ∧ ¬ IsBluetooth entry
    | .ok (some position) => IsBluetooth entry ∧ InBounds length start entry ∧
        position = dataPosition start entry
    | .error _ => IsActive entry ∧
        (¬ HasNames entry ∨ IsBluetooth entry ∧ ¬ InBounds length start entry) := by
  simp only [recordPosition, u32, unpackUInt_of_le (show 204 + 4 ≤ entry.length by omega),
    unpackUInt_of_le (show 196 + 4 ≤ entry.length by omega),
    unpackUInt_of_le (show 200 + 4 ≤ entry.length by omega),
    unpackUInt_of_le (show 208 + 4 ≤ entry.length by omega), Except.ok_bind]
  by_cases hactive : uintAt 4 entry 204 = 0
  case pos =>
    rw [if_pos hactive]
    exact ⟨fun ha => absurd hactive ha, fun hb => hb.1 hactive⟩
  case neg =>
  rw [if_neg hactive]
  cases hname : decodeName (slice entry 0 98) with
  | error e =>
    refine ⟨hactive, .inl ?_⟩
    rintro ⟨name, vendor, hn, -⟩
    rw [hname] at hn
    cases hn
  | ok name =>
    cases hvendor : decodeName (slice entry 98 196) with
    | error e =>
      refine ⟨hactive, .inl ?_⟩
      rintro ⟨name, vendor, -, hv⟩
      rw [hvendor] at hv
      cases hv
    | ok vendor =>
      simp only [Except.ok_bind]
      by_cases hnames : (casefold vendor, casefold name) =
          ("qcom".toList, "bt.provision".toList)
      case neg =>
        rw [if_pos hnames]
        refine ⟨fun _ => ⟨name, vendor, hname, hvendor⟩, ?_⟩
        rintro ⟨-, name', vendor', hn, hv, hqcom, hbt⟩
        obtain rfl := Except.ok.inj (hname.symm.trans hn)
        obtain rfl := Except.ok.inj (hvendor.symm.trans hv)
        exact hnames (Prod.ext hqcom hbt)
      case pos =>
        rw [if_neg (not_not.mpr hnames)]
        obtain ⟨hqcom, hbt⟩ := Prod.mk.inj hnames
        have hbluetooth : IsBluetooth entry := ⟨hactive, name, vendor, hname, hvendor, hqcom, hbt⟩
        split_ifs with hbounds
        · refine ⟨hactive, .inr ⟨hbluetooth, fun hb => ?_⟩⟩
          have := hb.size
          have := hb.region
          have := hb.fits
          simp only [dataPosition] at this
          omega
        · refine ⟨hbluetooth, ⟨?_, ?_, ?_⟩, rfl⟩
          · omega
          · omega
          · simp only [dataPosition]
            omega

/-! ## The address -/

theorem hexUpper_spec : ∀ n < 16, isUpperHex (hexByte.hexUpper n) = true ∧
    (hexByte.hexUpper n).toUpper = hexByte.hexUpper n ∧ hexByte.hexUpper n ≠ ':' := by decide

theorem hexUpper_injective :
    ∀ m < 16, ∀ n < 16, hexByte.hexUpper m = hexByte.hexUpper n → m = n := by decide

theorem hexByte_injective : Function.Injective hexByte := by
  intro a b h
  simp only [hexByte, List.cons.injEq, and_true] at h
  have hlt := a.toNat_lt
  have hlt' := b.toNat_lt
  have hhigh := hexUpper_injective _ (by omega) _ (by omega) h.1
  have hlow := hexUpper_injective _ (by omega) _ (by omega) h.2
  exact UInt8.toNat_inj.mp (by omega)

theorem mem_hexByte {b : UInt8} {c : Char} (hc : c ∈ hexByte b) :
    isUpperHex c = true ∧ c.toUpper = c ∧ c ≠ ':' := by
  have hlt := b.toNat_lt
  rcases List.mem_cons.mp hc with rfl | hc
  · exact hexUpper_spec _ (by omega)
  · rw [List.mem_singleton.mp hc]
    exact hexUpper_spec _ (by omega)

theorem formatAddress_splitOn {data : Bytes} (h : data ≠ []) :
    (formatAddress data).splitOn ':' = data.map hexByte := by
  refine List.splitOn_intercalate ':' (fun part hpart => ?_) (by simpa using h)
  obtain ⟨b, -, rfl⟩ := List.mem_map.mp hpart
  exact fun hc => (mem_hexByte hc).2.2 rfl

theorem formatAddress_inj {data data' : Bytes} (h : data ≠ []) (h' : data' ≠ []) :
    formatAddress data = formatAddress data' ↔ data = data' := by
  refine ⟨fun heq => ?_, fun heq => heq ▸ rfl⟩
  have hsplit := congrArg (List.splitOn ':') heq
  rw [formatAddress_splitOn h, formatAddress_splitOn h'] at hsplit
  exact List.map_injective_iff.mpr hexByte_injective hsplit

theorem isAddressText_formatAddress {data : Bytes} (h : data.length = 6) :
    isAddressText (formatAddress data) = true := by
  have hne : data ≠ [] := by
    rintro rfl
    cases h
  simp only [isAddressText, formatAddress_splitOn hne, List.length_map, h, beq_self_eq_true,
    Bool.true_and, List.all_map, List.all_eq_true, Function.comp_apply, Bool.and_eq_true,
    beq_iff_eq]
  exact fun b _ => ⟨rfl, fun c hc => (mem_hexByte hc).1⟩

theorem toUpper_formatAddress (data : Bytes) :
    (formatAddress data).map Char.toUpper = formatAddress data := by
  have hbyte : ∀ b, (hexByte b).map Char.toUpper = hexByte b := fun b => by
    rw [List.map_congr_left fun c hc => (mem_hexByte hc).2.1, List.map_id']
  induction data with
  | nil => rfl
  | cons b data ih =>
    cases data with
    | nil => exact hbyte b
    | cons b' data =>
      simp only [formatAddress, List.map_cons, List.intercalate_cons_cons, List.map_append] at ih ⊢
      rw [ih, hbyte]
      rfl

/-- Six bytes are an address unless they are all zero or all ones. -/
theorem address_formatAddress {data : Bytes} {a : Text} (h : data.length = 6) :
    address (formatAddress data) = .ok a ↔
      data ≠ List.replicate 6 0 ∧ data ≠ List.replicate 6 255 ∧ a = formatAddress data := by
  have hne : data ≠ [] := by
    rintro rfl
    cases h
  have hzero : formatAddress (List.replicate 6 0) = "00:00:00:00:00:00".toList := by decide
  have hones : formatAddress (List.replicate 6 255) = "FF:FF:FF:FF:FF:FF".toList := by decide
  simp only [address, toUpper_formatAddress, isAddressText_formatAddress h, Except.check_eq_ok,
    Bool.not_true, Bool.false_or, Bool.or_eq_true, beq_iff_eq, ← hzero, ← hones, not_or,
    formatAddress_inj hne (show List.replicate 6 (0 : UInt8) ≠ [] by simp),
    formatAddress_inj hne (show List.replicate 6 (255 : UInt8) ≠ [] by simp), Except.ok.injEq,
    and_assoc, ne_eq]
  exact and_congr_right fun _ => and_congr_right fun _ => eq_comm

/-- Six pairs of hexadecimal digits, and neither of the two addresses that none has. -/
structure ValidAddress (a : Text) : Prop where
  form : isAddressText a = true
  ne_zero : a ≠ "00:00:00:00:00:00".toList
  ne_broadcast : a ≠ "FF:FF:FF:FF:FF:FF".toList

theorem address_eq_error {value : Text} {e : PyError} (h : address value = .error e) :
    ∃ message, e = .argumentTypeError message := by
  simp only [address] at h
  split at h
  · exact ⟨_, (Except.error.inj h).symm⟩
  · cases h

theorem address_valid {value a : Text} (h : address value = .ok a) : ValidAddress a := by
  simp only [address, Except.check_eq_ok, Bool.or_eq_true, not_or, Bool.not_eq_true,
    Bool.not_eq_false', beq_eq_false_iff_ne, Except.ok.injEq] at h
  obtain ⟨⟨⟨hform, hzero⟩, hbroadcast⟩, rfl⟩ := h
  exact ⟨hform, hzero, hbroadcast⟩

theorem recordAddress_checked : Checked (recordAddress payload) := by
  refine .ite (fun _ => .valueError _) fun _ => ?_
  cases hr : address (formatAddress (payload.drop 2)) with
  | ok a => exact .ok a
  | error e =>
    obtain ⟨message, rfl⟩ := address_eq_error hr
    exact .valueError _

theorem recordAddress_valid {a : Text} (h : recordAddress payload = .ok a) : ValidAddress a := by
  simp only [recordAddress, Except.check_eq_ok] at h
  obtain ⟨-, h⟩ := h
  split at h
  case h_1 hok =>
    obtain rfl := Except.ok.inj h
    exact address_valid hok
  case h_2 => cases h
  case h_3 => cases h

/-- The address in eight bytes. -/
theorem recordAddress_eq_ok {a : Text} (h : payload.length = 8) :
    recordAddress payload = .ok a ↔ payload.take 2 = [1, 6] ∧
      payload.drop 2 ≠ List.replicate 6 0 ∧ payload.drop 2 ≠ List.replicate 6 255 ∧
        a = formatAddress (payload.drop 2) := by
  have hlen : (payload.drop 2).length = 6 := by rw [List.length_drop, h]
  simp only [recordAddress, Except.check_eq_ok, ne_eq, not_not, ← address_formatAddress hlen]
  refine and_congr_right fun _ => ?_
  cases hr : address (formatAddress (payload.drop 2)) with
  | ok a' => rfl
  | error e => cases e <;> simp

end Record

end Azurefin
