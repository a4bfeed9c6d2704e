import Azurefin.Bluetooth.Format
import Azurefin.Lib.Budget

/-!
# Reading from a disk image

What a reader yields whose device returns the exact bytes of an image, with the number of bytes
that it reads.
-/

namespace Azurefin

open Act

/-- The contents of a device. -/
structure DiskImage where
  size : Nat
  byte : Nat → UInt8
  supported : 0 < size ∧ size ≤ 128 * 1024 ^ 2

variable {img : DiskImage}

/-- The bytes at an offset. -/
def DiskImage.bytes (img : DiskImage) (offset size : Nat) : Bytes :=
  (List.range size).map fun i => img.byte (offset + i)

/-- The reader of the image. -/
def DiskImage.reader (img : DiskImage) : Reader where
  pread _ size offset := img.bytes offset size
  size := img.size
  supported := img.supported

@[simp] theorem DiskImage.length_bytes (img : DiskImage) (offset size : Nat) :
    (img.bytes offset size).length = size := by
  simp [DiskImage.bytes]

/-- A part of what was read is what a smaller read gives. -/
theorem DiskImage.slice_bytes (img : DiskImage) {offset size start stop : Nat} (h : stop ≤ size) :
    slice (img.bytes offset size) start stop = img.bytes (offset + start) (stop - start) := by
  apply List.ext_getElem
  · rw [length_slice (by simpa using h), DiskImage.length_bytes]
  · intro i hi hi'
    simp [slice, DiskImage.bytes, Nat.add_assoc]

theorem DiskImage.take_bytes (img : DiskImage) {offset size n : Nat} (h : n ≤ size) :
    (img.bytes offset size).take n = img.bytes offset n := by
  simpa [slice] using @DiskImage.slice_bytes img offset size 0 n h

/-- A read yields the bytes of the image. -/
theorem DiskImage.read_spends (img : DiskImage) (offset size : Nat) :
    Spends Session.remaining (img.reader.read offset size) fun data c =>
      offset + size ≤ img.size ∧ data = img.bytes offset size ∧ c = size := by
  intro s data k
  have hreader : img.reader.size = img.size := rfl
  unfold Reader.read
  by_cases hbounds : offset + size ≤ img.size
  case neg =>
    rw [if_pos (by rw [hreader]; omega)]
    simp only [raise_apply, Prod.mk.injEq, reduceCtorEq, false_and, exists_false, false_iff]
    rintro ⟨c, ⟨hle, -⟩, -⟩
    exact hbounds hle
  case pos =>
  rw [if_neg (by rw [hreader]; omega), bind_of_ok (read_apply s)]
  by_cases hbudget : size ≤ s.remaining
  case neg =>
    rw [if_pos (by omega)]
    simp only [raise_apply, Prod.mk.injEq, reduceCtorEq, false_and, exists_false, false_iff]
    rintro ⟨c, ⟨-, -, rfl⟩, hs⟩
    omega
  case pos =>
  have hrequest : img.reader.request (offset : Int).toNat (size : Int).toNat s =
      (.ok (img.bytes offset size),
        ⟨s.remaining - size, s.requests ++ [⟨offset, size, img.bytes offset size⟩]⟩) := rfl
  rw [if_neg (by omega), bind_of_ok hrequest, if_neg (by simp)]
  constructor
  · rintro ⟨t, ht, rfl⟩
    obtain ⟨hdata, rfl⟩ := Prod.mk.inj ht
    exact ⟨size, ⟨hbounds, (Except.ok.inj hdata).symm, rfl⟩, by simp only; omega⟩
  · rintro ⟨c, ⟨-, rfl, rfl⟩, hs⟩
    exact ⟨_, rfl, by simp only; omega⟩

theorem DiskImage.readWithin_spends (img : DiskImage) {e : Extent}
    (he : e.base + e.length ≤ img.size) (offset size : Nat) :
    Spends Session.remaining (readWithin img.reader e offset size) fun data c =>
      offset + size ≤ e.length ∧ data = img.bytes (e.base + offset) size ∧ c = size := by
  unfold readWithin
  have hcast : (e.base : Int) + offset = (e.base + offset : Nat) := by omega
  rw [hcast]
  refine (Spends.check (img.read_spends (e.base + offset) size)).congr fun data c => ?_
  constructor
  · rintro ⟨hbounds, -, hdata, hc⟩
    exact ⟨by omega, hdata, hc⟩
  · rintro ⟨hle, hdata, hc⟩
    exact ⟨by omega, by omega, hdata, hc⟩

/-! ## Collecting in a loop -/

/-- The outputs that a loop collects, when each item gives at most one. -/
def Gathers {γ α : Type} (P : γ → Option α → Prop) : List γ → List α → Prop
  | [], l => l = []
  | x :: xs, l => P x none ∧ Gathers P xs l ∨ ∃ a l', P x (some a) ∧ l = a :: l' ∧ Gathers P xs l'

section Gathers

variable {γ α : Type} {P : γ → Option α → Prop}

theorem gathers_nil {xs : List γ} : Gathers P xs [] ↔ ∀ x ∈ xs, P x none := by
  induction xs with
  | nil => simp [Gathers]
  | cons x xs ih => simp [Gathers, ih]

/-- One output is collected when one item gives it and the others give none. -/
theorem gathers_singleton {xs : List γ} (hxs : xs.Nodup) {a : α} :
    Gathers P xs [a] ↔ ∃ x ∈ xs, P x (some a) ∧ ∀ y ∈ xs, y ≠ x → P y none := by
  induction xs with
  | nil => simp [Gathers]
  | cons x xs ih =>
    obtain ⟨hx, hxs⟩ := List.nodup_cons.mp hxs
    simp only [Gathers, ih hxs]
    constructor
    · rintro (⟨hnone, y, hy, hsome, hrest⟩ | ⟨b, l, hsome, hl, hrest⟩)
      · refine ⟨y, List.mem_cons_of_mem _ hy, hsome, fun z hz hne => ?_⟩
        rcases List.mem_cons.mp hz with rfl | hz
        · exact hnone
        · exact hrest z hz hne
      · obtain ⟨rfl, rfl⟩ := List.cons.inj hl
        refine ⟨x, List.mem_cons_self, hsome, fun z hz hne => ?_⟩
        exact gathers_nil.mp hrest z ((List.mem_cons.mp hz).resolve_left hne)
    · rintro ⟨y, hy, hsome, hrest⟩
      rcases List.mem_cons.mp hy with rfl | hy
      · refine .inr ⟨a, [], hsome, rfl, gathers_nil.mpr fun z hz => ?_⟩
        exact hrest z (List.mem_cons_of_mem _ hz) (ne_of_mem_of_not_mem hz hx)
      · refine .inl ⟨hrest x List.mem_cons_self (ne_of_mem_of_not_mem hy hx).symm, y, hy, hsome, ?_⟩
        exact fun z hz => hrest z (List.mem_cons_of_mem _ hz)

/-- A loop that appends to a list collects, at a cost for each output. -/
theorem folds_append {cost c : Nat} {xs : List γ} {l l' : List α} :
    Folds (fun l x l' c => P x none ∧ l' = l ∧ c = 0 ∨
      ∃ a, P x (some a) ∧ l' = l ++ [a] ∧ c = cost) xs l l' c ↔
      ∃ m, Gathers P xs m ∧ l' = l ++ m ∧ c = m.length * cost := by
  induction xs generalizing l c with
  | nil =>
    simp only [Folds, Gathers]
    constructor
    · rintro ⟨rfl, rfl⟩
      exact ⟨[], rfl, by simp⟩
    · rintro ⟨m, rfl, rfl, rfl⟩
      exact ⟨by simp, by simp⟩
  | cons x xs ih =>
    simp only [Folds, Gathers, ih]
    constructor
    · rintro ⟨l₁, c₁, c₂, (⟨hx, rfl, rfl⟩ | ⟨a, hx, rfl, rfl⟩), ⟨m, hm, rfl, rfl⟩, rfl⟩
      · exact ⟨m, .inl ⟨hx, hm⟩, rfl, Nat.zero_add _⟩
      · refine ⟨a :: m, .inr ⟨a, m, hx, rfl, hm⟩, by simp, ?_⟩
        rw [List.length_cons, Nat.add_mul, Nat.one_mul, Nat.add_comm]
    · rintro ⟨m, (⟨hx, hm⟩ | ⟨a, m, hx, rfl, hm⟩), rfl, rfl⟩
      · exact ⟨l, 0, _, .inl ⟨hx, rfl, rfl⟩, ⟨m, hm, rfl, rfl⟩, (Nat.zero_add _).symm⟩
      · refine ⟨l ++ [a], cost, _, .inr ⟨a, hx, rfl, rfl⟩, ⟨m, hm, by simp, rfl⟩, ?_⟩
        rw [List.length_cons, Nat.add_mul, Nat.one_mul, Nat.add_comm]

end Gathers

end Azurefin
