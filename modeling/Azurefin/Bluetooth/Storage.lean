import Azurefin.Bluetooth.Format
import Azurefin.Lib.Decimal

/-!
# Reading factory storage that may fail

`read_factory` again, over any reading of the storage: one that may fail, or that leaves a record of
itself. Over the reader of the factory address it is the same (`readFactory_eq`). Whatever the reading
keeps is kept, and what is returned is an address (`readFactoryFrom_holds`).
-/

namespace Azurefin

variable {τ : Type}

section Reading

variable (read : Int → Int → Act τ PyError Bytes)

/-- `dpp_partitions`, for storage of this size -/
def probeSectorsFrom (size : Nat) : List Nat → Act τ PyError Partitions
  | [] => Act.raise (.valueError "No supported GPT found")
  | sector :: sectors => do
    let header ← read sector sector
    if header.take 8 ≠ efiPart then probeSectorsFrom size sectors
    else
      let g ← Act.ofExcept (checkHeader size sector header)
      let entries ← read (g.table * sector : Nat) (g.count * g.entrySize : Nat)
      Act.ofExcept (findPartitions sector g entries)

def readWithinFrom (p : Extent) (offset size : Int) : Act τ PyError Bytes :=
  if ¬ (0 ≤ offset ∧ offset ≤ p.length) ∨ ¬ (0 ≤ size ∧ size ≤ p.length - offset) then
    Act.raise (.valueError "RWFS read out of bounds")
  else read (p.base + offset) size

def matchEntryFrom (p : Extent) (d : Directory) (entries : Bytes) (found : List Text) (offset : Nat) :
    Act τ PyError (List Text) := do
  match ← Act.ofExcept (recordPosition p.length d.start (slice entries offset (offset + 244))) with
  | none => pure found
  | some position =>
    let payload ← readWithinFrom read p position 8
    let a ← Act.ofExcept (recordAddress payload)
    pure (found ++ [a])

/-- `read_record` -/
def readRecordFrom (p : Extent) : Act τ PyError Text := do
  let header ← readWithinFrom read p 0 68
  let second ← Act.ofExcept (secondOffset header)
  let header ← readWithinFrom read p second 68
  let d ← Act.ofExcept (checkDirectory p.length second header)
  let entries ← readWithinFrom read p d.table d.size
  match ← (entryOffsets d.size).foldlM (matchEntryFrom read p d entries) [] with
  | [a] => pure a
  | _ => Act.raise (.valueError "Expected exactly one Bluetooth record")

/-- `read_factory` -/
def readFactoryFrom (size : Nat) : Act τ PyError Text := do
  let partitions ← probeSectorsFrom read size [512, 4096]
  let a ← readRecordFrom read partitions.dpp
  let b ← readRecordFrom read partitions.dppBackup
  if a ≠ b then Act.raise (.valueError "DPP Bluetooth copies disagree")
  else pure a

end Reading

/-! ## The same reading -/

theorem probeSectors_eq (r : Reader) (sectors : List Nat) :
    probeSectors r sectors = probeSectorsFrom r.read r.size sectors := by
  induction sectors with
  | nil => rfl
  | cons sector sectors ih =>
    rw [probeSectors, probeSectorsFrom]
    simp only [ih]

/-- The reading of the factory address is the one through its reader. -/
theorem readFactory_eq (r : Reader) : readFactory r = readFactoryFrom r.read r.size := by
  rw [readFactory, dppPartitions, probeSectors_eq]
  rfl

/-! ## What every reading keeps -/

theorem ofExcept_keeps {I : τ → Prop} {α : Type} {x : Except PyError α} :
    Act.Holds I (Act.ofExcept x) (fun a s => x = .ok a ∧ I s) (fun _ => I) :=
  .ofExcept (fun _ _ hs h => ⟨h, hs⟩) fun _ _ hs _ => hs

section Keeps

variable {read : Int → Int → Act τ PyError Bytes} {I : τ → Prop}
  (hread : ∀ offset size, Act.Holds I (read offset size) (fun _ => I) (fun _ => I))
include hread

theorem probeSectorsFrom_keeps (size : Nat) (sectors : List Nat) :
    Act.Holds I (probeSectorsFrom read size sectors) (fun _ => I) (fun _ => I) := by
  induction sectors with
  | nil => exact .raise fun _ hs => hs
  | cons sector sectors ih =>
    refine .bind (hread _ _) fun header => .ite (fun _ => ih) fun _ => ?_
    refine .bind ofExcept_keeps fun g => .assume fun _ => .bind (hread _ _) fun entries => ?_
    exact .ofExcept (fun _ _ hs _ => hs) fun _ _ hs _ => hs

theorem readWithinFrom_keeps (p : Extent) (offset size : Int) :
    Act.Holds I (readWithinFrom read p offset size) (fun _ => I) (fun _ => I) :=
  .ite (fun _ => .raise fun _ hs => hs) fun _ => hread _ _

theorem matchEntryFrom_keeps (p : Extent) (d : Directory) (entries : Bytes) (found : List Text) (offset : Nat)
    (hfound : ∀ a ∈ found, ValidAddress a) :
    Act.Holds I (matchEntryFrom read p d entries found offset) (fun found s => (∀ a ∈ found, ValidAddress a) ∧ I s)
      (fun _ => I) := by
  refine .bind ofExcept_keeps fun position => .assume fun _ => ?_
  cases position with
  | none => exact .pure fun _ hs => ⟨hfound, hs⟩
  | some position =>
    refine .bind (readWithinFrom_keeps hread _ _ _) fun payload => ?_
    refine .bind ofExcept_keeps fun a => .assume fun ha => .pure fun _ hs => ⟨fun b hb => ?_, hs⟩
    rcases List.mem_append.mp hb with hb | hb
    · exact hfound b hb
    · rw [List.mem_singleton.mp hb]
      exact recordAddress_valid ha

theorem readRecordFrom_keeps (p : Extent) :
    Act.Holds I (readRecordFrom read p) (fun a s => ValidAddress a ∧ I s) (fun _ => I) := by
  refine .bind (readWithinFrom_keeps hread _ _ _) fun header => ?_
  refine .bind ofExcept_keeps fun second => .assume fun _ => ?_
  refine .bind (readWithinFrom_keeps hread _ _ _) fun header => ?_
  refine .bind ofExcept_keeps fun d => .assume fun _ => ?_
  refine .bind (readWithinFrom_keeps hread _ _ _) fun entries => ?_
  refine .bind (M := fun found s => (∀ a ∈ found, ValidAddress a) ∧ I s) ?_ fun found => .assume fun hfound => ?_
  · refine (Act.Holds.foldlM (I := fun _ found s => (∀ a ∈ found, ValidAddress a) ∧ I s)
      (fun offset rest found => .assume fun hfound => ?_) _ _).weaken (fun _ hs => ⟨by simp, hs⟩)
        (fun _ _ h => h) fun _ _ h => h
    exact matchEntryFrom_keeps hread p d entries found offset hfound
  · split
    case h_1 a => exact .pure fun _ hs => ⟨hfound a List.mem_cons_self, hs⟩
    case h_2 => exact .raise fun _ hs => hs

/-- What each read keeps is kept, and what is returned is an address. -/
theorem readFactoryFrom_holds (size : Nat) :
    Act.Holds I (readFactoryFrom read size) (fun a s => ValidAddress a ∧ I s) (fun _ => I) := by
  refine .bind (probeSectorsFrom_keeps hread _ _) fun partitions => ?_
  refine .bind (readRecordFrom_keeps hread _) fun a => .assume fun ha => ?_
  refine .bind (readRecordFrom_keeps hread _) fun b => .assume fun _ => ?_
  exact .ite (fun _ => .raise fun _ hs => hs) fun _ => .pure fun _ hs => ⟨ha, hs⟩

end Keeps

/-! ## Addresses -/

theorem toUpper_of_isUpperHex {c : Char} (h : isUpperHex c = true) : c.toUpper = c := by
  have hlt : c.toNat < 97 := by
    rw [isUpperHex, Bool.or_eq_true, Bool.and_eq_true, decide_eq_true_eq, decide_eq_true_eq] at h
    rcases h with h | ⟨-, h⟩
    · have hle := (Decimal.digitChar_of_isDigit h).1
      change c.toNat - 48 < 10 at hle
      omega
    · have hle : c.toNat ≤ 70 := UInt32.le_iff_toNat_le.mp h
      omega
  apply dif_neg
  intro hge
  have hge : 97 ≤ c.toNat := UInt32.le_iff_toNat_le.mp hge.1
  omega

/-- An address is taken as it is. -/
theorem address_of_valid {a : Text} (h : ValidAddress a) : address a = .ok a := by
  have hparts := h.form
  rw [isAddressText, Bool.and_eq_true, List.all_eq_true] at hparts
  have hupper : a.map Char.toUpper = a := by
    conv_rhs => rw [← List.map_id a]
    refine List.map_congr_left fun c hc => ?_
    have hjoin : List.intercalate [':'] (a.splitOn ':') = a := List.intercalate_splitOn ':'
    rw [← hjoin] at hc
    rcases mem_intercalate hc with rfl | ⟨part, hpart, hc⟩
    · rfl
    · have hdigits := hparts.2 part hpart
      rw [Bool.and_eq_true, List.all_eq_true] at hdigits
      exact toUpper_of_isUpperHex (hdigits.2 c hc)
  simp only [address, hupper, h.form, Except.check_eq_ok, Bool.not_true, Bool.false_or, Bool.or_eq_true, beq_iff_eq,
    not_or]
  exact ⟨⟨h.ne_zero, h.ne_broadcast⟩, trivial⟩

end Azurefin
