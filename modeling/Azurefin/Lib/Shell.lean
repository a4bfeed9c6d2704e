import Azurefin.Lib.Python
import Mathlib.Data.List.DropRight

/-!
# The parts of the shell the sources use

Splitting text the way `read` and parameter expansion do, with the default field separators.
-/

/-- The text whose bytes these are, for ASCII text. -/
def decodeAscii (b : Bytes) : Text := b.map fun x => Char.ofNat x.toNat

theorem decodeAscii_encodeAscii {t : Text} (h : ∀ c ∈ t, c.toNat < 128) :
    decodeAscii (encodeAscii t) = t := by
  rw [decodeAscii, encodeAscii, List.map_map]
  conv_rhs => rw [← List.map_id t]
  refine List.map_congr_left fun c hc => ?_
  have := h c hc
  simp only [Function.comp_apply, id_eq]
  rw [UInt8.toNat_ofNat_of_lt' (by change _ < 256; omega), Char.ofNat_toNat]

namespace Shell

def isBlank (c : Char) : Bool := c == ' ' || c == '\t'

/-- The lines of a file that end in a newline: what `read` is given until it fails. -/
def linesOf (t : Text) : List Text := (t.splitOn '\n').dropLast

/-- `read -r -a words` on a line. -/
def readWords (line : Text) : List Text := wordsBy isBlank line

/-- `read -r first rest` on a line. -/
def readFields (line : Text) : Text × Text :=
  let line := line.dropWhile isBlank
  (line.takeWhile fun c => !isBlank c,
    ((line.dropWhile fun c => !isBlank c).dropWhile isBlank).rdropWhile isBlank)

/-- `${text%c*}` -/
def beforeLast (c : Char) (t : Text) : Text :=
  if c ∈ t then ((t.reverse.dropWhile (· ≠ c)).drop 1).reverse else t

/-! ## Lines -/

theorem linesOf_append {l : Text} (hl : '\n' ∉ l) (t : Text) :
    linesOf (l ++ '\n' :: t) = l :: linesOf t := by
  rw [linesOf, List.splitOn_append_cons_self_of_not_mem hl,
    List.dropLast_cons_of_ne_nil (List.splitOn_ne_nil _ _)]
  rfl

theorem linesOf_flatMap {ls : List Text} (h : ∀ l ∈ ls, '\n' ∉ l) :
    linesOf (ls.flatMap fun l => l ++ ['\n']) = ls := by
  induction ls with
  | nil => rfl
  | cons l ls ih =>
    rw [List.flatMap_cons, List.append_assoc, List.singleton_append,
      linesOf_append (h l (by simp)), ih fun m hm => h m (by simp [hm])]

/-- A word, one or more separators, and a rest without separators at its ends. -/
theorem readFields_append {w rest : Text} (hw : w ≠ []) (hblank : ∀ c ∈ w, isBlank c = false)
    (hrest : ∀ c ∈ rest, isBlank c = false) :
    readFields (w ++ "  ".toList ++ rest) = (w, rest) := by
  obtain ⟨c, w', rfl⟩ := List.exists_cons_of_ne_nil hw
  have hstart : (c :: w' ++ "  ".toList ++ rest).dropWhile isBlank =
      c :: w' ++ "  ".toList ++ rest := by
    simp [hblank c (by simp)]
  have hall : ∀ x ∈ c :: w', (!isBlank x) = true := fun x hx => by simp [hblank x hx]
  have hgap : ("  ".toList ++ rest).takeWhile (fun x => !isBlank x) = [] := by
    simp [isBlank]
  have hgap' : ("  ".toList ++ rest).dropWhile (fun x => !isBlank x) = "  ".toList ++ rest := by
    simp [isBlank]
  have hskip : ("  ".toList ++ rest).dropWhile isBlank = rest := by
    rw [List.dropWhile_append_of_pos (forall_mem_of_all (by decide))]
    cases rest with
    | nil => rfl
    | cons x rest => simp [hrest x (by simp)]
  have hend : rest.rdropWhile isBlank = rest :=
    List.rdropWhile_eq_self_iff.mpr fun hl => by simp [hrest _ (List.getLast_mem hl)]
  rw [readFields, hstart, List.append_assoc]
  simp only [List.takeWhile_append_of_pos hall, List.dropWhile_append_of_pos hall, hgap, hgap',
    hskip, hend, List.append_nil]

/-! ## Paths -/

theorem exists_last_split {c : Char} {t : Text} (h : c ∈ t) : ∃ u v, t = u ++ c :: v ∧ c ∉ v := by
  induction t with
  | nil => cases h
  | cons x t ih =>
    by_cases ht : c ∈ t
    · obtain ⟨u, v, rfl, hv⟩ := ih ht
      exact ⟨x :: u, v, rfl, hv⟩
    · obtain rfl : c = x := by simpa [ht] using h
      exact ⟨[], t, rfl, ht⟩

theorem beforeLast_append {c : Char} {u v : Text} (hv : c ∉ v) :
    beforeLast c (u ++ c :: v) = u := by
  have hall : ∀ x ∈ v.reverse, decide (x ≠ c) = true := by
    intro x hx
    have hne : x ≠ c := fun h => hv (h ▸ List.mem_reverse.mp hx)
    simpa using hne
  rw [beforeLast, if_pos (by simp), List.reverse_append, List.reverse_cons, List.append_assoc,
    List.dropWhile_append_of_pos hall]
  simp

end Shell
