import Azurefin.Firmware.Policy
import Azurefin.Lib.Shell

/-!
# Reading a manifest back

The lines of the manifest of a file set are its rows, sorted, and `read -r hash target` gives
the two fields of a row. So a manifest determines the files it lists.
-/

namespace Azurefin

open Shell

/-- The rows in the order of their lines. -/
def manifestOrder (rows : List Row) : List Row :=
  rows.mergeSort fun a b => decide (a.line ≤ b.line)

/-- The line of a row, without its end. -/
def Row.text (r : Row) : Text := r.digest ++ "  ".toList ++ r.target

theorem manifestOrder_perm (rows : List Row) : (manifestOrder rows).Perm rows :=
  List.mergeSort_perm _ _

theorem manifestText_eq (rows : List Row) :
    manifestText rows = (manifestOrder rows).flatMap fun r => r.text ++ ['\n'] := by
  rw [manifestText, ← List.map_mergeSort (r := fun a b : Row => decide (a.line ≤ b.line))
    fun _ _ _ _ => rfl, ← List.flatMap_def]
  rfl

/-! ## The characters of a row -/

/-- A character of ASCII that neither separates fields nor ends a line. -/
def IsPlain (c : Char) : Prop := c.toNat < 128 ∧ isBlank c = false ∧ c ≠ '\n'

instance (c : Char) : Decidable (IsPlain c) := inferInstanceAs (Decidable (_ ∧ _ ∧ _))

theorem isPlain_of_isHexDigit {c : Char} (h : Digest.isHexDigit c = true) : IsPlain c := by
  have hall : ∀ x ∈ Digest.hexDigits, IsPlain x := forall_mem_of_all (by decide +kernel)
  exact hall c (by simpa [Digest.isHexDigit] using h)

theorem isPlain_of_isTargetChar {c : Char} (h : isTargetChar c = true) : IsPlain c := by
  have hlt : c.toNat < 128 := by
    have hmarks : ∀ x ∈ "_-./".toList, x.toNat < 128 := forall_mem_of_all (by decide +kernel)
    rcases Bool.or_eq_true_iff.mp h with h | h
    · rcases Bool.or_eq_true_iff.mp h with h | h
      · rcases Bool.or_eq_true_iff.mp h with h | h
        · have hle : c.val ≤ 'Z'.val := (of_decide_eq_true h).2
          exact Nat.lt_of_le_of_lt (UInt32.le_iff_toNat_le.mp hle) (by decide)
        · have hle : c.val ≤ 'z'.val := of_decide_eq_true (Bool.and_eq_true_iff.mp h).2
          exact Nat.lt_of_le_of_lt (UInt32.le_iff_toNat_le.mp hle) (by decide)
      · have hle : c.val ≤ '9'.val := of_decide_eq_true (Bool.and_eq_true_iff.mp h).2
        exact Nat.lt_of_le_of_lt (UInt32.le_iff_toNat_le.mp hle) (by decide)
    · exact hmarks c (by simpa using h)
  have hall : ∀ n < 128, isTargetChar (Char.ofNat n) = true → IsPlain (Char.ofNat n) := by
    decide +kernel
  have hc := hall c.toNat hlt
  rw [Char.ofNat_toNat] at hc
  exact hc h

variable {r : Row}

theorem isPlain_of_isSha256Text {t : Text} (h : isSha256Text t = true) :
    t ≠ [] ∧ ∀ c ∈ t, IsPlain c := by
  simp only [isSha256Text, Bool.and_eq_true, beq_iff_eq, List.all_eq_true] at h
  refine ⟨fun ht => ?_, fun c hc => isPlain_of_isHexDigit (h.2 c hc)⟩
  simp [ht] at h

theorem Row.isPlain_digest (hv : r.valid = true) : r.digest ≠ [] ∧ ∀ c ∈ r.digest, IsPlain c :=
  isPlain_of_isSha256Text (r.valid_iff.mp hv).2

theorem Row.isPlain_target (hv : r.valid = true) : ∀ c ∈ r.target, IsPlain c := by
  intro c hc
  have htext := ((isCanonicalTarget_iff _).mp (r.valid_iff.mp hv).1).1
  simp only [isTargetText, Bool.and_eq_true, List.all_eq_true] at htext
  exact isPlain_of_isTargetChar (htext.2 c hc)

theorem Row.ascii (hv : r.valid = true) : ∀ c ∈ r.text ++ ['\n'], c.toNat < 128 := by
  intro c hc
  simp only [Row.text, List.mem_append, List.mem_singleton] at hc
  rcases hc with ((hc | hc) | hc) | rfl
  · exact ((r.isPlain_digest hv).2 c hc).1
  · have hgap : ∀ x ∈ "  ".toList, x.toNat < 128 := forall_mem_of_all (by decide +kernel)
    exact hgap c hc
  · exact (r.isPlain_target hv c hc).1
  · decide

theorem Row.newline_not_mem (hv : r.valid = true) : '\n' ∉ r.text := by
  intro hc
  simp only [Row.text, List.mem_append] at hc
  rcases hc with (hc | hc) | hc
  · exact ((r.isPlain_digest hv).2 _ hc).2.2 rfl
  · exact absurd hc (by decide +kernel)
  · exact (r.isPlain_target hv _ hc).2.2 rfl

/-- The fields of the line of a row are its hash and its target. -/
theorem Row.readFields_text (hv : r.valid = true) : readFields r.text = (r.digest, r.target) :=
  readFields_append (r.isPlain_digest hv).1 (fun c hc => ((r.isPlain_digest hv).2 c hc).2.1)
    fun c hc => (r.isPlain_target hv c hc).2.1

/-! ## The path of a row -/

theorem Row.splitOn_target (hv : r.valid = true) : r.target.splitOn '/' = r.path := by
  obtain ⟨-, habs, -, hne, hstr⟩ := (isCanonicalTarget_iff _).mp (r.valid_iff.mp hv).1
  exact PurePosixPath.splitOn_eq_names habs hne hstr

theorem Row.path_ne_nil (hv : r.valid = true) : r.path ≠ [] :=
  ((isCanonicalTarget_iff _).mp (r.valid_iff.mp hv).1).2.2.2.1

/-- The part of the target before the last slash leads to the directory of the file. -/
theorem Row.names_beforeLast (hv : r.valid = true) (hs : '/' ∈ r.target) :
    (PurePosixPath.ofText (beforeLast '/' r.target)).names = r.path.dropLast := by
  obtain ⟨u, v, huv, hlast⟩ := exists_last_split hs
  have hsplit : r.path = u.splitOn '/' ++ [v] := by
    rw [← r.splitOn_target hv, huv, List.splitOn_append_cons_self, List.splitOn_eq_singleton hlast]
  have hnames : ∀ n ∈ r.path, n ≠ [] ∧ n ≠ ".".toList := fun n hn => by
    simpa [PurePosixPath.ofText] using (List.mem_filter.mp hn).2
  rw [huv, beforeLast_append hlast, hsplit, List.dropLast_concat]
  refine List.filter_eq_self.mpr fun n hn => ?_
  simpa using hnames n (by simp [hsplit, hn])

/-! ## The manifest of a file set -/

namespace FileSet

theorem valid_manifestOrder (F : FileSet) : ∀ r ∈ manifestOrder F.rows, r.valid = true :=
  fun r hr => F.valid r ((manifestOrder_perm F.rows).mem_iff.mp hr)

/-- The same files in the order of the manifest. -/
def sorted (F : FileSet) : FileSet where
  rows := manifestOrder F.rows
  valid := F.valid_manifestOrder
  nodup := ((manifestOrder_perm F.rows).map Row.target).nodup_iff.mpr F.nodup
  length_pos := (manifestOrder_perm F.rows).length_eq ▸ F.length_pos
  length_le := (manifestOrder_perm F.rows).length_eq ▸ F.length_le

theorem mem_sorted (F : FileSet) {r : Row} : r ∈ F.sorted.rows ↔ r ∈ F.rows :=
  (manifestOrder_perm F.rows).mem_iff

theorem decode_manifest (F : FileSet) :
    decodeAscii (encodeAscii (manifestText F.rows)) = manifestText F.rows := by
  refine decodeAscii_encodeAscii fun c hc => ?_
  rw [manifestText_eq] at hc
  obtain ⟨r, hr, hc⟩ := List.mem_flatMap.mp hc
  exact r.ascii (F.valid_manifestOrder r hr) c hc

/-- The lines of a manifest are its rows. -/
theorem linesOf_manifest (F : FileSet) :
    linesOf (decodeAscii (encodeAscii (manifestText F.rows))) = F.sorted.rows.map Row.text := by
  rw [F.decode_manifest, manifestText_eq, sorted, ← List.flatMap_map Row.text fun l => l ++ ['\n']]
  refine linesOf_flatMap fun l hl => ?_
  obtain ⟨r, hr, rfl⟩ := List.mem_map.mp hl
  exact r.newline_not_mem (F.valid_manifestOrder r hr)

/-- Two policies with one manifest list the same files. -/
theorem perm_of_manifest_eq {F G : FileSet}
    (h : encodeAscii (manifestText F.rows) = encodeAscii (manifestText G.rows)) :
    F.rows.Perm G.rows := by
  have fields : ∀ H : FileSet, (H.rows.map Row.text).map readFields =
      H.rows.map fun r => (r.digest, r.target) := by
    intro H
    rw [List.map_map]
    exact List.map_congr_left fun r hr => r.readFields_text (H.valid r hr)
  have hlines : F.sorted.rows.map Row.text = G.sorted.rows.map Row.text := by
    rw [← F.linesOf_manifest, ← G.linesOf_manifest, h]
  have hrows : F.sorted.rows = G.sorted.rows := by
    have hpairs := congrArg (List.map readFields) hlines
    rw [fields, fields] at hpairs
    refine List.map_injective_iff.mpr (fun a b hab => ?_) hpairs
    cases a
    cases b
    simp_all
  have hF : F.rows.Perm F.sorted.rows := (manifestOrder_perm F.rows).symm
  rw [hrows] at hF
  exact hF.trans (manifestOrder_perm G.rows)

end FileSet

end Azurefin
