import Azurefin.Lib.Decimal
import Azurefin.Lib.Lines
import Azurefin.Lib.Octal

/-!
# The mount points of the kernel

`iso_workspace.py` reads the mount points from `/proc/self/mountinfo`, line by line and field by
field. The kernel escapes the space, the tab, the newline and the backslash in a field, but Python
takes more characters for spaces and line ends, and they may stand in the root and in the source of a
mount as well as in its path. So the mount points are read back exactly where none of these characters
breaks a line or a field in front of the path or in it: `mountPoints_eq_iff`.
-/

namespace Azurefin

open Decimal (numeral)

/-- `Path(re.sub(…, line.split()[4]))` -/
def mountPoint (line : Text) : Except PyError PurePosixPath :=
  match (pySplit line)[4]? with
  | some field => .ok (.ofText (unescapeOctal field))
  | none => .error .indexError

/-- The mounts in the text of `mountinfo`. -/
def mountPoints (mountinfo : Bytes) : Except PyError (List PurePosixPath) := do
  let text ← readText mountinfo
  (splitlines text).mapM mountPoint

/-! ## What the kernel prints -/

/-- What Python takes for a space and the kernel does not escape. -/
def isOdd (c : Char) : Bool := isSpace c && !octalMarks.contains c

/-- A field that is printed as it is. -/
def Word (w : Text) : Prop := w ≠ [] ∧ ∀ c ∈ w, isSpace c = false

/-- A mount: its numbers, its root in the file system, the mount point, its own options, which are `ro`
or `rw` and others that the kernel knows, and the fields behind them as they are printed. -/
structure MountInfo where
  id : Nat
  parent : Nat
  major : Nat
  minor : Nat
  root : Text
  path : Text
  options : Text
  others : List Text
  rooted : ∃ c ∈ root.head?, isOdd c = false
  word : Word options
  mode : options.head? = some 'r'
  plain : '\\' ∉ options
  printed : ∀ w ∈ others, '\n' ∉ w

namespace MountInfo

def device (m : MountInfo) : Text := numeral m.major ++ ':' :: numeral m.minor

/-- The fields behind the options. -/
def rest (m : MountInfo) : Text := m.others.flatMap fun w => ' ' :: w

/-- A line of `/proc/self/mountinfo` -/
def line (m : MountInfo) : Text :=
  numeral m.id ++ ' ' :: (numeral m.parent ++ ' ' :: (m.device ++ ' ' :: (escapeOctal m.root ++ ' ' ::
    (escapeOctal m.path ++ ' ' :: (m.options ++ m.rest)))))

def render (ms : List MountInfo) : Bytes := utf8 ((ms.map line).flatMap fun l => l ++ ['\n'])

variable {m : MountInfo} {ms : List MountInfo} {c : Char}

theorem isSpace_of_isOdd (h : isOdd c = true) : isSpace c = true ∧ c ∉ octalMarks := by
  simpa [isOdd] using h

theorem isSpace_numeral {n : Nat} (h : c ∈ numeral n) : isSpace c = false := by
  have hdigit : ∀ d, isSpace d = true → d.isDigit = false := by
    simp only [isSpace, List.contains_iff_mem]
    exact forall_mem_of_all (by decide)
  cases hspace : isSpace c with
  | false => rfl
  | true => exact absurd (Decimal.isDigit_of_mem_numeral h) (by simp [hdigit c hspace])

theorem word_numeral (n : Nat) : Word (numeral n) := ⟨Decimal.numeral_ne_nil n, fun _ => isSpace_numeral⟩

theorem word_device (m : MountInfo) : Word m.device := by
  refine ⟨by simp [device], fun c hc => ?_⟩
  rcases List.mem_append.mp hc with hc | hc
  · exact isSpace_numeral hc
  · rcases List.mem_cons.mp hc with rfl | hc
    · decide
    · exact isSpace_numeral hc

/-! ## The words of a line -/

/-- A text without odd characters is printed without spaces. -/
theorem isSpace_escapeOctal {w : Text} (h : ∀ c ∈ w, isOdd c = false) : ∀ c ∈ escapeOctal w, isSpace c = false := by
  intro c hc
  rcases mem_escapeOctal hc with ⟨hw, hmark⟩ | hoctal | rfl
  · simpa [isOdd, hmark] using h c hw
  · exact isSpace_of_isOctal hoctal
  · decide

/-- A text is read as the words between its odd characters. -/
theorem pySplit_escapeOctal (t : Text) : pySplit (escapeOctal t) = (wordsBy isOdd t).map escapeOctal := by
  induction hwords : wordsBy isOdd t generalizing t with
  | nil =>
    have hodd := fun c hc => isSpace_of_isOdd (wordsBy_eq_nil hwords c hc)
    rw [escapeOctal_eq_self fun c hc => (hodd c hc).2]
    simpa [pySplit] using wordsBy_append_left (fun c hc => (hodd c hc).1) []
  | cons w ws ih =>
    obtain ⟨gap, after, rfl, hgap, hne, hw, hafter, hws⟩ := wordsBy_eq_cons hwords
    have hword := isSpace_escapeOctal hw
    have hne' := escapeOctal_ne_nil hne
    have hrest := ih after hws
    rw [escapeOctal_append, escapeOctal_append, escapeOctal_eq_self fun c hc => (isSpace_of_isOdd (hgap c hc)).2,
      List.append_assoc, pySplit, wordsBy_append_left (fun c hc => (isSpace_of_isOdd (hgap c hc)).1), List.map_cons,
      ← hrest]
    cases after with
    | nil =>
      have hnil : escapeOctal [] = [] := rfl
      rw [hnil, List.append_nil, wordsBy_word hne' hword, pySplit, wordsBy_nil]
    | cons d after =>
      have hd := isSpace_of_isOdd (hafter d rfl)
      have hcons : escapeOctal (d :: after) = d :: escapeOctal after := by
        rw [escapeOctal, List.flatMap_cons, octalChar, if_neg (by simpa using hd.2)]
        rfl
      rw [hcons, wordsBy_append_word hne' hword hd.1, pySplit, wordsBy_cons hd.1]

/-- The words of the root behind its first. -/
def rootRest (m : MountInfo) : List Text := (wordsBy isOdd m.root).tail

theorem exists_root (m : MountInfo) : ∃ w, wordsBy isOdd m.root = w :: m.rootRest := by
  obtain ⟨c, hc, hodd⟩ := m.rooted
  obtain ⟨t, ht⟩ := List.head?_eq_some_iff.mp hc
  obtain ⟨w, after, -, -, -, -, hwords⟩ := wordsBy_start hodd t
  rw [← ht] at hwords
  exact ⟨w, by rw [rootRest, hwords, List.tail_cons]⟩

/-- The words of a line. -/
theorem pySplit_line (m : MountInfo) : ∃ w, pySplit m.line = numeral m.id :: numeral m.parent :: m.device ::
    escapeOctal w :: (m.rootRest.map escapeOctal ++ ((wordsBy isOdd m.path).map escapeOctal ++
      m.options :: pySplit m.rest)) := by
  obtain ⟨w, hroot⟩ := m.exists_root
  have hid := word_numeral m.id
  have hparent := word_numeral m.parent
  have hdevice := word_device m
  have hspace : isSpace ' ' = true := by decide
  have hoptions : pySplit (m.options ++ m.rest) = m.options :: pySplit m.rest := by
    unfold rest
    cases m.others with
    | nil => rw [List.flatMap_nil, List.append_nil, pySplit, pySplit, wordsBy_word m.word.1 m.word.2, wordsBy_nil]
    | cons v vs =>
      rw [List.flatMap_cons, List.cons_append, pySplit, wordsBy_append_word m.word.1 m.word.2 hspace, pySplit,
        wordsBy_cons hspace]
  refine ⟨w, ?_⟩
  rw [line, pySplit, wordsBy_append_word hid.1 hid.2 hspace, wordsBy_append_word hparent.1 hparent.2 hspace,
    wordsBy_append_word hdevice.1 hdevice.2 hspace, wordsBy_append_cons hspace, wordsBy_append_cons hspace,
    ← pySplit, ← pySplit, ← pySplit, pySplit_escapeOctal, pySplit_escapeOctal, hoptions, hroot, List.map_cons,
    List.cons_append]

/-- The fifth word of a line, as it is read. -/
theorem mountPoint_line (m : MountInfo) : mountPoint m.line =
    .ok (.ofText ((m.rootRest ++ wordsBy isOdd m.path).headD m.options)) := by
  obtain ⟨w, hwords⟩ := m.pySplit_line
  rw [mountPoint, hwords]
  cases hroot : m.rootRest with
  | cons v vs => simp [unescapeOctal_escapeOctal]
  | nil =>
    cases hpath : wordsBy isOdd m.path with
    | cons v vs => simp [unescapeOctal_escapeOctal]
    | nil => simp [unescapeOctal_eq_self m.plain]

/-! ## Where a path is read back -/

/-- A character of a path is in one of its names. -/
theorem exists_name {t : Text} (hc : c ∈ t) (hslash : c ≠ '/') (hdot : c ≠ '.') :
    ∃ n ∈ (PurePosixPath.ofText t).names, c ∈ n := by
  have hjoin : List.intercalate ['/'] (t.splitOn '/') = t := List.intercalate_splitOn '/'
  rw [← hjoin] at hc
  obtain ⟨n, hn, hc⟩ := (mem_intercalate hc).resolve_left hslash
  refine ⟨n, List.mem_filter.mpr ⟨hn, ?_⟩, hc⟩
  rw [Bool.and_eq_true, bne_iff_ne, bne_iff_ne]
  constructor
  · rintro rfl
    cases hc
  · rintro rfl
    exact hdot (by simpa using hc)

theorem mem_of_name {t n : Text} (hn : n ∈ (PurePosixPath.ofText t).names) (hc : c ∈ n) : c ∈ t := by
  have hmem : c ∈ List.intercalate ['/'] (t.splitOn '/') := mem_intercalate_of_mem (List.mem_filter.mp hn).1 hc
  rwa [List.intercalate_splitOn] at hmem

/-- A path that Python reads as the kernel prints it. -/
def Readable (path : Text) : Prop := path ≠ [] ∧ ∀ c ∈ path, isOdd c = false

/-- The root is one word, and the path is readable. Otherwise the second word of the root is taken for
the path, and it may happen to spell the same one. -/
def PathRead (m : MountInfo) : Prop :=
  match m.rootRest with
  | [] => Readable m.path
  | w :: _ => PurePosixPath.ofText w = .ofText m.path

/-- What is read is the path exactly where this is readable. -/
theorem readable_iff (m : MountInfo) :
    PurePosixPath.ofText ((wordsBy isOdd m.path).headD m.options) = .ofText m.path ↔ Readable m.path := by
  have hplain : ∀ c ∈ (wordsBy isOdd m.path).headD m.options, isOdd c = false := by
    cases hwords : wordsBy isOdd m.path with
    | nil => exact fun c hc => by rw [isOdd, m.word.2 c hc, Bool.false_and]
    | cons w ws => exact (mem_wordsBy (hwords ▸ List.mem_cons_self)).2.1
  constructor
  · intro hpath
    constructor
    · intro hempty
      have hr : 'r' ∈ m.options := List.mem_of_mem_head? m.mode
      obtain ⟨n, hn, -⟩ := exists_name hr (by decide) (by decide)
      rw [hempty, wordsBy_nil, List.headD_nil] at hpath
      rw [hpath] at hn
      cases hn
    · intro c hc
      by_contra hodd
      rw [Bool.not_eq_false] at hodd
      have hslash : c ≠ '/' := by
        rintro rfl
        cases hodd
      have hdot : c ≠ '.' := by
        rintro rfl
        cases hodd
      -- a character of the path is in what is read
      obtain ⟨n, hn, hc⟩ := exists_name hc hslash hdot
      rw [← hpath] at hn
      rw [hplain c (mem_of_name hn hc)] at hodd
      cases hodd
  · rintro ⟨hne, hodd⟩
    rw [wordsBy_word hne hodd, List.headD_cons]

theorem mountPoint_line_iff (m : MountInfo) : mountPoint m.line = .ok (.ofText m.path) ↔ m.PathRead := by
  rw [mountPoint_line, Except.ok.injEq, PathRead]
  cases m.rootRest with
  | nil => exact m.readable_iff
  | cons w ws => rfl

/-! ## Where a line is read as one -/

/-- The line is printed without a line end, but for a carriage return in front of its newline. -/
structure OneLine (m : MountInfo) : Prop where
  root : NewlineBreaks m.root
  path : NewlineBreaks m.path
  others : Body (trimReturn m.rest)

/-- A text is printed without a line end where it has none but newlines. -/
theorem body_escapeOctal {t : Text} : Body (escapeOctal t) ↔ NewlineBreaks t := by
  constructor
  · intro h c hc hend
    by_contra hne
    have hmark : c ∉ octalMarks := by
      intro hmem
      rw [octalMarks, List.mem_cons, List.mem_cons, List.mem_cons, List.mem_singleton] at hmem
      rcases hmem with rfl | rfl | rfl | rfl
      · cases hend
      · cases hend
      · exact hne rfl
      · cases hend
    have hself : octalChar c = [c] := if_neg (by simpa using hmark)
    have hmem : c ∈ escapeOctal t := List.mem_flatMap.mpr ⟨c, hc, by rw [hself]; exact List.mem_singleton_self c⟩
    rw [h c hmem] at hend
    cases hend
  · intro h c hc
    rcases mem_escapeOctal hc with ⟨hmem, hmark⟩ | hoctal | rfl
    · rw [Bool.eq_false_iff]
      intro hend
      rw [h c hmem hend] at hmark
      exact hmark (by decide)
    · exact isLineEnd_of_isSpace (isSpace_of_isOctal hoctal)
    · decide

theorem body_word {w : Text} (h : Word w) : Body w := fun c hc => isLineEnd_of_isSpace (h.2 c hc)

theorem newline_not_mem_of_body {l : Text} (h : Body l) : '\n' ∉ l := fun hmem => by cases h _ hmem

theorem newline_not_mem_line (m : MountInfo) : '\n' ∉ m.line := by
  have hid := newline_not_mem_of_body (body_word (word_numeral m.id))
  have hparent := newline_not_mem_of_body (body_word (word_numeral m.parent))
  have hdevice := newline_not_mem_of_body (body_word m.word_device)
  have hoptions := newline_not_mem_of_body (body_word m.word)
  have hescaped (t : Text) : '\n' ∉ escapeOctal t := by
    intro h
    rcases mem_escapeOctal h with ⟨-, hmark⟩ | h | h
    · exact hmark (by decide)
    · cases h
    · cases h
  have hrest : '\n' ∉ m.rest := by
    intro h
    obtain ⟨w, hw, hmem⟩ := List.mem_flatMap.mp h
    rcases List.mem_cons.mp hmem with h | h
    · cases h
    · exact m.printed w hw h
  simp [line, hid, hparent, hdevice, hoptions, hescaped, hrest]

/-- What the end of a line is read without. -/
theorem trimReturn_line (m : MountInfo) : trimReturn m.line =
    numeral m.id ++ ' ' :: (numeral m.parent ++ ' ' :: (m.device ++ ' ' :: (escapeOctal m.root ++ ' ' ::
      (escapeOctal m.path ++ ' ' :: (m.options ++ trimReturn m.rest))))) := by
  have hoptions : trimReturn (m.options ++ m.rest) = m.options ++ trimReturn m.rest := by
    cases hrest : m.rest with
    | nil =>
      have hlast : m.options.getLast? ≠ some '\r' := fun h => by
        cases m.word.2 _ (List.mem_of_mem_getLast? h)
      rw [List.append_nil, trimReturn_eq_self hlast]
      exact (List.append_nil _).symm
    | cons c t => exact trimReturn_append (List.cons_ne_nil c t) _
  have hcons {u : Text} (h : u ≠ []) (t : Text) : trimReturn (t ++ ' ' :: u) = t ++ ' ' :: trimReturn u := by
    rw [← List.singleton_append, ← List.append_assoc, trimReturn_append h, List.append_assoc]
    rfl
  rw [line, hcons (by simp), hcons (by simp), hcons (by simp), hcons (by simp), hcons (by simp [m.word.1]), hoptions]

theorem body_line_iff (m : MountInfo) : Body (trimReturn m.line) ↔ m.OneLine := by
  have hspace : isLineEnd ' ' = false := by decide
  have hcons (t u : Text) : Body (t ++ ' ' :: u) ↔ Body t ∧ Body u := by
    rw [Body, List.forall_mem_append, List.forall_mem_cons, and_iff_right hspace]
    rfl
  have happend (t u : Text) : Body (t ++ u) ↔ Body t ∧ Body u := List.forall_mem_append
  rw [trimReturn_line, hcons, hcons, hcons, hcons, hcons, happend, body_escapeOctal, body_escapeOctal]
  constructor
  · rintro ⟨-, -, -, hroot, hpath, -, hothers⟩
    exact ⟨hroot, hpath, hothers⟩
  · rintro ⟨hroot, hpath, hothers⟩
    exact ⟨body_word (word_numeral _), body_word (word_numeral _), body_word m.word_device, hroot, hpath,
      body_word m.word, hothers⟩

/-- A carriage return at the end of a line is a space like others. -/
theorem mountPoint_trimReturn (l : Text) : mountPoint (trimReturn l) = mountPoint l := by
  obtain h | h := trimReturn_cases l
  · rw [h]
  · have hwords : pySplit l = pySplit (trimReturn l) := by
      conv_lhs => rw [h]
      exact wordsBy_concat (by decide) _
    rw [mountPoint, mountPoint, hwords]

end MountInfo

open MountInfo

/-- **Every mount point is read back exactly where each line is read as one and its path as the fifth
word.** Python splits fields and lines at more characters than the kernel escapes. -/
theorem mountPoints_eq_iff (ms : List MountInfo) :
    mountPoints (render ms) = .ok (ms.map fun m => .ofText m.path) ↔ ∀ m ∈ ms, m.OneLine ∧ m.PathRead := by
  have hlines : splitlines (universalNewlines ((ms.map line).flatMap fun l => l ++ ['\n'])) =
      ((ms.map line).map trimReturn).flatMap fun l => (l.map readChar).splitOnP isLineEnd :=
    splitlines_universalNewlines (List.forall_mem_map.mpr fun m _ => newline_not_mem_line m)
  have hsame : (∀ m ∈ ms, m.OneLine) → (((ms.map line).map trimReturn).flatMap fun l =>
      (l.map readChar).splitOnP isLineEnd) = (ms.map line).map trimReturn := by
    intro hone
    have hbody : ∀ l ∈ (ms.map line).map trimReturn, (l.map readChar).splitOnP isLineEnd = [l] :=
      List.forall_mem_map.mpr (List.forall_mem_map.mpr fun m hm =>
        splitOnP_readChar (m.body_line_iff.mpr (hone m hm)))
    rw [List.flatMap_congr hbody, List.flatMap_singleton']
  have hread : ((ms.map line).map trimReturn).mapM mountPoint = .ok (ms.map fun m => .ofText m.path) ↔
      ∀ m ∈ ms, m.PathRead := by
    rw [Except.mapM_eq_ok_iff, List.forall₂_map_left_iff, List.forall₂_map_left_iff, List.forall₂_map_right_iff,
      List.forall₂_same]
    simp only [mountPoint_trimReturn, mountPoint_line_iff]
  rw [mountPoints, render, readText_utf8, Except.ok_bind, hlines]
  constructor
  · intro h
    have hlength := (Except.mapM_eq_ok_iff.mp h).length_eq
    rw [List.length_map, ← @List.length_map _ _ ms line, ← @List.length_map _ _ (ms.map line) trimReturn] at hlength
    have hone : ∀ m ∈ ms, m.OneLine := fun m hm => m.body_line_iff.mp
      (body_of_length_flatMap hlength _ (List.mem_map_of_mem (List.mem_map_of_mem hm)))
    rw [hsame hone, hread] at h
    exact fun m hm => ⟨hone m hm, h m hm⟩
  · intro h
    rw [hsame fun m hm => (h m hm).1, hread]
    exact fun m hm => (h m hm).2

/-- An image that is mounted in a workspace whose path has a no-break space -/
def sampleMount : MountInfo where
  id := 41
  parent := 28
  major := 7
  minor := 0
  root := "/".toList
  path := "/my\u00a0work/audit/iso".toList
  options := "ro,relatime".toList
  others := ["-".toList, "iso9660".toList, "/dev/loop0".toList, "ro".toList]
  rooted := ⟨'/', rfl, by decide⟩
  word := ⟨by decide, forall_mem_of_all (by decide)⟩
  mode := rfl
  plain := by decide
  printed := forall_mem_of_all (by decide)

/-- The path ends at the no-break space, so the mount is not seen in the workspace. -/
theorem sampleMount_unseen : mountPoints (render [sampleMount]) = .ok [.ofText "/my".toList] ∧
    mountPoints (render [sampleMount]) ≠ .ok [.ofText sampleMount.path] := by
  have hread : mountPoints (render [sampleMount]) = .ok [.ofText "/my".toList] := by
    rw [mountPoints, render, readText_utf8, Except.ok_bind]
    decide +kernel
  refine ⟨hread, fun h => ?_⟩
  rw [hread] at h
  revert h
  decide +kernel

end Azurefin
