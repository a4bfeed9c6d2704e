import Azurefin.Lib.Scan

/-!
# The patterns of the GRUB rewriters

The regular expressions of `patch_installer_grub.py` and `release_iso_grub.py`, and what each matches. A
directive is decided by the first word at or below the place where a line starts, and its arguments may
follow on a later line.

## Main results

* `Azurefin.Grub.matchAt_kernelLine` — the line of a kernel, with the words of its arguments.
* `Azurefin.Grub.findall_unlines` — the directives of lines that have arguments, one for each line.
* `Azurefin.Grub.matchAt_command` — a word in front of a space.
-/

namespace Azurefin.Grub

open Regex

/-! ## The source -/

/-- `linux(?:efi)?` -/
def linux : Regex := .seq (literal "linux".toList) (opt (literal "efi".toList))

/-- `initrd(?:efi)?` -/
def initrd : Regex := .seq (literal "initrd".toList) (opt (literal "efi".toList))

/-- `devicetree` -/
def devicetree : Regex := literal "devicetree".toList

/-- `(.+)$` -/
def toLineEnd : Regex := .seq (.group (some1 (· != '\n'))) .lineEnd

/-- `\s+(.+)$` -/
def arguments : Regex := .seq (some1 isSpace) toLineEnd

/-- `^(\s*)(linux(?:efi)?)\s+(.+)$`, for a line of `splitlines`: it has no newline, so `$` means the same
with and without `re.MULTILINE`. -/
def kernelLine : Regex :=
  .seq .lineStart (.seq (.group (.many isSpace)) (.seq (.group linux) arguments))

/-- `^\s*…\s+(.+)$`, for one word in the place of the dots -/
def directive (word : Regex) : Regex := indented (.seq word arguments)

/-- `^\s*linux(?:efi)?\s+(.+)$` -/
def kernels : Regex := directive linux

/-- `^\s*initrd(?:efi)?\s+(.+)$` -/
def initrds : Regex := directive initrd

/-- `^\s*devicetree\s+(.+)$` -/
def dtbs : Regex := directive devicetree

/-- `^\s*…\s`, for one word in the place of the dots -/
def command (word : Regex) : Regex := indented (.seq word (.char isSpace))

/-- `^\s*devicetree\s` -/
def selectsDevicetree : Regex := command devicetree

/-- `^\s*(?:menuentry|submenu)\s` -/
def menu : Regex := command (.alt (literal "menuentry".toList) (literal "submenu".toList))

/-- `set (?:default|timeout)=.*\n` -/
def settingLine : Regex :=
  .seq (literal "set ".toList)
    (.seq (.alt (literal "default".toList) (literal "timeout".toList))
      (.seq (literal "=".toList) (.seq (.many (· != '\n')) (.char (· == '\n')))))

/-- `^\s*set (?:default|timeout)=.*\n` -/
def setting : Regex := indented settingLine

/-- `(?:romulus-preload-display|azurefin-install)` -/
def entryId : Regex := .alt (literal "romulus-preload-display".toList) (literal "azurefin-install".toList)

/-- `[^{}]` -/
def notBrace (x : Char) : Bool := x != '\x7b' && x != '\x7d'

/-- `^menuentry [^\n]+ --id (?:romulus-preload-display|azurefin-install) \{\n([^{}]+)^\}` -/
def entry : Regex :=
  .seq .lineStart (.seq (literal "menuentry ".toList) (.seq (some1 (· != '\n'))
    (.seq (literal " --id ".toList) (.seq entryId (.seq (literal " \x7b\n".toList)
      (.seq (.group (some1 notBrace)) (.seq .lineStart (literal "\x7d".toList))))))))

/-- `[A-Za-z0-9_.-]` -/
def isLabelChar (x : Char) : Bool := x.isAlphanum || x == '_' || x == '.' || x == '-'

/-- `inst.stage2=hd:LABEL=[A-Za-z0-9_.-]+` -/
def stage2 : Regex :=
  .seq (literal "inst".toList) (.seq (.char (· != '\n'))
    (.seq (literal "stage2=hd:LABEL=".toList) (some1 isLabelChar)))

/-! ## Words -/

def linuxWords : List Text := ["linuxefi".toList, "linux".toList]

def initrdWords : List Text := ["initrdefi".toList, "initrd".toList]

def menuWords : List Text := ["menuentry".toList, "submenu".toList]

variable {word : Regex} {s : Bool} {l t u v w x : Text} {gs ls ws : List Text} {c d : Cursor}

theorem words_of_all (h : ws.all (fun w => !w.isEmpty && w.all (!isSpace ·)) = true) :
    ∀ w ∈ ws, w ≠ [] ∧ ∀ x ∈ w, isSpace x = false := by
  simpa using h

theorem forall_mem_mem_of_all {p : Char → Bool} (h : ws.all (·.all p) = true) : ∀ w ∈ ws, ∀ x ∈ w, p x = true := by
  simpa using h

theorem words_linux : ∀ w ∈ linuxWords, w ≠ [] ∧ ∀ x ∈ w, isSpace x = false := words_of_all (by decide)

theorem words_initrd : ∀ w ∈ initrdWords, w ≠ [] ∧ ∀ x ∈ w, isSpace x = false := words_of_all (by decide)

theorem words_devicetree : ∀ w ∈ ["devicetree".toList], w ≠ [] ∧ ∀ x ∈ w, isSpace x = false :=
  words_of_all (by decide)

theorem words_menu : ∀ w ∈ menuWords, w ≠ [] ∧ ∀ x ∈ w, isSpace x = false := words_of_all (by decide)

theorem spells_linux : Spells linux linuxWords := spells_opt _ _

theorem spells_initrd : Spells initrd initrdWords := spells_opt _ _

theorem spells_devicetree : Spells devicetree ["devicetree".toList] := spells_literal _

theorem spells_menu : Spells (.alt (literal "menuentry".toList) (literal "submenu".toList)) menuWords :=
  (spells_literal _).alt (spells_literal _)

/-! ## Arguments -/

theorem mem_ends_toLineEnd : d ∈ toLineEnd.ends c ↔ ∃ u v, c.rest = u ++ v ∧ u ≠ [] ∧ '\n' ∉ u ∧
    (∀ x ∈ v.head?, x = '\n') ∧ d = ⟨false, v, c.groups ++ [u]⟩ := by
  rw [toLineEnd, mem_ends_seq]
  constructor
  · rintro ⟨b, hb, hd⟩
    obtain ⟨u, b', hb', hrest, rfl⟩ := mem_ends_group.mp hb
    obtain ⟨u', v, hrest', hne, hu', rfl⟩ := mem_ends_some1.mp hb'
    obtain ⟨hend, rfl⟩ := mem_ends_lineEnd.mp hd
    obtain rfl : u = u' := List.append_cancel_right (hrest.symm.trans hrest')
    have hu : '\n' ∉ u := fun hmem => by simpa using hu' _ hmem
    exact ⟨u, v, hrest, hne, hu, hend, by rw [startsLine_of_not_mem hne hu]⟩
  · rintro ⟨u, v, hrest, hne, hu, hend, rfl⟩
    refine ⟨⟨false, v, c.groups ++ [u]⟩, mem_ends_group.mpr ⟨u, ⟨false, v, c.groups⟩, ?_, hrest, rfl⟩,
      mem_ends_lineEnd.mpr ⟨hend, rfl⟩⟩
    refine mem_ends_some1.mpr ⟨u, v, hrest, hne, fun x hx => ?_, by rw [startsLine_of_not_mem hne hu]⟩
    exact bne_iff_ne.mpr fun hx' => hu (hx' ▸ hx)

/-- `(.+)$` takes what is left of the line. -/
theorem head?_toLineEnd (hx : x.head? ≠ some '\n') (hne : x ≠ []) : (toLineEnd.ends ⟨s, x, gs⟩).head? =
    some ⟨false, x.dropWhile (· != '\n'), gs ++ [x.takeWhile (· != '\n')]⟩ := by
  refine head?_ends_eq (mem_ends_toLineEnd.mpr ⟨_, _, List.takeWhile_append_dropWhile.symm, ?_, ?_, ?_, rfl⟩) ?_
  · cases x with
    | nil => exact absurd rfl hne
    | cons y t => simpa [List.takeWhile_cons] using hx
  · exact fun hmem => by simpa using List.mem_takeWhile_imp hmem
  · intro y hy
    have hnot := List.head?_dropWhile_not (· != '\n') x
    rw [Option.mem_def.mp hy] at hnot
    simpa using hnot
  · intro b hb
    obtain ⟨u, v, hrest, -, hu, hv, rfl⟩ := mem_ends_toLineEnd.mp hb
    obtain rfl : x = u ++ v := hrest
    have hpos : ∀ y ∈ u, (y != '\n') = true := fun y hy => bne_iff_ne.mpr fun hy' => hu (hy' ▸ hy)
    have hneg : ∀ y ∈ v.head?, (y != '\n') = false := fun y hy => by simpa using hv y hy
    rw [takeWhile_append_of_head hpos hneg, dropWhile_append_of_head hpos hneg]

theorem mem_ends_arguments : d ∈ arguments.ends c ↔ ∃ w u v, c.rest = w ++ (u ++ v) ∧ w ≠ [] ∧
    (∀ x ∈ w, isSpace x = true) ∧ u ≠ [] ∧ '\n' ∉ u ∧ (∀ x ∈ v.head?, x = '\n') ∧
      d = ⟨false, v, c.groups ++ [u]⟩ := by
  have hseq : d ∈ arguments.ends c ↔ ∃ b ∈ (some1 isSpace).ends c, d ∈ toLineEnd.ends b := mem_ends_seq
  rw [hseq]
  constructor
  · rintro ⟨b, hb, hd⟩
    obtain ⟨w, t, hrest, hne, hw, rfl⟩ := mem_ends_some1.mp hb
    obtain ⟨u, v, rfl, hu⟩ := mem_ends_toLineEnd.mp hd
    exact ⟨w, u, v, hrest, hne, hw, hu⟩
  · rintro ⟨w, u, v, hrest, hne, hw, hu⟩
    exact ⟨_, mem_ends_some1.mpr ⟨w, u ++ v, hrest, hne, hw, rfl⟩, mem_ends_toLineEnd.mpr ⟨u, v, rfl, hu⟩⟩

/-- Arguments stand behind a space. -/
theorem ends_arguments_eq_nil (h : ∀ x ∈ c.rest.head?, isSpace x = false) : arguments.ends c = [] := by
  rw [List.eq_nil_iff_forall_not_mem]
  intro d hd
  obtain ⟨w, u, v, hrest, hne, hw, -⟩ := mem_ends_arguments.mp hd
  cases w with
  | nil => exact hne rfl
  | cons x w =>
    have hx := h x (by rw [hrest]; rfl)
    rw [hw x List.mem_cons_self] at hx
    cases hx

/-- Behind spaces the arguments begin where something else does. -/
theorem head?_arguments (hw : ∀ y ∈ w, isSpace y = true) (hwne : w ≠ [])
    (hx : ∀ y ∈ x.head?, isSpace y = false) (hne : x ≠ []) : (arguments.ends ⟨s, w ++ x, gs⟩).head? =
      some ⟨false, x.dropWhile (· != '\n'), gs ++ [x.takeWhile (· != '\n')]⟩ := by
  cases w with
  | nil => exact absurd rfl hwne
  | cons y w =>
    obtain ⟨hy, hw⟩ := List.forall_mem_cons.mp hw
    have hhead : x.head? ≠ some '\n' := fun h => absurd (hx '\n' h) (by decide)
    have hlast : (toLineEnd.ends ⟨startsLine (y == '\n') ((w ++ x).takeWhile isSpace),
        (w ++ x).dropWhile isSpace, gs⟩).head? =
        some ⟨false, x.dropWhile (· != '\n'), gs ++ [x.takeWhile (· != '\n')]⟩ := by
      rw [takeWhile_append_of_head hw hx, dropWhile_append_of_head hw hx, head?_toLineEnd hhead hne]
    have hends : arguments.ends ⟨s, y :: (w ++ x), gs⟩ =
        (runs isSpace gs (y == '\n') (w ++ x)).flatMap toLineEnd.ends := by
      simp [arguments, some1, hy, toLineEnd]
    rw [List.cons_append, hends, head?_flatMap_runs, hlast]
    intro hnil
    rw [hnil] at hlast
    cases hlast

/-- What follows the first word and the spaces behind it -/
def argumentText (l : Text) : Text := (afterWord l).dropWhile isSpace

theorem pySplit_argumentText (l : Text) : pySplit (argumentText l) = pySplit (afterWord l) := by
  conv_rhs => rw [← List.takeWhile_append_dropWhile (p := isSpace) (l := afterWord l), pySplit,
    wordsBy_append_left fun c hc => List.mem_takeWhile_imp hc]
  rfl

/-- In front of a line end the arguments are what follows the word in its line. -/
theorem head?_arguments_line (hl : '\n' ∉ l) (hargs : argumentText l ≠ []) (hu : ∀ x ∈ u.head?, x = '\n') :
    (arguments.ends ⟨s, afterWord l ++ u, gs⟩).head? = some ⟨false, u, gs ++ [argumentText l]⟩ := by
  have hafter : afterWord l ≠ [] := fun h => hargs (by rw [argumentText, h]; rfl)
  have hspaces : (afterWord l).takeWhile isSpace ≠ [] := by
    cases hcase : afterWord l with
    | nil => exact absurd hcase hafter
    | cons x v =>
      have hx := isSpace_afterWord l x (by rw [hcase]; rfl)
      simp [hx]
  have hnewline : '\n' ∉ argumentText l := fun h =>
    hl (List.dropWhile_subset _ (List.dropWhile_subset _ (List.dropWhile_subset _ h)))
  have hpos : ∀ x ∈ argumentText l, (x != '\n') = true := fun x hx => bne_iff_ne.mpr fun h => hnewline (h ▸ hx)
  have hneg : ∀ x ∈ u.head?, (x != '\n') = false := fun x hx => by simpa using hu x hx
  have hstart : ∀ x ∈ (argumentText l ++ u).head?, isSpace x = false := by
    cases hcase : argumentText l with
    | nil => exact absurd hcase hargs
    | cons x v =>
      rintro y hy
      obtain rfl : x = y := by simpa using hy
      have hnot := List.head?_dropWhile_not isSpace (afterWord l)
      rw [← argumentText, hcase] at hnot
      simpa using hnot
  have htext : afterWord l ++ u = (afterWord l).takeWhile isSpace ++ (argumentText l ++ u) := by
    rw [← List.append_assoc, argumentText, List.takeWhile_append_dropWhile]
  rw [htext, head?_arguments (fun y hy => List.mem_takeWhile_imp hy) hspaces hstart (by simp [hargs]),
    takeWhile_append_of_head hpos hneg, dropWhile_append_of_head hpos hneg]

/-- Where only spaces are left, the arguments are spaces, if something but newlines is behind the first. -/
theorem ends_arguments_blank (hv : ∀ x ∈ v, isSpace x = true) :
    arguments.ends ⟨s, v, gs⟩ ≠ [] ↔ ∃ x ∈ v.tail, x ≠ '\n' := by
  constructor
  · intro h
    obtain ⟨d, hd⟩ := List.exists_mem_of_ne_nil _ h
    obtain ⟨w, u, t, rfl, hw, -, hu, hnewline, -, -⟩ := mem_ends_arguments.mp hd
    obtain ⟨y, w, rfl⟩ := List.exists_cons_of_ne_nil hw
    obtain ⟨x, u, rfl⟩ := List.exists_cons_of_ne_nil hu
    exact ⟨x, by simp, fun hx => hnewline (hx ▸ List.mem_cons_self)⟩
  · rintro ⟨x, hx, hne⟩
    cases v with
    | nil => cases hx
    | cons y v =>
      obtain ⟨a, b, rfl⟩ := List.append_of_mem hx
      have htext : y :: (a ++ x :: b) =
          (y :: a) ++ (x :: b.takeWhile (· != '\n') ++ b.dropWhile (· != '\n')) := by
        simp
      have hnewline : '\n' ∉ x :: b.takeWhile (· != '\n') := by
        rw [List.mem_cons, not_or]
        exact ⟨Ne.symm hne, fun h => by simpa using List.mem_takeWhile_imp h⟩
      have hend : ∀ z ∈ (b.dropWhile (· != '\n')).head?, z = '\n' := by
        intro z hz
        have hnot := List.head?_dropWhile_not (· != '\n') b
        rw [Option.mem_def.mp hz] at hnot
        simpa using hnot
      refine List.ne_nil_of_mem (mem_ends_arguments.mpr ⟨y :: a, x :: b.takeWhile (· != '\n'),
        b.dropWhile (· != '\n'), htext, by simp, fun z hz => hv z ?_, by simp, hnewline, hend, rfl⟩)
      exact htext ▸ List.mem_append_left _ hz

theorem pySplit_blank (h : ∀ x ∈ t, isSpace x = true) : pySplit t = [] := by
  have hwords := wordsBy_append_left h []
  rwa [List.append_nil, wordsBy_nil] at hwords

theorem argumentText_eq_nil : argumentText l = [] ↔ ∀ x ∈ afterWord l, isSpace x = true := List.dropWhile_eq_nil_iff

/-! ## Kernel lines -/

/-- A kernel line is decided behind its word. -/
theorem head?_kernelLine (l : Text) : (kernelLine.ends ⟨true, l, []⟩).head? =
    if firstWord l ∈ linuxWords then
      (arguments.ends ⟨false, afterWord l, [l.takeWhile isSpace, firstWord l]⟩).head?
    else none := by
  have hnewline : '\n' ∉ firstWord l := fun h => absurd (isSpace_firstWord l _ h) (by decide)
  have hsolid : Solid linux := solid_spells spells_linux words_linux
  have hends : kernelLine.ends ⟨true, l, []⟩ = (runs isSpace [] true l).flatMap fun d =>
      (Regex.seq (.group linux) arguments).ends (Cursor.capture ⟨true, l, []⟩ d) := by
    simp [kernelLine, List.flatMap_map]
  have hword : ∀ c, (Regex.seq (.group linux) arguments).ends c =
      (linux.ends c).flatMap fun d => arguments.ends (c.capture d) := fun c => by
    simp [List.flatMap_map]
  rw [hends, flatMap_runs]
  · rw [capture_append List.takeWhile_append_dropWhile.symm, ← firstWord_append_afterWord, hword,
      head?_spells (f := fun d => arguments.ends (Cursor.capture _ d)) spells_linux
        (fun w hw => (words_linux w hw).2) (fun c hc => ends_arguments_eq_nil hc) (isSpace_firstWord l)
        (isSpace_afterWord l)]
    split
    case isTrue hw =>
      rw [startsLine_of_not_mem (words_linux _ hw).1 hnewline, capture_append rfl]
      rfl
    case isFalse => rfl
  · intro s x t hx
    rw [hword, Cursor.capture, hsolid s x t _ hx]
    rfl

/-- The line of a kernel with something behind the space -/
def IsKernel (l : Text) : Prop := firstWord l ∈ linuxWords ∧ 2 ≤ (afterWord l).length

/-- The arguments have the words of what follows the kernel's word. -/
theorem matchAt_kernelLine (hl : '\n' ∉ l) (h : IsKernel l) : ∃ args rest,
    kernelLine.matchAt true l = some ([l.takeWhile isSpace, firstWord l, args], rest) ∧
      pySplit args = pySplit (afterWord l) := by
  obtain ⟨hword, hlen⟩ := h
  have hline := head?_kernelLine l
  rw [if_pos hword] at hline
  by_cases hargs : argumentText l = []
  · have hblank := argumentText_eq_nil.mp hargs
    have hsome : ∃ x ∈ (afterWord l).tail, x ≠ '\n' := by
      cases hcase : (afterWord l).tail with
      | nil =>
        have hzero := congrArg List.length hcase
        rw [List.length_tail, List.length_nil] at hzero
        omega
      | cons x v =>
        have hx : x ∈ afterWord l := List.mem_of_mem_tail (by rw [hcase]; exact List.mem_cons_self)
        refine ⟨x, List.mem_cons_self, fun hn => hl ?_⟩
        exact hn ▸ List.dropWhile_subset _ (List.dropWhile_subset _ hx)
    have hends : arguments.ends ⟨false, afterWord l, [l.takeWhile isSpace, firstWord l]⟩ ≠ [] :=
      (ends_arguments_blank hblank).mpr hsome
    obtain ⟨d, hd⟩ := Option.ne_none_iff_exists'.mp (List.head?_eq_none_iff.not.mpr hends)
    obtain ⟨w, u, v, hrest, -, -, -, -, -, rfl⟩ := mem_ends_arguments.mp (List.mem_of_head? hd)
    refine ⟨u, v, by rw [matchAt, hline, hd]; rfl, ?_⟩
    rw [pySplit_blank hblank, pySplit_blank fun x hx => hblank x ?_]
    have hrest' : afterWord l = w ++ (u ++ v) := hrest
    rw [hrest']
    exact List.mem_append_right _ (List.mem_append_left _ hx)
  · have hends : (arguments.ends ⟨false, afterWord l ++ [], [l.takeWhile isSpace, firstWord l]⟩).head? =
        some ⟨false, [], [l.takeWhile isSpace, firstWord l, argumentText l]⟩ :=
      head?_arguments_line hl hargs (by simp)
    rw [List.append_nil] at hends
    exact ⟨argumentText l, [], by rw [matchAt, hline, hends]; rfl, pySplit_argumentText l⟩

theorem matchAt_kernelLine_none (h : ¬ IsKernel l) : kernelLine.matchAt true l = none := by
  rw [matchAt, head?_kernelLine, Option.map_eq_none_iff, ite_eq_right_iff]
  intro hword
  rw [List.head?_eq_none_iff, List.eq_nil_iff_forall_not_mem]
  intro d hd
  obtain ⟨w, u, v, hrest, hw, -, hu, -⟩ := mem_ends_arguments.mp hd
  refine h ⟨hword, ?_⟩
  have hlen := congrArg List.length hrest
  simp only [List.length_append] at hlen
  have hw' := List.length_pos_iff.mpr hw
  have hu' := List.length_pos_iff.mpr hu
  omega

/-! ## Directives -/

theorem anchored_directive (word : Regex) : Anchored (directive word) := anchored_indented _

theorem consumes_directive (word : Regex) : Consumes (.seq word arguments) :=
  (((consumes_char _).seq_left _).seq_left _).seq_right _

section Directives

variable (hr : Spells word ws) (hws : ∀ w ∈ ws, w ≠ [] ∧ ∀ x ∈ w, isSpace x = false)
include hr hws

theorem matchAt_directive (t : Text) : (directive word).matchAt true t =
    if firstWord t ∈ ws then arguments.matchAt false (afterWord t) else none :=
  matchAt_indented_word hr hws (fun _ hc => ends_arguments_eq_nil hc) t

theorem matchAt_directive_line (hl : '\n' ∉ l) (hword : firstWord l ∈ ws) (hargs : argumentText l ≠ [])
    (hu : ∀ x ∈ u.head?, x = '\n') : (directive word).matchAt true (l ++ u) = some ([argumentText l], u) := by
  have hspace : ∀ x ∈ u.head?, isSpace x = true := fun x hx => by rw [hu x hx]; decide
  obtain ⟨hfirst, hafter⟩ := word_append (hws _ hword).1 hspace
  rw [matchAt_directive hr hws, hfirst, if_pos hword, hafter, matchAt, head?_arguments_line hl hargs hu]
  rfl

theorem solid_directive : Solid (.seq word arguments) := (solid_spells hr hws).seq arguments

/-- A line with another word makes no difference to the directives. -/
theorem findall_skip (hl : '\n' ∉ l) (hword : firstWord l ∉ ws) (t : Text) :
    (directive word).findall (l ++ '\n' :: t) = (directive word).findall t := by
  by_cases hblank : firstWord l = []
  · exact findall_indented_blank (solid_directive hr hws) (consumes_directive word)
      (firstWord_eq_nil.mp hblank) hl t
  · have hnone : (directive word).matchAt true (l ++ '\n' :: t) = none := by
      rw [matchAt_directive hr hws, (word_append (u := '\n' :: t) hblank (by simp; decide)).1, if_neg hword]
    exact (anchored_indented _).findFrom_line hl hnone

theorem findall_line (hl : '\n' ∉ l) (hword : firstWord l ∈ ws) (hargs : argumentText l ≠ []) (t : Text) :
    (directive word).findall (l ++ '\n' :: t) = argumentText l :: (directive word).findall t := by
  have hne : l ≠ [] := fun h => (hws _ hword).1 (by rw [h]; rfl)
  have hm := matchAt_directive_line hr hws hl hword hargs (u := '\n' :: t) (by simp)
  rw [findall_eq_findFrom, findFrom_match hne hm, startsLine_of_not_mem hne hl,
    (anchored_directive word).findFrom_newline]
  rfl

/-- The directives of lines that have arguments, one for each line. -/
theorem findall_unlines (hls : ∀ l ∈ ls, '\n' ∉ l) (hargs : ∀ l ∈ ls, firstWord l ∈ ws → argumentText l ≠ [])
    (t : Text) : (directive word).findall (unlines ls ++ t) =
      (ls.filter fun l => ws.contains (firstWord l)).map argumentText ++ (directive word).findall t := by
  induction ls with
  | nil => rfl
  | cons l ls ih =>
    obtain ⟨hl, hls⟩ := List.forall_mem_cons.mp hls
    obtain ⟨hlargs, hargs⟩ := List.forall_mem_cons.mp hargs
    rw [unlines_cons_append]
    by_cases hword : firstWord l ∈ ws
    · rw [findall_line hr hws hl hword (hlargs hword), ih hls hargs]
      simp [hword]
    · rw [findall_skip hr hws hl hword, ih hls hargs]
      simp [hword]

end Directives

theorem anchored_kernels : Anchored kernels := anchored_directive linux

theorem consumes_kernels : Consumes kernels := (consumes_directive linux).indented

theorem matchAt_kernels (t : Text) : kernels.matchAt true t =
    if firstWord t ∈ linuxWords then arguments.matchAt false (afterWord t) else none :=
  matchAt_directive spells_linux words_linux t

/-! ## Commands -/

theorem anchored_command (word : Regex) : Anchored (command word) := anchored_indented _

theorem consumes_command (word : Regex) : Consumes (.seq word (.char isSpace)) := (consumes_char _).seq_right _

section Commands

variable (hr : Spells word ws) (hws : ∀ w ∈ ws, w ≠ [] ∧ ∀ x ∈ w, isSpace x = false)
include hr hws

theorem matchAt_command : (command word).matchAt true t ≠ none ↔ firstWord t ∈ ws ∧ afterWord t ≠ [] := by
  have hspace : ∀ c : Cursor, (∀ x ∈ c.rest.head?, isSpace x = false) → (Regex.char isSpace).ends c = [] := by
    rintro ⟨s, rest, gs⟩ hc
    cases rest with
    | nil => rfl
    | cons x t => simp [hc x rfl]
  rw [command, matchAt_indented_word hr hws hspace]
  split
  case isFalse hw => simp [hw]
  case isTrue hw =>
    cases hafter : afterWord t with
    | nil => simp [matchAt]
    | cons x u =>
      have hx : isSpace x = true := isSpace_afterWord t x (by rw [hafter]; rfl)
      simp [matchAt, hx, hw]

/-- Lines without the word, of which the last is not blank, stand before every match. -/
theorem before_command (hls : ∀ l ∈ ls, '\n' ∉ l) (hnone : ∀ l ∈ ls, firstWord l ∉ ws)
    (hlast : ∀ l ∈ ls.getLast?, firstWord l ≠ []) (t : Text) :
    (command word).before (unlines ls ++ t) = unlines ls ++ (command word).before t := by
  induction ls with
  | nil => rfl
  | cons l ls ih =>
    have hm : (command word).matchAt true (unlines (l :: ls) ++ t) = none := by
      by_contra hm
      obtain ⟨m, hmem, hfirst⟩ := firstWord_unlines hlast (List.cons_ne_nil l ls) t
      exact hnone m hmem (hfirst ▸ ((matchAt_command hr hws).mp hm).1)
    have hlast' : ∀ m ∈ ls.getLast?, firstWord m ≠ [] := fun m hm =>
      hlast m (by rw [List.getLast?_cons, Option.mem_def.mp hm]; rfl)
    obtain ⟨hl, hls⟩ := List.forall_mem_cons.mp hls
    rw [unlines_cons_append] at hm
    rw [unlines_cons_append, unlines_cons_append, (anchored_command word).before_line hl hm,
      ih hls (List.forall_mem_cons.mp hnone).2 hlast']

end Commands

end Azurefin.Grub
