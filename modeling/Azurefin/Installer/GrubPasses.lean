import Azurefin.Installer.AuditedBoot

/-!
# Both GRUB rewriters

What the release makes of a configuration that the installer image got in diagnostic mode. The release
starts from the last of the three entries that were added; the arguments of its kernel are printed twice
and read twice. Of the rest of the configuration the lines in front of the first menu entry stay, with
what begins within them, `rescueConfig`.

## Main results

* `Azurefin.Grub.findall_rewritten` — rewriting kernel lines makes no entry.
* `Azurefin.Grub.findall_addedText` — of the added entries the release finds the last.
* `Azurefin.Grub.unmarked_before` — no entry begins within a line that stays where none did.
* `Azurefin.Grub.passes_compose` — the arguments that the release boots with.
-/

namespace Azurefin.Grub

open Regex

variable {s : Bool} {a c l r t label : Text} {args ls : List Text}

/-! ## Where an entry ends -/

/-- The brace of an entry is the next one, and at the start of a line. -/
def Closes (s : Bool) (t : Text) : Prop := ∃ body after, t = body ++ '\x7d' :: after ∧
  (∀ x ∈ body, notBrace x = true) ∧ startsLine s body = true

theorem closes_of_head (h : t.head? = some '\x7d') : Closes true t := by
  obtain ⟨after, rfl⟩ := List.head?_eq_some_iff.mp h
  exact ⟨[], after, rfl, List.forall_mem_nil _, rfl⟩

theorem closes_line (hl : '\n' ∉ l) : Closes s (l ++ '\n' :: t) ↔
    s = true ∧ l.head? = some '\x7d' ∨ (∀ x ∈ l, notBrace x = true) ∧ Closes true t := by
  constructor
  · rintro ⟨body, after, htext, hbrace, hstart⟩
    by_cases hn : '\n' ∈ body
    · obtain ⟨k, u, rfl, hk⟩ := List.eq_append_cons_of_mem hn
      have hsplit : l ++ '\n' :: t = k ++ '\n' :: (u ++ '\x7d' :: after) := by simpa using htext
      obtain ⟨rfl, rfl⟩ := append_newline_inj hl hk hsplit
      rw [startsLine_append] at hstart
      obtain ⟨hbrace, hrest⟩ := List.forall_mem_append.mp hbrace
      exact .inr ⟨hbrace, u, after, rfl, (List.forall_mem_cons.mp hrest).2, hstart⟩
    · cases body with
      | nil =>
        refine .inl ⟨hstart, ?_⟩
        cases l with
        | nil => simp at htext
        | cons x l => simpa using (List.cons.inj htext).1
      | cons x body =>
        rw [startsLine_of_not_mem (List.cons_ne_nil x body) hn] at hstart
        cases hstart
  · rintro (⟨rfl, hhead⟩ | ⟨hbrace, body, after, rfl, hbody, hstart⟩)
    · obtain ⟨after, rfl⟩ := List.head?_eq_some_iff.mp hhead
      exact closes_of_head rfl
    · refine ⟨l ++ '\n' :: body, after, by simp, ?_, by rw [startsLine_append]; exact hstart⟩
      exact List.forall_mem_append.mpr ⟨hbrace, List.forall_mem_cons.mpr ⟨by decide, hbody⟩⟩

theorem matchAt_entry_line (hl : '\n' ∉ l) :
    entry.matchAt true (l ++ '\n' :: t) = none ↔ ¬ (EntryLine l ∧ Closes false t) := by
  rw [← not_iff_not, not_not]
  constructor
  · intro hm
    obtain ⟨⟨gs, after⟩, hm⟩ := Option.ne_none_iff_exists'.mp hm
    obtain ⟨body, ⟨k, hk, hbody, hsplit⟩, -⟩ := matchAt_entry.mp hm
    obtain ⟨rfl, rfl⟩ := append_newline_inj hl hk.newline_not_mem hsplit
    exact ⟨hk, body, after, rfl, hbody.2, (startsLine_iff hbody.ne_nil false).mpr hbody.1⟩
  · rintro ⟨hline, body, after, rfl, hbrace, hstart⟩ hm
    have hne : body ≠ [] := by
      rintro rfl
      cases hstart
    have hat : EntryAt (l ++ '\n' :: (body ++ '\x7d' :: after)) body after :=
      ⟨l, hline, ⟨(startsLine_iff hne false).mp hstart, hbrace⟩, rfl⟩
    rw [matchAt_entry.mpr ⟨body, hat, rfl⟩] at hm
    cases hm

theorem findall_entry_line (hl : '\n' ∉ l) : entry.findall (l ++ '\n' :: t) = [] ↔
    ¬ (EntryLine l ∧ Closes false t) ∧ entry.findall t = [] := by
  rw [anchored_entry.findall_eq_nil consumes_entry, anchored_entry.findall_eq_nil consumes_entry, lineTails,
    tailsAfter_line hl, List.forall_mem_cons, matchAt_entry_line hl]

/-! ## Rewritten lines -/

theorem head?_of_firstWord {x : Char} (h : l.head? = some x) (hx : isSpace x = false) :
    (firstWord l).head? = some x := by
  obtain ⟨t, rfl⟩ := List.head?_eq_some_iff.mp h
  simp [firstWord, hx]

/-- A line with a first word that begins with another character does not begin with a brace. -/
theorem head?_ne_brace (h : (firstWord l).head? ≠ some '\x7d') : l.head? ≠ some '\x7d' :=
  fun hl => h (head?_of_firstWord hl (by decide))

theorem notBrace_of_isSpace {x : Char} (h : isSpace x = true) : notBrace x = true := by
  rw [notBrace, Bool.and_eq_true, bne_iff_ne, bne_iff_ne]
  constructor
  · rintro rfl
    exact absurd h (by decide)
  · rintro rfl
    exact absurd h (by decide)

/-- The words of the printed lines are no braces and start no entry. -/
theorem words_kernelLines (h : IsKernel l) : ∃ k d, rewriteLine l = [k, d] ∧
    (firstWord k = firstWord l ∧ ∀ arg ∈ installerArgs (lineArgs l), ∀ x ∈ arg, x ∈ k) ∧
      firstWord d = "devicetree".toList := by
  have hindent : ∀ x ∈ l.takeWhile isSpace, isSpace x = true := fun x hx => List.mem_takeWhile_imp hx
  refine ⟨_, _, by rw [rewriteLine, if_pos h, kernelLines], ⟨?_, fun arg harg x hx => ?_⟩,
    devicetreeLine_iff.mp (devicetreeLine_printed hindent)⟩
  · rw [List.append_assoc]
    exact (word_split (v := ' ' :: joinArgs (installerArgs (lineArgs l))) hindent (words_linux _ h.1).1
      (words_linux _ h.1).2 (by simp; decide)).2.1
  · refine List.mem_append_right _ (List.mem_cons_of_mem _ ?_)
    rw [joinArgs]
    exact mem_intercalate_of_mem harg hx

/-- What has no braces when it is printed had none. -/
theorem notBrace_of_printed (h : IsKernel l)
    (hargs : ∀ arg ∈ installerArgs (lineArgs l), ∀ x ∈ arg, notBrace x = true) : ∀ x ∈ l, notBrace x = true := by
  have hlinux : ∀ w ∈ linuxWords, ∀ x ∈ w, notBrace x = true := forall_mem_mem_of_all (by decide)
  have htext : ∀ x ∈ instText, notBrace x = true := forall_mem_of_all (by decide)
  rw [text_eq l]
  refine List.forall_mem_append.mpr ⟨fun x hx => notBrace_of_isSpace (List.mem_takeWhile_imp hx),
    List.forall_mem_append.mpr ⟨hlinux _ h.1, fun x hx => ?_⟩⟩
  cases hspace : isSpace x with
  | true => exact notBrace_of_isSpace hspace
  | false =>
    obtain ⟨arg, harg, hin⟩ := exists_mem_wordsBy hx hspace
    by_cases htextArg : arg = instText
    · exact htext x (htextArg ▸ hin)
    · refine hargs arg ?_ x hin
      rw [installerArgs_eq, rewrittenArgs]
      exact List.mem_append_left _ (List.mem_filter.mpr ⟨harg, bne_iff_ne.mpr htextArg⟩)

theorem firstWord_brace (h : IsKernel l) : (firstWord l).head? ≠ some '\x7d' ∧ firstWord l ≠ "menuentry".toList := by
  have hwords : ∀ w ∈ linuxWords, w.head? ≠ some '\x7d' ∧ w ≠ "menuentry".toList := forall_mem_of_all (by decide)
  exact hwords _ h.1

/-- Where an entry ends behind the printed lines, one ends behind the line itself. -/
theorem closes_rewriteLine (hl : Body l) (h : Closes s (unlines (rewriteLine l) ++ t)) :
    s = true ∧ l.head? = some '\x7d' ∨ (∀ x ∈ l, notBrace x = true) ∧ Closes true t := by
  have hbody := body_rewriteLine hl
  by_cases hkernel : IsKernel l
  · obtain ⟨k, d, hlines, ⟨hk, hargs⟩, hd⟩ := words_kernelLines hkernel
    rw [hlines] at h hbody
    simp only [List.forall_mem_cons] at hbody
    rw [unlines_cons_append, closes_line hbody.1.newline_not_mem] at h
    rcases h with ⟨-, hhead⟩ | ⟨hbrace, h⟩
    · exact absurd hhead (head?_ne_brace (hk ▸ (firstWord_brace hkernel).1))
    · rw [unlines_cons_append, closes_line hbody.2.1.newline_not_mem] at h
      rcases h with ⟨-, hhead⟩ | ⟨-, h⟩
      · exact absurd hhead (head?_ne_brace (by rw [hd]; decide))
      · exact .inr ⟨notBrace_of_printed hkernel fun arg harg x hx => hbrace x (hargs arg harg x hx), h⟩
  · rw [rewriteLine, if_neg hkernel, unlines_cons_append] at h
    exact (closes_line hl.newline_not_mem).mp h

theorem findall_rewriteLine (hl : Body l) (h : ¬ (EntryLine l ∧ Closes false t)) :
    entry.findall (unlines (rewriteLine l) ++ t) = entry.findall t := by
  have hbody := body_rewriteLine hl
  by_cases hkernel : IsKernel l
  · obtain ⟨k, d, hlines, ⟨hk, -⟩, hd⟩ := words_kernelLines hkernel
    rw [hlines] at hbody ⊢
    refine findall_entry_skip (fun m hm => ⟨(hbody m hm).newline_not_mem, fun hline => ?_⟩) t
    have hword := hline.firstWord_eq
    rcases List.mem_cons.mp hm with rfl | hm
    · exact (firstWord_brace hkernel).2 (hk ▸ hword)
    · rw [List.mem_singleton.mp hm, hd] at hword
      exact absurd hword (by decide)
  · rw [rewriteLine, if_neg hkernel, unlines_cons_append, findall_eq_findFrom]
    exact anchored_entry.findFrom_line hl.newline_not_mem ((matchAt_entry_line hl.newline_not_mem).mpr h)

/-- Lines that are rewritten in front of a text end an entry where they did in front of another. -/
theorem closes_flatMap {u : Text} (hls : ∀ l ∈ ls, Body l) (ht : ∀ s, Closes s t → Closes s u)
    (h : Closes s (unlines (ls.flatMap rewriteLine) ++ t)) : Closes s (unlines ls ++ u) := by
  induction ls generalizing s with
  | nil => exact ht s h
  | cons l ls ih =>
    obtain ⟨hl, hls⟩ := List.forall_mem_cons.mp hls
    rw [List.flatMap_cons, unlines_append, List.append_assoc] at h
    rw [unlines_cons_append, closes_line hl.newline_not_mem]
    exact (closes_rewriteLine hl h).imp_right fun hrest => ⟨hrest.1, ih hls hrest.2⟩

theorem findall_flatMap {u : Text} (hls : ∀ l ∈ ls, Body l) (ht : ∀ s, Closes s t → Closes s u)
    (h : entry.findall (unlines ls ++ u) = []) :
    entry.findall (unlines (ls.flatMap rewriteLine) ++ t) = entry.findall t := by
  induction ls with
  | nil => rfl
  | cons l ls ih =>
    obtain ⟨hl, hls⟩ := List.forall_mem_cons.mp hls
    rw [unlines_cons_append, findall_entry_line hl.newline_not_mem] at h
    rw [List.flatMap_cons, unlines_append, List.append_assoc, findall_rewriteLine hl, ih hls h.2]
    exact fun hentry => h.1 ⟨hentry.1, closes_flatMap hls ht hentry.2⟩

/-- Rewriting the lines of a configuration without such entries makes none. -/
theorem findall_rewritten (hc : NewlineBreaks c) (hnone : entry.findall c = []) (ht : ∀ s, ¬ Closes s t) :
    entry.findall (unlines ((splitlines c).flatMap rewriteLine) ++ t) = entry.findall t := by
  obtain ⟨ls, last, rfl, hls, hlast, hsplit⟩ := exists_lines hc
  rw [hsplit]
  split
  case isTrue hnil => exact findall_flatMap hls (fun s h => absurd h (ht s)) hnone
  case isFalse =>
    -- the last line has no line end in the configuration, and gets one
    rw [List.flatMap_append, List.flatMap_singleton, unlines_append, List.append_assoc, findall_flatMap hls _ hnone,
      findall_rewriteLine hlast fun h => ht false h.2]
    intro s h
    rcases closes_rewriteLine hlast h with ⟨rfl, hhead⟩ | ⟨-, h⟩
    · exact closes_of_head hhead
    · exact absurd h (ht true)

/-! ## The added entries -/

/-- An added entry with another id -/
structure OtherEntry (e : Text × Text × Text) : Prop where
  title : '\n' ∉ e.1
  id : '\n' ∉ e.2.1 ∧ ∀ i ∈ entryIds, ¬ i <:+ e.2.1 ∧ ¬ e.2.1 <:+ i
  extra : '\n' ∉ e.2.2

/-- The lines that are added for an entry -/
def addedLines (args : List Text) (e : Text × Text × Text) : List Text :=
  [] :: entryLines e.1 e.2.1 (joinArgs args ++ e.2.2) dtbPath initrdPath

theorem diagnosticEntries_eq : ∃ e₁ e₂ title, diagnosticEntries =
    [e₁, e₂, (title, "romulus-preload-display".toList, ' ' :: preloadArg)] ∧
      OtherEntry e₁ ∧ OtherEntry e₂ ∧ '\n' ∉ title := by
  refine ⟨_, _, _, rfl, ⟨?_, ⟨?_, ?_⟩, ?_⟩, ⟨?_, ⟨?_, ?_⟩, ?_⟩, ?_⟩
  case refine_3 => exact forall_mem_of_all (by decide +kernel)
  case refine_7 => exact forall_mem_of_all (by decide +kernel)
  all_goals decide +kernel

theorem EntryLine.head?_eq (h : EntryLine l) : l.head? = some 'm' := by
  obtain ⟨title, id, -, -, -, rfl⟩ := h
  rfl

theorem not_entryLine_title {title id : Text} (hid : ∀ i ∈ entryIds, ¬ i <:+ id ∧ ¬ id <:+ i) :
    ¬ EntryLine ("menuentry '".toList ++ (title ++ ("' --id ".toList ++ (id ++ " \x7b".toList)))) := by
  rintro ⟨title', i, hi, -, -, heq⟩
  have hlines : (("menuentry '".toList ++ (title ++ "' --id ".toList)) ++ id) ++ " \x7b".toList =
      (("menuentry ".toList ++ (title' ++ " --id ".toList)) ++ i) ++ " \x7b".toList := by
    simpa only [List.append_assoc] using heq
  have hsplit : ("menuentry '".toList ++ (title ++ "' --id ".toList)) ++ id =
      ("menuentry ".toList ++ (title' ++ " --id ".toList)) ++ i := List.append_cancel_right hlines
  have hleft : id <:+ ("menuentry ".toList ++ (title' ++ " --id ".toList)) ++ i := ⟨_, hsplit⟩
  rcases List.suffix_or_suffix_of_suffix hleft (List.suffix_append _ i) with h | h
  · exact (hid i hi).2 h
  · exact (hid i hi).1 h

theorem newline_not_mem_addedLines {e : Text × Text × Text} (htitle : '\n' ∉ e.1) (hid : '\n' ∉ e.2.1)
    (hextra : '\n' ∉ e.2.2) (hargs : '\n' ∉ joinArgs args) : ∀ l ∈ addedLines args e, '\n' ∉ l := by
  have hdtb : '\n' ∉ dtbPath := by decide +kernel
  have hinitrd : '\n' ∉ initrdPath := by decide +kernel
  simp only [addedLines, entryLines, List.forall_mem_cons, List.mem_append, not_or]
  exact ⟨List.not_mem_nil, ⟨by decide, htitle, by decide, hid, by decide⟩, ⟨by decide, hargs, hextra⟩,
    ⟨by decide, hdtb⟩, ⟨by decide, hinitrd⟩, by decide, List.forall_mem_nil _⟩

/-- Another entry is no entry for the release. -/
theorem not_entryLine_addedLines {e : Text × Text × Text} (he : OtherEntry e) :
    ∀ l ∈ addedLines args e, ¬ EntryLine l := by
  simp only [addedLines, entryLines, List.forall_mem_cons]
  refine ⟨fun h => ?_, not_entryLine_title he.id.2, fun h => ?_, fun h => ?_, fun h => ?_, fun h => ?_,
    List.forall_mem_nil _⟩
  all_goals exact absurd h.head?_eq (by simp)

theorem joinArgs_concat (hne : args ≠ []) (a : Text) : joinArgs (args ++ [a]) = joinArgs args ++ ' ' :: a := by
  obtain ⟨b, args, rfl⟩ := List.exists_cons_of_ne_nil hne
  rw [joinArgs, joinArgs]
  induction args generalizing b with
  | nil => simp
  | cons c args ih =>
    have hrest : List.intercalate [' '] (c :: args ++ [a]) = List.intercalate [' '] (c :: args) ++ ' ' :: a :=
      ih c (List.cons_ne_nil c args)
    rw [List.cons_append, List.cons_append, List.intercalate_cons_cons, ← List.cons_append, hrest,
      List.intercalate_cons_cons]
    simp

/-- Of the added entries the release finds the last, with the preloads behind the arguments. -/
theorem findall_addedText (hne : args ≠ []) (h : Printable (args ++ [preloadArg])) :
    entry.findall (addedText args) = [unlines (bodyLines (joinArgs (args ++ [preloadArg])))] ∧
      ∀ s, ¬ Closes s (addedText args) := by
  obtain ⟨e₁, e₂, title, hentries, he₁, he₂, htitle⟩ := diagnosticEntries_eq
  have hargs : '\n' ∉ joinArgs args := fun hn => newline_not_mem_joinArgs h (by
    rw [joinArgs_concat hne]
    exact List.mem_append_left _ hn)
  have hat := entryAt_entryLines htitle (List.mem_cons_self : "romulus-preload-display".toList ∈ entryIds) h
    (unlines ["set default=romulus-preload-display".toList])
  have htext : addedText args = unlines (addedLines args e₁ ++ (addedLines args e₂ ++ [[]])) ++
      (unlines (entryLines title "romulus-preload-display".toList (joinArgs (args ++ [preloadArg])) dtbPath
        initrdPath) ++ unlines ["set default=romulus-preload-display".toList]) := by
    rw [addedText, hentries, joinArgs_concat hne]
    simp only [List.flatMap_cons, List.flatMap_nil, addedLines, unlines_append, unlines_cons, unlines_nil,
      List.append_assoc, List.append_nil, List.nil_append, List.cons_append]
  have hline₁ := newline_not_mem_addedLines he₁.title he₁.id.1 he₁.extra hargs
  have hline₂ := newline_not_mem_addedLines he₂.title he₂.id.1 he₂.extra hargs
  have hskip : ∀ l ∈ addedLines args e₁ ++ (addedLines args e₂ ++ [[]]), '\n' ∉ l ∧ ¬ EntryLine l := by
    refine List.forall_mem_append.mpr ⟨fun l hl => ⟨hline₁ l hl, not_entryLine_addedLines he₁ l hl⟩,
      List.forall_mem_append.mpr ⟨fun l hl => ⟨hline₂ l hl, not_entryLine_addedLines he₂ l hl⟩, ?_⟩⟩
    exact List.forall_mem_singleton.mpr ⟨List.not_mem_nil, fun h => absurd h.head?_eq (by simp)⟩
  constructor
  · have hdefault : entry.findFrom true (unlines ["set default=romulus-preload-display".toList]) = [] := by
      decide +kernel
    rw [htext, findall_entry_skip hskip, findall_entry_cons hat, anchored_entry.findFrom_newline, hdefault]
  · intro s hs
    rw [htext, addedLines, entryLines, List.cons_append, List.cons_append, unlines_cons_append,
      closes_line List.not_mem_nil] at hs
    rcases hs with ⟨-, hhead⟩ | ⟨-, hs⟩
    · cases hhead
    · rw [unlines_cons_append, closes_line (hline₁ _ (by simp [addedLines, entryLines]))] at hs
      rcases hs with ⟨-, hhead⟩ | ⟨hbrace, -⟩
      · simp at hhead
      · exact absurd (hbrace '\x7b' (by simp)) (by decide)

/-! ## The arguments -/

/-- The arguments that the installer image adds, but for those already there -/
def missingArgs (args : List Text) : List Text :=
  [clkIgnoreUnused, pdIgnoreUnused, instGraphical].filter fun arg => !args.contains arg

/-- The arguments without `inst.text` and what diagnostic mode strips, and behind them the missing required
ones, those of diagnostic mode, and the preloads -/
def composedArgs (args : List Text) : List Text :=
  args.filter (fun arg => arg != instText && !isStripped arg) ++ (missingArgs args ++ (addedArgs ++ [preloadArg]))

/-- What may be added to the arguments of a kernel -/
def newArgs : List Text := [clkIgnoreUnused, pdIgnoreUnused, instGraphical] ++ (addedArgs ++ [preloadArg])

theorem mem_missingArgs (h : a ∈ missingArgs args) : a ∈ [clkIgnoreUnused, pdIgnoreUnused, instGraphical] :=
  List.mem_of_mem_filter h

/-- The first rewriter prints them. -/
theorem composedArgs_eq (hrescue : instRescue ∉ args) :
    diagnosticArgs (installerArgs args) ++ [preloadArg] = composedArgs args := by
  have hcontains : args.contains instRescue = false := by
    rwa [← Bool.not_eq_true, List.contains_iff_mem]
  have hmissing : [clkIgnoreUnused, pdIgnoreUnused, instGraphical].filter
      (fun arg => !args.contains arg && !(arg == instGraphical && args.contains instRescue)) = missingArgs args := by
    refine List.filter_congr fun arg _ => ?_
    rw [hcontains, Bool.and_false, Bool.not_false, Bool.and_true]
  have hkept : (missingArgs args).filter (!isStripped ·) = missingArgs args := by
    have hnot : ∀ arg ∈ [clkIgnoreUnused, pdIgnoreUnused, instGraphical], (!isStripped arg) = true :=
      forall_mem_of_all (by decide +kernel)
    exact List.filter_eq_self.mpr fun arg harg => hnot arg (mem_missingArgs harg)
  rw [installerArgs_eq, rewrittenArgs, hmissing, diagnosticArgs, List.filter_append, hkept, List.filter_filter,
    composedArgs, List.append_assoc, List.append_assoc]
  congr 1
  exact List.filter_congr fun arg _ => Bool.and_comm _ _

/-- What holds of the arguments and of those that may be added -/
theorem forall_composedArgs {P : Text → Prop} (hargs : ∀ arg ∈ args, arg ≠ instText → isStripped arg = false → P arg)
    (hadded : ∀ arg ∈ newArgs, P arg) :
    ∀ arg ∈ composedArgs args, P arg := by
  obtain ⟨hmissing, hadded⟩ := List.forall_mem_append.mp hadded
  refine List.forall_mem_append.mpr ⟨fun arg harg => ?_, List.forall_mem_append.mpr
    ⟨fun arg harg => hmissing arg (mem_missingArgs harg), hadded⟩⟩
  obtain ⟨harg, hkept⟩ := List.mem_filter.mp harg
  rw [Bool.and_eq_true, bne_iff_ne, Bool.not_eq_true'] at hkept
  exact hargs arg harg hkept.1 hkept.2

/-- Arguments with a start that is not stripped are those of the first rewriter. -/
theorem filter_composedArgs {start : Text} (htext : start.isPrefixOf instText = false)
    (hstripped : ∀ arg, start.isPrefixOf arg = true → isStripped arg = false)
    (hadded : newArgs.all (fun arg => !start.isPrefixOf arg) = true) :
    (composedArgs args).filter (start.isPrefixOf ·) = args.filter (start.isPrefixOf ·) := by
  have hnone : ∀ arg ∈ newArgs, ¬ start.isPrefixOf arg = true := by
    simpa only [List.all_eq_true, Bool.not_eq_true', Bool.not_eq_true] using hadded
  obtain ⟨hmissing, hadded⟩ := List.forall_mem_append.mp hnone
  rw [composedArgs, List.filter_append, List.filter_append,
    List.filter_eq_nil_iff.mpr fun arg harg => hmissing arg (mem_missingArgs harg),
    List.filter_eq_nil_iff.mpr hadded, List.append_nil, List.append_nil, List.filter_filter]
  refine List.filter_congr fun arg _ => ?_
  cases hstart : start.isPrefixOf arg with
  | false => rfl
  | true =>
    have hne : arg ≠ instText := by
      rintro rfl
      rw [htext] at hstart
      cases hstart
    rw [hstripped arg hstart, bne_iff_ne.mpr hne]
    rfl

/-- An argument is not stripped for its start where that is none of those that are stripped. -/
theorem isStripped_eq_false {start : Text} (hword : ["quiet".toList, "rhgb".toList, "splash".toList,
      "rd.debug".toList].all (fun w => !start.isPrefixOf w) = true)
    (hstart : ["panic=".toList, "rd.break=".toList, "consoleblank=".toList, "loglevel=".toList,
      "systemd.log_level=".toList].all (fun p => !start.isPrefixOf p && !p.isPrefixOf start) = true)
    (ha : start.isPrefixOf a = true) : isStripped a = false := by
  rw [List.all_eq_true] at hword hstart
  rw [isStripped, Bool.or_eq_false_iff, ← Bool.not_eq_true, List.contains_iff_mem, List.any_eq_false]
  constructor
  · intro hmem
    have hnot := hword a hmem
    rw [ha] at hnot
    cases hnot
  · intro p hp
    have hnot := hstart p hp
    rw [Bool.and_eq_true, Bool.not_eq_true', Bool.not_eq_true'] at hnot
    rw [isPrefixOf_eq_false hnot.1 hnot.2 ha]
    simp

/-- What is asked of a configuration, of the arguments of its first kernel line, and of the label there -/
structure Generated (c : Text) (args : List Text) (label : Text) : Prop where
  breaks : NewlineBreaks c
  noEntry : entry.findall c = []
  first : ((splitlines c).find? fun l => linuxWords.contains (firstWord l)).map lineArgs = some args
  braces : ∀ arg ∈ args, ∀ x ∈ arg, notBrace x = true
  kickstart : (args.filter (instKs.isPrefixOf ·)).length = 1
  stage : args.filter (instStage2.isPrefixOf ·) = ["inst.stage2=hd:LABEL=".toList ++ label]
  safe : Safe label
  rescue : instRescue ∉ args
  liveCheck : "rd.live.check".toList ∉ args
  stops : ∀ arg ∈ args, "rd.break".toList <+: arg → "rd.break=".toList <+: arg

theorem Generated.printable (h : Generated c args label) : Printable (composedArgs args) := by
  have hwords : ∀ arg ∈ newArgs, arg ≠ [] ∧ ∀ x ∈ arg, isSpace x = false := words_of_all (by decide +kernel)
  have hbraces : ∀ arg ∈ newArgs, ∀ x ∈ arg, notBrace x = true := forall_mem_mem_of_all (by decide +kernel)
  obtain ⟨l, -, rfl⟩ := Option.map_eq_some_iff.mp h.first
  exact ⟨forall_composedArgs (fun arg harg _ _ => word_lineArgs l arg harg) hwords,
    forall_composedArgs (fun arg harg _ _ => h.braces arg harg) hbraces, by simp [composedArgs]⟩

theorem Generated.installable (h : Generated c args label) (hpath : args.head? = some kernelPath) :
    Installable (composedArgs args) label where
  path := by
    obtain ⟨others, rfl⟩ := List.head?_eq_some_iff.mp hpath
    have hkept : (kernelPath != instText && !isStripped kernelPath) = true := by decide +kernel
    rw [composedArgs, List.filter_cons, if_pos hkept]
    rfl
  stage := by
    rw [filter_composedArgs (by decide) (fun arg => isStripped_eq_false (by decide) (by decide)) (by decide +kernel)]
    exact h.stage
  safe := h.safe
  kickstart := by
    rw [filter_composedArgs (by decide) (fun arg => isStripped_eq_false (by decide) (by decide)) (by decide +kernel)]
    exact h.kickstart
  preloads := List.any_eq_true.mpr ⟨preloadArg, by simp [composedArgs], by decide +kernel⟩
  goes := by
    have hks : ∀ a, instKs.isPrefixOf a = true → stopsBoot a = false := by
      intro a ha
      rw [stopsBoot, isPrefixOf_eq_false (by decide) (by decide) ha, Bool.false_or, ← Bool.not_eq_true,
        List.contains_iff_mem]
      intro hmem
      have hnot := forall_mem_of_all (p := fun w => instKs.isPrefixOf w = false) (by decide) a hmem
      rw [ha] at hnot
      cases hnot
    have hgoes : ∀ arg ∈ composedArgs args, stopsBoot arg = false := by
      refine forall_composedArgs (fun arg harg _ hstripped => ?_) (forall_mem_of_all (by decide +kernel))
      rw [stopsBoot, Bool.or_eq_false_iff, ← Bool.not_eq_true, ← Bool.not_eq_true, List.contains_iff_mem]
      constructor
      · intro hstop
        rw [List.isPrefixOf_iff_prefix] at hstop
        have hbreak := List.isPrefixOf_iff_prefix.mpr (h.stops arg harg hstop)
        rw [isStripped, Bool.or_eq_false_iff] at hstripped
        exact List.any_eq_false.mp hstripped.2 _ (List.mem_cons_of_mem _ List.mem_cons_self) hbreak
      · intro hmem
        rcases List.mem_cons.mp hmem with rfl | hmem
        · exact h.rescue harg
        · exact h.liveCheck (List.mem_singleton.mp hmem ▸ harg)
    rw [List.any_eq_false]
    intro arg harg
    rw [Bool.not_eq_true]
    rcases mem_setKickstart harg with rfl | harg
    · exact hks _ (isPrefixOf_releaseKs label)
    · exact hgoes arg harg

/-! ## The first kernel -/

/-- A line with a kernel's word and arguments is a kernel line. -/
theorem isKernel_of (hword : firstWord l ∈ linuxWords) (hargs : lineArgs l ≠ []) : IsKernel l := by
  refine ⟨hword, ?_⟩
  cases hcase : afterWord l with
  | nil => exact absurd (by rw [lineArgs, hcase]; exact wordsBy_nil _) hargs
  | cons x v =>
    cases v with
    | nil =>
      have hx := isSpace_afterWord l x (by rw [hcase]; rfl)
      exact absurd (by rw [lineArgs, hcase]; exact pySplit_blank (by simpa using hx)) hargs
    | cons y v => simp

/-- Lines that are no kernel lines stay. -/
theorem flatMap_rewriteLine (h : ∀ l ∈ ls, ¬ IsKernel l) : ls.flatMap rewriteLine = ls := by
  induction ls with
  | nil => rfl
  | cons l ls ih =>
    obtain ⟨hl, hls⟩ := List.forall_mem_cons.mp h
    rw [List.flatMap_cons, ih hls, rewriteLine, if_neg hl]
    rfl

/-- The first kernel line is printed with its new arguments, and diagnostic mode reads them. -/
theorem search_first (hc : NewlineBreaks c) (hpass : ∀ l ∈ splitlines c, Passes l)
    (hfirst : ((splitlines c).find? fun l => linuxWords.contains (firstWord l)).map lineArgs = some args)
    (hne : args ≠ []) : args.head? = some kernelPath ∧ ∃ kernel,
      kernels.search (unlines ((splitlines c).flatMap rewriteLine)) = some kernel ∧
        pySplit kernel = installerArgs args := by
  obtain ⟨l, hl, rfl⟩ := Option.map_eq_some_iff.mp hfirst
  obtain ⟨hword, before, after, hsplit, hbefore⟩ := List.find?_eq_some_iff_append.mp hl
  rw [List.contains_iff_mem] at hword
  have hkernel := isKernel_of hword hne
  have hmem : l ∈ splitlines c := by rw [hsplit]; simp
  have hhead := hpass l hmem hkernel
  have hother : ∀ k ∈ before, firstWord k ∉ linuxWords := fun k hk => by simpa using hbefore k hk
  have hbody := newline_not_mem_splitlines hc
  have hindent : ∀ x ∈ l.takeWhile isSpace, isSpace x = true := fun x hx => List.mem_takeWhile_imp hx
  have hargs : installerArgs (lineArgs l) ≠ [] := fun hnil => by
    simpa [hnil] using kernelPath_mem_installerArgs hhead
  have hrewrite : rewriteLine l = kernelLines (l.takeWhile isSpace) (firstWord l) (installerArgs (lineArgs l)) :=
    if_pos hkernel
  have hprinted := kernelLine_printed hindent hword (word_installerArgs (word_lineArgs l)) hargs
  rw [kernelLines] at hrewrite
  generalize l.takeWhile isSpace ++ firstWord l ++ ' ' :: joinArgs (installerArgs (lineArgs l)) = k at hprinted hrewrite
  obtain ⟨hisKernel, -, -, hlineArgs⟩ := hprinted.words
  have hk : '\n' ∉ k :=
    (body_rewriteLine (hbody l hmem) k (by rw [hrewrite]; exact List.mem_cons_self)).newline_not_mem
  have hwords : pySplit (argumentText k) = installerArgs (lineArgs l) := (pySplit_argumentText k).trans hlineArgs
  have htext : argumentText k ≠ [] := fun hnil => hargs (by rw [← hwords, hnil]; exact wordsBy_nil _)
  have hskip : (before.filter fun k => linuxWords.contains (firstWord k)) = [] :=
    List.filter_eq_nil_iff.mpr fun k hk => by simpa using hother k hk
  refine ⟨hhead, argumentText k, ?_, hwords⟩
  rw [hsplit, List.flatMap_append, flatMap_rewriteLine fun k hk hkernel => hother k hk hkernel.1, List.flatMap_cons,
    hrewrite, unlines_append, List.cons_append, unlines_cons, search, kernels,
    findall_unlines spells_linux words_linux
      (fun k hk => (hbody k (by rw [hsplit]; exact List.mem_append_left _ hk)).newline_not_mem)
      (fun k hk hword => absurd hword (hother k hk)),
    hskip, findall_line spells_linux words_linux hk hisKernel.1 htext]
  rfl

/-! ## In front of the first entry -/

/-- No menu entry can begin in a line: none of its words ends in `menuentry` or `submenu`. -/
def MenuFree (l : Text) : Prop := ∀ w ∈ pySplit l, ∀ m ∈ menuWords, ¬ m <:+ w

instance (l : Text) : Decidable (MenuFree l) :=
  inferInstanceAs (Decidable (∀ w ∈ pySplit l, ∀ m ∈ menuWords, ¬ m <:+ w))

/-- The lines of a configuration in front of its first menu entry -/
def headLines (c : Text) : List Text := (splitlines c).takeWhile fun l => !menuWords.contains (firstWord l)

theorem menuFree_nil : MenuFree [] := by
  rw [MenuFree, pySplit, wordsBy_nil]
  exact List.forall_mem_nil _

/-- Both marks are such a word and a space. -/
theorem MenuFree.unmarked (h : MenuFree l) : Unmarked l := by
  have hnone : ∀ m ∈ menuWords, ¬ m ++ [' '] <:+: l := by
    rintro m hm ⟨u, v, rfl⟩
    obtain ⟨w, hw, hsuffix⟩ := exists_mem_wordsBy_suffix (c := ' ') (words_menu m hm).1 (words_menu m hm).2
      (by decide) u v
    refine h w ?_ m hm hsuffix
    rwa [List.append_assoc, List.append_assoc, List.singleton_append]
  exact ⟨hnone _ List.mem_cons_self, hnone _ (List.mem_cons_of_mem _ List.mem_cons_self)⟩

theorem Unmarked.rdropWhile (h : Unmarked l) : Unmarked (l.rdropWhile isSpace) :=
  have hin : l.rdropWhile isSpace <:+: l := (List.rdropWhile_prefix isSpace l).isInfix
  ⟨fun hm => h.1 (hm.trans hin), fun hm => h.2 (hm.trans hin)⟩

/-- The words of an indented line with arguments -/
theorem pySplit_indented {indent w : Text} (hindent : ∀ x ∈ indent, isSpace x = true)
    (hw : w ≠ [] ∧ ∀ x ∈ w, isSpace x = false) (t : Text) : pySplit (indent ++ w ++ ' ' :: t) = w :: pySplit t := by
  rw [List.append_assoc, pySplit, wordsBy_append_left hindent, wordsBy_append_word hw.1 hw.2 (by decide), pySplit]

theorem mem_pySplit_of_mem_lineArgs (ha : a ∈ lineArgs l) : a ∈ pySplit l := by
  rw [text_eq l]
  rw [lineArgs] at ha
  have hspace := isSpace_afterWord l
  cases hafter : afterWord l with
  | nil =>
    rw [hafter, pySplit, wordsBy_nil] at ha
    exact absurd ha List.not_mem_nil
  | cons x t =>
    rw [hafter] at ha hspace
    have hx : isSpace x = true := hspace x rfl
    rw [pySplit, wordsBy_cons hx] at ha
    rw [← List.append_assoc, pySplit, wordsBy_append_cons hx]
    exact List.mem_append_right _ ha

/-- What is printed for a line has its words and fixed ones. -/
theorem menuFree_rewriteLine (h : MenuFree l) : ∀ k ∈ rewriteLine l, MenuFree k := by
  by_cases hkernel : IsKernel l
  · have hindent : ∀ x ∈ l.takeWhile isSpace, isSpace x = true := fun x hx => List.mem_takeWhile_imp hx
    have hlinux : ∀ w ∈ linuxWords, ∀ m ∈ menuWords, ¬ m <:+ w := forall_mem_of_all (by decide)
    have hmissing : ∀ w ∈ [clkIgnoreUnused, pdIgnoreUnused, instGraphical], ∀ m ∈ menuWords, ¬ m <:+ w :=
      forall_mem_of_all (by decide)
    have hargs : ∀ w ∈ installerArgs (lineArgs l), ∀ m ∈ menuWords, ¬ m <:+ w := by
      rw [installerArgs_eq, rewrittenArgs]
      exact List.forall_mem_append.mpr
        ⟨fun w hw => h w (mem_pySplit_of_mem_lineArgs (List.mem_of_mem_filter hw)),
          fun w hw => hmissing w (List.mem_of_mem_filter hw)⟩
    rw [rewriteLine, if_pos hkernel, kernelLines, List.forall_mem_cons, List.forall_mem_singleton]
    constructor
    · rw [MenuFree, pySplit_indented hindent (words_linux _ hkernel.1), joinArgs, pySplit,
        wordsBy_intercalate (by decide) (word_installerArgs (word_lineArgs l))]
      exact List.forall_mem_cons.mpr ⟨hlinux _ hkernel.1, hargs⟩
    · have hline : l.takeWhile isSpace ++ "devicetree ".toList ++ dtbPath =
          l.takeWhile isSpace ++ "devicetree".toList ++ ' ' :: dtbPath := by simp
      have hdtb : ∀ w ∈ "devicetree".toList :: pySplit dtbPath, ∀ m ∈ menuWords, ¬ m <:+ w :=
        forall_mem_of_all (by decide)
      rw [hline, MenuFree, pySplit_indented hindent (words_devicetree _ List.mem_cons_self)]
      exact hdtb
  · rw [rewriteLine, if_neg hkernel]
    exact List.forall_mem_singleton.mpr h

/-- The added entries begin with a blank line and a menu entry. -/
theorem exists_addedTitle (hargs : '\n' ∉ joinArgs args) : ∃ m t, addedText args = '\n' :: (m ++ '\n' :: t) ∧
    '\n' ∉ m ∧ firstWord m ∈ menuWords := by
  obtain ⟨e₁, e₂, title, hentries, he₁, -, -⟩ := diagnosticEntries_eq
  have hlines := newline_not_mem_addedLines he₁.title he₁.id.1 he₁.extra hargs
  obtain ⟨id, hid⟩ : ∃ id, id = '\x27' :: (e₁.1 ++ ("' --id ".toList ++ (e₁.2.1 ++ " \x7b".toList))) := ⟨_, rfl⟩
  obtain ⟨ls, hls⟩ : ∃ ls, addedLines args e₁ = [] :: ("menuentry".toList ++ ' ' :: id) :: ls := by
    rw [addedLines, entryLines, hid]
    exact ⟨_, rfl⟩
  rw [hls] at hlines
  have hword : firstWord ([] ++ ("menuentry".toList ++ ' ' :: id)) = "menuentry".toList :=
    (word_split (List.forall_mem_nil _) (words_menu _ menuentry_mem).1 (words_menu _ menuentry_mem).2
      (by simp; decide)).2.1
  rw [List.nil_append] at hword
  refine ⟨_, unlines ls ++ ([e₂, (title, "romulus-preload-display".toList, ' ' :: preloadArg)].flatMap (fun e =>
    unlines (addedLines args e)) ++ unlines ["set default=romulus-preload-display".toList]), ?_,
    hlines _ (List.mem_cons_of_mem _ List.mem_cons_self), hword ▸ menuentry_mem⟩
  rw [addedText, hentries, List.flatMap_cons, ← addedLines, hls, List.append_assoc, unlines_cons_append,
    unlines_cons_append, List.nil_append]
  rfl

/-- The lines that the first rewriter prints in front of the first menu entry. Where the configuration
has no entry, the first that is added is the first. -/
theorem exists_menuLine (hc : NewlineBreaks c) (hargs : '\n' ∉ joinArgs args)
    (hfree : ∀ l ∈ headLines c, MenuFree l) : ∃ ks m t,
      unlines ((splitlines c).flatMap rewriteLine) ++ addedText args = unlines ks ++ (m ++ '\n' :: t) ∧
        (∀ k ∈ ks, '\n' ∉ k ∧ MenuFree k) ∧ '\n' ∉ m ∧ firstWord m ∈ menuWords := by
  have hbody := newline_not_mem_splitlines hc
  have hhead : ∀ k ∈ (headLines c).flatMap rewriteLine, '\n' ∉ k ∧ MenuFree k := by
    intro k hk
    obtain ⟨l, hl, hk⟩ := List.mem_flatMap.mp hk
    exact ⟨(body_rewriteLine (hbody l (List.takeWhile_subset _ hl)) k hk).newline_not_mem,
      menuFree_rewriteLine (hfree l hl) k hk⟩
  have hsplit : headLines c ++ (splitlines c).dropWhile (fun l => !menuWords.contains (firstWord l)) =
      splitlines c := List.takeWhile_append_dropWhile
  have hfirst := List.head?_dropWhile_not (fun l => !menuWords.contains (firstWord l)) (splitlines c)
  generalize (splitlines c).dropWhile (fun l => !menuWords.contains (firstWord l)) = rest at hsplit hfirst
  rw [← hsplit] at hbody ⊢
  cases rest with
  | nil =>
    obtain ⟨m, t, hadded, hm, hword⟩ := exists_addedTitle hargs
    refine ⟨(headLines c).flatMap rewriteLine ++ [[]], m, t, ?_, List.forall_mem_append.mpr
      ⟨hhead, List.forall_mem_singleton.mpr ⟨List.not_mem_nil, menuFree_nil⟩⟩, hm, hword⟩
    rw [List.append_nil, hadded, unlines_append, List.append_assoc, unlines_cons_append]
    rfl
  | cons m rest =>
    have hm : firstWord m ∈ menuWords := by simpa using hfirst
    have hother : ¬ IsKernel m := fun hkernel => by
      have hnot : ∀ w ∈ linuxWords, w ∉ menuWords := forall_mem_of_all (by decide)
      exact hnot _ hkernel.1 hm
    refine ⟨(headLines c).flatMap rewriteLine, m, unlines (rest.flatMap rewriteLine) ++ addedText args, ?_, hhead,
      (hbody m (List.mem_append_right _ List.mem_cons_self)).newline_not_mem, hm⟩
    rw [List.flatMap_append, List.flatMap_cons, rewriteLine, if_neg hother, List.singleton_append, unlines_append,
      List.append_assoc, unlines_cons_append]

/-- In the lines of the rewritten configuration in front of its first menu entry no other can begin. -/
theorem unmarked_before {v : Text} (hc : NewlineBreaks c) (hargs : '\n' ∉ joinArgs args)
    (hfree : ∀ l ∈ headLines c, MenuFree l) (hls : ∀ l ∈ ls, '\n' ∉ l ∧ firstWord l ∉ menuWords)
    (h : unlines ((splitlines c).flatMap rewriteLine) ++ addedText args = unlines ls ++ v) : ∀ l ∈ ls, Unmarked l := by
  obtain ⟨ks, m, t, htext, hks, hm, hword⟩ := exists_menuLine hc hargs hfree
  have hfirst : ls <+: ks := prefix_of_unlines_append (fun l hl => (hls l hl).1) (fun k hk => (hks k hk).1) hm
    (fun hmem => (hls m hmem).2 hword) (h.symm.trans htext)
  exact fun l hl => (hks l (hfirst.subset hl)).2.unmarked

/-- **What both rewriters make of a configuration together.** The release accepts what the installer's
rewriter returned in diagnostic mode, and leaves a header without menu entries and one entry, which boots
the Romulus device tree and the installer's initrd with the composed arguments, of which only the
Kickstart file is replaced. Where no entry begins within a line in front of the first one, none does in
the header. -/
theorem passes_compose (hc : Generated c args label) (h : patchConfig c true = .ok r) : ∃ header,
    patch r = .ok (unlines (header ++ entryLines "Install Azurefin".toList "azurefin-install".toList
      (joinArgs (setKickstart label (composedArgs args))) dtbPath initrdPath)) ∧
      (∀ l ∈ header, '\n' ∉ l ∧ firstWord l ∉ menuWords) ∧
      ((∀ l ∈ headLines c, MenuFree l) → (∀ l ∈ header, Unmarked l) ∧
        count menuentryMark (unlines (header ++ entryLines "Install Azurefin".toList "azurefin-install".toList
          (joinArgs (setKickstart label (composedArgs args))) dtbPath initrdPath)) =
            1 + count menuentryMark (joinArgs (setKickstart label (composedArgs args)))) := by
  rw [patchConfig_diagnostic] at h
  obtain ⟨t, ht, hr⟩ := Except.bind_eq_ok.mp h
  obtain ⟨-, hpass, -, rfl⟩ := (patchConfig_eq_ok hc.breaks).mp ht
  obtain ⟨-, kernel, hkernel, rfl⟩ := addDiagnostics_eq_ok.mp hr
  have hne : args ≠ [] := by
    rintro rfl
    cases hc.stage
  obtain ⟨hhead, kernel', hkernel', hwords⟩ := search_first hc.breaks hpass hc.first hne
  obtain rfl : kernel' = kernel := Option.some.inj (hkernel'.symm.trans hkernel)
  rw [hwords] at hr ⊢
  have hargs := composedArgs_eq hc.rescue
  have hprint := hc.printable
  have hdiagnostic : diagnosticArgs (installerArgs args) ≠ [] := by simp [diagnosticArgs, addedArgs]
  rw [← hargs] at hprint
  obtain ⟨hadded, hcloses⟩ := findall_addedText hdiagnostic hprint
  have hnewline : '\n' ∉ joinArgs (diagnosticArgs (installerArgs args)) := fun hn =>
    newline_not_mem_joinArgs hprint (by rw [joinArgs_concat hdiagnostic]; exact List.mem_append_left _ hn)
  rw [hargs] at hprint hadded
  have hentry := (findall_rewritten hc.breaks hc.noEntry hcloses).trans hadded
  obtain ⟨hkernels, hdtbs, hinitrds⟩ := findall_bodyLines hprint
  obtain ⟨ls, v, hbefore, hdelete, hls⟩ := exists_before_menu hentry
  have hunmarked : (∀ l ∈ headLines c, MenuFree l) → ∀ l ∈ ls, Unmarked l := fun hfree =>
    unmarked_before hc.breaks hnewline hfree hls hbefore
  -- what is stripped from a line takes neither property away
  obtain ⟨hs, hlines, hheader, -⟩ := exists_stripped
    (P := fun l => HeaderLine l ∧ ((∀ l ∈ headLines c, MenuFree l) → Unmarked l))
    (fun l hl => ⟨hl.1.rdropWhile, fun hfree => (hl.2 hfree).rdropWhile⟩)
    ⟨headerLine_nil, fun _ => menuFree_nil.unmarked⟩
    (fun l hl => ⟨headerLine_dropSettings hls l hl, fun hfree => hunmarked hfree l ((dropSettings_sublist ls).subset hl)⟩)
  rw [← hdelete] at hlines
  have hprinted : hs ++ settingLines ++ [[]] ++ releaseLines (setKickstart label (composedArgs args)) =
      auditedLines hs (setKickstart label (composedArgs args)) := by simp [auditedLines]
  refine ⟨hs ++ settingLines ++ [[]], ?_, ?_, fun hfree => ?_⟩
  · refine patch_eq_ok.mpr ⟨_, _, label, hentry, hkernels, ?_, hdtbs, hinitrds, ?_⟩
    · rw [pySplit_joinArgs hprint]
      exact hc.installable hhead
    · rw [pySplit_joinArgs hprint, releaseText_eq hlines, ← unlines_append, releaseLines]
      simp only [List.append_assoc, List.cons_append, List.nil_append]
  · rw [List.append_assoc]
    exact List.forall_mem_append.mpr ⟨fun l hl => ⟨(hheader l hl).1.1, (hheader l hl).1.2.1⟩, fun l hl =>
      ⟨(settingLines_unmarked l hl).1.1, (settingLines_unmarked l hl).1.2⟩⟩
  · have hheader' : ∀ l ∈ hs, Unmarked l := fun l hl => (hheader l hl).2 hfree
    constructor
    · rw [List.append_assoc]
      exact List.forall_mem_append.mpr ⟨hheader', fun l hl => (settingLines_unmarked l hl).2⟩
    · have hzero : (hs.map (count menuentryMark)).sum = 0 := sum_count_eq_zero.mpr fun l hl =>
        (count_eq_zero (by decide)).mpr (hheader' l hl).1
      rw [← releaseLines, hprinted, (count_marks hs _).1, hzero, Nat.zero_add]

/-- A configuration with one entry, whose kernel has arguments of every kind -/
def generatedConfig : Text := unlines
  [ "set timeout=60".toList, "menuentry 'a' \x7b".toList,
    " linux /images/pxeboot/vmlinuz inst.text inst.stage2=hd:LABEL=T inst.ks=x quiet rd.break=y".toList,
    " initrd /images/pxeboot/initrd.img".toList, "\x7d".toList ]

def generatedArgs : List Text :=
  [kernelPath, instText, "inst.stage2=hd:LABEL=T".toList, "inst.ks=x".toList, "quiet".toList, "rd.break=y".toList]

/-- What `Generated` asks of these arguments -/
theorem generated_of (hbreaks : NewlineBreaks c) (hnone : entry.findall c = [])
    (hfirst : ((splitlines c).find? fun l => linuxWords.contains (firstWord l)).map lineArgs = some generatedArgs) :
    Generated c generatedArgs "T".toList where
  breaks := hbreaks
  noEntry := hnone
  first := hfirst
  braces := forall_mem_mem_of_all (by decide +kernel)
  kickstart := by decide +kernel
  stage := by decide +kernel
  safe := ⟨by decide, forall_mem_of_all (by decide)⟩
  rescue := by decide +kernel
  liveCheck := by decide +kernel
  stops := forall_mem_of_all (by decide +kernel)

theorem generated_sample : Generated generatedConfig generatedArgs "T".toList :=
  generated_of (forall_mem_of_all (by decide +kernel)) (by decide +kernel) (by decide +kernel)

theorem passes_compose_sample : ∃ r header, patchConfig generatedConfig true = .ok r ∧
    patch r = .ok (unlines (header ++ entryLines "Install Azurefin".toList "azurefin-install".toList
      (joinArgs (setKickstart "T".toList (composedArgs generatedArgs))) dtbPath initrdPath)) ∧
      ∀ l ∈ header, Unmarked l := by
  have hfree : ∀ l ∈ headLines generatedConfig, MenuFree l := forall_mem_of_all (by decide +kernel)
  have hok : (patchConfig generatedConfig true).toOption.isSome = true := by decide +kernel
  cases h : patchConfig generatedConfig true with
  | error e =>
    rw [h] at hok
    cases hok
  | ok r =>
    obtain ⟨header, hpatch, -, hone⟩ := passes_compose generated_sample h
    exact ⟨r, header, rfl, hpatch, (hone hfree).1⟩

/-- The same with an entry within the first line -/
def rescueConfig : Text := "true; menuentry 'Rescue' \x7b true; \x7d".toList ++ '\n' :: generatedConfig

/-- That entry stays in the header. -/
theorem rescueConfig_entries : Generated rescueConfig generatedArgs "T".toList ∧ ∃ r t,
    patchConfig rescueConfig true = .ok r ∧ patch r = .ok t ∧ count menuentryMark t = 2 := by
  refine ⟨generated_of (forall_mem_of_all (by decide +kernel)) (by decide +kernel) (by decide +kernel), ?_⟩
  have hcount : ((patchConfig rescueConfig true >>= patch).toOption.any fun t => count menuentryMark t == 2) = true := by
    decide +kernel
  cases h : patchConfig rescueConfig true >>= patch with
  | error e =>
    rw [h] at hcount
    cases hcount
  | ok t =>
    obtain ⟨r, hr, ht⟩ := Except.bind_eq_ok.mp h
    rw [h] at hcount
    exact ⟨r, t, hr, ht, beq_iff_eq.mp hcount⟩

end Azurefin.Grub
