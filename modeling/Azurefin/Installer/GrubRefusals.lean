import Azurefin.Installer.ReleaseGrub

/-!
# What the GRUB rewriters refuse

A configuration is returned or refused with `ValueError`, unless a kernel's arguments are blank: the
patterns give a space back to `(.+)` where nothing else is behind the command, and `args[0]` has no
argument to look at.

## Main results

* `Azurefin.Grub.refuses_iff` — exactly which texts make the rewriters fail in another way.
-/

namespace Azurefin.Grub

open Regex

variable {t u v w c l r text body kernel : Text} {ls gs : List Text} {s : Bool} {e : PyError}

/-- A configuration, or `ValueError` -/
def Clean (x : Except PyError Text) : Prop := (∃ r, x = .ok r) ∨ ∃ message, x = .error (.valueError message)

/-- The command of a kernel with nothing but blanks behind it -/
structure BlankCommand (t indent command blanks : Text) : Prop where
  split : t = indent ++ (command ++ blanks)
  indent_blank : ∀ x ∈ indent, isSpace x = true
  command_mem : command = "linux".toList ∨ command = "linuxefi".toList
  blank : ∀ x ∈ blanks, isSpace x = true

/-- No device tree line, and a kernel line with blanks, at least two, in the place of its arguments, while
every kernel line before it has the installer's kernel -/
def BlankKernel (c : Text) : Prop := selectsDevicetree.search c = none ∧
  ∃ before l after, splitlines c = before ++ l :: after ∧ (∀ k ∈ before, Passes k) ∧
    ∃ indent command blanks, BlankCommand l indent command blanks ∧ 2 ≤ blanks.length

/-- Lines of other commands, and at their end a kernel with blanks in the place of its arguments, behind
the first not only newlines -/
def BlankBody (body : Text) : Prop := ∃ pre t, body = unlines pre ++ t ∧
  (∀ l ∈ pre, '\n' ∉ l ∧ firstWord l ∉ linuxWords) ∧
    ∃ indent command blanks, BlankCommand t indent command blanks ∧ ∃ x ∈ blanks.tail, x ≠ '\n'

/-- One line of the text, and no other, starts an entry, and its body is such a body. -/
def BlankEntry (text : Text) : Prop := ∃ before t after body rest, lineTails text = before ++ t :: after ∧
  EntryAt t body rest ∧ BlankBody body ∧ ∀ u ∈ before ++ after, ∀ body rest, ¬ EntryAt u body rest

/-! ## Blank arguments -/

theorem BlankCommand.words {indent command blanks : Text} (h : BlankCommand t indent command blanks) :
    command ∈ linuxWords ∧ firstWord t = command ∧ afterWord t = blanks := by
  have hcommand : command ∈ linuxWords := by
    rcases h.command_mem with rfl | rfl <;> decide
  obtain ⟨-, hword, hafter⟩ := word_split h.indent_blank (words_linux _ hcommand).1 (words_linux _ hcommand).2
    (fun x hx => h.blank x (List.mem_of_mem_head? hx))
  exact ⟨hcommand, h.split ▸ hword, h.split ▸ hafter⟩

theorem blankCommand_of (hword : firstWord t ∈ linuxWords) (hblank : ∀ x ∈ afterWord t, isSpace x = true) :
    BlankCommand t (t.takeWhile isSpace) (firstWord t) (afterWord t) where
  split := text_eq t
  indent_blank := fun _ hx => List.mem_takeWhile_imp hx
  command_mem := by simpa [linuxWords, or_comm] using hword
  blank := hblank

/-- Behind a space something that is not a space is an argument. -/
theorem head?_arguments_text (hv : ∀ x ∈ v.head?, isSpace x = true) (hne : v.dropWhile isSpace ≠ []) :
    ∃ u rest, (arguments.ends ⟨s, v, gs⟩).head? = some ⟨false, rest, gs ++ [u]⟩ ∧ pySplit u ≠ [] := by
  have hx : ∀ y ∈ (v.dropWhile isSpace).head?, isSpace y = false := by
    intro y hy
    have hnot := List.head?_dropWhile_not isSpace v
    rw [Option.mem_def.mp hy] at hnot
    simpa using hnot
  have hspaces : v.takeWhile isSpace ≠ [] := by
    cases v with
    | nil => exact absurd rfl hne
    | cons x v => simp [hv x rfl]
  have hends : (arguments.ends ⟨s, v.takeWhile isSpace ++ v.dropWhile isSpace, gs⟩).head? = _ :=
    head?_arguments (fun y hy => List.mem_takeWhile_imp hy) hspaces hx hne
  rw [List.takeWhile_append_dropWhile] at hends
  refine ⟨_, _, hends, fun hnil => ?_⟩
  obtain ⟨y, z, hyz⟩ := List.exists_cons_of_ne_nil hne
  have hspace := hx y (by rw [hyz]; rfl)
  have hnewline : (y != '\n') = true := bne_iff_ne.mpr fun hn => by
    rw [hn] at hspace
    exact absurd hspace (by decide)
  have hmem : y ∈ (v.dropWhile isSpace).takeWhile (· != '\n') := by
    rw [hyz]
    simp [hnewline]
  rw [wordsBy_eq_nil hnil y hmem] at hspace
  cases hspace

theorem blankLine_iff : (∃ indent command blanks, BlankCommand l indent command blanks ∧ 2 ≤ blanks.length) ↔
    IsKernel l ∧ lineArgs l = [] := by
  constructor
  · rintro ⟨indent, command, blanks, h, hlen⟩
    obtain ⟨hcommand, hword, hafter⟩ := h.words
    refine ⟨⟨by rwa [hword], by rwa [hafter]⟩, ?_⟩
    rw [lineArgs, hafter]
    exact pySplit_blank h.blank
  · rintro ⟨h, hargs⟩
    exact ⟨_, _, _, blankCommand_of h.1 (wordsBy_eq_nil hargs), h.2⟩

/-! ## The installer's configuration -/

theorem exists_first_failing {p : Text → Prop} (h : ¬ ∀ l ∈ ls, p l) : ∃ before l after,
    ls = before ++ l :: after ∧ (∀ k ∈ before, p k) ∧ ¬ p l := by
  induction ls with
  | nil => exact absurd (List.forall_mem_nil _) h
  | cons l ls ih =>
    by_cases hl : p l
    · obtain ⟨before, k, after, rfl, hbefore, hk⟩ := ih fun hls => h (List.forall_mem_cons.mpr ⟨hl, hls⟩)
      exact ⟨l :: before, k, after, rfl, List.forall_mem_cons.mpr ⟨hl, hbefore⟩, hk⟩
    · exact ⟨[], l, ls, rfl, List.forall_mem_nil _, hl⟩

theorem patchConfig_eq_error (hs : selectsDevicetree.search c = none) (he : patchLines (splitlines c) = .error e) :
    patchConfig c false = .error e := by
  rw [patchConfig, hs, he]
  rfl

/-- Without diagnostics a blank kernel line is the only failure that is not `ValueError`. -/
theorem clean_patchConfig_false (hc : NewlineBreaks c) : Clean (patchConfig c false) ↔ ¬ BlankKernel c := by
  have hline : ∀ l ∈ splitlines c, '\n' ∉ l := fun l hl => (newline_not_mem_splitlines hc l hl).newline_not_mem
  constructor
  · rintro hclean ⟨hs, before, l, after, hsplit, hbefore, hblank⟩
    obtain ⟨hkernel, hargs⟩ := blankLine_iff.mp hblank
    have hl : patchLine l = .error .indexError := by
      rw [patchLine_kernel (hline l (by rw [hsplit]; simp)) hkernel, hargs]
      rfl
    have herror : patchLines (splitlines c) = .error .indexError := by
      rw [hsplit]
      exact patchLines_eq_error (fun k hk => hline k (by rw [hsplit]; simp [hk])) hbefore hl
    rw [patchConfig_eq_error hs herror] at hclean
    rcases hclean with ⟨r, hr⟩ | ⟨message, hm⟩
    · cases hr
    · cases hm
  · intro hblank
    by_cases hs : selectsDevicetree.search c = none
    · by_cases hpass : ∀ l ∈ splitlines c, Passes l
      · rw [patchConfig, hs, patchLines_eq_ok hline hpass]
        simp only [Option.isSome_none, Bool.false_eq_true, if_false, Except.ok_bind]
        split
        · exact .inr ⟨_, rfl⟩
        · exact .inl ⟨_, rfl⟩
      · obtain ⟨before, l, after, hsplit, hbefore, hl⟩ := exists_first_failing hpass
        have hmem : l ∈ splitlines c := by rw [hsplit]; simp
        obtain ⟨hkernel, ⟨hargs, -⟩ | ⟨-, message, he⟩⟩ := patchLine_eq_error (hline l hmem) hl
        · exact absurd ⟨hs, before, l, after, hsplit, hbefore, blankLine_iff.mpr ⟨hkernel, hargs⟩⟩ hblank
        · have herror : patchLines (splitlines c) = .error (.valueError message) := by
            rw [hsplit]
            exact patchLines_eq_error (fun k hk => hline k (by rw [hsplit]; simp [hk])) hbefore he
          exact .inr ⟨message, patchConfig_eq_error hs herror⟩
    · obtain ⟨x, hx⟩ := Option.ne_none_iff_exists'.mp hs
      rw [patchConfig, hx]
      exact .inr ⟨_, rfl⟩

/-- Diagnostic mode finds the kernel line that was printed. -/
theorem search_kernels (hc : NewlineBreaks c) (h : patchConfig c false = .ok r) : kernels.search r ≠ none := by
  obtain ⟨-, hpass, ⟨l, hl, hkernel⟩, rfl⟩ := (patchConfig_eq_ok hc).mp h
  obtain ⟨before, after, hsplit⟩ := List.append_of_mem hl
  have hrewrite : rewriteLine l = kernelLines (l.takeWhile isSpace) (firstWord l) (installerArgs (lineArgs l)) :=
    if_pos hkernel
  have hargs : installerArgs (lineArgs l) ≠ [] := fun hnil => by
    simpa [hnil] using kernelPath_mem_installerArgs (hpass l hl hkernel)
  have hindent : ∀ x ∈ l.takeWhile isSpace, isSpace x = true := fun x hx => List.mem_takeWhile_imp hx
  have hprinted := kernelLine_printed hindent hkernel.1 (word_installerArgs (word_lineArgs l)) hargs
  generalize hk : l.takeWhile isSpace ++ firstWord l ++ ' ' :: joinArgs (installerArgs (lineArgs l)) = k at hprinted
  obtain ⟨hisKernel, -, -, hlineArgs⟩ := hprinted.words
  have hline : '\n' ∉ k := by
    have hbody := body_rewriteLine (newline_not_mem_splitlines hc l hl)
    rw [hrewrite, kernelLines, hk] at hbody
    exact (hbody k List.mem_cons_self).newline_not_mem
  have htext : argumentText k ≠ [] := fun hnil => hargs (by
    rw [← hlineArgs, lineArgs, ← pySplit_argumentText, hnil]
    exact wordsBy_nil _)
  rw [hsplit, List.flatMap_append, List.flatMap_cons, hrewrite, kernelLines, hk, unlines_append, List.cons_append,
    unlines_cons, search, ne_eq, List.head?_eq_none_iff, anchored_kernels.findall_eq_nil consumes_kernels]
  intro hnone
  have hm := hnone _ (mem_lineTails_unlines _ _)
  rw [kernels, matchAt_directive_line spells_linux words_linux hline hisKernel.1 htext (by simp)] at hm
  cases hm

theorem clean_patchConfig (hc : NewlineBreaks c) (diagnostic : Bool) :
    Clean (patchConfig c diagnostic) ↔ ¬ BlankKernel c := by
  cases diagnostic with
  | false => exact clean_patchConfig_false hc
  | true =>
    rw [← clean_patchConfig_false hc, patchConfig_diagnostic]
    cases h : patchConfig c false with
    | error e => exact Iff.rfl
    | ok r =>
      refine iff_of_true ?_ (.inl ⟨r, rfl⟩)
      rw [Except.ok_bind, addDiagnostics]
      obtain ⟨kernel, hkernel⟩ := Option.ne_none_iff_exists'.mp (search_kernels hc h)
      rw [hkernel]
      split
      · exact .inr ⟨_, rfl⟩
      · exact .inl ⟨_, rfl⟩

/-! ## The release's configuration -/

theorem clean_only {items : List Text} {message : String} {f : Text → Except PyError Text} :
    Clean (only items message >>= f) ↔ ∀ item, items = [item] → Clean (f item) := by
  cases h : only items message with
  | ok item =>
    obtain rfl := only_eq_ok.mp h
    simp
  | error e =>
    have he : ∃ message, e = .valueError message := by
      unfold only at h
      split at h
      · cases h
      · exact ⟨message, (Except.error.inj h).symm⟩
    obtain ⟨message', rfl⟩ := he
    refine iff_of_true (.inr ⟨message', rfl⟩) fun item hitem => ?_
    rw [only_eq_ok.mpr hitem] at h
    cases h

theorem clean_require {condition : Bool} {message : String} {f : Unit → Except PyError Text} :
    Clean (require condition message >>= f) ↔ (condition = true → Clean (f ())) := by
  cases condition with
  | true => simp [require]
  | false => exact iff_of_true (.inr ⟨message, rfl⟩) (by simp)

theorem clean_item0 {args : List Text} {f : Text → Except PyError Text} :
    Clean (item0 args >>= f) ↔ ∃ arg, args.head? = some arg ∧ Clean (f arg) := by
  cases args with
  | nil =>
    refine iff_of_false ?_ (by simp)
    rintro (⟨r, hr⟩ | ⟨message, hm⟩)
    · cases hr
    · cases hm
  | cons arg args => simp [item0]

/-- The release is refused in another way where the arguments of the one kernel are blank. -/
theorem clean_patch_iff : Clean (patch text) ↔ ¬ ∃ body kernel, entry.findall text = [body] ∧
    kernels.findall body = [kernel] ∧ pySplit kernel = [] := by
  simp only [patch, clean_only, clean_item0, clean_require]
  constructor
  · rintro hclean ⟨body, kernel, hbody, hkernel, hnil⟩
    obtain ⟨path, hpath, -⟩ := hclean body hbody kernel hkernel
    simp [hnil] at hpath
  · intro h body hbody kernel hkernel
    cases hargs : pySplit kernel with
    | nil => exact absurd ⟨body, kernel, hbody, hkernel, hargs⟩ h
    | cons path others =>
      refine ⟨path, rfl, fun _ stage hstage hfull _ _ => ?_⟩
      have hmem : stage ∈ (path :: others).filter (instStage2.isPrefixOf ·) := by
        rw [hstage]
        exact List.mem_singleton_self _
      obtain ⟨label, rfl, -⟩ := exists_label (List.isPrefixOf_iff_prefix.mp (List.mem_filter.mp hmem).2) hfull
      rw [labelOf_stage, Except.ok_bind]
      simp only [clean_require, clean_item0, Bool.and_eq_true, beq_iff_eq]
      rintro - ⟨hdtbs, hinitrds⟩
      exact ⟨dtbPath, by rw [hdtbs]; rfl, initrdPath, by rw [hinitrds]; rfl, .inl ⟨_, rfl⟩⟩

/-- No kernel is found among blanks. -/
theorem findall_of_blank (hv : ∀ x ∈ v, isSpace x = true) : kernels.findall v = [] := by
  rw [anchored_kernels.findall_eq_nil consumes_kernels]
  intro u hu
  have hsuffix : u <:+ v := by
    rcases List.mem_cons.mp hu with rfl | hu
    · exact List.suffix_rfl
    · obtain ⟨w, rfl⟩ := mem_tailsAfter.mp hu
      exact ⟨w ++ ['\n'], by simp⟩
  rw [matchAt_kernels, firstWord_eq_nil.mpr fun x hx => hv x (hsuffix.subset hx), if_neg (by decide)]

theorem findFrom_blank (hv : ∀ x ∈ v, isSpace x = true) (hs : ∀ x ∈ v.head?, x = '\n') (s : Bool) :
    kernels.findFrom s v = [] := by
  cases s with
  | true => exact findall_of_blank hv
  | false =>
    cases v with
    | nil => rfl
    | cons x v =>
      obtain rfl := hs x rfl
      rw [anchored_kernels.findFrom_newline]
      exact findall_of_blank (List.forall_mem_cons.mp hv).2

/-- The arguments of a kernel are blank where only blanks follow, with more than newlines behind the first. -/
theorem blank_of_matchAt {m : List Text × Text} (hm : kernels.matchAt true t = some m)
    (hnil : pySplit (m.1.headD []) = []) : firstWord t ∈ linuxWords ∧
      (∀ x ∈ afterWord t, isSpace x = true) ∧ ∃ x ∈ (afterWord t).tail, x ≠ '\n' := by
  rw [matchAt_kernels] at hm
  split at hm
  case isFalse => cases hm
  case isTrue hword =>
    have hblank : ∀ x ∈ afterWord t, isSpace x = true := by
      by_contra hnot
      have hne : (afterWord t).dropWhile isSpace ≠ [] := fun h => hnot (List.dropWhile_eq_nil_iff.mp h)
      have hsome : ∃ u rest, (arguments.ends ⟨false, afterWord t, []⟩).head? = some ⟨false, rest, [] ++ [u]⟩ ∧
          pySplit u ≠ [] := head?_arguments_text (isSpace_afterWord t) hne
      obtain ⟨u, rest, hends, hu⟩ := hsome
      rw [matchAt, hends] at hm
      obtain rfl := Option.some.inj hm
      exact hu hnil
    have hends : arguments.ends ⟨false, afterWord t, []⟩ ≠ [] := fun h => by
      rw [matchAt_eq_none.mpr h] at hm
      cases hm
    exact ⟨hword, hblank, (ends_arguments_blank hblank).mp hends⟩

/-- A kernel that does not match has nothing but blanks behind it. -/
theorem blank_of_matchAt_none (hm : kernels.matchAt true t = none) (hword : firstWord t ∈ linuxWords) :
    ∀ x ∈ afterWord t, isSpace x = true := by
  rw [matchAt_kernels, if_pos hword, matchAt_eq_none] at hm
  by_contra hnot
  have hne : (afterWord t).dropWhile isSpace ≠ [] := fun h => hnot (List.dropWhile_eq_nil_iff.mp h)
  have hsome : ∃ u rest, (arguments.ends ⟨false, afterWord t, []⟩).head? = some ⟨false, rest, [] ++ [u]⟩ ∧
      pySplit u ≠ [] := head?_arguments_text (isSpace_afterWord t) hne
  obtain ⟨u, rest, hends, -⟩ := hsome
  rw [hm] at hends
  cases hends

/-- A kernel with blanks is found with blanks for its arguments, and nothing behind it is. -/
theorem findall_blank {indent command blanks : Text} (h : BlankCommand t indent command blanks)
    (hsome : ∃ x ∈ blanks.tail, x ≠ '\n') : ∃ kernel, kernels.findall t = [kernel] ∧ pySplit kernel = [] := by
  obtain ⟨hcommand, hword, hafter⟩ := h.words
  have hends : arguments.ends ⟨false, blanks, []⟩ ≠ [] := (ends_arguments_blank h.blank).mpr hsome
  obtain ⟨d, hd⟩ := Option.ne_none_iff_exists'.mp (List.head?_eq_none_iff.not.mpr hends)
  obtain ⟨w, u, v, hrest, -, -, -, -, hv, rfl⟩ := mem_ends_arguments.mp (List.mem_of_head? hd)
  have hrest' : blanks = w ++ (u ++ v) := hrest
  have htext : t = (indent ++ (command ++ (w ++ u))) ++ v := by rw [h.split, hrest']; simp
  have hm : kernels.matchAt true t = some ([u], v) := by
    rw [matchAt_kernels, hword, if_pos hcommand, hafter, matchAt, hd]
    rfl
  have hne : indent ++ (command ++ (w ++ u)) ≠ [] := by
    simp [(words_linux _ hcommand).1]
  refine ⟨u, ?_, pySplit_blank fun x hx => h.blank x ?_⟩
  · rw [htext] at hm ⊢
    rw [findall_eq_findFrom, findFrom_match hne hm, findFrom_blank (fun x hx => h.blank x ?_) hv]
    · rfl
    · rw [hrest']
      exact List.mem_append_right _ (List.mem_append_right _ hx)
  · rw [hrest']
    exact List.mem_append_right _ (List.mem_append_left _ hx)

theorem BlankBody.cons (hl : '\n' ∉ l) (hword : firstWord l ∉ linuxWords) (h : BlankBody t) :
    BlankBody (l ++ '\n' :: t) := by
  obtain ⟨pre, u, rfl, hpre, hblank⟩ := h
  exact ⟨l :: pre, u, (unlines_cons_append l pre u).symm, List.forall_mem_cons.mpr ⟨⟨hl, hword⟩, hpre⟩, hblank⟩

theorem blankBody_of_matchAt {m : List Text × Text} (hm : kernels.matchAt true t = some m)
    (hnil : pySplit (m.1.headD []) = []) : BlankBody t := by
  obtain ⟨hword, hblank, hsome⟩ := blank_of_matchAt hm hnil
  exact ⟨[], t, rfl, List.forall_mem_nil _, _, _, _, blankCommand_of hword hblank, hsome⟩

/-- The kernels of such a body are one, with blank arguments. -/
theorem blankBody_iff : BlankBody body ↔ ∃ kernel, kernels.findall body = [kernel] ∧ pySplit kernel = [] := by
  constructor
  · rintro ⟨pre, t, rfl, hpre, indent, command, blanks, hblank, hsome⟩
    have hskip : (pre.filter fun l => linuxWords.contains (firstWord l)) = [] :=
      List.filter_eq_nil_iff.mpr fun l hl => by simpa using (hpre l hl).2
    obtain ⟨kernel, hkernel, hnil⟩ := findall_blank hblank hsome
    refine ⟨kernel, ?_, hnil⟩
    rw [kernels, findall_unlines spells_linux words_linux (fun l hl => (hpre l hl).1)
      fun l hl hword => absurd hword (hpre l hl).2, hskip]
    exact hkernel
  · rintro ⟨kernel, hkernel, hnil⟩
    -- the first line start at which the pattern matches gives the kernel
    have hhere : ∀ {t : Text} {m : List Text × Text}, kernels.matchAt true t = some m →
        kernels.findall t = [kernel] → m.1.headD [] = kernel := by
      intro t m hm hfind
      obtain ⟨u, hu, rfl⟩ := consumes_kernels.exists_append hm
      rw [findall_eq_findFrom, findFrom_match hu hm] at hfind
      exact (List.cons.inj hfind).1
    induction body using lineInduction with
    | last l hl =>
      cases hm : kernels.matchAt true l with
      | none =>
        rw [findall_eq_findFrom, anchored_kernels.findFrom_last hl hm] at hkernel
        cases hkernel
      | some m => exact blankBody_of_matchAt hm (by rw [hhere hm hkernel, hnil])
    | cons l t hl ih =>
      cases hm : kernels.matchAt true (l ++ '\n' :: t) with
      | none =>
        rw [findall_eq_findFrom, anchored_kernels.findFrom_line hl hm] at hkernel
        refine BlankBody.cons hl (fun hword => ?_) (ih hkernel)
        obtain ⟨hfirst, hafter⟩ := word_append (u := '\n' :: t) (words_linux _ hword).1 (by simp; decide)
        have hblank := blank_of_matchAt_none hm (hfirst ▸ hword)
        have hnone : kernels.findFrom true t = [] := findall_of_blank fun x hx =>
          hblank x (by rw [hafter]; simp [hx])
        rw [hnone] at hkernel
        cases hkernel
      | some m => exact blankBody_of_matchAt hm (by rw [hhere hm hkernel, hnil])

theorem findall_entry_singleton : entry.findall text = [body] ↔ ∃ before t after rest,
    lineTails text = before ++ t :: after ∧ EntryAt t body rest ∧
      ∀ u ∈ before ++ after, ∀ body rest, ¬ EntryAt u body rest := by
  have hnone : ∀ u, entry.captured u = none ↔ ∀ body rest, ¬ EntryAt u body rest := fun u => by
    rw [Option.eq_none_iff_forall_ne_some]
    exact forall_congr' fun body => by rw [ne_eq, captured_entry, not_exists]
  simp only [findall_entry, List.filterMap_eq_cons_iff, List.filterMap_eq_nil_iff, captured_entry, hnone,
    List.forall_mem_append]
  constructor
  · rintro ⟨before, t, after, hsplit, hbefore, ⟨rest, hat⟩, hafter⟩
    exact ⟨before, t, after, rest, hsplit, hat, hbefore, hafter⟩
  · rintro ⟨before, t, after, rest, hsplit, hat, hbefore, hafter⟩
    exact ⟨before, t, after, hsplit, hbefore, ⟨rest, hat⟩, hafter⟩

theorem clean_patch : Clean (patch text) ↔ ¬ BlankEntry text := by
  rw [clean_patch_iff, not_iff_not]
  constructor
  · rintro ⟨body, kernel, hentry, hkernel⟩
    obtain ⟨before, t, after, rest, hsplit, hat, hnone⟩ := findall_entry_singleton.mp hentry
    exact ⟨before, t, after, body, rest, hsplit, hat, blankBody_iff.mpr ⟨kernel, hkernel⟩, hnone⟩
  · rintro ⟨before, t, after, body, rest, hsplit, hat, hblank, hnone⟩
    obtain ⟨kernel, hkernel⟩ := blankBody_iff.mp hblank
    exact ⟨body, kernel, findall_entry_singleton.mpr ⟨before, t, after, rest, hsplit, hat, hnone⟩, hkernel⟩

/-- **The rewriters refuse with `ValueError` where no kernel has blanks in the place of its arguments.**
In both modes the installer's configuration, and the release's, is returned or refused with
`ValueError`, and nothing else happens, exactly where no such line decides. -/
theorem refuses_iff (hc : NewlineBreaks text) :
    (∀ diagnostic, Clean (patchConfig text diagnostic) ↔ ¬ BlankKernel text) ∧
      (Clean (patch text) ↔ ¬ BlankEntry text) := ⟨clean_patchConfig hc, clean_patch⟩

theorem not_clean_indexError : ¬ Clean (.error .indexError) := by
  rintro (⟨r, hr⟩ | ⟨message, hm⟩)
  · cases hr
  · cases hm

/-- An entry that has two spaces in the place of its kernel's arguments -/
def blankConfig : Text := "menuentry 'a' --id azurefin-install \x7b\nlinux  \n\x7d".toList

theorem refuses_blankConfig : BlankKernel blankConfig ∧ BlankEntry blankConfig := by
  have hc : NewlineBreaks blankConfig := forall_mem_of_all (by decide +kernel)
  have hconfig : patchConfig blankConfig false = .error .indexError := by decide +kernel
  have hpatch : patch blankConfig = .error .indexError := by decide +kernel
  obtain ⟨hline, hentry⟩ := refuses_iff hc
  constructor
  · by_contra h
    exact not_clean_indexError (hconfig ▸ (hline false).mpr h)
  · by_contra h
    exact not_clean_indexError (hpatch ▸ hentry.mpr h)

/-- Both rewriters fail on it with `IndexError`. -/
theorem blankConfig_indexError : NewlineBreaks blankConfig ∧
    (∀ diagnostic, patchConfig blankConfig diagnostic = .error .indexError) ∧
      patch blankConfig = .error .indexError ∧ ¬ Clean (.error .indexError) := by
  refine ⟨forall_mem_of_all (by decide +kernel), fun diagnostic => ?_, by decide +kernel, not_clean_indexError⟩
  cases diagnostic with
  | false => decide +kernel
  | true => decide +kernel

end Azurefin.Grub
