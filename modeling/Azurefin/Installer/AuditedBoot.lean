import Azurefin.Installer.ReleaseGrub

/-!
# The boot configuration of an audited image

The check of `51-audit-release-iso.sh` on the GRUB configuration of the finished image: it reads
it with the function that wrote it, and counts the menu entries in another way. The texts that it
accepts are printed from their parts, `bootCheck_iff`: one entry stands at the end, and the lines in
front of it set its id as the default and have no mark of another entry, `bootCheck_entry`. What else
the commands in front may do, such as read another file, neither the audit nor the model looks at.

## Main results

* `Azurefin.Grub.bootCheck_iff` — the texts that are accepted.
* `Azurefin.Grub.bootCheck_entry` — their entry, and what stands in front of it.
-/

namespace Azurefin.Grub

open Regex

/-! ## The source -/

/-- `text.count(pat)`, for a pattern that is not empty; the number is what is left of the last
occurrence. -/
def countFrom (pat : Text) : Nat → Text → Nat
  | _, [] => 0
  | n + 1, _ :: t => countFrom pat n t
  | 0, x :: t =>
    if pat.isPrefixOf (x :: t) then countFrom pat (pat.length - 1) t + 1 else countFrom pat 0 t

def count (pat text : Text) : Nat := countFrom pat 0 text

def menuentryMark : Text := "menuentry ".toList

def submenuMark : Text := "submenu ".toList

def defaultMark : Text := "set default=azurefin-install".toList

/-- The Python of the audit ends without an error, in the mode of the installer. -/
def bootCheck (text : Text) : Bool :=
  match patch text with
  | .ok patched => patched == text && Words.contains defaultMark text &&
      (count menuentryMark text == 1 && !Words.contains submenuMark text)
  | .error _ => false

/-! ## Counting -/

variable {pat t u v l text label : Text} {ls hs args : List Text} {n : Nat}

theorem countFrom_append (h : n ≤ u.length) : countFrom pat n (u ++ t) =
    countFrom pat 0 (u.drop n ++ t) := by
  induction u generalizing n with
  | nil =>
    obtain rfl : n = 0 := by simpa using h
    rfl
  | cons x u ih =>
    cases n with
    | zero => rfl
    | succ n => exact ih (by simpa using h)

theorem count_cons_of_ne {x : Char} (h : ¬ pat <+: x :: t) : count pat (x :: t) = count pat t := by
  rw [← List.isPrefixOf_iff_prefix, Bool.not_eq_true] at h
  simp [count, countFrom, h]

/-- An occurrence at the start counts once, and then the text behind it. -/
theorem count_append_self (hpat : pat ≠ []) (t : Text) : count pat (pat ++ t) = count pat t + 1 := by
  obtain ⟨x, w, rfl⟩ := List.exists_cons_of_ne_nil hpat
  have hprefix : (x :: w).isPrefixOf (x :: (w ++ t)) = true :=
    List.isPrefixOf_iff_prefix.mpr (List.prefix_append (x :: w) t)
  rw [List.cons_append, count, countFrom, if_pos hprefix, List.length_cons, Nat.add_sub_cancel,
    countFrom_append (le_refl _), List.drop_length, List.nil_append, count]

theorem count_eq_zero (hpat : pat ≠ []) : count pat t = 0 ↔ ¬ pat <:+: t := by
  induction t with
  | nil => simp [count, countFrom, hpat]
  | cons x t ih =>
    by_cases hp : pat <+: x :: t
    · obtain ⟨u, hu⟩ := hp
      rw [← hu, count_append_self hpat]
      have hin : pat <:+: pat ++ u := (List.prefix_append pat u).isInfix
      simp [hin]
    · rw [count_cons_of_ne hp, ih, List.infix_cons_iff]
      simp [hp]

/-- An occurrence does not go across the end of a line. -/
theorem count_append_newline (hpat : pat ≠ []) (hline : '\n' ∉ pat) (u v : Text) :
    count pat (u ++ '\n' :: v) = count pat u + count pat v := by
  induction hn : u.length using Nat.strong_induction_on generalizing u with
  | _ n ih =>
    subst hn
    cases u with
    | nil =>
      have hnot : ¬ pat <+: '\n' :: v := by
        obtain ⟨x, w, rfl⟩ := List.exists_cons_of_ne_nil hpat
        intro hp
        exact hline ((List.cons_prefix_cons.mp hp).1 ▸ List.mem_cons_self)
      rw [List.nil_append, count_cons_of_ne hnot]
      simp [count, countFrom]
    | cons x u =>
      by_cases hp : pat <+: x :: u
      · obtain ⟨w, hw⟩ := hp
        have hlt : w.length < (x :: u).length := by
          have hpos := List.length_pos_of_ne_nil hpat
          rw [← hw, List.length_append]
          omega
        rw [← hw, List.append_assoc, count_append_self hpat, count_append_self hpat,
          ih w.length hlt w rfl]
        omega
      · have hnot : ¬ pat <+: x :: (u ++ '\n' :: v) := fun h =>
          hp ((Words.prefix_word_append (q := x :: u) hline).mp h)
        rw [List.cons_append, count_cons_of_ne hnot, count_cons_of_ne hp,
          ih u.length (by simp) u rfl]

theorem count_unlines (hpat : pat ≠ []) (hline : '\n' ∉ pat) (ls : List Text) :
    count pat (unlines ls) = (ls.map (count pat)).sum := by
  induction ls with
  | nil => rfl
  | cons l ls ih => rw [unlines_cons, count_append_newline hpat hline, ih, List.map_cons, List.sum_cons]

/-- A text in which a pattern cannot begin does not count. -/
theorem count_append_right {x : Char} {w : Text} (hx : x ∉ u) (t : Text) :
    count (x :: w) (u ++ t) = count (x :: w) t := by
  induction u with
  | nil => rfl
  | cons y u ih =>
    have hne : ¬ x :: w <+: y :: (u ++ t) := fun h =>
      hx ((List.cons_prefix_cons.mp h).1 ▸ List.mem_cons_self)
    rw [List.cons_append, count_cons_of_ne hne, ih (List.not_mem_of_not_mem_cons hx)]

/-! ## The texts that are accepted -/

/-- Neither mark of a menu is in the text. -/
def Unmarked (t : Text) : Prop := ¬ menuentryMark <:+: t ∧ ¬ submenuMark <:+: t

/-- The parts of a text that the audit accepts: the lines of a header, the arguments of the kernel
with the release's Kickstart file, and the label of the medium. -/
structure Audited (hs args : List Text) (label : Text) : Prop where
  header : ∀ l ∈ hs, HeaderLine l ∧ Unmarked l
  trimmed : (unlines hs).rdropWhile isSpace ++ ['\n'] = unlines hs
  last : hs = [[]] ∨ ∀ l ∈ hs.getLast?, firstWord l ≠ []
  printable : Printable args
  installable : Installable args label
  kickstart : setKickstart label args = args
  unmarked : Unmarked (joinArgs args)

/-- The text of these parts. -/
def auditedLines (hs args : List Text) : List Text := hs ++ settingLines ++ [] :: releaseLines args

/-- What was printed from a header is patched into itself. -/
theorem patch_auditedLines (hheader : ∀ l ∈ hs, HeaderLine l)
    (htrimmed : (unlines hs).rdropWhile isSpace ++ ['\n'] = unlines hs)
    (hlast : hs = [[]] ∨ ∀ l ∈ hs.getLast?, firstWord l ≠ []) (hprint : Printable args)
    (hargs : Installable args label) (hks : setKickstart label args = args) :
    patch (unlines (auditedLines hs args)) = .ok (unlines (auditedLines hs args)) := by
  have hwords : ∀ l ∈ hs ++ settingLines, '\n' ∉ l ∧ firstWord l ∉ menuWords :=
    List.forall_mem_append.mpr ⟨fun l hl => ⟨(hheader l hl).1, (hheader l hl).2.1⟩, settingLines_words⟩
  have hlast' : ∀ l ∈ (hs ++ settingLines).getLast?, firstWord l ≠ [] := by
    rw [List.getLast?_append_of_ne_nil _ (by simp [settingLines])]
    intro l hl
    obtain rfl : "set default=azurefin-install".toList = l := Option.some.inj hl
    decide
  have hdropped : (unlines (dropSettings (hs ++ settingLines))).rdropWhile isSpace ++ ['\n'] =
      unlines hs := by
    obtain rfl | hne := hlast
    · decide
    · have hsettings : dropSettings settingLines = [] := by decide
      rw [dropSettings_append (fun l hl => (hheader l hl).2.2) hne, hsettings, List.append_nil,
        htrimmed]
  obtain ⟨hkernels, hdtbs, hinitrds⟩ := findall_bodyLines hprint
  have htext : unlines (auditedLines hs args) =
      unlines (hs ++ settingLines) ++ unlines ([] :: releaseLines args) := unlines_append _ _
  refine patch_eq_ok.mpr ⟨unlines (bodyLines (joinArgs args)), joinArgs args, label, ?_, hkernels, ?_,
    hdtbs, hinitrds, ?_⟩
  · rw [htext, findall_releaseLines hwords hprint]
  · rwa [pySplit_joinArgs hprint]
  · rw [pySplit_joinArgs hprint, hks, htext, before_releaseLines hwords hlast' hprint,
      delete_setting fun l hl => (hwords l hl).1, releaseText_eq hdropped]

/-- The first line of the entry -/
def releaseTitle : Text :=
  "menuentry '".toList ++ ("Install Azurefin".toList ++ ("' --id ".toList ++
    ("azurefin-install".toList ++ " \x7b".toList)))

theorem releaseLines_eq (args : List Text) : releaseLines args = [releaseTitle,
    "  linux ".toList ++ joinArgs args, "  devicetree ".toList ++ dtbPath,
      "  initrd ".toList ++ initrdPath, "\x7d".toList] := rfl

/-- The lines besides the header, the title and the kernel -/
def fixedLines : List Text :=
  settingLines ++ [[], "  devicetree ".toList ++ dtbPath, "  initrd ".toList ++ initrdPath,
    "\x7d".toList]

theorem sum_count_eq_zero : (ls.map (count pat)).sum = 0 ↔ ∀ l ∈ ls, count pat l = 0 := by
  induction ls with
  | nil => simp
  | cons l ls ih => simp [ih]

/-- A pattern that begins in no fixed line counts in the header, in the title and in the arguments. -/
theorem count_auditedLines {x : Char} {w : Text} (hline : '\n' ∉ x :: w)
    (hx : x ∉ "  linux ".toList) (hfixed : ∀ l ∈ fixedLines, count (x :: w) l = 0) :
    count (x :: w) (unlines (auditedLines hs args)) = (hs.map (count (x :: w))).sum +
      (count (x :: w) releaseTitle + count (x :: w) (joinArgs args)) := by
  simp only [fixedLines, List.forall_mem_append, List.forall_mem_cons] at hfixed
  obtain ⟨hsettings, hnil, hdtb, hinitrd, hbrace, -⟩ := hfixed
  rw [count_unlines (List.cons_ne_nil x w) hline, auditedLines, releaseLines_eq]
  simp only [List.map_append, List.sum_append, List.map_cons, List.sum_cons, List.map_nil, List.sum_nil,
    sum_count_eq_zero.mpr hsettings, hnil, hdtb, hinitrd, hbrace, count_append_right hx]
  omega

theorem count_marks (hs args : List Text) :
    count menuentryMark (unlines (auditedLines hs args)) =
        (hs.map (count menuentryMark)).sum + (1 + count menuentryMark (joinArgs args)) ∧
      count submenuMark (unlines (auditedLines hs args)) =
        (hs.map (count submenuMark)).sum + count submenuMark (joinArgs args) := by
  have htitle : count menuentryMark releaseTitle = 1 ∧ count submenuMark releaseTitle = 0 := by
    decide
  have hmenuentry : count menuentryMark (unlines (auditedLines hs args)) =
      (hs.map (count menuentryMark)).sum +
        (count menuentryMark releaseTitle + count menuentryMark (joinArgs args)) :=
    count_auditedLines (by decide) (by decide) (forall_mem_of_all (by decide))
  have hsubmenu : count submenuMark (unlines (auditedLines hs args)) =
      (hs.map (count submenuMark)).sum +
        (count submenuMark releaseTitle + count submenuMark (joinArgs args)) :=
    count_auditedLines (by decide) (by decide) (forall_mem_of_all (by decide))
  rw [htitle.1] at hmenuentry
  rw [htitle.2, Nat.zero_add] at hsubmenu
  exact ⟨hmenuentry, hsubmenu⟩

/-- The counts are as the audit wants them exactly where no other line has a mark. -/
theorem marks_iff (hs args : List Text) :
    (count menuentryMark (unlines (auditedLines hs args)) = 1 ∧
        ¬ submenuMark <:+: unlines (auditedLines hs args)) ↔
      (∀ l ∈ hs, Unmarked l) ∧ Unmarked (joinArgs args) := by
  have hm : menuentryMark ≠ [] := by decide
  have hs' : submenuMark ≠ [] := by decide
  rw [← count_eq_zero hs', (count_marks hs args).1, (count_marks hs args).2]
  have hsum (pat : Text) : (hs.map (count pat)).sum = 0 ↔ ∀ l ∈ hs, count pat l = 0 :=
    sum_count_eq_zero
  simp only [Unmarked, ← count_eq_zero hm, ← count_eq_zero hs']
  constructor
  · rintro ⟨hone, hnone⟩
    have hm₁ := (hsum menuentryMark).mp (by omega)
    have hs₁ := (hsum submenuMark).mp (by omega)
    exact ⟨fun l hl => ⟨hm₁ l hl, hs₁ l hl⟩, by omega, by omega⟩
  · rintro ⟨hall, hargs⟩
    have hm₁ := (hsum menuentryMark).mpr fun l hl => (hall l hl).1
    have hs₁ := (hsum submenuMark).mpr fun l hl => (hall l hl).2
    omega

theorem bootCheck_eq_true : bootCheck text = true ↔ patch text = .ok text ∧
    defaultMark <:+: text ∧ count menuentryMark text = 1 ∧ ¬ submenuMark <:+: text := by
  unfold bootCheck
  split
  · next patched h =>
    simp only [h, Bool.and_eq_true, beq_iff_eq, Except.ok.injEq, Words.contains_iff,
      Bool.not_eq_true', ← Bool.not_eq_true, and_assoc]
  · next e h => simp [h]

/-- The header that `patch` finds is made of lines again. -/
theorem exists_headerLines {body : Text} (hentry : entry.findall text = [body]) : ∃ hs,
    (setting.delete (menu.before text)).rdropWhile isSpace ++ ['\n'] = unlines hs ∧
      (∀ l ∈ hs, HeaderLine l) ∧ (hs = [[]] ∨ ∀ l ∈ hs.getLast?, firstWord l ≠ []) := by
  obtain ⟨ls, -, -, hdelete, hls⟩ := exists_before_menu hentry
  rw [hdelete]
  exact exists_stripped (fun _ h => HeaderLine.rdropWhile h) headerLine_nil (headerLine_dropSettings hls)

/-- The parts of a text that is accepted -/
theorem exists_audited (h : bootCheck text = true) :
    ∃ hs args label, Audited hs args label ∧ text = unlines (auditedLines hs args) := by
  obtain ⟨hpatch, -, hone, hnone⟩ := bootCheck_eq_true.mp h
  obtain ⟨body, kernel, label, hentry, hkernel, hargs, -, -, htext⟩ := patch_eq_ok.mp hpatch
  obtain ⟨hs, hlines, hheader, hlast⟩ := exists_headerLines hentry
  have hne : pySplit kernel ≠ [] := fun hnil => by simpa [hnil] using hargs.path
  have hprint := (printable_kernel hentry hkernel hne).setKickstart hargs.safe
  have hunlines := releaseText_eq hlines (setKickstart label (pySplit kernel))
  rw [← unlines_append, ← htext] at hunlines
  have hmarks := (marks_iff hs (setKickstart label (pySplit kernel))).mp
    (by rw [auditedLines, ← hunlines]; exact ⟨hone, hnone⟩)
  refine ⟨hs, setKickstart label (pySplit kernel), label,
    ⟨fun l hl => ⟨hheader l hl, hmarks.1 l hl⟩, ?_, hlast, hprint, hargs.setKickstart,
      setKickstart_setKickstart label _, hmarks.2⟩, hunlines⟩
  rw [← hlines, List.rdropWhile_concat_pos _ _ _ (by decide), List.rdropWhile_idempotent]

/-- What is printed from the parts is accepted. -/
theorem Audited.bootCheck (h : Audited hs args label) :
    Grub.bootCheck (unlines (auditedLines hs args)) = true := by
  have hmarks := (marks_iff hs args).mpr ⟨fun l hl => (h.header l hl).2, h.unmarked⟩
  refine bootCheck_eq_true.mpr ⟨patch_auditedLines (fun l hl => (h.header l hl).1) h.trimmed h.last
    h.printable h.installable h.kickstart, ?_, hmarks⟩
  have hmem : defaultMark ∈ auditedLines hs args :=
    List.mem_append_left _ (List.mem_append_right _ (List.mem_of_getLast? rfl))
  obtain ⟨a, b, hab⟩ := List.append_of_mem hmem
  rw [hab, unlines_append, unlines_cons]
  exact ⟨unlines a, '\n' :: unlines b, List.append_assoc _ _ _⟩

/-- **What the audit accepts** is printed from the parts of a release, with no mark of a menu in
the header or in the arguments. -/
theorem bootCheck_iff (text : Text) : bootCheck text = true ↔
    ∃ hs args label, Audited hs args label ∧ text = unlines (auditedLines hs args) := by
  constructor
  · exact exists_audited
  · rintro ⟨hs, args, label, h, rfl⟩
    exact h.bootCheck

/-- The one Kickstart argument of a release is its own. -/
theorem filter_instKs (h : Installable args label) (hks : setKickstart label args = args) :
    args.filter (instKs.isPrefixOf ·) = [releaseKs label] := by
  obtain ⟨a, ha⟩ := List.length_eq_one_iff.mp h.kickstart
  have hmem : a ∈ args.filter (instKs.isPrefixOf ·) := by rw [ha]; exact List.mem_singleton_self a
  obtain ⟨hargs, hprefix⟩ := List.mem_filter.mp hmem
  rw [← hks] at hargs
  obtain ⟨b, -, hb⟩ := List.mem_map.mp hargs
  rw [ha]
  split at hb
  · rw [← hb]
    rfl
  · next hnot => exact absurd (hb ▸ hprefix) hnot

theorem filter_isSetting (h : ∀ l ∈ hs, HeaderLine l) :
    (hs ++ settingLines ++ [[]]).filter isSetting = ["set timeout=5".toList, defaultMark] := by
  have hnone : hs.filter isSetting = [] := by
    rw [List.filter_eq_nil_iff]
    intro l hl
    simp [(h l hl).2.2]
  have hsettings : (settingLines ++ [[]]).filter isSetting = ["set timeout=5".toList, defaultMark] := by
    decide
  rw [List.append_assoc, List.filter_append, hnone, hsettings, List.nil_append]

theorem settingLines_unmarked : ∀ l ∈ settingLines ++ [[]], ('\n' ∉ l ∧ firstWord l ∉ menuWords) ∧ Unmarked l := by
  have hwords : ∀ l ∈ settingLines ++ [[]], '\n' ∉ l ∧ firstWord l ∉ menuWords :=
    List.forall_mem_append.mpr ⟨settingLines_words,
      List.forall_mem_singleton.mpr ⟨headerLine_nil.1, headerLine_nil.2.1⟩⟩
  have hmarks : ((settingLines ++ [[]]).all fun l => !Words.contains menuentryMark l &&
      !Words.contains submenuMark l) = true := by decide
  intro l hl
  refine ⟨hwords l hl, ?_⟩
  simpa [Unmarked, ← Words.contains_iff] using List.all_eq_true.mp hmarks l hl

/-- **The entry of a text that the audit accepts** is the last thing in it, and starts the installer
with the Kickstart file of the medium that it is on. No line in front of it begins another entry or
has a mark of one, and of the settings of the menu those of the release are the only ones. -/
theorem bootCheck_entry (text : Text) (h : bootCheck text = true) : ∃ ls args label,
    text = unlines (ls ++ releaseLines args) ∧
      (∀ l ∈ ls, '\n' ∉ l ∧ firstWord l ∉ menuWords ∧ Unmarked l) ∧
      ls.filter isSetting = ["set timeout=5".toList, defaultMark] ∧
      Installable args label ∧ args.filter (instKs.isPrefixOf ·) = [releaseKs label] := by
  obtain ⟨hs, args, label, haudit, rfl⟩ := exists_audited h
  have hheader := fun l hl => (haudit.header l hl).1
  refine ⟨hs ++ settingLines ++ [[]], args, label, by simp [auditedLines], ?_, filter_isSetting hheader,
    haudit.installable, filter_instKs haudit.installable haudit.kickstart⟩
  rw [List.append_assoc]
  refine List.forall_mem_append.mpr ⟨fun l hl => ?_, fun l hl => ?_⟩
  · exact ⟨(hheader l hl).1, (hheader l hl).2.1, (haudit.header l hl).2⟩
  · exact ⟨(settingLines_unmarked l hl).1.1, (settingLines_unmarked l hl).1.2, (settingLines_unmarked l hl).2⟩

def sampleArgs : List Text :=
  [kernelPath, "inst.stage2=hd:LABEL=T".toList, releaseKs "T".toList, "rd.driver.pre=m".toList]

/-- A release whose header has one command -/
def sampleBoot : Text := unlines (auditedLines ["insmod gzio".toList] sampleArgs)

theorem audited_sample : Audited ["insmod gzio".toList] sampleArgs "T".toList where
  header := by
    rw [List.forall_mem_singleton, Unmarked, ← Words.contains_iff, ← Words.contains_iff]
    exact ⟨⟨by decide, by decide, by decide +kernel⟩, by decide, by decide⟩
  trimmed := by decide +kernel
  last := .inr fun l hl => by
    obtain rfl := Option.some.inj hl
    decide
  printable :=
    have hwords : (sampleArgs.all fun a => a != [] && a.all (!isSpace ·)) = true := by decide +kernel
    have hbraces : (sampleArgs.all (·.all notBrace)) = true := by decide +kernel
    ⟨by simpa using hwords, by simpa using hbraces, List.cons_ne_nil _ _⟩
  installable := ⟨rfl, by decide +kernel, ⟨by decide, forall_mem_of_all (by decide)⟩, by decide +kernel,
    by decide +kernel, by decide +kernel⟩
  kickstart := by decide +kernel
  unmarked := by
    rw [Unmarked, ← Words.contains_iff, ← Words.contains_iff]
    exact ⟨by decide +kernel, by decide +kernel⟩

theorem bootCheck_entry_sample : ∃ ls args label, sampleBoot = unlines (ls ++ releaseLines args) ∧
    ls.filter isSetting = ["set timeout=5".toList, defaultMark] ∧
      args.filter (instKs.isPrefixOf ·) = [releaseKs label] := by
  obtain ⟨ls, args, label, htext, -, hsettings, -, hks⟩ := bootCheck_entry sampleBoot audited_sample.bootCheck
  exact ⟨ls, args, label, htext, hsettings, hks⟩

end Azurefin.Grub
