import Azurefin.Installer.GrubEntries
import Azurefin.Installer.InstallerGrub

/-!
# The GRUB configuration of the release image

`patch` of `release_iso_grub.py`. It starts from one entry, checks its lines, and leaves that entry alone
behind the settings and commands before the first entry. What it returns it leaves as it is.

## Main results

* `Azurefin.Grub.patch_eq_ok` — what is accepted, and what is returned for it.
* `Azurefin.Grub.patch_fixed` — a configuration that was returned is returned again.
-/

namespace Azurefin.Grub

open Regex

/-! ## The source -/

def require (c : Bool) (message : String) : Except PyError Unit :=
  if c then .ok () else .error (.valueError message)

/-- `items[0]` where there is no other item -/
def only (items : List Text) (message : String) : Except PyError Text :=
  match items with
  | [item] => .ok item
  | _ => .error (.valueError message)

def instStage2 : Text := "inst.stage2=".toList

def instKs : Text := "inst.ks=".toList

def driverPre : Text := "rd.driver.pre=".toList

def labelMark : Text := "LABEL=".toList

/-- `stage.split('LABEL=', 1)[1]` -/
def labelOf (stage : Text) : Except PyError Text :=
  match Words.suffixAt labelMark stage with
  | some rest => .ok (rest.drop labelMark.length)
  | none => .error .indexError

/-- The arguments with the release's Kickstart file -/
def setKickstart (label : Text) (args : List Text) : List Text :=
  args.map fun a =>
    if instKs.isPrefixOf a then
      "inst.ks=hd:LABEL=".toList ++ (label ++ ":/azurefin/install.ks".toList)
    else a

/-- An argument that stops before the installer -/
def stopsBoot (a : Text) : Bool :=
  "rd.break".toList.isPrefixOf a || ["inst.rescue".toList, "rd.live.check".toList].contains a

/-- The configuration with one entry behind the header -/
def releaseText (header : Text) (args : List Text) (dtb initrd : Text) : Text :=
  header.rdropWhile isSpace ++ ('\n' :: '\n' :: unlines
    ("set timeout=5".toList :: "set default=azurefin-install".toList :: [] ::
      entryLines "Install Azurefin".toList "azurefin-install".toList (joinArgs args) dtb initrd))

/-- `patch(text)` -/
def patch (text : Text) : Except PyError Text := do
  let body ← only (entry.findall text) "Expected exactly one Surface display-preload entry"
  let kernel ← only (kernels.findall body) "Expected exactly one installer kernel"
  let args := pySplit kernel
  let path ← item0 args
  require (path == kernelPath) "Unexpected installer kernel"
  let stage ← only (args.filter (instStage2.isPrefixOf ·)) "Expected a safe ISO label for stage2"
  require (fullmatch stage2 stage) "Expected a safe ISO label for stage2"
  require ((args.filter (instKs.isPrefixOf ·)).length == 1) "Expected exactly one Kickstart argument"
  require (args.any (driverPre.isPrefixOf ·)) "Missing Surface display preloads"
  let label ← labelOf stage
  let args := setKickstart label args
  require (!args.any stopsBoot) "Unexpected diagnostic stop in installer entry"
  let foundDtbs := dtbs.findall body
  let foundInitrds := initrds.findall body
  require (foundDtbs == [dtbPath] && foundInitrds == [initrdPath]) "Unexpected installer DTB or initrd"
  let dtb ← item0 foundDtbs
  let initrd ← item0 foundInitrds
  let header := setting.delete (menu.before text)
  .ok (releaseText header args dtb initrd)

/-! ## What is accepted -/

variable {t u r text label body kernel header : Text} {args ls : List Text}

theorem require_eq_ok {c : Bool} {message : String} {x : Unit} : require c message = .ok x ↔ c = true := by
  rw [require]
  split <;> simp_all

theorem only_eq_ok {items : List Text} {message : String} {item : Text} :
    only items message = .ok item ↔ items = [item] := by
  unfold only
  split <;> simp_all

theorem item0_eq_ok {arg : Text} : item0 args = .ok arg ↔ args.head? = some arg := by
  cases args <;> simp [item0]

/-- A label for the medium -/
def Safe (label : Text) : Prop := label ≠ [] ∧ ∀ x ∈ label, isLabelChar x = true

/-- The arguments of an installer that starts without a stop from the medium with this label. -/
structure Installable (args : List Text) (label : Text) : Prop where
  path : args.head? = some kernelPath
  stage : args.filter (instStage2.isPrefixOf ·) = ["inst.stage2=hd:LABEL=".toList ++ label]
  safe : Safe label
  kickstart : (args.filter (instKs.isPrefixOf ·)).length = 1
  preloads : args.any (driverPre.isPrefixOf ·) = true
  goes : (setKickstart label args).any stopsBoot = false

theorem labelOf_stage (label : Text) : labelOf ("inst.stage2=hd:LABEL=".toList ++ label) = .ok label := by
  rfl

/-- An argument with the right start and form has the dot that the pattern does not ask for. -/
theorem exists_label {stage : Text} (hstart : instStage2 <+: stage) (h : fullmatch stage2 stage = true) :
    ∃ label, stage = "inst.stage2=hd:LABEL=".toList ++ label ∧ Safe label := by
  obtain ⟨x, label, -, hne, hlabel, rfl⟩ := fullmatch_stage2.mp h
  obtain ⟨t, ht⟩ := hstart
  obtain rfl : '.' = x := Option.some.inj (congrArg (fun u : Text => u[4]?) ht)
  exact ⟨label, rfl, hne, hlabel⟩

theorem fullmatch_stage (h : Safe label) : fullmatch stage2 ("inst.stage2=hd:LABEL=".toList ++ label) = true :=
  fullmatch_stage2.mpr ⟨'.', label, by decide, h.1, h.2, rfl⟩

theorem patch_eq_ok : patch text = .ok r ↔ ∃ body kernel label, entry.findall text = [body] ∧
    kernels.findall body = [kernel] ∧ Installable (pySplit kernel) label ∧ dtbs.findall body = [dtbPath] ∧
      initrds.findall body = [initrdPath] ∧ r = releaseText (setting.delete (menu.before text))
        (setKickstart label (pySplit kernel)) dtbPath initrdPath := by
  simp only [patch, Except.bind_eq_ok, only_eq_ok, require_eq_ok, item0_eq_ok, Bool.and_eq_true, beq_iff_eq,
    Bool.not_eq_true', Except.ok.injEq]
  constructor
  · rintro ⟨body, hbody, kernel, hkernel, path, hpath, -, rfl, stage, hstage, -, hsafe, -, honce, -, hpre, label,
      hlabel, -, hgoes, -, ⟨hdtbs, hinitrds⟩, dtb, hdtb, initrd, hinitrd, rfl⟩
    have hmem : stage ∈ (pySplit kernel).filter (instStage2.isPrefixOf ·) := by rw [hstage]; exact List.mem_singleton_self _
    obtain ⟨label', rfl, hsafe'⟩ :=
      exists_label (List.isPrefixOf_iff_prefix.mp (List.mem_filter.mp hmem).2) hsafe
    rw [labelOf_stage, Except.ok.injEq] at hlabel
    subst hlabel
    rw [hdtbs, List.head?_cons, Option.some.injEq] at hdtb
    rw [hinitrds, List.head?_cons, Option.some.injEq] at hinitrd
    subst hdtb hinitrd
    exact ⟨body, kernel, label', hbody, hkernel, ⟨hpath, hstage, hsafe', honce, hpre, hgoes⟩, hdtbs, hinitrds, rfl⟩
  · rintro ⟨body, kernel, label, hbody, hkernel, h, hdtbs, hinitrds, rfl⟩
    exact ⟨body, hbody, kernel, hkernel, kernelPath, h.path, (), rfl, _, h.stage, (), fullmatch_stage h.safe, (),
      h.kickstart, (), h.preloads, label, labelOf_stage label, (), h.goes, (), ⟨hdtbs, hinitrds⟩, dtbPath,
      by rw [hdtbs]; rfl, initrdPath, by rw [hinitrds]; rfl, rfl⟩

/-! ## The entry that is written -/

/-- The lines between the first line of an entry and its brace -/
def bodyLines (arguments : Text) : List Text :=
  ["  linux ".toList ++ arguments, "  devicetree ".toList ++ dtbPath, "  initrd ".toList ++ initrdPath]

/-- Kernel arguments that can be printed into an entry and read again -/
structure Printable (args : List Text) : Prop where
  words : ∀ a ∈ args, a ≠ [] ∧ ∀ x ∈ a, isSpace x = false
  braces : ∀ a ∈ args, ∀ x ∈ a, notBrace x = true
  ne_nil : args ≠ []

theorem pySplit_joinArgs (h : Printable args) : pySplit (joinArgs args) = args :=
  wordsBy_intercalate (by decide) h.words

theorem joinArgs_start (h : Printable args) : joinArgs args ≠ [] ∧ ∀ x ∈ (joinArgs args).head?, isSpace x = false := by
  obtain ⟨a, args, rfl⟩ := List.exists_cons_of_ne_nil h.ne_nil
  obtain ⟨hne, ha⟩ := h.words a List.mem_cons_self
  obtain ⟨y, a, rfl⟩ := List.exists_cons_of_ne_nil hne
  have hjoin : ∃ t, joinArgs ((y :: a) :: args) = y :: t := by
    cases args with
    | nil => exact ⟨a, List.intercalate_singleton⟩
    | cons b args => exact ⟨_, List.intercalate_cons_cons⟩
  obtain ⟨t, ht⟩ := hjoin
  rw [ht]
  exact ⟨List.cons_ne_nil y t, fun x hx => by
    obtain rfl : y = x := by simpa using hx
    exact ha y List.mem_cons_self⟩

theorem newline_not_mem_joinArgs (h : Printable args) : '\n' ∉ joinArgs args := by
  intro hn
  rcases mem_intercalate hn with hn | ⟨a, ha, hn⟩
  · exact absurd hn (by decide)
  · exact absurd ((h.words a ha).2 _ hn) (by decide)

/-- A directive of the entry has its word and its arguments. -/
theorem directive_words {word a : Text} (hne : word ≠ []) (hword : ∀ x ∈ word, isSpace x = false)
    (ha : ∀ x ∈ a.head?, isSpace x = false) : firstWord ("  ".toList ++ (word ++ ' ' :: a)) = word ∧
      argumentText ("  ".toList ++ (word ++ ' ' :: a)) = a := by
  obtain ⟨-, hfirst, hafter⟩ := word_split (u := "  ".toList) (v := ' ' :: a)
    (forall_mem_of_all (by decide)) hne hword (by simp; decide)
  refine ⟨hfirst, ?_⟩
  rw [argumentText, hafter]
  exact dropWhile_append_of_head (u := [' ']) (forall_mem_of_all (by decide)) ha

theorem bodyLines_words (h : Printable args) : ∃ l₁ l₂ l₃, bodyLines (joinArgs args) = [l₁, l₂, l₃] ∧
    (firstWord l₁ = "linux".toList ∧ argumentText l₁ = joinArgs args) ∧
      (firstWord l₂ = "devicetree".toList ∧ argumentText l₂ = dtbPath) ∧
        (firstWord l₃ = "initrd".toList ∧ argumentText l₃ = initrdPath) := by
  have hword : ∀ word ∈ ["linux".toList, "devicetree".toList, "initrd".toList],
      word ≠ [] ∧ ∀ x ∈ word, isSpace x = false := words_of_all (by decide)
  simp only [List.forall_mem_cons] at hword
  obtain ⟨hlinux, hdtb, hinitrd, -⟩ := hword
  have hpath : ∀ path ∈ [dtbPath, initrdPath], path.head? = some '/' := forall_mem_of_all (by decide)
  have hstart : ∀ path ∈ [dtbPath, initrdPath], ∀ x ∈ path.head?, isSpace x = false := fun path hmem x hx => by
    obtain rfl : '/' = x := Option.some.inj ((hpath path hmem).symm.trans hx)
    decide
  exact ⟨_, _, _, rfl, directive_words hlinux.1 hlinux.2 (joinArgs_start h).2,
    directive_words hdtb.1 hdtb.2 (hstart dtbPath (by simp)),
    directive_words hinitrd.1 hinitrd.2 (hstart initrdPath (by simp))⟩

theorem newline_not_mem_bodyLines (h : Printable args) : ∀ l ∈ bodyLines (joinArgs args), '\n' ∉ l := by
  have hdtb : '\n' ∉ "  devicetree ".toList ++ dtbPath := by decide
  have hinitrd : '\n' ∉ "  initrd ".toList ++ initrdPath := by decide
  rw [bodyLines, List.forall_mem_cons, List.forall_mem_cons, List.forall_mem_singleton]
  refine ⟨fun hn => ?_, hdtb, hinitrd⟩
  rcases List.mem_append.mp hn with hn | hn
  · exact absurd hn (by decide)
  · exact newline_not_mem_joinArgs h hn

theorem findall_bodyLines (h : Printable args) :
    kernels.findall (unlines (bodyLines (joinArgs args))) = [joinArgs args] ∧
      dtbs.findall (unlines (bodyLines (joinArgs args))) = [dtbPath] ∧
        initrds.findall (unlines (bodyLines (joinArgs args))) = [initrdPath] := by
  have hline := newline_not_mem_bodyLines h
  obtain ⟨l₁, l₂, l₃, hlines, ⟨hfirst₁, harg₁⟩, ⟨hfirst₂, harg₂⟩, hfirst₃, harg₃⟩ := bodyLines_words h
  rw [hlines] at hline ⊢
  have hargs : ∀ l ∈ [l₁, l₂, l₃], argumentText l ≠ [] := by
    simp only [List.forall_mem_cons, harg₁, harg₂, harg₃]
    exact ⟨(joinArgs_start h).1, by decide, by decide, List.forall_mem_nil _⟩
  have hfind : ∀ {word : Regex} {ws : List Text}, Spells word ws →
      (∀ w ∈ ws, w ≠ [] ∧ ∀ x ∈ w, isSpace x = false) → (directive word).findall (unlines [l₁, l₂, l₃]) =
        ([l₁, l₂, l₃].filter fun l => ws.contains (firstWord l)).map argumentText := fun hr hws => by
    have hunlines := findall_unlines hr hws hline (fun l hl _ => hargs l hl) []
    rwa [List.append_nil, findall_eq_findFrom _ [], findFrom, scan, List.filterMap_nil, List.append_nil] at hunlines
  refine ⟨(hfind spells_linux words_linux).trans ?_, (hfind spells_devicetree words_devicetree).trans ?_,
    (hfind spells_initrd words_initrd).trans ?_⟩
  · have hin : linuxWords.contains "linux".toList = true ∧ linuxWords.contains "devicetree".toList = false ∧
        linuxWords.contains "initrd".toList = false := by decide
    simp only [List.filter_cons, hfirst₁, hfirst₂, hfirst₃, hin.1, hin.2.1, hin.2.2, if_true,
      Bool.false_eq_true, if_false, List.filter_nil, List.map_cons, List.map_nil, harg₁]
  · have hin : ["devicetree".toList].contains "linux".toList = false ∧
        ["devicetree".toList].contains "devicetree".toList = true ∧
        ["devicetree".toList].contains "initrd".toList = false := by decide
    simp only [List.filter_cons, hfirst₁, hfirst₂, hfirst₃, hin.1, hin.2.1, hin.2.2, if_true,
      Bool.false_eq_true, if_false, List.filter_nil, List.map_cons, List.map_nil, harg₂]
  · have hin : initrdWords.contains "linux".toList = false ∧ initrdWords.contains "devicetree".toList = false ∧
        initrdWords.contains "initrd".toList = true := by decide
    simp only [List.filter_cons, hfirst₁, hfirst₂, hfirst₃, hin.1, hin.2.1, hin.2.2, if_true,
      Bool.false_eq_true, if_false, List.filter_nil, List.map_cons, List.map_nil, harg₃]

theorem entryBody_bodyLines (h : Printable args) : EntryBody (unlines (bodyLines (joinArgs args))) := by
  have hjoin : ∀ x ∈ joinArgs args, notBrace x = true := by
    intro x hx
    rcases mem_intercalate hx with rfl | ⟨a, ha, hx⟩
    · decide
    · exact h.braces a ha x hx
  have hfixed : ∀ x ∈ "  linux ".toList ++ ("  devicetree ".toList ++ (dtbPath ++ ("  initrd ".toList ++
      (initrdPath ++ ['\n'])))), notBrace x = true := forall_mem_of_all (by decide)
  simp only [List.forall_mem_append] at hfixed
  obtain ⟨hlinux, hdevicetree, hdtb, hinitrd, hpath, hnewline⟩ := hfixed
  have hne : bodyLines (joinArgs args) ≠ [] := List.cons_ne_nil _ _
  constructor
  · exact (startsLine_iff (unlines_ne_nil hne) true).mp (startsLine_unlines hne true)
  · simp only [bodyLines, unlines, List.flatMap_cons, List.flatMap_nil, List.append_nil, List.forall_mem_append]
    exact ⟨⟨⟨hlinux, hjoin⟩, hnewline⟩, ⟨⟨hdevicetree, hdtb⟩, hnewline⟩, ⟨hinitrd, hpath⟩, hnewline⟩

theorem entryAt_entryLines {title id : Text} (htitle : '\n' ∉ title) (hid : id ∈ entryIds) (h : Printable args)
    (t : Text) : EntryAt (unlines (entryLines title id (joinArgs args) dtbPath initrdPath) ++ t)
      (unlines (bodyLines (joinArgs args))) ('\n' :: t) := by
  have hquote : '\n' ∉ '\x27' :: (title ++ ['\x27']) := by simp [htitle]
  refine ⟨"menuentry ".toList ++ (('\x27' :: (title ++ ['\x27'])) ++ (" --id ".toList ++ (id ++ " \x7b".toList))),
    ⟨'\x27' :: (title ++ ['\x27']), id, hid, by simp, hquote, rfl⟩, entryBody_bodyLines h, ?_⟩
  simp only [entryLines, bodyLines, unlines, List.flatMap_cons, List.flatMap_nil, List.append_nil,
    List.append_assoc, List.cons_append, List.nil_append]
  rfl

/-! ## The arguments of the release -/

/-- The argument of the release's Kickstart file -/
def releaseKs (label : Text) : Text := "inst.ks=hd:LABEL=".toList ++ (label ++ ":/azurefin/install.ks".toList)

theorem setKickstart_cons (label a : Text) (args : List Text) : setKickstart label (a :: args) =
    (if instKs.isPrefixOf a then releaseKs label else a) :: setKickstart label args := rfl

theorem mem_setKickstart {a : Text} (ha : a ∈ setKickstart label args) : a = releaseKs label ∨ a ∈ args := by
  obtain ⟨b, hb, rfl⟩ := List.mem_map.mp ha
  split
  · exact .inl rfl
  · exact .inr hb

theorem isPrefixOf_releaseKs (label : Text) : instKs.isPrefixOf (releaseKs label) = true := rfl

theorem setKickstart_setKickstart (label : Text) (args : List Text) :
    setKickstart label (setKickstart label args) = setKickstart label args := by
  induction args with
  | nil => rfl
  | cons a args ih =>
    rw [setKickstart_cons, setKickstart_cons, ih]
    split
    · rw [if_pos (isPrefixOf_releaseKs label)]
    · rfl

/-- What tells other arguments apart does not change. -/
theorem filter_setKickstart {p : Text → Bool} (hp : ∀ a, instKs.isPrefixOf a = true → p a = false)
    (label : Text) (args : List Text) : (setKickstart label args).filter p = args.filter p := by
  induction args with
  | nil => rfl
  | cons a args ih =>
    rw [setKickstart_cons, List.filter_cons, List.filter_cons, ih]
    split
    case isTrue h => simp only [hp _ (isPrefixOf_releaseKs label), hp a h, Bool.false_eq_true, if_false]
    case isFalse => rfl

theorem length_filter_setKickstart (label : Text) (args : List Text) :
    ((setKickstart label args).filter (instKs.isPrefixOf ·)).length = (args.filter (instKs.isPrefixOf ·)).length := by
  induction args with
  | nil => rfl
  | cons a args ih =>
    rw [setKickstart_cons, List.filter_cons, List.filter_cons]
    by_cases h : instKs.isPrefixOf a = true
    · simp [h, isPrefixOf_releaseKs, ih]
    · simp [h, ih]

/-- Two starts that are not starts of each other are not starts of one text. -/
theorem isPrefixOf_eq_false {start start' a : Text} (h : start.isPrefixOf start' = false)
    (h' : start'.isPrefixOf start = false) (ha : start.isPrefixOf a = true) : start'.isPrefixOf a = false := by
  by_contra hboth
  rw [Bool.not_eq_false, List.isPrefixOf_iff_prefix] at hboth
  rw [List.isPrefixOf_iff_prefix] at ha
  rcases List.prefix_or_prefix_of_prefix ha hboth with hpre | hpre
  · rw [List.isPrefixOf_iff_prefix.mpr hpre] at h
    cases h
  · rw [List.isPrefixOf_iff_prefix.mpr hpre] at h'
    cases h'

theorem Installable.setKickstart (h : Installable args label) : Installable (setKickstart label args) label where
  path := by
    obtain ⟨others, rfl⟩ := List.head?_eq_some_iff.mp h.path
    rw [setKickstart_cons, if_neg (by decide)]
    rfl
  stage := by
    rw [filter_setKickstart fun a ha => isPrefixOf_eq_false (by decide) (by decide) ha]
    exact h.stage
  safe := h.safe
  kickstart := (length_filter_setKickstart label args).trans h.kickstart
  preloads := by
    have hany : ∀ {args : List Text}, args.any (driverPre.isPrefixOf ·) = true ↔
        args.filter (driverPre.isPrefixOf ·) ≠ [] := by simp
    rw [hany, filter_setKickstart fun a ha => isPrefixOf_eq_false (by decide) (by decide) ha, ← hany]
    exact h.preloads
  goes := by
    rw [setKickstart_setKickstart]
    exact h.goes

theorem isLabelChar_plain {x : Char} (h : isLabelChar x = true) : isSpace x = false ∧ notBrace x = true := by
  have hbraces : isLabelChar '\x7b' = false ∧ isLabelChar '\x7d' = false := by decide
  constructor
  · by_contra hspace
    rw [Bool.not_eq_false, isSpace, List.contains_iff_mem] at hspace
    have hnot := forall_mem_of_all (p := fun y => isLabelChar y = false) (by decide) x hspace
    rw [h] at hnot
    cases hnot
  · rw [notBrace, Bool.and_eq_true, bne_iff_ne, bne_iff_ne]
    constructor
    · rintro rfl
      rw [hbraces.1] at h
      cases h
    · rintro rfl
      rw [hbraces.2] at h
      cases h

/-- The words of an entry stay printable with the new Kickstart file. -/
theorem Printable.setKickstart (h : Printable args) (hlabel : Safe label) : Printable (setKickstart label args) := by
  have hks : ∀ x ∈ releaseKs label, isSpace x = false ∧ notBrace x = true := by
    have hfixed : ∀ x ∈ "inst.ks=hd:LABEL=".toList ++ ":/azurefin/install.ks".toList,
        isSpace x = false ∧ notBrace x = true := forall_mem_of_all (by decide)
    obtain ⟨hstart, hend⟩ := List.forall_mem_append.mp hfixed
    exact List.forall_mem_append.mpr ⟨hstart, List.forall_mem_append.mpr
      ⟨fun x hx => isLabelChar_plain (hlabel.2 x hx), hend⟩⟩
  refine ⟨fun a ha => ?_, fun a ha => ?_, fun hnil => h.ne_nil (List.map_eq_nil_iff.mp hnil)⟩
  · rcases mem_setKickstart ha with rfl | ha
    · exact ⟨List.cons_ne_nil _ _, fun x hx => (hks x hx).1⟩
    · exact h.words a ha
  · rcases mem_setKickstart ha with rfl | ha
    · exact fun x hx => (hks x hx).2
    · exact h.braces a ha

/-! ## The fixed point -/

/-- The arguments of an entry that was found can be printed into an entry. -/
theorem printable_kernel (hentry : entry.findall text = [body]) (hkernel : kernels.findall body = [kernel])
    (hne : pySplit kernel ≠ []) : Printable (pySplit kernel) := by
  have hbody : body ∈ entry.findall text := by rw [hentry]; exact List.mem_singleton_self _
  have hin : kernel <:+: body := infix_of_mem_findall (by rw [hkernel]; exact List.mem_singleton_self _)
  rw [findall_entry] at hbody
  obtain ⟨u, -, hu⟩ := List.mem_filterMap.mp hbody
  obtain ⟨after, l, -, hentrybody, -⟩ := captured_entry.mp hu
  refine ⟨fun a ha => ⟨(mem_wordsBy ha).1, (mem_wordsBy ha).2.1⟩, fun a ha x hx => ?_, hne⟩
  exact hentrybody.2 x (((mem_wordsBy ha).2.2.trans hin).subset hx)

/-- The lines of the settings that are written -/
def settingLines : List Text := [[], "set timeout=5".toList, "set default=azurefin-install".toList]

theorem settingLines_words : ∀ l ∈ settingLines, '\n' ∉ l ∧ firstWord l ∉ menuWords :=
  forall_mem_of_all (by decide)

/-- A line of a header: no menu entry and no setting -/
def HeaderLine (l : Text) : Prop := '\n' ∉ l ∧ firstWord l ∉ menuWords ∧ isSetting l = false

theorem headerLine_nil : HeaderLine [] := ⟨List.not_mem_nil, by decide, rfl⟩

theorem HeaderLine.rdropWhile {l : Text} (h : HeaderLine l) : HeaderLine (l.rdropWhile isSpace) := by
  obtain ⟨hnewline, hword, hset⟩ := h
  obtain ⟨u, hu, hspace⟩ : ∃ u, l.rdropWhile isSpace ++ u = l ∧ ∀ x ∈ u.head?, isSpace x = true :=
    ⟨l.rtakeWhile isSpace, List.rdropWhile_append_rtakeWhile,
      fun x hx => List.mem_rtakeWhile_imp (List.mem_of_mem_head? hx)⟩
  by_cases hblank : firstWord (l.rdropWhile isSpace) = []
  · refine ⟨fun hn => hnewline (hu ▸ List.mem_append_left u hn), by rw [hblank]; exact headerLine_nil.2.1, ?_⟩
    by_contra hs
    rw [Bool.not_eq_false] at hs
    exact firstWord_of_isSetting hs hblank
  · refine ⟨fun hn => hnewline (hu ▸ List.mem_append_left u hn), ?_, ?_⟩
    · rwa [← (word_append hblank hspace).1, hu]
    · by_contra hs
      rw [Bool.not_eq_false] at hs
      obtain ⟨w, hw, t, ht⟩ := isSetting_iff.mp hs
      have hne : (l.rdropWhile isSpace).dropWhile isSpace ≠ [] := by rw [ht]; exact List.cons_ne_nil _ _
      rw [isSetting_iff.mpr ⟨w, hw, t ++ u, ?_⟩] at hset
      · cases hset
      · conv_lhs => rw [← hu, List.dropWhile_append, if_neg (by simpa using hne), ht]
        simp

/-- What is kept of the lines before the first entry -/
theorem headerLine_dropSettings (hls : ∀ l ∈ ls, '\n' ∉ l ∧ firstWord l ∉ menuWords) :
    ∀ l ∈ dropSettings ls, HeaderLine l := fun l hl =>
  have hmem := hls l ((dropSettings_sublist ls).subset hl)
  ⟨hmem.1, hmem.2, isSetting_dropSettings ls l hl⟩

/-- The header of an accepted configuration is lines at its start, without the settings. -/
theorem exists_before_menu (hentry : entry.findall text = [body]) : ∃ ls v, text = unlines ls ++ v ∧
    setting.delete (menu.before text) = unlines (dropSettings ls) ∧ ∀ l ∈ ls, '\n' ∉ l ∧ firstWord l ∉ menuWords := by
  have hbody : body ∈ entry.findall text := by rw [hentry]; exact List.mem_singleton_self _
  rw [findall_entry] at hbody
  obtain ⟨u, hu, hcaptured⟩ := List.mem_filterMap.mp hbody
  obtain ⟨after, hat⟩ := captured_entry.mp hcaptured
  obtain ⟨ls, v, htext, hbefore, hls⟩ := before_menu ⟨u, hu, hat.matchAt_menu⟩
  exact ⟨ls, v, htext, by rw [hbefore, delete_setting fun l hl => (hls l hl).1], hls⟩

/-- The header of an accepted configuration is written as lines that are found again as they are. -/
theorem exists_header (hentry : entry.findall text = [body]) : ∃ hs,
    (setting.delete (menu.before text)).rdropWhile isSpace ++ ['\n'] = unlines hs ∧
      (∀ l ∈ hs ++ settingLines, '\n' ∉ l ∧ firstWord l ∉ menuWords) ∧
        (unlines (dropSettings (hs ++ settingLines))).rdropWhile isSpace =
          (setting.delete (menu.before text)).rdropWhile isSpace := by
  obtain ⟨ls, -, -, hdelete, hls⟩ := exists_before_menu hentry
  obtain ⟨hs, hlines, hhs, hlast⟩ :=
    exists_stripped (fun _ h => HeaderLine.rdropWhile h) headerLine_nil (headerLine_dropSettings hls)
  rw [hdelete]
  refine ⟨hs, hlines, List.forall_mem_append.mpr
    ⟨fun l hl => ⟨(hhs l hl).1, (hhs l hl).2.1⟩, settingLines_words⟩, ?_⟩
  rcases hlast with rfl | hlast
  · have hdropped : dropSettings ([[]] ++ settingLines) = [] := by decide
    rw [hdropped]
    have hnil : (unlines (dropSettings ls)).rdropWhile isSpace = [] := List.append_cancel_right hlines
    rw [hnil]
    rfl
  · have hdropped : dropSettings settingLines = [] := by decide
    rw [dropSettings_append (fun l hl => (hhs l hl).2.2) hlast, hdropped, List.append_nil, ← hlines,
      List.rdropWhile_concat_pos _ _ _ (by decide), List.rdropWhile_idempotent]

/-- The lines of the entry that is returned -/
def releaseLines (args : List Text) : List Text :=
  entryLines "Install Azurefin".toList "azurefin-install".toList (joinArgs args) dtbPath initrdPath

theorem releaseText_eq (hlines : header.rdropWhile isSpace ++ ['\n'] = unlines ls) (args : List Text) :
    releaseText header args dtbPath initrdPath = unlines (ls ++ settingLines) ++ unlines ([] :: releaseLines args) := by
  rw [unlines_append, ← hlines, releaseText, releaseLines]
  simp [settingLines, unlines_cons]

theorem entryAt_releaseLines (h : Printable args) :
    EntryAt (unlines (releaseLines args)) (unlines (bodyLines (joinArgs args))) ['\n'] := by
  have hat := entryAt_entryLines (by decide : '\n' ∉ "Install Azurefin".toList)
    (List.mem_cons_of_mem _ List.mem_cons_self : "azurefin-install".toList ∈ entryIds) h []
  rwa [List.append_nil] at hat

/-- Behind lines that are no menu entries only the entry of the release is found. -/
theorem findall_releaseLines (hls : ∀ l ∈ ls, '\n' ∉ l ∧ firstWord l ∉ menuWords) (h : Printable args) :
    entry.findall (unlines ls ++ unlines ([] :: releaseLines args)) = [unlines (bodyLines (joinArgs args))] := by
  have hskip : ∀ l ∈ ls ++ [[]], '\n' ∉ l ∧ ¬ EntryLine l := by
    intro l hl
    have hword : '\n' ∉ l ∧ firstWord l ∉ menuWords := by
      rcases List.mem_append.mp hl with hl | hl
      · exact hls l hl
      · rw [List.mem_singleton.mp hl]
        exact ⟨headerLine_nil.1, headerLine_nil.2.1⟩
    exact ⟨hword.1, fun hline => hword.2 (hline.firstWord_eq ▸ menuentry_mem)⟩
  have htext : unlines ls ++ unlines ([] :: releaseLines args) =
      unlines (ls ++ [[]]) ++ unlines (releaseLines args) := by
    rw [unlines_append, unlines_cons, unlines_cons]
    simp
  rw [htext, findall_entry_skip hskip, findall_entry_cons (entryAt_releaseLines h), anchored_entry.findFrom_newline]
  rfl

/-- They are the header again. -/
theorem before_releaseLines (hls : ∀ l ∈ ls, '\n' ∉ l ∧ firstWord l ∉ menuWords)
    (hlast : ∀ l ∈ ls.getLast?, firstWord l ≠ []) (h : Printable args) :
    menu.before (unlines ls ++ unlines ([] :: releaseLines args)) = unlines ls := by
  have hm : menu.matchAt true (unlines ([] :: releaseLines args)) ≠ none := by
    have hblank := matchAt_indented_blank ((solid_spells spells_menu words_menu).seq (.char isSpace))
      (List.forall_mem_nil _) (unlines (releaseLines args))
    rw [unlines_cons, menu, command, hblank]
    exact (entryAt_releaseLines h).matchAt_menu
  have hbefore := before_command spells_menu words_menu (fun l hl => (hls l hl).1) (fun l hl => (hls l hl).2) hlast
    (unlines ([] :: releaseLines args))
  rw [menu, hbefore, ← menu, before_of_match hm (unlines_ne_nil (List.cons_ne_nil _ _)), List.append_nil]

/-- **A configuration that was returned is returned again.** -/
theorem patch_fixed (h : patch text = .ok r) : patch r = .ok r := by
  obtain ⟨body, kernel, label, hentry, hkernel, hargs, -, -, rfl⟩ := patch_eq_ok.mp h
  obtain ⟨hs, hlines, hwords, hheader⟩ := exists_header hentry
  have hne : pySplit kernel ≠ [] := fun hnil => by simpa [hnil] using hargs.path
  have hprint := (printable_kernel hentry hkernel hne).setKickstart hargs.safe
  generalize setting.delete (menu.before text) = header at hlines hheader ⊢
  generalize hnew : setKickstart label (pySplit kernel) = args at hprint ⊢
  have hidem : setKickstart label args = args := by rw [← hnew, setKickstart_setKickstart]
  have hinstallable : Installable args label := hnew ▸ hargs.setKickstart
  have hlast : ∀ l ∈ (hs ++ settingLines).getLast?, firstWord l ≠ [] := by
    rw [List.getLast?_append_of_ne_nil _ (by simp [settingLines])]
    intro l hl
    obtain rfl : "set default=azurefin-install".toList = l := Option.some.inj hl
    decide +kernel
  obtain ⟨hkernels, hdtbs, hinitrds⟩ := findall_bodyLines hprint
  have htext := releaseText_eq hlines args
  refine patch_eq_ok.mpr ⟨unlines (bodyLines (joinArgs args)), joinArgs args, label, ?_, hkernels, ?_, hdtbs,
    hinitrds, ?_⟩
  · rw [htext, findall_releaseLines hwords hprint]
  · rwa [pySplit_joinArgs hprint]
  · rw [pySplit_joinArgs hprint, hidem, htext, before_releaseLines hwords hlast hprint,
      delete_setting fun l hl => (hwords l hl).1, releaseText, hheader, ← releaseText, ← htext]

/-- What the installer image has before the release is composed -/
def sampleRelease : Text := unlines
  [ "set timeout=60".toList, "search -l T".toList, "submenu 'a' \x7b".toList,
    "menuentry 'D' --id romulus-preload-display \x7b".toList,
    " linux /images/pxeboot/vmlinuz inst.stage2=hd:LABEL=T inst.ks=x rd.driver.pre=m".toList,
    " devicetree ".toList ++ dtbPath, " initrd ".toList ++ initrdPath, "\x7d".toList ]

theorem patch_fixed_sample : ∃ r, patch sampleRelease = .ok r ∧ patch r = .ok r := by
  have hok : (patch sampleRelease).toOption.isSome = true := by decide +kernel
  cases h : patch sampleRelease with
  | error e =>
    rw [h] at hok
    cases hok
  | ok r => exact ⟨r, rfl, patch_fixed h⟩

end Azurefin.Grub
