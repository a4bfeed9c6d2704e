import Azurefin.Installer.GrubPatterns

/-!
# The GRUB configuration of the installer

`patch_config` of `patch_installer_grub.py`. The loop rewrites kernel lines one by one; the patterns that
look at the whole text decide before it whether there is a device tree already, and after it, in
diagnostic mode, what the added entries boot.

## Main results

* `Azurefin.Grub.patchLines_eq_ok` — what the loop leaves of lines whose kernels are the installer's.
* `Azurefin.Grub.keepsLines_iff` — only kernel lines change, and each gets the only device tree line
  behind it, unless the configuration ends in a bare `devicetree`.
-/

namespace Azurefin.Grub

open Regex

/-! ## The source -/

/-- `DTB_PATH` -/
def dtbPath : Text := "/images/dtbs/qcom/x1e80100-microsoft-romulus13.dtb".toList

/-- `EARLY_DISPLAY_DRIVERS` -/
def earlyDisplayDrivers : List Text :=
  ["qcom-spmi-pmic".toList, "nvmem_qcom_spmi_sdam".toList, "qcom-pbs".toList, "leds-qcom-lpg".toList,
    "qrtr".toList, "qrtr-smd".toList, "qcom_pd_mapper".toList, "qcom_q6v5_pas".toList,
    "qcom-cpucp-mbox".toList, "pmic-glink".toList, "pmic-glink-altmode".toList,
    "aux-hpd-bridge".toList, "ps883x".toList, "dispcc-x1e80100".toList, "gpucc-x1e80100".toList,
    "phy_qcom_edp".toList, "panel_edp".toList, "pwm_bl".toList, "msm".toList, "hid-generic".toList]

def kernelPath : Text := "/images/pxeboot/vmlinuz".toList

def initrdPath : Text := "/images/pxeboot/initrd.img".toList

def instText : Text := "inst.text".toList

def instRescue : Text := "inst.rescue".toList

def instGraphical : Text := "inst.graphical".toList

def clkIgnoreUnused : Text := "clk_ignore_unused".toList

def pdIgnoreUnused : Text := "pd_ignore_unused".toList

/-- `' '.join(args)` -/
def joinArgs (args : List Text) : Text := List.intercalate [' '] args

/-- `args[0]` -/
def item0 : List Text → Except PyError Text
  | [] => .error .indexError
  | arg :: _ => .ok arg

/-- `required` -/
def requiredArgs (args : List Text) : List Text :=
  [clkIgnoreUnused, pdIgnoreUnused] ++
    if args.contains instRescue then [] else [instGraphical]

/-- What the loop makes of the arguments of a kernel. The names in `required` are different, so it does not
matter that `extend` looks for each among those it has just added. -/
def installerArgs (args : List Text) : List Text :=
  let args := args.filter (· != instText)
  args ++ (requiredArgs args).filter fun arg => !args.contains arg

/-- The line of a kernel with these arguments, and the line of its device tree -/
def kernelLines (indent command : Text) (args : List Text) : List Text :=
  [indent ++ command ++ ' ' :: joinArgs args, indent ++ "devicetree ".toList ++ dtbPath]

/-- The lines that are appended for a line, and what is added to `count` -/
def patchLine (line : Text) : Except PyError (List Text × Nat) :=
  match kernelLine.matchAt true line with
  | some ([indent, command, arguments], _) => do
    let args := pySplit arguments
    let path ← item0 args
    if path ≠ kernelPath then
      .error (.valueError ("Unexpected installer kernel path: " ++ String.ofList path))
    else .ok (kernelLines indent command (installerArgs args), 1)
  | _ => .ok ([line], 0)

/-- The loop: `lines` and `count` -/
def patchLines : List Text → Except PyError (List Text × Nat)
  | [] => .ok ([], 0)
  | line :: rest => do
    let here ← patchLine line
    let later ← patchLines rest
    .ok (here.1 ++ later.1, here.2 + later.2)

/-- An argument that is not taken over into the diagnostic entries -/
def isStripped (arg : Text) : Bool :=
  ["quiet".toList, "rhgb".toList, "splash".toList, "rd.debug".toList].contains arg ||
    ["panic=".toList, "rd.break=".toList, "consoleblank=".toList, "loglevel=".toList,
      "systemd.log_level=".toList].any (·.isPrefixOf arg)

/-- The arguments that the diagnostic entries add -/
def addedArgs : List Text :=
  ["loglevel=6".toList, "systemd.log_level=info".toList, "consoleblank=0".toList,
    "systemd.log_target=console".toList, "systemd.show_status=1".toList, "rd.plymouth=0".toList,
    "plymouth.enable=0".toList, "panic=0".toList]

def diagnosticArgs (args : List Text) : List Text := args.filter (!isStripped ·) ++ addedArgs

/-- `" rd.driver.pre=" + ",".join(EARLY_DISPLAY_DRIVERS)`, behind the space -/
def preloadArg : Text := "rd.driver.pre=".toList ++ List.intercalate [','] earlyDisplayDrivers

/-- The titles, the ids, and what is behind the arguments -/
def diagnosticEntries : List (Text × Text × Text) :=
  [("Surface diagnostic: readable boot".toList, "romulus-diagnostic".toList, []),
    ("Surface diagnostic: pause before udev".toList, "romulus-pre-udev".toList, " rd.break=pre-udev".toList),
    ("Surface diagnostic: preload display providers".toList, "romulus-preload-display".toList,
      ' ' :: preloadArg)]

/-- The lines of an entry -/
def entryLines (title id arguments dtb initrd : Text) : List Text :=
  ["menuentry '".toList ++ (title ++ ("' --id ".toList ++ (id ++ " \x7b".toList))),
    "  linux ".toList ++ arguments, "  devicetree ".toList ++ dtb, "  initrd ".toList ++ initrd, "\x7d".toList]

/-- What diagnostic mode makes of the result -/
def addDiagnostics (result : Text) : Except PyError Text :=
  if (initrds.search result).map strip ≠ some initrdPath then
    .error (.valueError "Unexpected or missing installer initrd")
  else
    match kernels.search result with
    | none => .error .attributeError
    | some kernel =>
      let args := joinArgs (diagnosticArgs (pySplit kernel))
      .ok (result ++ diagnosticEntries.flatMap (fun e =>
        unlines ([] :: entryLines e.1 e.2.1 (args ++ e.2.2) dtbPath initrdPath)) ++
          unlines ["set default=romulus-preload-display".toList])

/-- `patch_config(config, diagnostic)` -/
def patchConfig (config : Text) (diagnostic : Bool) : Except PyError Text :=
  if (selectsDevicetree.search config).isSome then
    .error (.valueError "Config already selects a device tree; review it manually")
  else do
    let patched ← patchLines (splitlines config)
    if patched.2 = 0 then .error (.valueError "No installer kernel entries found")
    else
      let result := List.intercalate ['\n'] patched.1 ++ ['\n']
      if diagnostic then addDiagnostics result else .ok result

/-! ## One line -/

variable {l t u v w c r : Text} {ls ms args : List Text} {n : Nat} {e : PyError}

instance (l : Text) : Decidable (IsKernel l) := inferInstanceAs (Decidable (_ ∧ _))

/-- The arguments on a kernel line -/
def lineArgs (l : Text) : List Text := pySplit (afterWord l)

/-- What becomes of a line -/
def rewriteLine (l : Text) : List Text :=
  if IsKernel l then kernelLines (l.takeWhile isSpace) (firstWord l) (installerArgs (lineArgs l)) else [l]

/-- The line of the installer's kernel, or of none -/
def Passes (l : Text) : Prop := IsKernel l → (lineArgs l).head? = some kernelPath

theorem patchLine_kernel (hl : '\n' ∉ l) (h : IsKernel l) : patchLine l = item0 (lineArgs l) >>= fun path =>
    if path ≠ kernelPath then
      .error (.valueError ("Unexpected installer kernel path: " ++ String.ofList path))
    else .ok (rewriteLine l, 1) := by
  obtain ⟨arguments, rest, hm, hargs⟩ := matchAt_kernelLine hl h
  rw [patchLine, hm]
  simp only [hargs]
  rw [rewriteLine, if_pos h, lineArgs]

theorem patchLine_other (h : ¬ IsKernel l) : patchLine l = .ok (rewriteLine l, 0) := by
  rw [patchLine, matchAt_kernelLine_none h, rewriteLine, if_neg h]

theorem patchLine_eq_ok (hl : '\n' ∉ l) (hp : Passes l) :
    patchLine l = .ok (rewriteLine l, if IsKernel l then 1 else 0) := by
  by_cases h : IsKernel l
  · rw [patchLine_kernel hl h, if_pos h]
    have hhead := hp h
    cases hargs : lineArgs l with
    | nil => simp [hargs] at hhead
    | cons path others =>
      obtain rfl : path = kernelPath := by simpa [hargs] using hhead
      simp [item0]
  · rw [patchLine_other h, if_neg h]

/-- A line that does not pass has no arguments or another kernel. -/
theorem patchLine_eq_error (hl : '\n' ∉ l) (hp : ¬ Passes l) : IsKernel l ∧
    ((lineArgs l = [] ∧ patchLine l = .error .indexError) ∨
      lineArgs l ≠ [] ∧ ∃ message, patchLine l = .error (.valueError message)) := by
  obtain ⟨h, hhead⟩ := Classical.not_imp.mp hp
  refine ⟨h, ?_⟩
  rw [patchLine_kernel hl h]
  cases hargs : lineArgs l with
  | nil => exact .inl ⟨rfl, rfl⟩
  | cons path others =>
    have hne : path ≠ kernelPath := fun heq => hhead (by rw [hargs, heq]; rfl)
    exact .inr ⟨List.cons_ne_nil path others, _, by simp only [item0, Except.ok_bind, if_pos hne]; rfl⟩

/-! ## The loop -/

theorem patchLines_eq_ok (hls : ∀ l ∈ ls, '\n' ∉ l) (hp : ∀ l ∈ ls, Passes l) :
    patchLines ls = .ok (ls.flatMap rewriteLine, ls.countP fun l => decide (IsKernel l)) := by
  induction ls with
  | nil => rfl
  | cons l ls ih =>
    obtain ⟨hl, hls⟩ := List.forall_mem_cons.mp hls
    obtain ⟨hpl, hp⟩ := List.forall_mem_cons.mp hp
    rw [patchLines, patchLine_eq_ok hl hpl, ih hls hp, List.countP_cons, List.flatMap_cons]
    simp [Nat.add_comm]

/-- The loop stops at the first line that does not pass. -/
theorem patchLines_eq_error {before after : List Text} (hls : ∀ k ∈ before, '\n' ∉ k)
    (hp : ∀ k ∈ before, Passes k) (he : patchLine l = .error e) :
    patchLines (before ++ l :: after) = .error e := by
  induction before with
  | nil =>
    rw [List.nil_append, patchLines, he]
    rfl
  | cons k before ih =>
    obtain ⟨hk, hls⟩ := List.forall_mem_cons.mp hls
    obtain ⟨hpk, hp⟩ := List.forall_mem_cons.mp hp
    rw [List.cons_append, patchLines, patchLine_eq_ok hk hpk, ih hls hp]
    rfl

theorem passes_of_patchLines {p : List Text × Nat} (hls : ∀ l ∈ ls, '\n' ∉ l) (h : patchLines ls = .ok p) :
    ∀ l ∈ ls, Passes l := by
  induction ls generalizing p with
  | nil => exact List.forall_mem_nil _
  | cons l ls ih =>
    obtain ⟨hl, hls⟩ := List.forall_mem_cons.mp hls
    rw [patchLines] at h
    obtain ⟨here, hhere, h⟩ := Except.bind_eq_ok.mp h
    obtain ⟨later, hlater, -⟩ := Except.bind_eq_ok.mp h
    refine List.forall_mem_cons.mpr ⟨?_, ih hls hlater⟩
    by_contra hp
    obtain ⟨-, ⟨-, he⟩ | ⟨-, message, he⟩⟩ := patchLine_eq_error hl hp
    · rw [he] at hhere
      cases hhere
    · rw [he] at hhere
      cases hhere

/-! ## The whole configuration -/

theorem patchConfig_diagnostic (c : Text) : patchConfig c true = patchConfig c false >>= addDiagnostics := by
  rw [patchConfig, patchConfig]
  split
  · rfl
  · cases patchLines (splitlines c) with
    | error e => rfl
    | ok p =>
      simp only [Except.ok_bind]
      split <;> rfl

theorem newline_not_mem_splitlines (hc : NewlineBreaks c) : ∀ l ∈ splitlines c, Body l := by
  obtain ⟨ls, last, -, hls, hlast, hsplit⟩ := exists_lines hc
  rw [hsplit]
  split
  · exact hls
  · exact List.forall_mem_append.mpr ⟨hls, List.forall_mem_singleton.mpr hlast⟩

theorem rewriteLine_ne_nil (l : Text) : rewriteLine l ≠ [] := by
  rw [rewriteLine]
  split <;> simp [kernelLines]

theorem patchConfig_eq_ok (hc : NewlineBreaks c) : patchConfig c false = .ok r ↔
    selectsDevicetree.search c = none ∧ (∀ l ∈ splitlines c, Passes l) ∧ (∃ l ∈ splitlines c, IsKernel l) ∧
      r = unlines ((splitlines c).flatMap rewriteLine) := by
  have hline : ∀ l ∈ splitlines c, '\n' ∉ l := fun l hl => (newline_not_mem_splitlines hc l hl).newline_not_mem
  rw [patchConfig, Except.check_eq_ok, Bool.not_eq_true, Option.isSome_eq_false_iff, Option.isNone_iff_eq_none,
    Except.bind_eq_ok]
  simp only [Except.check_eq_ok, Bool.false_eq_true, if_false, Except.ok.injEq]
  have hsome : ∀ ls : List Text, (∃ l ∈ ls, IsKernel l) → ls.flatMap rewriteLine ≠ [] := by
    rintro ls ⟨l, hl, -⟩ hnil
    exact rewriteLine_ne_nil l (List.flatMap_eq_nil_iff.mp hnil l hl)
  have hcount : (splitlines c).countP (fun l => decide (IsKernel l)) ≠ 0 ↔ ∃ l ∈ splitlines c, IsKernel l := by
    simp [List.countP_eq_zero]
  refine and_congr_right fun _ => ⟨?_, ?_⟩
  · rintro ⟨p, hp, hzero, hr⟩
    have hpass := passes_of_patchLines hline hp
    rw [patchLines_eq_ok hline hpass] at hp
    obtain rfl := Except.ok.inj hp
    have hkernel := hcount.mp hzero
    exact ⟨hpass, hkernel, by rw [unlines_eq_intercalate (hsome _ hkernel), ← hr]⟩
  · rintro ⟨hpass, hkernel, rfl⟩
    exact ⟨_, patchLines_eq_ok hline hpass, hcount.mpr hkernel, (unlines_eq_intercalate (hsome _ hkernel)).symm⟩

/-- The entries that diagnostic mode adds for these kernel arguments -/
def addedText (args : List Text) : Text :=
  diagnosticEntries.flatMap (fun e =>
    unlines ([] :: entryLines e.1 e.2.1 (joinArgs args ++ e.2.2) dtbPath initrdPath)) ++
      unlines ["set default=romulus-preload-display".toList]

theorem addDiagnostics_eq_ok : addDiagnostics t = .ok r ↔ (initrds.search t).map strip = some initrdPath ∧
    ∃ kernel, kernels.search t = some kernel ∧ r = t ++ addedText (diagnosticArgs (pySplit kernel)) := by
  rw [addDiagnostics, Except.check_eq_ok, not_not]
  refine and_congr_right fun _ => ?_
  cases kernels.search t with
  | none => simp
  | some kernel =>
    simp only [Except.ok.injEq, Option.some.injEq, exists_eq_left', addedText, List.append_assoc]
    exact eq_comm

/-! ## Line by line -/

/-- A kernel line: an indent, the command, and arguments behind a space -/
structure KernelLine (l indent command : Text) (args : List Text) : Prop where
  split : ∃ arguments, l = indent ++ (command ++ arguments) ∧ (∀ x ∈ arguments.head?, isSpace x = true) ∧
    pySplit arguments = args
  indent_blank : ∀ x ∈ indent, isSpace x = true
  command_mem : command = "linux".toList ∨ command = "linuxefi".toList
  args_ne_nil : args ≠ []

/-- The same arguments in the same order without `inst.text`, and what was missing behind them -/
def rewrittenArgs (args : List Text) : List Text :=
  args.filter (· != instText) ++
    [clkIgnoreUnused, pdIgnoreUnused, instGraphical].filter fun arg =>
      !args.contains arg && !(arg == instGraphical && args.contains instRescue)

/-- Line by line the same, but for two lines in the place of each kernel line. -/
inductive Rewritten : List Text → List Text → Prop
  | nil : Rewritten [] []
  | kernel {l indent command : Text} {args ls ms : List Text} : KernelLine l indent command args →
      Rewritten ls ms → Rewritten (l :: ls) ((indent ++ command ++ ' ' :: joinArgs (rewrittenArgs args)) ::
        (indent ++ "devicetree ".toList ++ dtbPath) :: ms)
  | other {l : Text} {ls ms : List Text} : (∀ indent command args, ¬ KernelLine l indent command args) →
      Rewritten ls ms → Rewritten (l :: ls) (l :: ms)

def DevicetreeLine (l : Text) : Prop := (pySplit l).head? = some "devicetree".toList

/-- Directly behind each kernel line is a device tree line, and there are no others. -/
inductive Paired : List Text → Prop
  | nil : Paired []
  | kernel {l d indent command : Text} {args ls : List Text} : KernelLine l indent command args →
      DevicetreeLine d → Paired ls → Paired (l :: d :: ls)
  | other {l : Text} {ls : List Text} : (∀ indent command args, ¬ KernelLine l indent command args) →
      ¬ DevicetreeLine l → Paired ls → Paired (l :: ls)

theorem KernelLine.words {indent command : Text} (h : KernelLine l indent command args) :
    IsKernel l ∧ l.takeWhile isSpace = indent ∧ firstWord l = command ∧ lineArgs l = args := by
  obtain ⟨arguments, rfl, hspace, rfl⟩ := h.split
  have hcommand : command ∈ linuxWords := by
    rcases h.command_mem with rfl | rfl <;> decide
  obtain ⟨hindent, hword, hafter⟩ := word_split h.indent_blank (words_linux _ hcommand).1
    (words_linux _ hcommand).2 hspace
  refine ⟨⟨by rwa [hword], ?_⟩, hindent, hword, by rw [lineArgs, hafter]⟩
  have hne := h.args_ne_nil
  rw [hafter]
  cases arguments with
  | nil => exact absurd (wordsBy_nil _) hne
  | cons x t =>
    cases t with
    | nil => exact absurd (pySplit_blank (by simpa using hspace)) hne
    | cons y t => simp

theorem kernelLine_of (h : IsKernel l) (hargs : lineArgs l ≠ []) :
    KernelLine l (l.takeWhile isSpace) (firstWord l) (lineArgs l) where
  split := ⟨afterWord l, text_eq l, isSpace_afterWord l, rfl⟩
  indent_blank := fun _ hx => List.mem_takeWhile_imp hx
  command_mem := by simpa [linuxWords, or_comm] using h.1
  args_ne_nil := hargs

theorem installerArgs_eq (args : List Text) : installerArgs args = rewrittenArgs args := by
  have hcontains : ∀ arg, arg ≠ instText → (args.filter (· != instText)).contains arg = args.contains arg :=
    fun arg hne => by
      rw [Bool.eq_iff_iff, List.contains_iff_mem, List.contains_iff_mem, List.mem_filter]
      exact ⟨fun h => h.1, fun h => ⟨h, bne_iff_ne.mpr hne⟩⟩
  have hclk := hcontains clkIgnoreUnused (by decide)
  have hpd := hcontains pdIgnoreUnused (by decide)
  have hgraphical := hcontains instGraphical (by decide)
  have hclkne : (clkIgnoreUnused == instGraphical) = false := by decide
  have hpdne : (pdIgnoreUnused == instGraphical) = false := by decide
  rw [installerArgs, rewrittenArgs, requiredArgs, hcontains instRescue (by decide)]
  cases args.contains instRescue with
  | true =>
    simp only [if_true, List.append_nil, List.filter_cons, List.filter_nil, hclk, hpd, hclkne, hpdne, beq_self_eq_true,
      Bool.and_true, Bool.not_true, Bool.not_false, Bool.and_false, Bool.false_eq_true, if_false]
  | false =>
    simp only [Bool.false_eq_true, if_false, List.filter_cons, List.cons_append, List.nil_append, List.filter_nil,
      hclk, hpd, hgraphical, Bool.and_false, Bool.not_false, Bool.and_true]

theorem rewritten_flatMap (hp : ∀ l ∈ ls, Passes l) : Rewritten ls (ls.flatMap rewriteLine) := by
  induction ls with
  | nil => exact .nil
  | cons l ls ih =>
    obtain ⟨hl, hp⟩ := List.forall_mem_cons.mp hp
    rw [List.flatMap_cons, rewriteLine]
    split
    case isTrue h =>
      have hargs : lineArgs l ≠ [] := fun hnil => by simpa [hnil] using hl h
      rw [installerArgs_eq]
      exact .kernel (kernelLine_of h hargs) (ih hp)
    case isFalse h => exact .other (fun _ _ _ hk => h hk.words.1) (ih hp)

/-! ## The lines that are printed -/

theorem word_lineArgs (l : Text) : ∀ arg ∈ lineArgs l, arg ≠ [] ∧ ∀ x ∈ arg, isSpace x = false := fun _ harg =>
  ⟨(mem_wordsBy harg).1, (mem_wordsBy harg).2.1⟩

theorem word_installerArgs (h : ∀ arg ∈ args, arg ≠ [] ∧ ∀ x ∈ arg, isSpace x = false) :
    ∀ arg ∈ installerArgs args, arg ≠ [] ∧ ∀ x ∈ arg, isSpace x = false := by
  have hadded : ∀ arg ∈ [clkIgnoreUnused, pdIgnoreUnused, instGraphical], arg ≠ [] ∧ ∀ x ∈ arg, isSpace x = false :=
    words_of_all (by decide)
  rw [installerArgs_eq, rewrittenArgs]
  refine List.forall_mem_append.mpr ⟨fun arg harg => h arg (List.mem_of_mem_filter harg), fun arg harg => ?_⟩
  exact hadded arg (List.mem_of_mem_filter harg)

theorem kernelPath_mem_installerArgs (h : args.head? = some kernelPath) :
    (installerArgs args).head? = some kernelPath := by
  obtain ⟨others, rfl⟩ := List.head?_eq_some_iff.mp h
  have hne : (kernelPath != instText) = true := by decide
  simp only [installerArgs, List.filter_cons, hne, if_true, List.cons_append, List.head?_cons]

theorem kernelLine_printed {indent command : Text} (hindent : ∀ x ∈ indent, isSpace x = true)
    (hcommand : command ∈ linuxWords) (hargs : ∀ arg ∈ args, arg ≠ [] ∧ ∀ x ∈ arg, isSpace x = false)
    (hne : args ≠ []) : KernelLine (indent ++ command ++ ' ' :: joinArgs args) indent command args where
  split := ⟨' ' :: joinArgs args, by simp, by simp; decide, by
    rw [pySplit, wordsBy_cons (by decide), joinArgs, wordsBy_intercalate (by decide) hargs]⟩
  indent_blank := hindent
  command_mem := by simpa [linuxWords, or_comm] using hcommand
  args_ne_nil := hne

theorem devicetreeLine_iff : DevicetreeLine l ↔ firstWord l = "devicetree".toList :=
  head?_pySplit_eq_some (by simp)

theorem devicetreeLine_printed {indent : Text} (hindent : ∀ x ∈ indent, isSpace x = true) :
    DevicetreeLine (indent ++ "devicetree ".toList ++ dtbPath) := by
  have hsplit : indent ++ "devicetree ".toList ++ dtbPath = indent ++ ("devicetree".toList ++ ' ' :: dtbPath) := by
    simp
  rw [devicetreeLine_iff, hsplit]
  exact (word_split hindent (by simp) (words_devicetree _ (by simp)).2 (by simp; decide)).2.1

theorem body_rewriteLine (hl : Body l) : ∀ m ∈ rewriteLine l, Body m := by
  rw [rewriteLine]
  split
  case isFalse => exact List.forall_mem_singleton.mpr hl
  case isTrue h =>
    have hindent : Body (l.takeWhile isSpace) := fun x hx => hl x (List.takeWhile_subset _ hx)
    have hword : ∀ {w : Text}, (∀ x ∈ w, isSpace x = false) → Body w := fun h x hx => isLineEnd_of_isSpace (h x hx)
    have hargs : Body (joinArgs (installerArgs (lineArgs l))) := by
      intro x hx
      rcases mem_intercalate hx with rfl | ⟨arg, harg, hx⟩
      · decide
      · exact hword (word_installerArgs (word_lineArgs l) arg harg).2 x hx
    have hdtb : Body ("devicetree ".toList ++ dtbPath) := forall_mem_of_all (by decide)
    rw [kernelLines, List.forall_mem_cons, List.forall_mem_singleton]
    refine ⟨List.forall_mem_append.mpr ⟨List.forall_mem_append.mpr ⟨hindent, hword (isSpace_firstWord l)⟩,
      List.forall_mem_cons.mpr ⟨by decide, hargs⟩⟩, ?_⟩
    rw [List.append_assoc]
    exact List.forall_mem_append.mpr ⟨hindent, hdtb⟩

theorem firstWord_of_isKernel (h : IsKernel l) : firstWord l ≠ "devicetree".toList := by
  intro heq
  have hmem := h.1
  rw [heq] at hmem
  exact absurd hmem (by decide)

/-- The lines that are printed pair up where no line of the configuration is a device tree line. -/
theorem paired_flatMap (hp : ∀ l ∈ ls, Passes l) :
    Paired (ls.flatMap rewriteLine) ↔ ∀ l ∈ ls, ¬ DevicetreeLine l := by
  induction ls with
  | nil => exact iff_of_true .nil (List.forall_mem_nil _)
  | cons l ls ih =>
    obtain ⟨hl, hp⟩ := List.forall_mem_cons.mp hp
    rw [List.flatMap_cons, List.forall_mem_cons, ← ih hp, rewriteLine]
    generalize ls.flatMap rewriteLine = ms
    split
    case isTrue h =>
      have hindent : ∀ x ∈ l.takeWhile isSpace, isSpace x = true := fun x hx => List.mem_takeWhile_imp hx
      have hargs : installerArgs (lineArgs l) ≠ [] := fun hnil => by
        simpa [hnil] using kernelPath_mem_installerArgs (hl h)
      have hkernel := kernelLine_printed hindent h.1 (word_installerArgs (word_lineArgs l)) hargs
      have hnot : ¬ DevicetreeLine l := fun hd => firstWord_of_isKernel h (devicetreeLine_iff.mp hd)
      rw [kernelLines, List.cons_append, List.singleton_append]
      constructor
      · intro hpaired
        refine ⟨hnot, ?_⟩
        cases hpaired with
        | kernel _ _ hrest => exact hrest
        | other hno _ _ => exact absurd hkernel (hno _ _ _)
      · exact fun hrest => .kernel hkernel (devicetreeLine_printed hindent) hrest.2
    case isFalse h =>
      have hno : ∀ indent command args, ¬ KernelLine l indent command args := fun _ _ _ hk => h hk.words.1
      rw [List.singleton_append]
      constructor
      · intro hpaired
        cases hpaired with
        | kernel hk _ _ => exact absurd hk (hno _ _ _)
        | other _ hd hrest => exact ⟨hd, hrest⟩
      · exact fun hrest => .other hno hrest.1 hrest.2

/-! ## The device tree line of the configuration -/

theorem anchored_selectsDevicetree : Anchored selectsDevicetree := anchored_command devicetree

theorem consumes_selectsDevicetree : Consumes selectsDevicetree := (consumes_command devicetree).indented

/-- The last line has no line end and is an indent and a bare `devicetree`. -/
def EndsBare (c : Text) : Prop := c.getLast? ≠ some '\n' ∧
  ∃ indent, (∀ x ∈ indent, isSpace x = true) ∧ (splitlines c).getLast? = some (indent ++ "devicetree".toList)

/-- The pattern sees a device tree line where something follows the word, if only the newline. -/
theorem search_selectsDevicetree (hls : ∀ l ∈ ls, Body l) (hl : Body l) :
    selectsDevicetree.search (unlines ls ++ l) = none ↔
      (∀ k ∈ ls, firstWord k ≠ "devicetree".toList) ∧ (firstWord l = "devicetree".toList → afterWord l = []) := by
  have hmatch : ∀ t, selectsDevicetree.matchAt true t = none ↔
      ¬ (firstWord t = "devicetree".toList ∧ afterWord t ≠ []) := fun t => by
    rw [← not_iff_not, not_not, selectsDevicetree, ← ne_eq, matchAt_command spells_devicetree words_devicetree,
      List.mem_singleton]
  rw [search, List.head?_eq_none_iff, anchored_selectsDevicetree.findall_eq_nil consumes_selectsDevicetree]
  induction ls with
  | nil =>
    rw [unlines_nil, List.nil_append, lineTails, tailsAfter_eq_nil hl.newline_not_mem, List.forall_mem_singleton]
    simpa using hmatch l
  | cons k ls ih =>
    obtain ⟨hk, hls⟩ := List.forall_mem_cons.mp hls
    have hlines : _ ↔ _ := ih hls
    rw [unlines_cons_append, lineTails, tailsAfter_line hk.newline_not_mem, List.forall_mem_cons, hlines,
      List.forall_mem_cons, and_assoc]
    refine and_congr_left fun hrest => ?_
    by_cases hblank : firstWord k = []
    · refine iff_of_true ?_ (by rw [hblank]; simp)
      have htail := (ih hls).mpr hrest _ List.mem_cons_self
      have hnext := matchAt_indented_blank ((solid_spells spells_devicetree words_devicetree).seq (.char isSpace))
        (firstWord_eq_nil.mp hblank) (unlines ls ++ l)
      exact hnext.trans htail
    · obtain ⟨hfirst, hafter⟩ := word_append (u := '\n' :: (unlines ls ++ l)) hblank (by simp; decide)
      rw [hmatch, hfirst, hafter]
      simp

theorem devicetreeLine_splitlines (hc : NewlineBreaks c) (hs : selectsDevicetree.search c = none) :
    (∀ l ∈ splitlines c, ¬ DevicetreeLine l) ↔ ¬ EndsBare c := by
  obtain ⟨ls, l, rfl, hls, hl, hsplit⟩ := exists_lines hc
  obtain ⟨hother, hlast⟩ := (search_selectsDevicetree hls hl).mp hs
  have hothers : ∀ k ∈ ls, ¬ DevicetreeLine k := fun k hk hd => hother k hk (devicetreeLine_iff.mp hd)
  rw [EndsBare, hsplit]
  split
  case isTrue hnil =>
    refine iff_of_true hothers ?_
    rintro ⟨hend, indent, -, hget⟩
    obtain ⟨before, rfl⟩ := List.getLast?_eq_some_iff.mp hget
    refine hend ?_
    rw [hnil, List.append_nil, unlines_append]
    simp [unlines]
  case isFalse hne =>
    have hend : (unlines ls ++ l).getLast? ≠ some '\n' := fun h => by
      rw [List.getLast?_append_of_ne_nil _ hne] at h
      exact hl.newline_not_mem (List.mem_of_getLast? h)
    rw [List.forall_mem_append, List.forall_mem_singleton, List.getLast?_concat]
    constructor
    · rintro ⟨-, hnot⟩ ⟨-, indent, hindent, hget⟩
      refine hnot (devicetreeLine_iff.mpr ?_)
      have hsplit' := (word_split (v := []) hindent (by simp) (words_devicetree _ (List.mem_singleton_self _)).2
        (by simp)).2.1
      rwa [List.append_nil, ← Option.some.inj hget] at hsplit'
    · refine fun hnot => ⟨hothers, fun hd => hnot ⟨hend, l.takeWhile isSpace, fun x hx => List.mem_takeWhile_imp hx, ?_⟩⟩
      have hword := devicetreeLine_iff.mp hd
      conv_lhs => rw [text_eq l, hlast hword, List.append_nil, hword]

/-- **Only kernel lines change.** The result is the configuration line by line, with the rewritten kernel
line and its device tree line in the place of each kernel line and no other device tree line, and
diagnostic mode only adds to it, exactly where the configuration does not end in a bare `devicetree`
without a line end: the pattern that refuses device tree lines looks for a space behind the word. -/
theorem keepsLines_iff (hc : NewlineBreaks c) (h : patchConfig c false = .ok r) :
    (Rewritten (splitlines c) (splitlines r) ∧ Paired (splitlines r) ∧
      ∀ r', patchConfig c true = .ok r' → r <+: r') ↔ ¬ EndsBare c := by
  obtain ⟨hs, hpass, -, rfl⟩ := (patchConfig_eq_ok hc).mp h
  have hbody : ∀ m ∈ (splitlines c).flatMap rewriteLine, Body m := fun m hm => by
    obtain ⟨l, hl, hm⟩ := List.mem_flatMap.mp hm
    exact body_rewriteLine (newline_not_mem_splitlines hc l hl) m hm
  have hadded : ∀ r', patchConfig c true = .ok r' → unlines ((splitlines c).flatMap rewriteLine) <+: r' := by
    intro r' hr
    rw [patchConfig_diagnostic, h, Except.ok_bind] at hr
    obtain ⟨-, kernel, -, rfl⟩ := addDiagnostics_eq_ok.mp hr
    exact List.prefix_append _ _
  rw [splitlines_unlines hbody, paired_flatMap hpass, devicetreeLine_splitlines hc hs]
  exact ⟨fun h => h.2.1, fun h => ⟨rewritten_flatMap hpass, h, hadded⟩⟩

/-- A normal and a rescue kernel -/
def sampleConfig : Text := unlines
  [ "  linux /images/pxeboot/vmlinuz inst.text quiet".toList,
    "\tlinuxefi  /images/pxeboot/vmlinuz inst.rescue".toList ]

theorem keepsLines_sample : ∃ r, patchConfig sampleConfig false = .ok r ∧
    ((Rewritten (splitlines sampleConfig) (splitlines r) ∧ Paired (splitlines r) ∧
      ∀ r', patchConfig sampleConfig true = .ok r' → r <+: r') ↔ ¬ EndsBare sampleConfig) := by
  have hc : NewlineBreaks sampleConfig := forall_mem_of_all (by decide +kernel)
  have hok : (patchConfig sampleConfig false).toOption.isSome = true := by decide +kernel
  cases h : patchConfig sampleConfig false with
  | error e =>
    rw [h] at hok
    cases hok
  | ok r => exact ⟨r, rfl, keepsLines_iff hc h⟩

def bareConfig : Text := "linux /images/pxeboot/vmlinuz\ndevicetree".toList

/-- The device tree line stays in the result, behind the one that the kernel line gets. -/
theorem bareConfig_unpaired : NewlineBreaks bareConfig ∧
    ∃ r, patchConfig bareConfig false = .ok r ∧ ¬ Paired (splitlines r) := by
  have hc : NewlineBreaks bareConfig := forall_mem_of_all (by decide +kernel)
  have hsplit : splitlines bareConfig = ["linux /images/pxeboot/vmlinuz".toList, "devicetree".toList] := by
    decide +kernel
  have hok : (patchConfig bareConfig false).toOption.isSome = true := by decide +kernel
  cases h : patchConfig bareConfig false with
  | error e =>
    rw [h] at hok
    cases hok
  | ok r =>
    obtain ⟨-, hpass, -, rfl⟩ := (patchConfig_eq_ok hc).mp h
    refine ⟨hc, _, rfl, ?_⟩
    have hbody : ∀ m ∈ (splitlines bareConfig).flatMap rewriteLine, Body m := fun m hm => by
      obtain ⟨l, hl, hm⟩ := List.mem_flatMap.mp hm
      exact body_rewriteLine (newline_not_mem_splitlines hc l hl) m hm
    rw [splitlines_unlines hbody, paired_flatMap hpass]
    intro hnone
    exact hnone "devicetree".toList (by rw [hsplit]; simp) (by unfold DevicetreeLine; decide +kernel)

end Azurefin.Grub
