import Azurefin.Bluetooth.Format
import Azurefin.Lib.Lines

/-!
# The Kickstart file of the installer

`bluetooth_address` and `kickstart` of `installer_prepare.py`. Four texts from devices, directory names
and the keyboard are spliced into a script that partitions disks. Whatever they are, the file is the
template with the values of `Choice` in it: the forms of its fields leave no room for a line end or for
a word of Kickstart.
-/

namespace Azurefin.Kickstart

/-! ## The source -/

/-- `bluetooth_address(value)` -/
def bluetoothAddress (value : Text) : Except PyError (Option Text) :=
  let value := upper (strip value)
  if value = [] then .ok none
  else if !isAddressText value || value == "00:00:00:00:00:00".toList ||
      value == "FF:FF:FF:FF:FF:FF".toList then
    .error (.valueError
      "Enter the factory Bluetooth address as six colon-separated hexadecimal pairs.")
  else .ok (some value)

/-- `re.fullmatch(r'sd[a-z]+', name)` -/
def isDiskName (name : Text) : Bool :=
  "sd".toList.isPrefixOf name && name.drop 2 != [] && (name.drop 2).all Char.isLower

/-- The path of a run up to its random name -/
def provisionRun : Text := "/run/azurefin-work/runs/azurefin-provision.".toList

def container : Text := "/container".toList

/-- `re.fullmatch(r'/run/azurefin-work/runs/azurefin-provision\.[A-Za-z0-9]+/container', payload)` -/
def isPayload (payload : Text) : Bool :=
  let rest := payload.drop provisionRun.length
  provisionRun.isPrefixOf payload && rest.takeWhile Char.isAlphanum != [] &&
    rest.dropWhile Char.isAlphanum == container

/-- `bluetooth_command` of `kickstart` -/
def bluetoothCommand : Option Text → Text
  | some address => "azurefin-extract-firmware --bluetooth-address ".toList ++ address ++ ['\n']
  | none => []

/-- The lines of the formatted text that `kickstart` returns, with what stands in their braces -/
def template (address : Option Text) (disks : List Text) (payload : Text) : List Text :=
  [ "# Generated only after successful firmware preparation.".toList,
    "ignoredisk --drives=".toList ++ List.intercalate [','] disks,
    "ostreecontainer --url=".toList ++ payload ++ " --transport=oci".toList,
    "%post --erroronfail --log=/var/log/azurefin-provision-post.log".toList,
    "set -eu".toList,
    "python3 /usr/libexec/azurefin-installer-fix-fstab.py".toList,
    bluetoothCommand address ++
      "# Bluetooth address is written only to this installed system, not the OCI image.".toList,
    "# The private result has no public update source. Automatic updates remain".toList,
    "# masked by the payload; never switch to the firmware-free public base.".toList,
    "bootc switch --mutate-in-place --transport registry localhost/azurefin:local-provisioned".toList,
    "%end".toList ]

/-- `kickstart(payload, disk, source_disk, bluetooth_mac)` -/
def kickstart (payload disk : Text) (sourceDisk bluetoothMac : Option Text) : Except PyError Text := do
  let address ← bluetoothAddress (bluetoothMac.getD [])
  let disks := (disk :: sourceDisk.toList.filter (· != [])).eraseDups
  if !disks.all isDiskName then .error (.valueError "Unexpected external disk name")
  else if !isPayload payload then .error (.valueError "Unexpected prepared payload path")
  else .ok ((template address disks payload).flatMap (· ++ ['\n']))

/-! ## The template -/

/-- What a file is generated with. No other values can be put into the template. -/
structure Choice where
  disks : List Text
  once : disks.Nodup
  disk_form : ∀ d ∈ disks, ∃ letters, d = "sd".toList ++ letters ∧ letters ≠ [] ∧
    ∀ c ∈ letters, c.isLower = true
  run : Text
  run_form : run ≠ [] ∧ ∀ c ∈ run, c.isAlphanum = true
  address : Option Text
  address_form : ∀ a ∈ address, ValidAddress a

/-- The payload: one path below `/run/azurefin-work/runs` -/
def Choice.payload (v : Choice) : Text := provisionRun ++ v.run ++ container

/-- The lines of the file -/
def Choice.lines (v : Choice) : List Text :=
  ["# Generated only after successful firmware preparation.".toList,
    "ignoredisk --drives=".toList ++ List.intercalate [','] v.disks,
    "ostreecontainer --url=".toList ++ v.payload ++ " --transport=oci".toList,
    "%post --erroronfail --log=/var/log/azurefin-provision-post.log".toList,
    "set -eu".toList,
    "python3 /usr/libexec/azurefin-installer-fix-fstab.py".toList] ++
  (v.address.map fun a => "azurefin-extract-firmware --bluetooth-address ".toList ++ a).toList ++
  ["# Bluetooth address is written only to this installed system, not the OCI image.".toList,
    "# The private result has no public update source. Automatic updates remain".toList,
    "# masked by the payload; never switch to the firmware-free public base.".toList,
    "bootc switch --mutate-in-place --transport registry localhost/azurefin:local-provisioned".toList,
    "%end".toList]

/-- The commands that Kickstart reads: the first words of the lines that are neither comments nor in a
section. `inside` tells whether a section is open. -/
def commands : Bool → List Text → List Text
  | _, [] => []
  | inside, l :: ls =>
    match pySplit l with
    | [] => commands inside ls
    | w :: _ =>
      if inside then commands (w != "%end".toList) ls
      else if w.head? = some '#' then commands false ls
      else if w.head? = some '%' then commands true ls
      else w :: commands false ls

/-! ## The validations -/

theorem upper_eq_nil {t : Text} : upper t = [] ↔ t = [] := by
  have hne : ∀ c, (asciiUppercasings.lookup c).getD [c.toUpper] ≠ [] := by
    intro c
    cases h : asciiUppercasings.lookup c with
    | none => simp
    | some v =>
      have hall : ∀ p ∈ asciiUppercasings, p.2 ≠ [] := forall_mem_of_all (by decide +kernel)
      obtain ⟨l₁, l₂, hl, -⟩ := List.lookup_eq_some_iff.mp h
      exact hall (c, v) (by simp [hl])
  cases t with
  | nil => simp [upper]
  | cons c t => simp [upper, hne c]

theorem bluetoothAddress_cases (value : Text) :
    (∃ message, bluetoothAddress value = .error (.valueError message)) ∨
      ∃ address, bluetoothAddress value = .ok address ∧ (∀ a ∈ address, ValidAddress a) ∧
        address = if strip value = [] then none else some (upper (strip value)) := by
  by_cases hblank : strip value = []
  · exact .inr ⟨none, by simp [bluetoothAddress, hblank, upper], by simp, by simp [hblank]⟩
  · have hupper : upper (strip value) ≠ [] := fun h => hblank (upper_eq_nil.mp h)
    simp only [bluetoothAddress, hupper, if_false, hblank]
    split
    case isTrue => exact .inl ⟨_, rfl⟩
    case isFalse h =>
      refine .inr ⟨_, rfl, fun a ha => ?_, rfl⟩
      obtain rfl := Option.mem_some_iff.mp ha
      simp only [Bool.or_eq_true, not_or, Bool.not_eq_true', Bool.not_eq_false, beq_iff_eq] at h
      exact ⟨h.1.1, h.1.2, h.2⟩

/-- `disk` and `source_disk`, each once -/
theorem eraseDups_disks (disk : Text) (sourceDisk : Option Text) :
    (disk :: sourceDisk.toList.filter (· != [])).eraseDups =
      disk :: sourceDisk.toList.filter fun s => s != [] && s != disk := by
  rw [List.eraseDups_cons, List.filter_filter]
  cases sourceDisk with
  | none => rfl
  | some s => by_cases h : s = [] <;> by_cases h' : s = disk <;> simp [h, h', List.eraseDups_cons]

theorem nodup_disks (disk : Text) (sourceDisk : Option Text) :
    (disk :: sourceDisk.toList.filter fun s => s != [] && s != disk).Nodup := by
  cases sourceDisk with
  | none => simp
  | some s => by_cases h : s = [] <;> by_cases h' : s = disk <;> simp [h, h', Ne.symm]

theorem isDiskName_form {name : Text} (h : isDiskName name = true) :
    ∃ letters, name = "sd".toList ++ letters ∧ letters ≠ [] ∧ ∀ c ∈ letters, c.isLower = true := by
  simp only [isDiskName, Bool.and_eq_true, List.isPrefixOf_iff_prefix, bne_iff_ne, List.all_eq_true] at h
  obtain ⟨⟨⟨letters, rfl⟩, hne⟩, hall⟩ := h
  exact ⟨letters, rfl, hne, hall⟩

/-- A text that goes on with characters of a class and then ends as it has to. -/
theorem exists_run {start stop t : Text} {p : Char → Bool}
    (h : (start.isPrefixOf t && (t.drop start.length).takeWhile p != [] &&
      (t.drop start.length).dropWhile p == stop) = true) :
    ∃ run, t = start ++ run ++ stop ∧ run ≠ [] ∧ ∀ c ∈ run, p c = true := by
  simp only [Bool.and_eq_true, List.isPrefixOf_iff_prefix, bne_iff_ne, beq_iff_eq] at h
  obtain ⟨⟨⟨rest, rfl⟩, hne⟩, hend⟩ := h
  rw [List.drop_left] at hne hend
  refine ⟨rest.takeWhile p, ?_, hne, fun c hc => List.mem_takeWhile_imp hc⟩
  rw [← hend, List.append_assoc, List.takeWhile_append_dropWhile]

theorem isPayload_iff {payload : Text} : isPayload payload = true ↔
    ∃ run, payload = provisionRun ++ run ++ container ∧ run ≠ [] ∧ ∀ c ∈ run, c.isAlphanum = true := by
  refine ⟨fun h => exists_run h, ?_⟩
  rintro ⟨run, rfl, hne, halnum⟩
  have hrest : (provisionRun ++ run ++ container).drop provisionRun.length = run ++ container := by
    rw [List.append_assoc, List.drop_left]
  have htake : (run ++ container).takeWhile Char.isAlphanum = run := by
    rw [List.takeWhile_append_of_pos halnum, List.takeWhile_eq_nil_iff.mpr (by decide), List.append_nil]
  have hdrop : (run ++ container).dropWhile Char.isAlphanum = container := by
    rw [List.dropWhile_append_of_pos halnum, List.dropWhile_eq_self_iff.mpr (by decide)]
  simp only [isPayload, hrest, htake, hdrop, Bool.and_eq_true, List.isPrefixOf_iff_prefix, bne_iff_ne,
    beq_self_eq_true, and_true]
  exact ⟨List.append_assoc _ _ _ ▸ List.prefix_append _ _, hne⟩

/-! ## Nothing is spliced in -/

section Commands

variable {l w t : Text} {ls : List Text}

/-- The first word of a text that begins with a word and a space. -/
theorem head_pySplit {p : Text} (h : p.takeWhile (!isSpace ·) = w) (hw : w ≠ [] ∧ w.length < p.length) (t : Text) :
    (pySplit (p ++ t)).head? = some w := by
  have hword : ∀ c ∈ w, isSpace c = false := by
    intro c hc
    rw [← h] at hc
    simpa using List.mem_takeWhile_imp hc
  have hp : p = w ++ p.dropWhile (!isSpace ·) := by rw [← h, List.takeWhile_append_dropWhile]
  have hstop := List.head?_dropWhile_not (!isSpace ·) p
  cases hrest : p.dropWhile (!isSpace ·) with
  | nil =>
    rw [hrest, List.append_nil] at hp
    rw [hp] at hw
    exact absurd hw.2 (Nat.lt_irrefl _)
  | cons c rest =>
    have hc : isSpace c = true := by simpa [hrest] using hstop
    rw [hp, hrest, List.append_assoc, List.cons_append, pySplit, wordsBy_append_word hw.1 hword hc, List.head?_cons]

theorem commands_comment (h : (pySplit l).head?.bind List.head? = some '#') :
    commands false (l :: ls) = commands false ls := by
  cases hl : pySplit l with
  | nil => simp [commands, hl]
  | cons w ws => simp_all [commands]

theorem commands_section (h : (pySplit l).head?.bind List.head? = some '%') :
    commands false (l :: ls) = commands true ls := by
  cases hl : pySplit l with
  | nil => simp [hl] at h
  | cons w ws => simp_all [commands]

theorem commands_inside (h : (pySplit l).head? ≠ some "%end".toList) :
    commands true (l :: ls) = commands true ls := by
  cases hl : pySplit l with
  | nil => simp [commands, hl]
  | cons w ws =>
    have hw : w ≠ "%end".toList := by simpa [hl] using h
    simp only [commands, hl, if_true, bne_iff_ne.mpr hw]

theorem commands_end (h : (pySplit l).head? = some "%end".toList) : commands true (l :: ls) = commands false ls := by
  cases hl : pySplit l with
  | nil => simp [hl] at h
  | cons w ws =>
    obtain rfl : w = "%end".toList := by simpa [hl] using h
    simp only [commands, hl, if_true, bne_self_eq_false]

theorem commands_word (h : (pySplit l).head? = some w) (hw : w.head? ≠ some '#' ∧ w.head? ≠ some '%') :
    commands false (l :: ls) = w :: commands false ls := by
  cases hl : pySplit l with
  | nil => simp [hl] at h
  | cons w ws => simp_all [commands]

end Commands

/-- The characters from the space to the tilde -/
def isPrintable (c : Char) : Bool := 32 ≤ c.toNat && c.toNat < 127

theorem isLineEnd_of_isPrintable {c : Char} (h : isPrintable c = true) : isLineEnd c = false := by
  have hend : ∀ d, isLineEnd d = true → isPrintable d = false := by
    simp only [isLineEnd, List.contains_iff_mem]
    exact forall_mem_of_all (by decide +kernel)
  cases hc : isLineEnd c with
  | false => rfl
  | true => rw [← h, hend c hc]

theorem isLineEnd_of_isAlphanum {c : Char} (h : c.isAlphanum = true) : isLineEnd c = false := by
  have hend : ∀ d, isLineEnd d = true → d.isAlphanum = false := by
    simp only [isLineEnd, List.contains_iff_mem]
    exact forall_mem_of_all (by decide +kernel)
  cases hc : isLineEnd c with
  | false => rfl
  | true => rw [← h, hend c hc]

theorem isAlphanum_eq (c : Char) : c.isAlphanum = (c.isUpper || c.isLower || c.isDigit) := rfl

theorem isAlphanum_of_isUpperHex {c : Char} (h : isUpperHex c = true) : c.isAlphanum = true := by
  rw [isUpperHex, Bool.or_eq_true, Bool.and_eq_true, decide_eq_true_eq, decide_eq_true_eq] at h
  rcases h with h | ⟨hA, hF⟩
  · simp [isAlphanum_eq, h]
  · have hZ : c ≤ 'Z' := hF.trans (by decide)
    have hupper : c.isUpper = true := decide_eq_true ⟨hA, hZ⟩
    simp [isAlphanum_eq, hupper]

theorem body_append {l m : Text} (hl : Body l) (hm : Body m) : Body (l ++ m) := fun c hc =>
  (List.mem_append.mp hc).elim (hl c) (hm c)

theorem body_literal {l : Text} (h : l.all isPrintable = true) : Body l := fun c hc =>
  isLineEnd_of_isPrintable (List.all_eq_true.mp h c hc)

/-- The digits and the colons of an address -/
theorem body_address {a : Text} (h : ValidAddress a) : Body a := by
  have hparts := h.form
  rw [isAddressText, Bool.and_eq_true, List.all_eq_true] at hparts
  have hjoin : List.intercalate [':'] (a.splitOn ':') = a := List.intercalate_splitOn ':'
  intro c hc
  rw [← hjoin] at hc
  rcases mem_intercalate hc with rfl | ⟨part, hpart, hc⟩
  · decide
  · have hdigits := hparts.2 part hpart
    rw [Bool.and_eq_true, List.all_eq_true] at hdigits
    exact isLineEnd_of_isAlphanum (isAlphanum_of_isUpperHex (hdigits.2 c hc))

namespace Choice

variable (v : Choice)

/-- The command ends its own line. -/
theorem bluetoothCommand_eq (address : Option Text) : bluetoothCommand address =
    (address.map fun a => "azurefin-extract-firmware --bluetooth-address ".toList ++ a).toList.flatMap
      (· ++ ['\n']) := by
  cases address with
  | none => rfl
  | some a => exact (List.append_nil _).symm

theorem flatMap_splice (l₁ l₂ l₃ l₄ l₅ l₆ l₇ l₈ l₉ l₁₀ l₁₁ : Text) (ls : List Text) :
    [l₁, l₂, l₃, l₄, l₅, l₆, ls.flatMap (· ++ ['\n']) ++ l₇, l₈, l₉, l₁₀, l₁₁].flatMap (· ++ ['\n']) =
      ([l₁, l₂, l₃, l₄, l₅, l₆] ++ ls ++ [l₇, l₈, l₉, l₁₀, l₁₁]).flatMap (· ++ ['\n']) := by
  simp

theorem template_eq :
    (template v.address v.disks v.payload).flatMap (· ++ ['\n']) = v.lines.flatMap (· ++ ['\n']) := by
  rw [template, bluetoothCommand_eq, flatMap_splice]
  rfl

/-- The two commands of the template, whatever is put into it. -/
theorem commands_lines : commands false v.lines = ["ignoredisk".toList, "ostreecontainer".toList] := by
  have hdisks : (pySplit ("ignoredisk --drives=".toList ++ List.intercalate [','] v.disks)).head? =
      some "ignoredisk".toList := head_pySplit (by decide +kernel) (by decide +kernel) _
  have hpayload : (pySplit ("ostreecontainer --url=".toList ++ v.payload ++ " --transport=oci".toList)).head? =
      some "ostreecontainer".toList := by
    rw [List.append_assoc]
    exact head_pySplit (by decide +kernel) (by decide +kernel) _
  have hafter : ∀ ls, commands true
      ("# Bluetooth address is written only to this installed system, not the OCI image.".toList ::
        "# The private result has no public update source. Automatic updates remain".toList ::
        "# masked by the payload; never switch to the firmware-free public base.".toList ::
        "bootc switch --mutate-in-place --transport registry localhost/azurefin:local-provisioned".toList ::
        "%end".toList :: ls) = commands false ls := by
    intro ls
    rw [commands_inside (by decide +kernel), commands_inside (by decide +kernel), commands_inside (by decide +kernel),
      commands_inside (by decide +kernel), commands_end (by decide +kernel)]
  simp only [lines, List.cons_append, List.nil_append]
  rw [commands_comment (by decide +kernel), commands_word hdisks (by decide),
    commands_word hpayload (by decide), commands_section (by decide +kernel),
    commands_inside (by decide +kernel), commands_inside (by decide +kernel)]
  cases ha : v.address with
  | none => rw [Option.map_none, Option.toList_none, List.nil_append, hafter, commands]
  | some a =>
    have haddress : (pySplit ("azurefin-extract-firmware --bluetooth-address ".toList ++ a)).head? =
        some "azurefin-extract-firmware".toList := head_pySplit (by decide +kernel) (by decide +kernel) _
    have hend : some "azurefin-extract-firmware".toList ≠ some "%end".toList := by decide +kernel
    rw [Option.map_some, Option.toList_some, List.singleton_append,
      commands_inside (by rwa [haddress]), hafter, commands]

theorem length_lines : v.lines.length = 11 + v.address.toList.length := by
  cases ha : v.address <;> (rw [lines, ha]; rfl)

theorem body_disks : Body (List.intercalate [','] v.disks) := by
  intro c hc
  rcases mem_intercalate hc with rfl | ⟨d, hd, hc⟩
  · decide
  · obtain ⟨letters, rfl, -, hall⟩ := v.disk_form d hd
    exact body_append (body_literal (by decide)) (fun c hc => isLineEnd_of_isAlphanum
      (by simp [isAlphanum_eq, hall c hc])) c hc

theorem body_payload : Body v.payload :=
  body_append (body_append (body_literal (by decide +kernel)) fun c hc =>
    isLineEnd_of_isAlphanum (v.run_form.2 c hc)) (body_literal (by decide +kernel))

/-- No value has a line end of any kind. -/
theorem body_lines : ∀ l ∈ v.lines, Body l := by
  have hprinted : ∀ l ∈ (v.address.map
      fun a => "azurefin-extract-firmware --bluetooth-address ".toList ++ a).toList, Body l := by
    intro l hl
    obtain ⟨a, ha, rfl⟩ := Option.map_eq_some_iff.mp (Option.mem_toList.mp hl)
    exact body_append (body_literal (by decide +kernel)) (body_address (v.address_form a ha))
  simp only [lines, List.forall_mem_append, List.forall_mem_cons]
  refine ⟨⟨⟨?_, ?_, ?_, ?_, ?_, ?_, by simp⟩, hprinted⟩, ?_, ?_, ?_, ?_, ?_, by simp⟩
  case refine_2 => exact body_append (body_literal (by decide +kernel)) v.body_disks
  case refine_3 =>
    exact body_append (body_append (body_literal (by decide +kernel)) v.body_payload)
      (body_literal (by decide +kernel))
  all_goals exact body_literal (by decide +kernel)

end Choice

/-- What is spliced into the template has its form, or `kickstart` refuses it. -/
theorem kickstart_cases (payload disk : Text) (sourceDisk bluetoothMac : Option Text) :
    (∃ message, kickstart payload disk sourceDisk bluetoothMac = .error (.valueError message)) ∨
      ∃ v : Choice, kickstart payload disk sourceDisk bluetoothMac =
        .ok ((template v.address v.disks v.payload).flatMap (· ++ ['\n'])) ∧
        v.disks = disk :: sourceDisk.toList.filter (fun s => s != [] && s != disk) ∧
        v.payload = payload ∧
        v.address = if strip (bluetoothMac.getD []) = [] then none
          else some (upper (strip (bluetoothMac.getD []))) := by
  rcases bluetoothAddress_cases (bluetoothMac.getD []) with ⟨message, herror⟩ | ⟨address, hok, hvalid, haddress⟩
  · exact .inl ⟨message, by simp only [kickstart, herror]; rfl⟩
  by_cases hdisks : (disk :: sourceDisk.toList.filter (· != [])).eraseDups.all isDiskName = true
  case neg => exact .inl ⟨_, by simp only [kickstart, hok, hdisks]; rfl⟩
  by_cases hpayload : isPayload payload = true
  case neg => exact .inl ⟨_, by simp only [kickstart, hok, hdisks, hpayload]; rfl⟩
  obtain ⟨run, hrun, hne, halnum⟩ := isPayload_iff.mp hpayload
  have hform := fun d hd => isDiskName_form (List.all_eq_true.mp hdisks d hd)
  refine .inr ⟨⟨_, eraseDups_disks disk sourceDisk ▸ nodup_disks disk sourceDisk, hform, run, ⟨hne, halnum⟩, address,
    hvalid⟩, ?_, eraseDups_disks disk sourceDisk, hrun.symm, haddress⟩
  simp only [kickstart, Except.bind_eq_ok, Except.check_eq_ok, Except.ok.injEq]
  refine ⟨address, hok, by simp [hdisks], by simp [hpayload], ?_⟩
  rw [hrun]
  rfl

/-- Whatever the four texts are, `kickstart` refuses them or writes the template: the disks it protects
are the given ones, the payload is the given one, and the Bluetooth line stands in it exactly for an
address that is not blank. The text has the template's lines and commands and no others. -/
theorem kickstart_template (payload disk : Text) (sourceDisk bluetoothMac : Option Text) :
    (∃ message, kickstart payload disk sourceDisk bluetoothMac = .error (.valueError message)) ∨
      ∃ (v : Choice) (text : Text), kickstart payload disk sourceDisk bluetoothMac = .ok text ∧
        text = v.lines.flatMap (· ++ ['\n']) ∧ splitlines text = v.lines ∧
        v.disks = disk :: sourceDisk.toList.filter (fun s => s != [] && s != disk) ∧
        v.payload = payload ∧
        v.address = (if strip (bluetoothMac.getD []) = [] then none
          else some (upper (strip (bluetoothMac.getD [])))) ∧
        v.lines.length = 11 + v.address.toList.length ∧
        commands false v.lines = ["ignoredisk".toList, "ostreecontainer".toList] := by
  rcases kickstart_cases payload disk sourceDisk bluetoothMac with herror | ⟨v, hok, hdisks, hpayload, haddress⟩
  · exact .inl herror
  rw [v.template_eq] at hok
  exact .inr ⟨v, _, hok, rfl, splitlines_flatMap v.body_lines, hdisks, hpayload, haddress, v.length_lines,
    v.commands_lines⟩

end Azurefin.Kickstart
