import Azurefin.Installer.Prepare
import Azurefin.Bluetooth.Storage

/-!
# What the preparation leaves behind

At every moment of every run of the preparation, whatever fails and whoever interrupts it: each
file system that it mounted is still to be unmounted or was reported, is mounted read-only, and is
not on the disk of the workspace, `mounts_accounted`; and the file for the installer is complete
only with a payload of a finished run of the script, `output_justified`.

## Main results

* `Azurefin.Prepare.mounts_accounted` — the mounts, at every moment.
* `Azurefin.Prepare.output_justified` — the file for the installer, at every moment.
* `Azurefin.Prepare.renders_iff` — the payloads for which the file can be written.
-/

namespace Azurefin.Prepare

open Kickstart

variable {s t : Installer} {l : List Answer} {a : Answer} {mac : Option Text} {mounts rest : List Text}
  {files : List (Text × Text)} {todo : List (Except PyError (Text × Text))} {leave : Leave}
  {disk device name payload text : Text} {e : PyError}

/-! ## The partitions -/

theorem usbDisk_name {d : Json} (h : usbDisk d = .ok (some name)) : isDiskName name = true := by
  unfold usbDisk at h
  obtain ⟨isDisk, -, h⟩ := Except.bind_eq_ok.mp h
  split at h
  · simp at h
  obtain ⟨isUsb, -, h⟩ := Except.bind_eq_ok.mp h
  split at h
  · simp at h
  obtain ⟨v, -, h⟩ := Except.bind_eq_ok.mp h
  obtain ⟨w, -, h⟩ := Except.bind_eq_ok.mp h
  simp only [Except.ok.injEq] at h
  split at h
  · next hname => exact Option.some.inj h ▸ hname
  · simp at h

theorem mem_partItems {parts : List Json} {item : Text × Text}
    (h : .ok item ∈ partItems disk parts) : item.2 = disk := by
  induction parts with
  | nil => simp [partItems] at h
  | cons part parts ih =>
    rw [partItems] at h
    split at h
    · simp at h
    · exact ih h
    · obtain heq | h := List.mem_cons.mp h
      · obtain rfl := Except.ok.inj heq
        rfl
      · exact ih h

theorem mem_andThen {items more : List (Except PyError (Text × Text))} {item : Text × Text}
    (h : .ok item ∈ andThen items more) : .ok item ∈ items ∨ .ok item ∈ more := by
  induction items with
  | nil => exact .inr h
  | cons first items ih =>
    cases first with
    | error e => simp [andThen] at h
    | ok x =>
      obtain heq | h := List.mem_cons.mp h
      · exact .inl (heq ▸ List.mem_cons_self)
      · exact (ih h).imp_left (List.mem_cons_of_mem _)

theorem mem_diskItems {disks : List Json} {item : Text × Text} (h : .ok item ∈ diskItems disks) :
    isDiskName item.2 = true := by
  induction disks with
  | nil => simp [diskItems] at h
  | cons d disks ih =>
    rw [diskItems] at h
    split at h
    · simp at h
    · exact ih h
    · next name hname =>
      split at h
      · simp at h
      · obtain hpart | h := mem_andThen h
        · rw [mem_partItems hpart]
          exact usbDisk_name hname
        · exact ih h

/-- A partition that is yielded is on a disk with the name of an external one. -/
theorem mem_usbPartitions {devices : Json} {item : Text × Text}
    (h : .ok item ∈ usbPartitions devices) : isDiskName item.2 = true := by
  unfold usbPartitions at h
  split at h
  · simp at h
  · exact mem_diskItems h

/-! ## Mounts that are held -/

/-- The mounts that the program will still come to, or did not get to. -/
def Step.held : Step → List Text
  | .making _ usb _ _ | .mounting _ usb _ _ _ | .unmade _ usb | .reading _ usb _ _
  | .selecting _ usb => usb.mounts
  | .preparing _ (some (mounts, _)) | .running _ (some (mounts, _)) _ => mounts
  | .leaving _ target rest _ => target :: rest
  | .removing _ rest _ | .ended _ rest => rest
  | _ => []

variable {usb : Usb} {devices : Json} {target : Text} {held : Option (List Text × Text)}
  {sourceDisk prepared : Option Text} {error : Option PyError}

@[simp] theorem held_choosing : Step.choosing.held = [] := rfl
@[simp] theorem held_addressing {b : Bool} : (Step.addressing b).held = [] := rfl
@[simp] theorem held_connecting : (Step.connecting mac).held = [] := rfl
@[simp] theorem held_confirming : (Step.confirming mac).held = [] := rfl
@[simp] theorem held_asking : (Step.asking mac).held = [] := rfl
@[simp] theorem held_listing : (Step.listing mac).held = [] := rfl
@[simp] theorem held_workspace : (Step.workspace mac devices).held = [] := rfl
@[simp] theorem held_making : (Step.making mac usb device disk).held = usb.mounts := rfl
@[simp] theorem held_mounting : (Step.mounting mac usb device disk target).held = usb.mounts := rfl
@[simp] theorem held_unmade : (Step.unmade mac usb).held = usb.mounts := rfl
@[simp] theorem held_reading : (Step.reading mac usb disk target).held = usb.mounts := rfl
@[simp] theorem held_selecting : (Step.selecting mac usb).held = usb.mounts := rfl
@[simp] theorem held_leaving : (Step.leaving mac target rest leave).held = target :: rest := rfl
@[simp] theorem held_removing : (Step.removing mac rest leave).held = rest := rfl
@[simp] theorem held_ended : (Step.ended error rest).held = rest := rfl
@[simp] theorem held_opening : (Step.opening mac payload sourceDisk).held = [] := rfl
@[simp] theorem held_writing : (Step.writing text).held = [] := rfl
@[simp] theorem held_finishing : Step.finishing.held = [] := rfl

@[simp]
theorem held_running : (Step.running mac held prepared).held = (Step.preparing mac held).held := by
  rcases held with _ | ⟨mounts, d⟩ <;> rfl

@[simp] theorem held_preparing_none : (Step.preparing mac none).held = [] := rfl

@[simp]
theorem held_preparing_some : (Step.preparing mac (some (mounts, disk))).held = mounts := rfl

@[simp]
theorem held_leave : (leave.step mac).held = [] := by
  cases leave <;> rfl

@[simp]
theorem held_leaveFrom : (leaveFrom mac rest leave).held = rest := by
  cases rest with
  | nil => exact held_leave
  | cons target rest => rfl

@[simp]
theorem mem_held_visit :
    target ∈ (visit disk mac mounts files todo).held ↔ target ∈ mounts := by
  fun_induction visit disk mac mounts files todo <;> simp_all

@[simp]
theorem mem_held_raiseHeld :
    target ∈ (raiseHeld mac held e).held ↔ target ∈ (Step.preparing mac held).held := by
  rcases held with _ | ⟨mounts, d⟩ <;> simp [raiseHeld]

theorem mem_held_raise {step after : Step} (h : step.raise e = some after) :
    target ∈ after.held ↔ target ∈ step.held := by
  cases step <;> simp only [Step.raise, Option.some.injEq, reduceCtorEq] at h <;> subst h
  case addressing b => split <;> simp
  all_goals simp

theorem mem_held_afterSelect : target ∈ (afterSelect mac usb text).held ↔ target ∈ usb.mounts := by
  unfold afterSelect
  split <;> simp

theorem mem_held_afterOutput {dir : RunDir} : target ∈ (afterOutput mac held prepared text dir).held ↔
    target ∈ (Step.preparing mac held).held := by
  unfold afterOutput
  split
  · split <;> simp
  · simp

theorem mem_held_afterExit {status : Int} : target ∈ (afterExit mac held prepared status).held ↔
    target ∈ (Step.preparing mac held).held := by
  unfold afterExit
  split
  · simp
  split
  · simp
  split <;> simp

/-! ## The mounts -/

/-- A mount is as the program makes them, from a report that it was given. -/
structure Mounted.Fine (l : List Answer) (disk : Text) (m : Mounted) : Prop where
  readOnly : m.options = mountOptions
  listed : ∃ devices d, .devices m.devices ∈ l ∧ m.devices.item "blockdevices".toList = .ok devices ∧
    .ok (m.device, d) ∈ usbPartitions devices ∧ d ≠ disk

/-- The devices come from the last report. -/
def Listed (l : List Answer) (report devices : Json) : Prop :=
  .devices report ∈ l ∧ report.item "blockdevices".toList = .ok devices

/-- A partition that may be mounted. -/
def Mountable (l : List Answer) (disk : Text) (report : Json) (device d : Text) : Prop :=
  ∃ devices, Listed l report devices ∧ .ok (device, d) ∈ usbPartitions devices ∧ d ≠ disk

/-- What is left of the loop is left of the partitions of the last report, and each file is on the
disk of the workspace or on one of theirs. -/
structure Usb.Fine (l : List Answer) (report : Json) (usb : Usb) : Prop where
  todo : ∃ devices, Listed l report devices ∧ ∀ item ∈ usb.todo, item ∈ usbPartitions devices
  files : ∀ f ∈ usb.files, isDiskName f.2 = true

/-- A Bluetooth address that was typed in, or none. -/
def TypedIn (l : List Answer) (mac : Option Text) : Prop :=
  ∃ line, .line line ∈ l ∧ bluetoothAddress line = .ok mac

/-- A line of the script without the mark. -/
def Plain (a : Answer) : Prop := ∃ text dir, a = .output text dir ∧ payloadMark.isPrefixOf text = false

/-- The last line with the mark named the payload, and it was accepted. -/
def Announced (l : List Answer) (payload : Text) : Prop :=
  ∃ before text dir after, l = before ++ .output text dir :: after ∧
    payloadMark.isPrefixOf text = true ∧ preparedPath text dir = .ok payload ∧ ∀ a ∈ after, Plain a

/-- Then the script ended without an error. -/
def Finished (l : List Answer) (payload : Text) : Prop :=
  ∃ before after, l = before ++ .exit 0 :: after ∧ Announced before payload

/-- The text is the file for a payload of a finished run of the script. -/
def Rendered (l : List Answer) (disk text : Text) : Prop :=
  ∃ payload sourceDisk mac, Finished l payload ∧ TypedIn l mac ∧
    (∀ d ∈ sourceDisk, isDiskName d = true) ∧ kickstart payload disk sourceDisk mac = .ok text

def HeldFine (held : Option (List Text × Text)) : Prop := ∀ h ∈ held, isDiskName h.2 = true

def Leave.Fine (l : List Answer) : Leave → Prop
  | .prepared payload sourceDisk => Finished l payload ∧ isDiskName sourceDisk = true
  | _ => True

/-- What holds where the program is. -/
def Step.Fine (l : List Answer) (disk : Text) (report : Json) (output : Option Text) : Step → Prop
  | .choosing | .addressing _ => output = none
  | .connecting mac | .confirming mac | .asking mac | .listing mac => output = none ∧ TypedIn l mac
  | .workspace mac devices => output = none ∧ TypedIn l mac ∧ Listed l report devices
  | .making mac usb device d | .mounting mac usb device d _ =>
    output = none ∧ TypedIn l mac ∧ usb.Fine l report ∧ Mountable l disk report device d
  | .unmade mac usb | .selecting mac usb => output = none ∧ TypedIn l mac ∧ usb.Fine l report
  | .reading mac usb d _ => output = none ∧ TypedIn l mac ∧ usb.Fine l report ∧ isDiskName d = true
  | .preparing mac held => output = none ∧ TypedIn l mac ∧ HeldFine held
  | .running mac held payload =>
    output = none ∧ TypedIn l mac ∧ HeldFine held ∧ ∀ p ∈ payload, Announced l p
  | .leaving mac _ _ leave | .removing mac _ leave => output = none ∧ TypedIn l mac ∧ leave.Fine l
  | .opening mac payload sourceDisk =>
    output = none ∧ TypedIn l mac ∧ Finished l payload ∧ ∀ d ∈ sourceDisk, isDiskName d = true
  | .writing text => output = some [] ∧ Rendered l disk text
  | .finishing => ∃ text, output = some text ∧ Rendered l disk text
  | .ended error rest =>
    (rest = [] ∨ output = none ∧ ∃ e, .raised e ∈ l) ∧
      ((error ≠ none ∧ (output = none ∨ output = some [])) ∨
        ∃ text, output = some text ∧ Rendered l disk text)

structure Installer.Sound (l : List Answer) (s : Installer) : Prop where
  disk : isDiskName s.disk = true
  tracked : ∀ m ∈ s.mounted, m.target ∈ s.step.held ∨ m.target ∈ s.reported
  mounted : ∀ m ∈ s.mounted, m.Fine l s.disk
  step : s.step.Fine l s.disk s.devices s.output

/-! ## More answers -/

theorem Mounted.Fine.snoc {m : Mounted} (h : m.Fine l disk) (a : Answer) : m.Fine (l ++ [a]) disk := by
  obtain ⟨hro, devices, d, hmem, hrest⟩ := h
  exact ⟨hro, devices, d, List.mem_append_left _ hmem, hrest⟩

theorem Listed.snoc {report devices : Json} (h : Listed l report devices) (a : Answer) :
    Listed (l ++ [a]) report devices :=
  ⟨List.mem_append_left _ h.1, h.2⟩

theorem Mountable.snoc {report : Json} {d : Text} (h : Mountable l disk report device d) (a : Answer) :
    Mountable (l ++ [a]) disk report device d := by
  obtain ⟨devices, hlisted, hrest⟩ := h
  exact ⟨devices, hlisted.snoc a, hrest⟩

theorem Usb.Fine.snoc {report : Json} (h : usb.Fine l report) (a : Answer) :
    usb.Fine (l ++ [a]) report := by
  obtain ⟨⟨devices, hlisted, htodo⟩, hfiles⟩ := h
  exact ⟨⟨devices, hlisted.snoc a, htodo⟩, hfiles⟩

theorem TypedIn.snoc (h : TypedIn l mac) (a : Answer) : TypedIn (l ++ [a]) mac := by
  obtain ⟨line, hmem, hline⟩ := h
  exact ⟨line, List.mem_append_left _ hmem, hline⟩

theorem Finished.snoc (h : Finished l payload) (a : Answer) : Finished (l ++ [a]) payload := by
  obtain ⟨before, after, rfl, hbefore⟩ := h
  exact ⟨before, after ++ [a], by simp, hbefore⟩

theorem Rendered.snoc (h : Rendered l disk text) (a : Answer) : Rendered (l ++ [a]) disk text := by
  obtain ⟨payload, sourceDisk, mac, hpayload, hmac, hrest⟩ := h
  exact ⟨payload, sourceDisk, mac, hpayload.snoc a, hmac.snoc a, hrest⟩

theorem Leave.Fine.snoc (h : leave.Fine l) (a : Answer) : leave.Fine (l ++ [a]) := by
  cases leave with
  | prepared payload sourceDisk => exact ⟨h.1.snoc a, h.2⟩
  | _ => trivial

/-- The script goes on. -/
theorem Announced.snoc (h : Announced l payload) (ha : Plain a) : Announced (l ++ [a]) payload := by
  obtain ⟨before, line, dir, after, rfl, hmark, hpath, hplain⟩ := h
  refine ⟨before, line, dir, after ++ [a], by simp, hmark, hpath, ?_⟩
  exact List.forall_mem_append.mpr ⟨hplain, List.forall_mem_singleton.mpr ha⟩

/-! ## Where a step leads -/

variable {report : Json}

/-- An end without the file -/
theorem fine_ended : (Step.ended (some e) []).Fine l disk report none :=
  ⟨.inl rfl, .inl ⟨Option.some_ne_none e, .inl rfl⟩⟩

theorem fine_leaveFrom (hmac : TypedIn l mac) (hleave : leave.Fine l) :
    (leaveFrom mac rest leave).Fine l disk report none := by
  cases rest with
  | cons target rest => exact ⟨rfl, hmac, hleave⟩
  | nil =>
    cases leave with
    | rescan => exact ⟨rfl, hmac⟩
    | prepared payload sourceDisk =>
      exact ⟨rfl, hmac, hleave.1, fun d hd => Option.mem_some_iff.mp hd ▸ hleave.2⟩
    | raised e => exact fine_ended

theorem fine_raiseHeld (hmac : TypedIn l mac) : (raiseHeld mac held e).Fine l disk report none := by
  rcases held with _ | ⟨mounts, d⟩
  · exact fine_ended
  · exact fine_leaveFrom hmac trivial

theorem fine_visit (hmac : TypedIn l mac) (hlisted : Listed l report devices)
    (htodo : ∀ item ∈ todo, item ∈ usbPartitions devices) (hfiles : ∀ f ∈ files, isDiskName f.2 = true) :
    (visit disk mac mounts files todo).Fine l disk report none := by
  induction todo with
  | nil =>
    rw [visit]
    split
    · exact fine_leaveFrom hmac trivial
    · exact ⟨rfl, hmac, ⟨devices, hlisted, List.forall_mem_nil _⟩, hfiles⟩
  | cons item todo ih =>
    have hrest : ∀ x ∈ todo, x ∈ usbPartitions devices := fun x hx =>
      htodo x (List.mem_cons_of_mem _ hx)
    rcases item with e | ⟨device, d⟩
    · exact fine_leaveFrom hmac trivial
    · rw [visit]
      split
      · exact ih hrest
      · next hne =>
        exact ⟨rfl, hmac, ⟨⟨devices, hlisted, hrest⟩, hfiles⟩,
          devices, hlisted, htodo _ List.mem_cons_self, hne⟩

theorem fine_raise {step after : Step} {output : Option Text} (hstep : step.Fine l disk report output)
    (h : step.raise e = some after) : after.Fine (l ++ [Answer.raised e]) disk report output := by
  have hraised : ∃ e', Answer.raised e' ∈ l ++ [Answer.raised e] := ⟨e, by simp⟩
  cases step <;> simp only [Step.raise, Option.some.injEq, reduceCtorEq] at h <;> subst h
  case choosing =>
    obtain rfl := hstep
    exact fine_ended
  case addressing b =>
    obtain rfl := hstep
    split
    · rfl
    · exact fine_ended
  case connecting | confirming | asking | listing | opening =>
    obtain ⟨rfl, -⟩ := hstep
    exact fine_ended
  case workspace | making | mounting | unmade | reading | selecting =>
    obtain ⟨rfl, hmac, -⟩ := hstep
    exact fine_leaveFrom (hmac.snoc _) trivial
  case preparing | running =>
    obtain ⟨rfl, hmac, -⟩ := hstep
    exact fine_raiseHeld (hmac.snoc _)
  case leaving | removing =>
    -- the mounts behind it are left
    obtain ⟨rfl, -⟩ := hstep
    exact ⟨.inr ⟨rfl, hraised⟩, .inl ⟨Option.some_ne_none e, .inl rfl⟩⟩
  case writing =>
    obtain ⟨rfl, -⟩ := hstep
    exact ⟨.inl rfl, .inl ⟨Option.some_ne_none e, .inr rfl⟩⟩
  case finishing =>
    obtain ⟨text, hout, hrendered⟩ := hstep
    exact ⟨.inl rfl, .inr ⟨text, hout, hrendered.snoc _⟩⟩

/-! ## Steps -/

/-- A step that mounts and unmounts nothing -/
theorem Installer.Sound.move {step : Step} {output : Option Text} (hs : s.Sound l)
    (hheld : ∀ target ∈ s.step.held, target ∈ step.held)
    (hfine : step.Fine (l ++ [a]) s.disk report output) :
    Installer.Sound (l ++ [a]) { s with devices := report, output := output, step := step } where
  disk := hs.disk
  tracked m hm := (hs.tracked m hm).imp_left (hheld m.target)
  mounted m hm := (hs.mounted m hm).snoc a
  step := hfine

theorem chosen_mem {line : Text} {f : Text × Text} (h : chosen files line = .ok (some f)) :
    f ∈ files := by
  unfold chosen at h
  dsimp only at h
  split at h
  · simp at h
  obtain ⟨n, -, h⟩ := Except.bind_eq_ok.mp h
  simp only [Except.ok.injEq] at h
  split at h
  · exact List.mem_of_getElem? h
  · simp at h

theorem fine_afterSelect (hmac : TypedIn l mac) (hfiles : ∀ f ∈ usb.files, isDiskName f.2 = true) :
    (afterSelect mac usb text).Fine l disk report none := by
  unfold afterSelect
  split
  · exact fine_leaveFrom hmac trivial
  · exact fine_leaveFrom hmac trivial
  · next path sourceDisk hchosen =>
    refine ⟨rfl, hmac, fun h hh => ?_⟩
    obtain rfl := Option.mem_some_iff.mp hh
    exact hfiles _ (chosen_mem hchosen)

theorem fine_afterOutput {dir : RunDir} (hmac : TypedIn l mac) (hheld : HeldFine held)
    (hpayload : ∀ p ∈ prepared, Announced l p) :
    (afterOutput mac held prepared text dir).Fine (l ++ [Answer.output text dir]) disk report none := by
  have hmac' := hmac.snoc (.output text dir)
  unfold afterOutput
  split
  · next hmark =>
    split
    · exact fine_raiseHeld hmac'
    · next p hp =>
      refine ⟨rfl, hmac', hheld, fun q hq => ?_⟩
      obtain rfl := Option.mem_some_iff.mp hq
      exact ⟨l, text, dir, [], rfl, hmark, hp, List.forall_mem_nil _⟩
  · next hmark =>
    exact ⟨rfl, hmac', hheld, fun p hp => (hpayload p hp).snoc ⟨text, dir, rfl, eq_false_of_ne_true hmark⟩⟩

theorem fine_afterExit {status : Int} (hmac : TypedIn l mac) (hheld : HeldFine held)
    (hpayload : ∀ p ∈ prepared, Announced l p) :
    (afterExit mac held prepared status).Fine (l ++ [Answer.exit status]) disk report none := by
  have hmac' := hmac.snoc (.exit status)
  unfold afterExit
  split
  · exact fine_raiseHeld hmac'
  · next p =>
    split
    · exact fine_raiseHeld hmac'
    · next hstatus =>
      have hdone : Finished (l ++ [Answer.exit status]) p := by
        obtain rfl := not_not.mp hstatus
        exact ⟨l, [], rfl, hpayload p rfl⟩
      split
      · exact ⟨rfl, hmac', hdone, fun d hd => absurd hd (Option.not_mem_none d)⟩
      · next mounts sourceDisk => exact fine_leaveFrom hmac' ⟨hdone, hheld _ rfl⟩

theorem fine_afterChoice : (afterChoice text).Fine l disk report none := by
  unfold afterChoice
  grind [Step.Fine, fine_ended]

theorem fine_afterConfirm (hmac : TypedIn l mac) : (afterConfirm mac text).Fine l disk report none := by
  unfold afterConfirm
  grind [Step.Fine, HeldFine, fine_ended]

theorem fine_afterAddress {b : Bool} :
    (afterAddress b text).Fine (l ++ [Answer.line text]) disk report none := by
  unfold afterAddress
  split
  · rfl
  · next mac hmac =>
    have htyped : TypedIn (l ++ [Answer.line text]) mac := ⟨text, by simp, hmac⟩
    split <;> exact ⟨rfl, htyped⟩

/-- The console -/
theorem sound_line (hs : s.Sound l) (h : s.next (.line text) = some t) :
    t.Sound (l ++ [Answer.line text]) := by
  have hfine := hs.step
  simp only [Installer.next] at h
  split at h <;> simp only [Option.some.injEq, reduceCtorEq] at h <;> subst h
  case h_1 hstep =>
    rw [hstep] at hfine
    refine hs.move (by simp [hstep]) ?_
    rw [hfine]
    exact fine_afterChoice
  case h_2 hstep =>
    rw [hstep] at hfine
    refine hs.move (by simp [hstep]) ?_
    rw [hfine]
    exact fine_afterAddress
  case h_3 hstep =>
    rw [hstep] at hfine
    exact hs.move (by simp [hstep]) ⟨hfine.1, hfine.2.snoc _⟩
  case h_4 hstep =>
    rw [hstep] at hfine
    refine hs.move (by simp [hstep]) ?_
    rw [hfine.1]
    exact fine_afterConfirm (hfine.2.snoc _)
  case h_5 hstep =>
    rw [hstep] at hfine
    refine hs.move (by simp [hstep]) ?_
    rw [hfine.1]
    split
    · exact fine_ended
    · exact ⟨rfl, hfine.2.snoc _⟩
  case h_6 hstep =>
    rw [hstep] at hfine
    refine hs.move (by simp [hstep, mem_held_afterSelect]) ?_
    rw [hfine.1]
    exact fine_afterSelect (hfine.2.1.snoc _) hfine.2.2.files

/-- The reports and the directories -/
theorem sound_devices {answer : Json} (hs : s.Sound l) (h : s.next (.devices answer) = some t) :
    t.Sound (l ++ [Answer.devices answer]) := by
  have hfine := hs.step
  simp only [Installer.next] at h
  split at h
  on_goal 2 => cases h
  next mac hstep =>
  obtain rfl := Option.some.inj h
  rw [hstep] at hfine
  refine hs.move (by simp [hstep]) ?_
  rw [hfine.1]
  split
  · exact fine_ended
  · next devices hdevices =>
    exact ⟨rfl, hfine.2.snoc _, by simp, hdevices⟩

theorem sound_msi {found : MsiSource} (hs : s.Sound l) (h : s.next (.msi found) = some t) :
    t.Sound (l ++ [Answer.msi found]) := by
  have hfine := hs.step
  simp only [Installer.next] at h
  split at h <;> simp only [Option.some.injEq, reduceCtorEq] at h <;> subst h
  case h_1 mac devices hstep =>
    rw [hstep] at hfine
    obtain ⟨hout, hmac, hlisted⟩ := hfine
    refine hs.move (by simp [hstep]) ?_
    rw [hout]
    split
    · exact fine_leaveFrom (hmac.snoc _) trivial
    · refine fine_visit (hmac.snoc _) (hlisted.snoc _) (fun _ => id) fun f hf => ?_
      obtain ⟨path, -, rfl⟩ := List.mem_map.mp hf
      exact hs.disk
  case h_2 mac usb d target hstep =>
    rw [hstep] at hfine
    obtain ⟨hout, hmac, ⟨⟨devices, hlisted, htodo⟩, hfiles⟩, hd⟩ := hfine
    refine hs.move (fun target htarget => ?_) ?_
    · rw [hstep, held_reading] at htarget
      split
      · simpa using htarget
      · exact mem_held_visit.mpr htarget
    rw [hout]
    split
    · exact fine_leaveFrom (hmac.snoc _) trivial
    · refine fine_visit (hmac.snoc _) (hlisted.snoc _) htodo fun f hf => ?_
      obtain hf | hf := List.mem_append.mp hf
      · exact hfiles f hf
      · obtain ⟨path, -, rfl⟩ := List.mem_map.mp hf
        exact hd

/-! ### Mounts -/

theorem sound_made {path : Text} (hs : s.Sound l) (h : s.next (.made path) = some t) :
    t.Sound (l ++ [Answer.made path]) := by
  have hfine := hs.step
  simp only [Installer.next] at h
  split at h
  on_goal 2 => cases h
  next mac usb device d hstep =>
  split at h
  · cases h
  obtain rfl := Option.some.inj h
  rw [hstep] at hfine
  obtain ⟨hout, hmac, husb, hdevice⟩ := hfine
  exact hs.move (by simp [hstep]) ⟨hout, hmac.snoc _, husb.snoc _, hdevice.snoc _⟩

theorem sound_mounted {ok : Bool} (hs : s.Sound l) (h : s.next (.mounted ok) = some t) :
    t.Sound (l ++ [Answer.mounted ok]) := by
  have hfine := hs.step
  simp only [Installer.next] at h
  split at h
  on_goal 2 => cases h
  next mac usb device d target hstep =>
  rw [hstep] at hfine
  obtain ⟨hout, hmac, husb, devices, hlisted, hitem, hd⟩ := hfine
  split at h <;> obtain rfl := Option.some.inj h
  · -- it is held from now on, and all that was held still is
    have hmounted : Mounted.Fine (l ++ [Answer.mounted ok]) s.disk ⟨target, device, mountOptions, s.devices⟩ :=
      ⟨rfl, devices, d, (hlisted.snoc _).1, hlisted.2, hitem, hd⟩
    refine ⟨hs.disk, fun m hm => ?_, fun m hm => ?_, hout, hmac.snoc _, ?_, mem_usbPartitions hitem⟩
    · obtain rfl | hm := List.mem_cons.mp hm
      · simp
      · refine (hs.tracked m hm).imp_left fun hheld => ?_
        rw [hstep, held_mounting] at hheld
        exact List.mem_append_left _ hheld
    · obtain rfl | hm := List.mem_cons.mp hm
      · exact hmounted
      · exact (hs.mounted m hm).snoc _
    · exact ⟨(husb.snoc _).todo, husb.files⟩
  · exact hs.move (by simp [hstep]) ⟨hout, hmac.snoc _, husb.snoc _⟩

theorem sound_unmounted {ok : Bool} (hs : s.Sound l) (h : s.next (.unmounted ok) = some t) :
    t.Sound (l ++ [Answer.unmounted ok]) := by
  have hfine := hs.step
  simp only [Installer.next] at h
  split at h
  on_goal 2 => cases h
  next mac target rest leave hstep =>
  rw [hstep] at hfine
  obtain ⟨hout, hmac, hleave⟩ := hfine
  have hheld {m : Mounted} (hm : m ∈ s.mounted) :
      (m.target = target ∨ m.target ∈ rest) ∨ m.target ∈ s.reported := by
    have := hs.tracked m hm
    rwa [hstep, held_leaving, List.mem_cons] at this
  split at h <;> obtain rfl := Option.some.inj h
  · refine ⟨hs.disk, fun m hm => ?_, fun m hm => (hs.mounted m (List.mem_of_mem_filter hm)).snoc _,
      hout, hmac.snoc _, hleave.snoc _⟩
    obtain ⟨hm, hne⟩ := List.mem_filter.mp hm
    have hne : m.target ≠ target := by simpa using hne
    exact (hheld hm).imp_left (Or.resolve_left · hne)
  · refine ⟨hs.disk, fun m hm => ?_, fun m hm => (hs.mounted m hm).snoc _, ?_⟩
    · rw [held_leaveFrom, List.mem_cons]
      grind
    · rw [hout]
      exact fine_leaveFrom (hmac.snoc _) (hleave.snoc _)

theorem sound_removed (hs : s.Sound l) (h : s.next .removed = some t) : t.Sound (l ++ [Answer.removed]) := by
  have hfine := hs.step
  simp only [Installer.next] at h
  split at h <;> simp only [Option.some.injEq, reduceCtorEq] at h <;> subst h
  case h_1 mac usb hstep =>
    rw [hstep] at hfine
    obtain ⟨hout, hmac, ⟨⟨devices, hlisted, htodo⟩, hfiles⟩⟩ := hfine
    refine hs.move (by simp [hstep]) ?_
    rw [hout]
    exact fine_visit (hmac.snoc _) (hlisted.snoc _) htodo hfiles
  case h_2 mac rest leave hstep =>
    rw [hstep] at hfine
    obtain ⟨hout, hmac, hleave⟩ := hfine
    refine hs.move (by simp [hstep]) ?_
    rw [hout]
    exact fine_leaveFrom (hmac.snoc _) (hleave.snoc _)

/-! ### The payload and the file -/

theorem sound_base (hs : s.Sound l) (h : s.next (.base text) = some t) : t.Sound (l ++ [Answer.base text]) := by
  have hfine := hs.step
  simp only [Installer.next] at h
  split at h
  on_goal 2 => cases h
  next mac held hstep =>
  obtain rfl := Option.some.inj h
  rw [hstep] at hfine
  obtain ⟨hout, hmac, hheld⟩ := hfine
  refine hs.move (fun target htarget => ?_) ?_
  · rw [hstep] at htarget
    split
    · simpa using htarget
    · exact mem_held_raiseHeld.mpr htarget
  rw [hout]
  split
  · exact ⟨rfl, hmac.snoc _, hheld, fun p hp => absurd hp (Option.not_mem_none p)⟩
  · exact fine_raiseHeld (hmac.snoc _)

theorem sound_output {dir : RunDir} (hs : s.Sound l) (h : s.next (.output text dir) = some t) :
    t.Sound (l ++ [Answer.output text dir]) := by
  have hfine := hs.step
  simp only [Installer.next] at h
  split at h
  on_goal 2 => cases h
  next mac held prepared hstep =>
  obtain rfl := Option.some.inj h
  rw [hstep] at hfine
  obtain ⟨hout, hmac, hheld, hprepared⟩ := hfine
  refine hs.move (by simp [hstep, mem_held_afterOutput]) ?_
  rw [hout]
  exact fine_afterOutput hmac hheld hprepared

theorem sound_exit {status : Int} (hs : s.Sound l) (h : s.next (.exit status) = some t) :
    t.Sound (l ++ [Answer.exit status]) := by
  have hfine := hs.step
  simp only [Installer.next] at h
  split at h
  on_goal 2 => cases h
  next mac held prepared hstep =>
  obtain rfl := Option.some.inj h
  rw [hstep] at hfine
  obtain ⟨hout, hmac, hheld, hprepared⟩ := hfine
  refine hs.move (by simp [hstep, mem_held_afterExit]) ?_
  rw [hout]
  exact fine_afterExit hmac hheld hprepared

theorem sound_opened (hs : s.Sound l) (h : s.next .opened = some t) : t.Sound (l ++ [Answer.opened]) := by
  have hfine := hs.step
  simp only [Installer.next] at h
  split at h
  on_goal 2 => cases h
  next mac payload sourceDisk hstep =>
  obtain rfl := Option.some.inj h
  rw [hstep] at hfine
  obtain ⟨-, hmac, hfinished, hsource⟩ := hfine
  refine hs.move (by simp [hstep]) ?_
  split
  · exact ⟨.inl rfl, .inl ⟨Option.some_ne_none _, .inr rfl⟩⟩
  · next text htext => exact ⟨rfl, payload, sourceDisk, mac, hfinished.snoc _, hmac.snoc _, hsource, htext⟩

theorem sound_written (hs : s.Sound l) (h : s.next .written = some t) : t.Sound (l ++ [Answer.written]) := by
  have hfine := hs.step
  simp only [Installer.next] at h
  split at h
  on_goal 2 => cases h
  next text hstep =>
  obtain rfl := Option.some.inj h
  rw [hstep] at hfine
  exact hs.move (by simp [hstep]) ⟨text, rfl, hfine.2.snoc _⟩

theorem sound_switched (hs : s.Sound l) (h : s.next .switched = some t) :
    t.Sound (l ++ [Answer.switched]) := by
  have hfine := hs.step
  simp only [Installer.next] at h
  split at h
  on_goal 2 => cases h
  next hstep =>
  obtain rfl := Option.some.inj h
  rw [hstep] at hfine
  obtain ⟨text, hout, hrendered⟩ := hfine
  exact hs.move (by simp [hstep]) ⟨.inl rfl, .inr ⟨text, hout, hrendered.snoc _⟩⟩

theorem sound_raised (hs : s.Sound l) (h : s.next (.raised e) = some t) :
    t.Sound (l ++ [Answer.raised e]) := by
  obtain ⟨step, hraise, rfl⟩ := Option.map_eq_some_iff.mp h
  exact hs.move (fun target htarget => (mem_held_raise hraise).mpr htarget) (fine_raise hs.step hraise)

/-- One step keeps what is known, whatever the answer is. -/
theorem sound_next (hs : s.Sound l) (h : s.next a = some t) : t.Sound (l ++ [a]) := by
  cases a with
  | line text => exact sound_line hs h
  | devices report => exact sound_devices hs h
  | msi found => exact sound_msi hs h
  | made path => exact sound_made hs h
  | mounted ok => exact sound_mounted hs h
  | unmounted ok => exact sound_unmounted hs h
  | removed => exact sound_removed hs h
  | base text => exact sound_base hs h
  | output text dir => exact sound_output hs h
  | exit status => exact sound_exit hs h
  | opened => exact sound_opened hs h
  | written => exact sound_written hs h
  | switched => exact sound_switched hs h
  | raised e => exact sound_raised hs h

/-! ## Runs -/

theorem next_disk (h : s.next a = some t) : t.disk = s.disk := by
  cases a <;> simp only [Installer.next] at h
  case raised e =>
    obtain ⟨step, -, rfl⟩ := Option.map_eq_some_iff.mp h
    rfl
  all_goals grind

variable {exists_ : Bool}

theorem kickstart_disk {source bluetooth : Option Text} (h : kickstart payload disk source bluetooth = .ok text) :
    isDiskName disk = true := by
  obtain ⟨address, -, h⟩ := Except.bind_eq_ok.mp h
  dsimp only at h
  split at h
  · cases h
  next hdisks =>
  simp only [Bool.not_eq_true', Bool.not_eq_false, eraseDups_disks] at hdisks
  exact List.all_eq_true.mp hdisks disk List.mem_cons_self

theorem sound_start (h : start disk exists_ = .ok s) : s.Sound [] ∧ s.disk = disk := by
  unfold start at h
  split at h
  · cases h
  obtain ⟨text, htext, h⟩ := Except.bind_eq_ok.mp h
  obtain rfl := Except.ok.inj h
  exact ⟨⟨kickstart_disk htext, List.forall_mem_nil _, List.forall_mem_nil _, rfl⟩, rfl⟩

/-- What is known at every moment of a run. -/
theorem sound_run (hstart : start disk exists_ = .ok s) (h : Trace.run Installer.next l s = some t) :
    t.Sound l ∧ t.disk = disk := by
  refine Trace.run_induction (I := fun l t => t.Sound l ∧ t.disk = disk) (sound_start hstart) ?_ h
  rintro l a u v - ⟨hsound, hdisk⟩ hnext
  exact ⟨sound_next hsound hnext, (next_disk hnext).trans hdisk⟩

/-! ## The file for a payload -/

theorem char_of_validAddress {mac : Text} (h : ValidAddress mac) {c : Char} (hc : c ∈ mac) :
    c = ':' ∨ isUpperHex c = true := by
  have hparts := h.form
  rw [isAddressText, Bool.and_eq_true, List.all_eq_true] at hparts
  have hjoin : List.intercalate [':'] (mac.splitOn ':') = mac := List.intercalate_splitOn ':'
  rw [← hjoin] at hc
  obtain hc | ⟨part, hpart, hc⟩ := mem_intercalate hc
  · exact .inl hc
  · have hdigits := hparts.2 part hpart
    rw [Bool.and_eq_true, List.all_eq_true] at hdigits
    exact .inr (hdigits.2 c hc)

theorem strip_validAddress {mac : Text} (h : ValidAddress mac) : strip mac = mac := by
  have hspace : ∀ c ∈ mac, isSpace c = false := by
    have hclass : ∀ d, isSpace d = true → d.isAlphanum = false ∧ d ≠ ':' := by
      simp only [isSpace, List.contains_iff_mem]
      exact forall_mem_of_all (by decide)
    intro c hc
    cases hs : isSpace c with
    | false => rfl
    | true =>
      obtain ⟨hnot, hne⟩ := hclass c hs
      obtain rfl | hhex := char_of_validAddress h hc
      · exact absurd rfl hne
      · exact absurd (isAlphanum_of_isUpperHex hhex) (by simp [hnot])
  rw [strip, List.dropWhile_eq_self_iff.mpr fun hlen => by simp [hspace _ (List.getElem_mem hlen)],
    List.rdropWhile_eq_self_iff.mpr fun hne => by simp [hspace _ (List.getLast_mem hne)]]

theorem upper_validAddress {mac : Text} (h : ValidAddress mac) : upper mac = mac := by
  have hchar : ∀ c ∈ mac, (asciiUppercasings.lookup c).getD [c.toUpper] = [c] := by
    have hclass : ∀ p ∈ asciiUppercasings, p.1.isAlphanum = false ∧ p.1 ≠ ':' :=
      forall_mem_of_all (by decide)
    intro c hc
    have hnone : asciiUppercasings.lookup c = none := by
      refine List.lookup_eq_none_iff.mpr fun p hp => ?_
      obtain ⟨hnot, hne⟩ := hclass p hp
      obtain rfl | hhex := char_of_validAddress h hc
      · simpa using hne.symm
      · have := isAlphanum_of_isUpperHex hhex
        grind
    have hupper : c.toUpper = c := by
      obtain rfl | hhex := char_of_validAddress h hc
      · rfl
      · exact toUpper_of_isUpperHex hhex
    simp [hnone, hupper]
  rw [upper, List.flatMap_congr hchar, List.flatMap_singleton']

/-- An address that was understood is understood again. -/
theorem bluetoothAddress_again {line : Text} (h : bluetoothAddress line = .ok mac) :
    bluetoothAddress (mac.getD []) = .ok mac := by
  obtain ⟨message, herror⟩ | ⟨address, hok, hvalid, -⟩ := bluetoothAddress_cases line
  · simp [herror] at h
  obtain rfl := Except.ok.inj (hok.symm.trans h)
  cases address with
  | none => rfl
  | some mac =>
    have hmac := hvalid mac rfl
    have hne : mac ≠ [] := by
      rintro rfl
      exact absurd hmac.form (by decide)
    simp only [bluetoothAddress, Option.getD_some, strip_validAddress hmac, upper_validAddress hmac,
      hne, if_false, hmac.form, Except.check_eq_ok, Bool.not_true, Bool.false_or, Bool.or_eq_true,
      beq_iff_eq, not_or]
    exact ⟨⟨hmac.ne_zero, hmac.ne_broadcast⟩, trivial⟩

/-- With disks and an address that were checked before, only the payload can be refused. -/
theorem kickstart_ok_iff {line : Text} (hdisk : isDiskName disk = true)
    (hsource : ∀ d ∈ sourceDisk, isDiskName d = true) (hmac : bluetoothAddress line = .ok mac) :
    (∃ text, kickstart payload disk sourceDisk mac = .ok text) ↔ isPayload payload = true := by
  have hdisks : (disk :: sourceDisk.toList.filter (· != [])).eraseDups.all isDiskName = true := by
    rw [eraseDups_disks, List.all_cons, hdisk, Bool.true_and, List.all_eq_true]
    intro d hd
    exact hsource d (Option.mem_toList.mp (List.mem_of_mem_filter hd))
  simp only [kickstart, bluetoothAddress_again hmac, Except.bind_eq_ok, Except.check_eq_ok,
    Except.ok.injEq]
  constructor
  · rintro ⟨text, address, -, -, hpayload, -⟩
    simpa using hpayload
  · intro hpayload
    exact ⟨_, mac, rfl, by simp [hdisks], by simp [hpayload], rfl⟩

/-! ## Main results -/

/-- No mount is held any more where the file is. -/
theorem held_of_output {step : Step} {output : Option Text} (h : step.Fine l disk report output)
    (hout : output ≠ none) : step.held = [] := by
  cases step with
  | choosing | addressing => rfl
  | connecting | confirming | asking | listing | workspace | opening | writing | finishing => rfl
  | making | mounting | unmade | reading | selecting | preparing | running | leaving | removing =>
    exact absurd h.1 hout
  | ended error rest => exact h.1.resolve_right fun hnone => hout hnone.1

section Sample

/-- A USB disk with a partition, `lsblk` -/
def lsblkReport : Json :=
  .obj [("blockdevices".toList, .arr [.obj [("name".toList, .str "/dev/sdb".toList),
    ("type".toList, .str "disk".toList), ("tran".toList, .str "usb".toList),
    ("children".toList, .arr [.obj [("name".toList, .str "/dev/sdb1".toList),
      ("type".toList, .str "part".toList), ("fstype".toList, .str "vfat".toList)]])]])]

def payloadDir : Text := "/run/azurefin-work/runs/azurefin-provision.Ab12Cd34/container".toList

/-- The package is on that disk, whose file system cannot be unmounted in the end. The script says
that the payload is in this directory. -/
def usbRunTo (payload : Text) : List Answer :=
  [.line "2".toList, .line [], .line [], .devices lsblkReport, .msi ⟨.ok [], none⟩,
    .made "/run/azurefin-msi-x".toList, .mounted true,
    .msi ⟨.ok [⟨"Surface.msi".toList, false, true⟩], none⟩, .line "1".toList,
    .base (List.replicate 64 'a'), .output (payloadMark ++ payload)
      ⟨false, false, .ok payload, true, true⟩, .exit 0, .unmounted false]

def usbRun : List Answer := usbRunTo payloadDir

/-- The program before its first question, on the disk `sda` -/
def choosing : Installer := ⟨"sda".toList, .null, [], [], none, .choosing⟩

theorem start_choosing : start "sda".toList false = .ok choosing := by
  have hblank : bluetoothAddress [] = .ok none := rfl
  have hiff : (∃ text, kickstart validationPayload "sda".toList none none = .ok text) ↔
      isPayload validationPayload = true :=
    kickstart_ok_iff (by decide) (fun d hd => absurd hd (Option.not_mem_none d)) hblank
  obtain ⟨text, htext⟩ := hiff.mpr (by decide +kernel)
  simp only [start, htext]
  rfl

end Sample

/-- At every moment of every run, a file system that `mount` reported as mounted is mounted as the
program does it, from a partition that `lsblk` had listed on another disk, and is still to be
unmounted or was reported. Where the file for the installer exists, and at an end without an
exception from a call, it was reported. -/
theorem mounts_accounted (hstart : start disk exists_ = .ok s)
    (h : Trace.run Installer.next l s = some t) :
    (∀ m ∈ t.mounted, m.Fine l disk ∧ (m.target ∈ t.step.held ∨ m.target ∈ t.reported)) ∧
    (t.output ≠ none → ∀ m ∈ t.mounted, m.target ∈ t.reported) ∧
    ((∀ e, .raised e ∉ l) → ∀ error rest, t.step = .ended error rest →
      ∀ m ∈ t.mounted, m.target ∈ t.reported) := by
  obtain ⟨hsound, hdisk⟩ := sound_run hstart h
  refine ⟨fun m hm => ⟨hdisk ▸ hsound.mounted m hm, hsound.tracked m hm⟩, ?_, ?_⟩
  · intro hout m hm
    have hheld := held_of_output hsound.step hout
    exact (hsound.tracked m hm).resolve_left (by simp [hheld])
  · intro hraised error rest hend m hm
    have hfine := hsound.step
    rw [hend] at hfine
    have hrest : rest = [] := by
      obtain hrest | ⟨-, e, he⟩ := hfine.1
      · exact hrest
      · exact absurd he (hraised e)
    exact (hsound.tracked m hm).resolve_left (by simp [hend, hrest])

theorem mounts_accounted_usbRun : ∃ t,
    Trace.run Installer.next (usbRun ++ [Answer.opened, .written]) choosing = some t ∧
    t.mounted ≠ [] ∧ ∀ m ∈ t.mounted, m.target ∈ t.reported := by
  have hrun : ((Trace.run Installer.next (usbRun ++ [Answer.opened, .written]) choosing).any fun t =>
      t.mounted.length == 1 && t.output.isSome) = true := by decide +kernel
  obtain ⟨t, ht, hend⟩ := (Option.any_eq_true _ _).mp hrun
  rw [Bool.and_eq_true, beq_iff_eq] at hend
  refine ⟨t, ht, List.ne_nil_of_length_pos (by omega), ?_⟩
  exact (mounts_accounted start_choosing ht).2.1 (Option.isSome_iff_ne_none.mp hend.2)

/-- At every moment of every run the file for the installer does not exist, is empty, or is complete:
the text of `kickstart` for the payload in the last line with the mark of a script that ended without
an error, for an address that was typed in, and for disks with names of external ones. Without an
error the program ends with the complete file only. -/
theorem output_justified (hstart : start disk exists_ = .ok s)
    (h : Trace.run Installer.next l s = some t) :
    (∀ text, t.output = some text → text = [] ∨ Rendered l disk text) ∧
    (∀ rest, t.step = .ended none rest → ∃ text, t.output = some text ∧ Rendered l disk text) := by
  obtain ⟨⟨-, -, -, hfine⟩, rfl⟩ := sound_run hstart h
  constructor
  · intro text hout
    cases hstep : t.step <;> rw [hstep] at hfine
    case choosing | addressing => exact absurd (hout ▸ hfine) (by simp [Step.Fine])
    case writing =>
      obtain rfl := Option.some.inj (hout.symm.trans hfine.1)
      exact .inl rfl
    case finishing =>
      obtain ⟨text', hout', hrendered⟩ := hfine
      obtain rfl := Option.some.inj (hout.symm.trans hout')
      exact .inr hrendered
    case ended =>
      obtain ⟨-, ⟨-, hnone | hempty⟩ | ⟨text', hout', hrendered⟩⟩ := hfine
      · simp [hout] at hnone
      · exact .inl (Option.some.inj (hout.symm.trans hempty))
      · obtain rfl := Option.some.inj (hout.symm.trans hout')
        exact .inr hrendered
    all_goals exact absurd (hout.symm.trans hfine.1) (Option.some_ne_none text)
  · intro rest hend
    rw [hend] at hfine
    exact hfine.2.resolve_left fun hnone => hnone.1 rfl

theorem output_justified_usbRun : ∃ t, Trace.run Installer.next
    (usbRun ++ [Answer.opened, .written, .switched]) choosing = some t ∧
    ∃ text, t.output = some text ∧
      Rendered (usbRun ++ [Answer.opened, .written, .switched]) "sda".toList text := by
  have hrun : ((Trace.run Installer.next
      (usbRun ++ [Answer.opened, .written, .switched]) choosing).any fun t =>
      t.step matches .ended none _) = true := by decide +kernel
  obtain ⟨t, ht, hend⟩ := (Option.any_eq_true _ _).mp hrun
  have hstep : ∃ rest, t.step = .ended none rest := by
    split at hend
    · exact ⟨_, ‹_›⟩
    · cases hend
  obtain ⟨rest, hrest⟩ := hstep
  exact ⟨t, ht, (output_justified start_choosing ht).2 rest hrest⟩

/-- After the long preparation `kickstart` refuses nothing but the path of the payload, where this is
not letter for letter the path of a directory with a random name of letters and digits. Then the file is
left empty. -/
theorem renders_iff {u : Installer} (hstart : start disk exists_ = .ok s)
    (h : Trace.run Installer.next l s = some t) (hopen : t.next .opened = some u) :
    ∃ payload, Finished l payload ∧
      ((∃ text, u.step = .writing text) ↔
        ∃ run, payload = provisionRun ++ run ++ container ∧ run ≠ [] ∧ ∀ c ∈ run, c.isAlphanum = true) ∧
      ((¬ ∃ text, u.step = .writing text) → u.output = some [] ∧ ∃ e, u.step = .ended (some e) []) := by
  obtain ⟨hsound, -⟩ := sound_run hstart h
  have hfine := hsound.step
  simp only [Installer.next] at hopen
  split at hopen
  on_goal 2 => cases hopen
  next mac payload sourceDisk hstep =>
  obtain rfl := Option.some.inj hopen
  rw [hstep] at hfine
  obtain ⟨-, ⟨line, -, hline⟩, hfinished, hsource⟩ := hfine
  have hiff : (∃ text, kickstart payload t.disk sourceDisk mac = .ok text) ↔ isPayload payload = true :=
    kickstart_ok_iff hsound.disk hsource hline
  refine ⟨payload, hfinished, ?_, fun hnone => ?_⟩
  · rw [← isPayload_iff, ← hiff]
    cases kickstart payload t.disk sourceDisk mac <;> simp
  · cases hkick : kickstart payload t.disk sourceDisk mac with
    | error e => exact ⟨rfl, e, rfl⟩
    | ok text => exact absurd ⟨text, by rw [hkick]⟩ hnone

/-- The same directory, in a spelling that the preparation takes. -/
def respelledDir : Text := "/run/azurefin-work/runs//azurefin-provision.Ab12Cd34/container".toList

/-- The text that the program is about to write. -/
def Step.written : Step → Option Text
  | .writing text => some text
  | _ => none

theorem isSome_written {step : Step} : step.written.isSome = true ↔ ∃ text, step = .writing text := by
  cases step <;> simp [Step.written]

/-- The file is written for the path that `mktemp` prints, and not for the other spelling. -/
theorem renders_iff_usbRun :
    (∃ t u payload run, Trace.run Installer.next usbRun choosing = some t ∧ t.next .opened = some u ∧
      Finished usbRun payload ∧ payload = provisionRun ++ run ++ container ∧ run ≠ []) ∧
    ∃ t u, Trace.run Installer.next (usbRunTo respelledDir) choosing = some t ∧
      t.next .opened = some u ∧ u.output = some [] ∧ ∃ e, u.step = .ended (some e) [] := by
  constructor
  · have hrun : ((Trace.run Installer.next usbRun choosing).any fun t =>
        (t.next .opened).any fun u => u.step.written.isSome) = true := by decide +kernel
    obtain ⟨t, ht, hopen⟩ := (Option.any_eq_true _ _).mp hrun
    obtain ⟨u, hu, hwriting⟩ := (Option.any_eq_true _ _).mp hopen
    obtain ⟨payload, hfinished, hiff, -⟩ := renders_iff start_choosing ht hu
    obtain ⟨run, hpayload, hne, -⟩ := hiff.mp (isSome_written.mp hwriting)
    exact ⟨t, u, payload, run, ht, hu, hfinished, hpayload, hne⟩
  · have hrun : ((Trace.run Installer.next (usbRunTo respelledDir) choosing).any fun t =>
        (t.next .opened).any fun u => !u.step.written.isSome) = true := by decide +kernel
    obtain ⟨t, ht, hopen⟩ := (Option.any_eq_true _ _).mp hrun
    obtain ⟨u, hu, hwriting⟩ := (Option.any_eq_true _ _).mp hopen
    obtain ⟨_, -, -, hleft⟩ := renders_iff start_choosing ht hu
    refine ⟨t, u, ht, hu, hleft fun hwrites => ?_⟩
    rw [isSome_written.mpr hwrites] at hwriting
    cases hwriting

end Azurefin.Prepare
