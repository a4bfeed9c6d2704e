import Azurefin.Bluetooth.Detect

/-!
# Detection leaves no trace

Every run of `detect` and of `configure`, whatever each call answers, leaves the module loaded or not as
it was, unless unloading it failed. It closes what it opens, and each of its calls has its reasons:
`configure_leaves_no_trace`.

The invariant of a run is `Moment`: what is on record, which descriptors are open, and whether the
module is loaded for the run.
-/

namespace Azurefin

open Calls

/-! ## What a log tells -/

/-- The open descriptors after an event. A descriptor is gone when it is closed, also where `close`
tells of an error. -/
def moved (fds : List Nat) : ProbeEvent → List Nat
  | ⟨.openDevice _ _, .ok fd, _⟩ => fd :: fds
  | ⟨.close fd, _, _⟩ => fds.erase fd
  | _ => fds

def openDescriptors (log : List ProbeEvent) : List Nat := log.foldl moved []

@[simp] theorem openDescriptors_snoc {log : List ProbeEvent} {event : ProbeEvent} :
    openDescriptors (log ++ [event]) = moved (openDescriptors log) event := by
  simp [openDescriptors]

/-- The unload command failed. -/
def UnloadFailed (log : List ProbeEvent) : Prop :=
  ∃ event ∈ log, event.call = .modprobeUnload ∧ ∃ e, event.answer = .error e

/-- The node was seen to be a ROM with the flags `0x1000`. -/
def IsRom (node : Text) (seen : List ProbeEvent) : Prop :=
  ∃ type flags, Answered (.readText node "type".toList) type seen ∧ strip type = "rom".toList ∧
    Answered (.readText node "flags".toList) flags seen ∧ PyInt.parse 0 (strip flags) = .ok 0x1000

/-- The descriptor came from opening the device of a node, and then had the number next to that of
the node. -/
def IsMatched (fd : Nat) (seen : List ProbeEvent) : Prop :=
  ∃ node dev major minor info, Answered (.readText node "dev".toList) dev seen ∧
    deviceNumbers dev = .ok (major, minor) ∧
      AnsweredSince (.openDevice (readOnlyPath node) readOnlyFlags) fd (.fstat fd) info seen ∧
        isChr info.mode = true ∧ makedev major (minor + 1) = .ok info.rdev

/-- The address is what `detect` found just now, after nothing but a look at the configuration. -/
def IsDetected (env : ProbeEnvironment) (selected : Text) (seen : List ProbeEvent) : Prop :=
  ∃ s t, (∀ event ∈ s.log, event.call = .configExists ∨ event.call = .configIsSymlink) ∧
    detect env s = (.ok selected, t) ∧ t.log = seen

/-- What each call of a run rests on. -/
structure Cautious (env : ProbeEnvironment) (start : Bool) (manual : Option Text) (seen : List ProbeEvent)
    (event : ProbeEvent) : Prop where
  modprobe : event.call.isModprobe = true → start = false
  opened : ∀ path flags, event.call = .openDevice path flags →
    ∃ node, path = readOnlyPath node ∧ flags = readOnlyFlags ∧ IsRom node seen
  read : ∀ fd size offset, event.call = .pread fd size offset → fd ∈ openDescriptors seen ∧ IsMatched fd seen
  extracted : ∀ selected, event.call = .extractFirmware selected →
    (∀ e ∈ seen, e.call.isExtract = false) ∧ address selected = .ok selected ∧
      (∀ value, manual = some value → address (upper value) = .ok selected) ∧
        (manual = none → Answered .configExists false seen ∧ Answered .configIsSymlink false seen ∧
          IsDetected env selected seen)

/-- The module is as it was, unless it is the one that unloading failed for. -/
def Restored (start : Bool) (s : ProbeSession) : Prop :=
  s.state = start ∨ start = false ∧ UnloadFailed s.log

abbrev ProbeFacts := Facts Bool ProbeCall ProbeCall.Answer PyError

/-- A moment of a run: these facts are on record and these descriptors are open. The module is as it
was, or is loaded for the run. -/
structure Moment (env : ProbeEnvironment) (start : Bool) (manual : Option Text) (F : ProbeFacts)
    (fds : List Nat) (owned : Bool) (s : ProbeSession) : Prop extends
    Records (Cautious env start manual) F s where
  unsaved : ∀ event ∈ s.log, event.call.isExtract = false
  descriptors : openDescriptors s.log = fds
  restored : owned = false → Restored start s
  absent : owned = true → start = false

/-- The end of a run. -/
structure Over (env : ProbeEnvironment) (start : Bool) (manual : Option Text) (s : ProbeSession) : Prop where
  always : Always (Cautious env start manual) s.log
  closed : openDescriptors s.log = []
  restored : Restored start s

variable {env : ProbeEnvironment} {start : Bool} {manual : Option Text} {F F' : ProbeFacts} {fds : List Nat}
  {owned : Bool} {s : ProbeSession} {c : ProbeCall}

/-! ## Steps -/

/-- A call that needs no reason. -/
def ProbeCall.isFree : ProbeCall → Bool
  | .modprobeLoad | .modprobeUnload | .openDevice .. | .pread .. | .close _ | .extractFirmware _ => false
  | _ => true

theorem moved_of_isFree {event : ProbeEvent} (h : event.call.isFree = true) : moved fds event = fds := by
  obtain ⟨c, answer, state⟩ := event
  cases c <;> simp [ProbeCall.isFree] at h <;> rfl

theorem Cautious.of_isFree {seen : List ProbeEvent} {event : ProbeEvent} (h : event.call.isFree = true) :
    Cautious env start manual seen event := by
  obtain ⟨c, answer, state⟩ := event
  constructor <;> cases c <;> simp_all [ProbeCall.isFree, ProbeCall.isModprobe]

theorem UnloadFailed.snoc {log : List ProbeEvent} {event : ProbeEvent} (h : UnloadFailed log) :
    UnloadFailed (log ++ [event]) := by
  obtain ⟨failure, hmem, hfailure⟩ := h
  exact ⟨failure, List.mem_append_left _ hmem, hfailure⟩

theorem Restored.after (h : Restored start s) (c : ProbeCall) (hc : c.isModprobe = false) :
    Restored start (env.after s c) :=
  h.imp (env.next_other s c hc).trans fun h => ⟨h.1, h.2.snoc⟩

theorem Moment.over (h : Moment env start manual F [] false s) : Over env start manual s :=
  ⟨h.always, h.descriptors, h.restored rfl⟩

theorem Moment.weaken (h : Moment env start manual F fds owned s) (hF : F.holds s.log → F'.holds s.log) :
    Moment env start manual F' fds owned s :=
  { h with facts := hF h.facts }

theorem Moment.halted (h : Moment env start manual F fds owned s) :
    Moment env start manual .nothing fds owned s :=
  h.weaken fun _ => trivial

/-- What a cautious call changes: the descriptors, and the module. -/
theorem Moment.after (h : Moment env start manual F fds owned s) (c : ProbeCall)
    (hcautious : Cautious env start manual s.log (env.event s c)) (hextract : c.isExtract = false)
    (hrestored : owned = false → Restored start s → Restored start (env.after s c)) :
    Moment env start manual F (moved fds (env.event s c)) owned (env.after s c) where
  always := always_snoc.mpr ⟨h.always, hcautious⟩
  facts := F.snoc s.log _ h.facts
  unsaved event hmem := by
    rcases List.mem_append.mp hmem with hmem | hmem
    · exact h.unsaved event hmem
    · obtain rfl := List.mem_singleton.mp hmem
      exact hextract
  descriptors := by simp [h.descriptors]
  restored hown := hrestored hown (h.restored hown)
  absent := h.absent

/-- A free call adds its answer to the record. -/
theorem holds_free (hc : c.isFree = true) :
    Act.Holds (Moment env start manual F fds owned) (call env.toEnvironment c)
      (fun a => Moment env start manual (F.answered c a) fds owned)
      (fun _ => Moment env start manual .nothing fds owned) := by
  have hafter : ∀ s, Moment env start manual F fds owned s →
      Moment env start manual F fds owned (env.after s c) := by
    intro s h
    have hmodprobe : c.isModprobe = false := by cases c <;> simp_all [ProbeCall.isFree, ProbeCall.isModprobe]
    have hextract : c.isExtract = false := by cases c <;> simp_all [ProbeCall.isFree, ProbeCall.isExtract]
    have hstep := h.after c (.of_isFree hc) hextract fun _ hs => hs.after c hmodprobe
    rwa [moved_of_isFree hc] at hstep
  apply holds_call
  · intro s a h ha
    exact { hafter s h with facts := ⟨(hafter s h).facts, answered_after ha⟩ }
  · intro s _ h _
    exact (hafter s h).halted

theorem Moment.computed {α : Type} {result : Except PyError α} :
    Act.Holds (Moment env start manual F fds owned) (Act.ofExcept result)
      (fun a s => Moment env start manual F fds owned s ∧ result = .ok a)
      (fun _ => Moment env start manual .nothing fds owned) := .computed fun _ _ h => h.halted

theorem Moment.required {check : Bool} {e : PyError} :
    Act.Holds (Moment env start manual F fds owned) (Act.require check e)
      (fun _ s => Moment env start manual F fds owned s ∧ check = true)
      (fun _ => Moment env start manual .nothing fds owned) := .required fun _ h => h.halted

/-! ## Reading the storage -/

/-- Also that the node was seen to be a ROM. -/
def romFacts (F : ProbeFacts) (node : Text) : ProbeFacts :=
  F.and ⟨IsRom node, fun _ _ ⟨type, flags, htype, hrom, hflags, hvalue⟩ =>
    ⟨type, flags, htype.snoc, hrom, hflags.snoc, hvalue⟩⟩

/-- Also that the descriptor matched. -/
def matchedFacts (F : ProbeFacts) (fd : Nat) : ProbeFacts :=
  F.and ⟨IsMatched fd, fun _ _ ⟨node, dev, major, minor, info, hdev, hnumbers, hsince, hmatch⟩ =>
    ⟨node, dev, major, minor, info, hdev.snoc, hnumbers, hsince.snoc, hmatch⟩⟩

theorem holds_storageNode (nodes : List Text) (node : Text) :
    Act.Holds (Moment env start manual F fds owned) (storageNode env nodes node)
      (fun _ => Moment env start manual F fds owned) (fun _ => Moment env start manual .nothing fds owned) := by
  refine .ite (fun _ => ?_) fun _ => .pure fun _ h => h
  exact .bind (holds_free rfl) fun name => .pure fun _ h => h.weaken fun hF => hF.1

theorem holds_requireRom (node : Text) :
    Act.Holds (Moment env start manual F fds owned) (requireRom env node)
      (fun _ => Moment env start manual (romFacts F node) fds owned)
      (fun _ => Moment env start manual .nothing fds owned) := by
  refine .bind (holds_free rfl) fun type => ?_
  refine .bind Moment.required fun _ => .assume_right fun htype => ?_
  refine .bind (holds_free rfl) fun flags => ?_
  refine .bind Moment.computed fun value => .assume_right fun hvalue => ?_
  refine Moment.required.post fun _ s h => ?_
  obtain rfl : value = 0x1000 := by simpa using h.2
  exact h.1.weaken fun hF => ⟨hF.1.1, type, flags, hF.1.2, by simpa using htype, hF.2, hvalue⟩

/-- A read from a descriptor that matched. -/
theorem holds_readStorage (size fd : Nat) (offset n : Int) :
    Act.Holds (fun s => Moment env start manual (matchedFacts F fd) (fd :: fds) owned s.1)
      (readStorage env fd size offset n)
      (fun _ s => Moment env start manual (matchedFacts F fd) (fd :: fds) owned s.1)
      (fun _ s => Moment env start manual (matchedFacts F fd) (fd :: fds) owned s.1) := by
  have hafter : ∀ s, Moment env start manual (matchedFacts F fd) (fd :: fds) owned s →
      Moment env start manual (matchedFacts F fd) (fd :: fds) owned
        (env.after s (.pread fd n.toNat offset.toNat)) := by
    intro s h
    refine h.after (.pread fd n.toNat offset.toNat)
      ⟨fun hm => ?_, fun _ _ ho => ?_, fun fd' size' offset' hread => ?_, fun _ he => ?_⟩ rfl
      fun _ hs => hs.after _ rfl
    · cases hm
    · cases ho
    · cases hread
      exact ⟨by simp [h.descriptors], h.facts.2⟩
    · cases he
  have hpread : Act.Holds (Moment env start manual (matchedFacts F fd) (fd :: fds) owned)
      (call env.toEnvironment (.pread fd n.toNat offset.toNat))
      (fun _ => Moment env start manual (matchedFacts F fd) (fd :: fds) owned)
      (fun _ => Moment env start manual (matchedFacts F fd) (fd :: fds) owned) :=
    holds_call (fun s _ h _ => hafter s h) fun s _ h _ => hafter s h
  refine .ite (fun _ => .raise fun _ h => h) fun _ => ?_
  refine .bind (M := fun _ s => Moment env start manual (matchedFacts F fd) (fd :: fds) owned s.1)
    (.read fun _ h => h) fun left => ?_
  refine .ite (fun _ => .raise fun _ h => h) fun _ => ?_
  have hspend : Act.Holds (fun s => Moment env start manual (matchedFacts F fd) (fd :: fds) owned s.1)
      (readStorage.spend n) (fun _ s => Moment env start manual (matchedFacts F fd) (fd :: fds) owned s.1)
      (fun _ s => Moment env start manual (matchedFacts F fd) (fd :: fds) owned s.1) := fun _ h => h
  refine .bind hspend fun _ => .bind hpread.onFirst fun data => ?_
  exact .ite (fun _ => .raise fun _ h => h) fun _ => .pure fun _ h => h

/-- The state of the device is asked for where its number is known and it has been opened. -/
def openedFacts (F : ProbeFacts) (node dev : Text) (major minor : Int) (fd : Nat) : ProbeFacts :=
  ((F.answered (.readText node "dev".toList) dev).known (deviceNumbers dev = .ok (major, minor))).answered
    (.openDevice (readOnlyPath node) readOnlyFlags) fd

theorem holds_fstat {node dev : Text} {major minor : Int} {fd : Nat} :
    Act.Holds (Moment env start manual (openedFacts F node dev major minor fd) fds owned)
      (call env.toEnvironment (.fstat fd))
      (fun info s => Moment env start manual (openedFacts F node dev major minor fd) fds owned s ∧
        AnsweredSince (.openDevice (readOnlyPath node) readOnlyFlags) fd (.fstat fd) info s.log)
      (fun _ => Moment env start manual .nothing fds owned) := by
  have hsince : Act.Holds (fun s : ProbeSession => Answered (.openDevice (readOnlyPath node) readOnlyFlags) fd s.log)
      (call env.toEnvironment (.fstat fd))
      (fun info s => AnsweredSince (.openDevice (readOnlyPath node) readOnlyFlags) fd (.fstat fd) info s.log)
      (fun _ _ => True) :=
    holds_call (fun _ _ h hinfo => answeredSince_after h hinfo) fun _ _ _ _ => trivial
  refine ((holds_free rfl).and hsince).weaken (fun _ h => ⟨h, h.facts.2⟩) (fun _ _ h => ?_) fun _ _ h => h.1
  exact ⟨h.1.weaken fun hF => hF.1, h.2⟩

theorem matchesDevice_eq_ok {info : DeviceInfo} {major minor : Int} (h : matchesDevice info major minor = .ok true) :
    isChr info.mode = true ∧ makedev major (minor + 1) = .ok info.rdev := by
  unfold matchesDevice at h
  split at h
  case isTrue hchr =>
    obtain ⟨rdev, hrdev, heq⟩ := Except.bind_eq_ok.mp h
    obtain rfl : info.rdev = rdev := by simpa using heq
    exact ⟨hchr, hrdev⟩
  case isFalse => cases h

theorem holds_readDevice {node dev : Text} {major minor : Int} {fd : Nat} :
    Act.Holds (Moment env start manual (openedFacts F node dev major minor fd) (fd :: fds) owned)
      (readDevice env node major minor fd)
      (fun a s => ValidAddress a ∧ Moment env start manual F (fd :: fds) owned s)
      (fun _ => Moment env start manual .nothing (fd :: fds) owned) := by
  refine .bind holds_fstat fun info => ?_
  refine .bind (M := fun same s => Moment env start manual (openedFacts F node dev major minor fd) (fd :: fds) owned s ∧
    AnsweredSince (.openDevice (readOnlyPath node) readOnlyFlags) fd (.fstat fd) info s.log ∧
      matchesDevice info major minor = .ok same) ?_ fun same => ?_
  · exact .ofExcept (fun _ _ h hsame => ⟨h.1, h.2, hsame⟩) fun _ _ h _ => h.1.halted
  refine .bind (M := fun _ => Moment env start manual (matchedFacts F fd) (fd :: fds) owned) ?_ fun _ => ?_
  · refine .require (fun s h hsame => ?_) fun _ h _ => h.1.halted
    subst hsame
    exact h.1.weaken fun hF => ⟨hF.1.1.1, node, dev, major, minor, info, hF.1.1.2, hF.1.2, h.2.1,
      matchesDevice_eq_ok h.2.2⟩
  refine .bind (holds_free rfl) fun text => .bind Moment.computed fun size => .assume_right fun _ => ?_
  refine .ite (fun _ => .raise fun _ h => h.halted) fun _ => .within ?_
  refine (readFactoryFrom_holds (holds_readStorage size.toNat fd) size.toNat).weaken
    (fun s h => h.weaken fun hF => hF.1) (fun a s h => ⟨h.1, h.2.weaken fun hF => hF.1⟩) fun _ _ h => h.halted

theorem holds_open {node dev : Text} {major minor : Int} :
    Act.Holds (Moment env start manual (((romFacts F node).answered (.readText node "dev".toList) dev).known
        (deviceNumbers dev = .ok (major, minor))) fds owned)
      (call env.toEnvironment (.openDevice (readOnlyPath node) readOnlyFlags))
      (fun fd => Moment env start manual (openedFacts F node dev major minor fd) (fd :: fds) owned)
      (fun _ => Moment env start manual .nothing fds owned) := by
  have hcautious : ∀ s, Moment env start manual (((romFacts F node).answered (.readText node "dev".toList) dev).known
      (deviceNumbers dev = .ok (major, minor))) fds owned s →
      Cautious env start manual s.log (env.event s (.openDevice (readOnlyPath node) readOnlyFlags)) := by
    intro s h
    refine ⟨fun hm => ?_, fun path flags hopen => ?_, fun _ _ _ hread => ?_, fun _ he => ?_⟩
    · cases hm
    · cases hopen
      exact ⟨node, rfl, rfl, h.facts.1.1.2⟩
    · cases hread
    · cases he
  apply holds_call
  · intro s fd h hfd
    have hstep := h.after _ (hcautious s h) rfl fun _ hs => hs.after _ rfl
    have hmoved : moved fds (env.event s (.openDevice (readOnlyPath node) readOnlyFlags)) = fd :: fds := by
      rw [Environment.event, hfd]
      rfl
    rw [hmoved] at hstep
    exact { hstep with facts := ⟨⟨⟨hstep.facts.1.1.1, hstep.facts.1.2⟩, hstep.facts.2⟩, answered_after hfd⟩ }
  · intro s e h he
    have hstep := h.after _ (hcautious s h) rfl fun _ hs => hs.after _ rfl
    have hmoved : moved fds (env.event s (.openDevice (readOnlyPath node) readOnlyFlags)) = fds := by
      rw [Environment.event, he]
      rfl
    rw [hmoved] at hstep
    exact hstep.halted

/-- A descriptor is closed whatever `close` answers. -/
theorem holds_close {fd : Nat} :
    Act.Holds (Moment env start manual F (fd :: fds) owned) (call env.toEnvironment (.close fd))
      (fun _ => Moment env start manual F fds owned) (fun _ => Moment env start manual .nothing fds owned) := by
  have hafter : ∀ s, Moment env start manual F (fd :: fds) owned s →
      Moment env start manual F fds owned (env.after s (.close fd)) := by
    intro s h
    have hcautious : Cautious env start manual s.log (env.event s (.close fd)) := by
      constructor <;> intros <;> contradiction
    have hstep := h.after _ hcautious rfl fun _ hs => hs.after _ rfl
    have hmoved : moved (fd :: fds) (env.event s (.close fd)) = fds := List.erase_cons_head _ _
    rwa [hmoved] at hstep
  exact holds_call (fun s _ h _ => hafter s h) fun s _ h _ => (hafter s h).halted

theorem holds_openStorage (node : Text) :
    Act.Holds (Moment env start manual (romFacts F node) fds owned) (openStorage env node)
      (fun a s => ValidAddress a ∧ Moment env start manual F fds owned s)
      (fun _ => Moment env start manual .nothing fds owned) := by
  refine .bind (holds_free rfl) fun dev => .bind Moment.computed fun numbers => .assume_right fun hnumbers => ?_
  obtain ⟨major, minor⟩ := numbers
  refine .bind (holds_open.pre fun _ h => h.weaken fun hF => ⟨hF, hnumbers⟩)
    fun fd => ?_
  refine .ensuring holds_readDevice (fun a => ?_) fun e => ?_
  · exact .assume fun ha => holds_close.post fun _ _ h => ⟨ha, h⟩
  · exact holds_close

/-! ## The module -/

theorem Cautious.of_isModprobe {seen : List ProbeEvent} {event : ProbeEvent}
    (h : event.call.isModprobe = true) (hstart : start = false) : Cautious env start manual seen event := by
  obtain ⟨c, answer, state⟩ := event
  constructor
  · exact fun _ => hstart
  all_goals cases c <;> simp_all [ProbeCall.isModprobe]

/-- The module is loaded for the run only. -/
theorem holds_load :
    Act.Holds (Moment env start manual F fds true) (call env.toEnvironment .modprobeLoad)
      (fun _ => Moment env start manual F fds true) (fun _ => Moment env start manual .nothing fds true) := by
  have hafter : ∀ s, Moment env start manual F fds true s →
      Moment env start manual F fds true (env.after s .modprobeLoad) := by
    intro s h
    exact h.after .modprobeLoad (.of_isModprobe rfl (h.absent rfl)) rfl fun hown => by cases hown
  exact holds_call (fun s _ h _ => hafter s h) fun s _ h _ => (hafter s h).halted

/-- What is found at the start tells whether the module has to be loaded. -/
theorem holds_present :
    Act.Holds (Moment env start manual F fds false) (call env.toEnvironment .moduleExists)
      (fun present => Moment env start manual F fds (!present))
      (fun _ => Moment env start manual .nothing fds false) := by
  apply holds_answered
  intro s h
  have hstep := h.after .moduleExists (.of_isFree rfl) rfl fun _ hs => hs.after _ rfl
  refine ⟨s.state, env.tells s, { hstep with restored := fun _ => hstep.restored rfl, absent := fun hown => ?_ }⟩
  rcases h.restored rfl with hstate | ⟨habsent, -⟩
  · rw [← hstate]
    simpa using hown
  · exact habsent

theorem holds_unload :
    Act.Holds (Moment env start manual F fds true) (unload env)
      (fun _ => Moment env start manual F fds false) (fun _ => Moment env start manual .nothing fds false) := by
  refine .bind (M := fun present s => Moment env start manual F fds true s ∧ s.state = present) ?_ fun present => ?_
  · apply holds_answered
    intro s h
    have hstep := h.after .moduleExists (.of_isFree rfl) rfl fun hown => by cases hown
    exact ⟨s.state, env.tells s, hstep, env.next_other s .moduleExists rfl⟩
  have hafter : ∀ s, Moment env start manual F fds true s →
      Moment env start manual F fds true (env.after s .modprobeUnload) := by
    intro s h
    exact h.after .modprobeUnload (.of_isModprobe rfl (h.absent rfl)) rfl fun hown => by cases hown
  cases present with
  | true =>
    apply holds_call
    · rintro s u ⟨h, -⟩ hu
      have hstate : env.next s .modprobeUnload = start := (env.unloads s u hu).trans (h.absent rfl).symm
      exact { hafter s h with restored := fun _ => .inl hstate, absent := fun hown => by cases hown }
    · rintro s e ⟨h, -⟩ he
      have hfailed : UnloadFailed (env.after s .modprobeUnload).log :=
        ⟨env.event s .modprobeUnload, by simp, rfl, e, he⟩
      exact { (hafter s h).halted with
        restored := fun _ => .inr ⟨h.absent rfl, hfailed⟩, absent := fun hown => by cases hown }
  | false =>
    refine .pure fun s ⟨h, hstate⟩ => ?_
    exact { h with
      restored := fun _ => .inl (hstate.trans (h.absent rfl).symm), absent := fun hown => by cases hown }

/-! ## The run -/

theorem holds_probe :
    Act.Holds (Moment env start manual F fds owned) (probe env owned)
      (fun a s => ValidAddress a ∧ Moment env start manual F fds owned s)
      (fun _ => Moment env start manual .nothing fds owned) := by
  refine .bind (M := fun _ => Moment env start manual F fds owned) ?_ fun _ => ?_
  · cases owned with
    | true => exact holds_load
    | false => exact .pure fun _ h => h
  refine .bind (holds_free rfl) fun names => ?_
  refine .bind (Act.Holds.foldlM (I := fun _ _ => Moment env start manual (F.answered .globMtd names) fds owned)
    (fun node rest nodes => holds_storageNode nodes node) names []) fun nodes => ?_
  split
  case h_1 node =>
    refine .bind (holds_requireRom node) fun _ => (holds_openStorage node).post ?_
    exact fun a s h => ⟨h.1, h.2.weaken fun hF => hF.1⟩
  case h_2 => exact .raise fun _ h => h.halted

/-- Detection gives an address or fails, and the module and the descriptors are as they were. -/
theorem holds_detect :
    Act.Holds (Moment env start manual F fds false) (detect env)
      (fun a s => ValidAddress a ∧ Moment env start manual F fds false s)
      (fun _ => Moment env start manual .nothing fds false) := by
  refine .bind (holds_free rfl) fun compatible => .bind Moment.required fun _ => .assume_right fun _ => ?_
  refine .bind holds_present fun present => ?_
  cases present with
  | true =>
    refine .ensuring holds_probe (fun a => .pure fun s h => ?_) fun e => .pure fun _ h => h
    exact ⟨h.1, h.2.weaken fun hF => hF.1⟩
  | false =>
    refine .ensuring holds_probe (fun a => .assume fun ha => ?_) fun e => holds_unload
    exact holds_unload.post fun _ s h => ⟨ha, h.weaken fun hF => hF.1⟩

/-- Printing at the end of a run. -/
theorem holds_print {message : Text} :
    Act.Holds (Over env start manual) (call env.toEnvironment (.print message))
      (fun _ => Over env start manual) (fun _ => Over env start manual) := by
  have hafter : ∀ s, Over env start manual s → Over env start manual (env.after s (.print message)) := by
    intro s h
    refine ⟨always_snoc.mpr ⟨h.always, .of_isFree rfl⟩, ?_, h.restored.after _ rfl⟩
    rw [after_log, openDescriptors_snoc, moved_of_isFree rfl, h.closed]
  exact holds_call (fun s _ h _ => hafter s h) fun s _ h _ => hafter s h

/-- The address is saved where there is a reason to. -/
theorem holds_saveAddress {selected : Text} :
    Act.Holds (fun s => Moment env start manual F [] false s ∧
        Cautious env start manual s.log (env.event s (.extractFirmware selected)))
      (saveAddress env selected) (fun _ => Over env start manual) (fun _ => Over env start manual) := by
  have hafter : ∀ s, Moment env start manual F [] false s →
      Cautious env start manual s.log (env.event s (.extractFirmware selected)) →
      Over env start manual (env.after s (.extractFirmware selected)) := by
    intro s h hcautious
    refine ⟨always_snoc.mpr ⟨h.always, hcautious⟩, ?_, (h.restored rfl).after _ rfl⟩
    rw [after_log, openDescriptors_snoc, h.descriptors]
    rfl
  refine .bind (holds_call (fun s _ h _ => hafter s h.1 h.2) fun s _ h _ => hafter s h.1 h.2) fun _ => ?_
  exact .bind holds_print fun _ => .pure fun _ h => h

/-- Only the configuration was looked at. -/
def Looked (s : ProbeSession) : Prop :=
  ∀ event ∈ s.log, event.call = .configExists ∨ event.call = .configIsSymlink

theorem holds_look (hc : c = .configExists ∨ c = .configIsSymlink) :
    Act.Holds (fun s => Moment env start manual F fds owned s ∧ Looked s) (call env.toEnvironment c)
      (fun a s => Moment env start manual (F.answered c a) fds owned s ∧ Looked s)
      (fun _ => Moment env start manual .nothing fds owned) := by
  have hfree : c.isFree = true := by rcases hc with rfl | rfl <;> rfl
  have hlooked : Act.Holds Looked (call env.toEnvironment c) (fun _ => Looked) (fun _ _ => True) := by
    refine holds_call (fun s _ h _ event hmem => ?_) fun _ _ _ _ => trivial
    rcases List.mem_append.mp hmem with hmem | hmem
    · exact h event hmem
    · obtain rfl := List.mem_singleton.mp hmem
      exact hc
  exact ((holds_free hfree).and hlooked).weaken (fun _ h => h) (fun _ _ h => h) fun _ _ h => h.1

/-- Neither a file nor a dangling link is there. -/
def unconfigured : ProbeFacts := (Facts.nothing.answered .configExists false).answered .configIsSymlink false

theorem holds_isConfigured :
    Act.Holds (fun s => Moment env start manual .nothing [] false s ∧ Looked s) (isConfigured env)
      (fun configured s => Moment env start manual .nothing [] false s ∧
        (configured = false → Moment env start manual unconfigured [] false s ∧ Looked s))
      (fun _ => Moment env start manual .nothing [] false) := by
  refine .bind (holds_look (.inl rfl)) fun found => ?_
  cases found with
  | true => exact .pure fun s h => ⟨h.1.halted, fun hf => by cases hf⟩
  | false =>
    refine (holds_look (.inr rfl)).post fun configured s h => ⟨h.1.halted, ?_⟩
    rintro rfl
    exact h

/-- Where detection gives an address, it is the one for this moment. -/
theorem holds_attempt :
    Act.Holds (fun s => Moment env start none unconfigured [] false s ∧ Looked s) (Act.attempt (detect env))
      (fun outcome s => Moment env start none .nothing [] false s ∧ ∀ selected, outcome = .ok selected →
        ValidAddress selected ∧ unconfigured.holds s.log ∧ IsDetected env selected s.log)
      (fun _ => Over env start none) := by
  have hdetect := (@holds_detect env start none unconfigured []).pre
    fun s (h : Moment env start none unconfigured [] false s ∧ Looked s) => h.1
  refine .attempt (hdetect.reached.weaken (fun _ h => h) (fun a t h => ?_) fun e t h => ⟨h, fun _ he => by cases he⟩)
  obtain ⟨⟨haddress, h⟩, s, ⟨-, hlooked⟩, hrun⟩ := h
  refine ⟨h.halted, fun selected he => ?_⟩
  obtain rfl := Except.ok.inj he
  exact ⟨haddress, h.facts, s, t, hlooked, hrun, rfl⟩

theorem Cautious.of_extract {seen : List ProbeEvent} {event : ProbeEvent} {selected : Text}
    (hcall : event.call = .extractFirmware selected) (hfirst : ∀ e ∈ seen, e.call.isExtract = false)
    (hvalid : ValidAddress selected) (hmanual : ∀ value, manual = some value → address (upper value) = .ok selected)
    (hnone : manual = none → unconfigured.holds seen ∧ IsDetected env selected seen) :
    Cautious env start manual seen event := by
  constructor <;> rw [hcall]
  · intro hm
    cases hm
  · intro path flags ho
    cases ho
  · intro fd size offset hr
    cases hr
  · rintro _ ⟨⟩
    refine ⟨hfirst, address_of_valid hvalid, hmanual, fun hn => ?_⟩
    obtain ⟨⟨⟨-, hexists⟩, hlink⟩, hdetected⟩ := hnone hn
    exact ⟨hexists, hlink, hdetected⟩

theorem holds_saveDetected (outcome : Except PyError Text) :
    Act.Holds (fun s => Moment env start none .nothing [] false s ∧ ∀ selected, outcome = .ok selected →
        ValidAddress selected ∧ unconfigured.holds s.log ∧ IsDetected env selected s.log)
      (saveDetected env outcome) (fun _ => Over env start none) (fun _ => Over env start none) := by
  cases outcome with
  | ok selected =>
    refine holds_saveAddress.pre fun s h => ⟨h.1, ?_⟩
    obtain ⟨hvalid, hrecord⟩ := h.2 selected rfl
    exact .of_extract rfl h.1.unsaved hvalid (fun _ hn => by cases hn) fun _ => hrecord
  | error e =>
    refine .ite (fun _ => ?_) fun _ => .raise fun _ h => h.1.over
    exact .bind (holds_print.pre fun _ h => h.1.over) fun _ => .pure fun _ h => h

theorem holds_configure {skip : Bool} :
    Act.Holds (fun s => Moment env start manual .nothing [] false s ∧ Looked s) (configure env manual skip)
      (fun _ => Over env start manual) (fun _ => Over env start manual) := by
  refine .ite (fun _ => .pure fun _ h => h.1.over) fun _ => ?_
  cases manual with
  | some value =>
    refine .bind (M := fun selected s => Moment env start (some value) .nothing [] false s ∧
      address (upper value) = .ok selected) ?_ fun selected => .assume_right fun hselected => ?_
    · exact .ofExcept (fun _ _ h hselected => ⟨h.1, hselected⟩) fun _ _ h _ => h.1.over
    refine holds_saveAddress.pre fun s h => ⟨h, ?_⟩
    refine .of_extract rfl h.unsaved (address_valid hselected) ?_ fun hn => by cases hn
    rintro _ ⟨⟩
    exact hselected
  | none =>
    refine .bind (holds_isConfigured.weaken (fun _ h => h) (fun _ _ h => h) fun _ _ h => h.over)
      fun configured => .ite (fun _ => ?_) fun hconfigured => ?_
    · exact .bind (holds_print.pre fun _ h => h.1.over) fun _ => .pure fun _ h => h
    · refine .bind (holds_attempt.pre fun s h => h.2 (by simpa using hconfigured)) fun outcome => holds_saveDetected outcome

theorem Moment.begin : Moment env start manual .nothing [] false ⟨start, []⟩ where
  always := always_nil
  facts := trivial
  unsaved _ hmem := by cases hmem
  descriptors := rfl
  restored _ := .inl rfl
  absent hown := by cases hown

/-- What a run that began with the module loaded or not leaves, and what its calls rest on. -/
structure NoTrace (env : ProbeEnvironment) (start : Bool) (manual : Option Text) (s : ProbeSession) : Prop where
  loaded : start = true → s.state = true ∧ ∀ event ∈ s.log, event.call.isModprobe = false
  unloaded : start = false → s.state = false ∨ UnloadFailed s.log
  closed : openDescriptors s.log = []
  cautious : Always (Cautious env start manual) s.log

theorem Over.noTrace (h : Over env start manual s) : NoTrace env start manual s where
  loaded hstart := by
    subst hstart
    refine ⟨h.restored.resolve_right (by simp), fun event hmem => ?_⟩
    obtain ⟨seen, rest, -, hcautious⟩ := h.always.of_mem hmem
    exact Bool.eq_false_iff.mpr fun hm => by cases hcautious.modprobe hm
  unloaded hstart := by
    subst hstart
    exact h.restored.imp id And.right
  closed := h.closed
  cautious := h.always

/-- Whatever is answered, a run leaves no trace, and detection alone saves nothing. -/
theorem configure_leaves_no_trace (env : ProbeEnvironment) (start : Bool) (manual : Option Text) (skip : Bool) :
    NoTrace env start manual (configure env manual skip ⟨start, []⟩).2 ∧
      NoTrace env start none (detect env ⟨start, []⟩).2 ∧
        ∀ event ∈ (detect env ⟨start, []⟩).2.log, event.call.isExtract = false := by
  have hbegin : Looked ⟨start, []⟩ := fun _ hmem => by cases hmem
  have hdetect := ((@holds_detect env start none .nothing []).post fun _ _ h => h.2).final .begin
  exact ⟨(holds_configure.final ⟨.begin, hbegin⟩).noTrace, hdetect.over.noTrace, hdetect.unsaved⟩

/-- A machine where the module can be loaded, and there is no partition table in the storage -/
def blankStorage : ProbeEnvironment where
  answer s
    | .readCompatible => .ok (encodeAscii "microsoft,romulus13".toList)
    | .moduleExists => .ok s.state
    | .globMtd => .ok ["mtd0".toList, "mtd0ro".toList]
    | .readText _ file => .ok <|
        if file = "name".toList then "qcom_scm_storage".toList
        else if file = "type".toList then "rom".toList
        else if file = "flags".toList then "0x1000".toList
        else if file = "dev".toList then "90:0".toList
        else "67108864".toList
    | .openDevice .. => .ok (3 : Nat)
    | .fstat _ => .ok ⟨0o020600, 90 * 256 + 1⟩
    | .pread _ size _ => .ok (List.replicate size 0)
    | .configExists | .configIsSymlink => .ok false
    | .modprobeLoad | .modprobeUnload | .close _ | .extractFirmware _ | .print _ => .ok ()
  next s
    | .modprobeLoad => true
    | .modprobeUnload => false
    | _ => s.state
  tells _ := rfl
  unloads _ _ _ := rfl
  next_other _ c h := by cases c <;> first | rfl | cases h

/-- The module is loaded, the storage is read, and the module is gone again. -/
example : (configure blankStorage none false ⟨false, []⟩).2.state = false ∧
    ((configure blankStorage none false ⟨false, []⟩).2.log.map Event.call).filter
      (fun c => c.isModprobe || c == .fstat 3) = [.modprobeLoad, .fstat 3, .modprobeUnload] := by decide +kernel

end Azurefin
