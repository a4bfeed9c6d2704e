import Azurefin.Installer.FstabAgain
import Azurefin.Lib.Moments

/-!
# The original fstab

The hook of `installer_fix_fstab.py`, one operation after the other: each may fail, and a run may be cut
off anywhere, also in the middle of a copy. The backup is written first and never where one exists, so
one of the two files holds the original at every moment of any sequence of runs
(`original_recoverable`). The run in which nothing fails is `Sysroot.fix`.
-/

namespace Azurefin

namespace Sysroot

/-! ## Operations -/

/-- The two files that the hook writes. -/
inductive EtcFile where
  | fstab
  | backup
  deriving DecidableEq, Repr

def contents (root : Sysroot) : EtcFile → Option Bytes
  | .fstab => root.fstab
  | .backup => root.backup

def store (root : Sysroot) (data : Bytes) : EtcFile → Sysroot
  | .fstab => { root with fstab := some data }
  | .backup => { root with backup := some data }

/-- `open(path, 'w')`: the file is empty then. -/
def openFile (f : EtcFile) : Prog Sysroot PyError Unit := .step fun
  | .go, s => (.ok (), s.store [] f)
  | .fail progress, s => (.error (.osError .io), if progress = 0 then s else s.store [] f)

/-- One byte that is written. Whatever the sizes of the single writes are, what they leave of a file when
they fail or are cut off is left by some number of these. -/
def appendByte (f : EtcFile) (b : UInt8) : Prog Sysroot PyError Unit := .step fun
  | .go, s => (.ok (), s.store ((s.contents f).getD [] ++ [b]) f)
  | .fail _, s => (.error (.osError .io), s)

def writeFile (f : EtcFile) (data : Bytes) : Prog Sysroot PyError Unit := do
  openFile f
  data.forM (appendByte f)

/-- The bytes of the fstab -/
def readFstab : Prog Sysroot PyError Bytes :=
  .look (.osError .io) fun s => s.fstab.elim (.error (.osError .noent)) .ok

/-- An operation that changes neither file: it copies times and permissions, or prints. -/
def elsewhere : Prog Sysroot PyError Unit := .look (.osError .io) fun _ => .ok ()

/-- `shutil.copy2(path, backup)` -/
def copyBackup : Prog Sysroot PyError Unit := do
  let data ← readFstab
  writeFile .backup data
  elsewhere

/-- `fix(root)`, step by step -/
def fixSteps : Prog Sysroot PyError Unit := do
  let enabled ← .look (.osError .io) (·.composefs)
  .require (["yes".toList, "true".toList, "1".toList, "signed".toList].contains enabled)
    (.valueError "Composefs is not explicitly enabled; refusing to edit")
  let entries ← .look (.osError .io) fun s => .ok s.entries
  let bootOptions ← .ofExcept (entries.mapM entryOptions)
  let canonical ← .look (.osError .io) fun s => .ok s.canonicalHome
  let data ← readFstab
  let original ← .ofExcept (readText data)
  let updated ← .ofExcept (Fstab.correctedFstab original bootOptions.flatten canonical)
  if updated = original then elsewhere
  else do
    let missing ← .look (.osError .io) fun s => .ok s.backup.isNone
    .require missing (.valueError "Backup already exists; refusing to overwrite")
    copyBackup
    writeFile .fstab (utf8 updated)
    elsewhere

/-! ## Runs -/

/-- One run of the hook: the configuration, the boot entries and the link that it finds, and what the
environment makes of its operations. -/
structure Attempt where
  composefs : Except PyError Text
  entries : List Bytes
  home : Option Text
  fates : List Fate

/-- Only the two files are left from one run to the next. -/
def Attempt.start (a : Attempt) (s : Sysroot) : Sysroot :=
  { s with composefs := a.composefs, entries := a.entries, home := a.home }

def Attempt.run (a : Attempt) (s : Sysroot) : Except (Stop PyError) Unit × Sysroot :=
  let (r, w) := fixSteps ⟨a.fates, a.start s⟩
  (r, w.state)

/-- What is on the disk before the first run, after each step of each run, and at the end. -/
def history : List Attempt → Sysroot → List Sysroot
  | [], s => [s]
  | a :: as, s => s :: (Prog.moments fixSteps a.fates (a.start s) ++ history as (a.run s).2)

/-- One of the files holds what the fstab held before. -/
def Recoverable (before s : Sysroot) : Prop :=
  s.fstab = before.fstab ∨ ∃ data, before.fstab = some data ∧ s.backup = some data

/-- A complete backup stays complete. -/
def KeepsBackup (before s t : Sysroot) : Prop :=
  ∀ data, before.fstab = some data → s.backup = some data → t.backup = some data

/-! ## One run -/

section Run

open Prog

variable {s t before : Sysroot} {data : Bytes} {f : EtcFile}

/-- Nothing was changed, or there was no backup and one of the files is what the fstab was. -/
def Safe (s t : Sysroot) : Prop :=
  t = s ∨ s.backup = none ∧ (t.fstab = s.fstab ∨ ∃ data, s.fstab = some data ∧ t.backup = some data)

/-- A file is written and the other is left as it is. -/
theorem writeFile_ensures {I : Sysroot → Prop} (hstore : ∀ s data, I s → I (s.store data f)) (data : Bytes) :
    Ensures I (writeFile f data) (fun _ => I) (fun e s => e.isValueError = false ∧ I s) I := by
  refine .bind (M := fun _ => I) (.step (fun _ h => h) fun c s hs => ?_) fun _ =>
    .forM (I := fun _ => I) (fun b rest => .step (fun _ h => h) fun c s hs => ?_) data
  · cases c with
    | go => exact hstore s [] hs
    | fail progress =>
      refine ⟨rfl, ?_⟩
      by_cases hzero : progress = 0
      · simpa [hzero] using hs
      · simpa [hzero] using hstore s [] hs
  · cases c with
    | go => exact hstore s _ hs
    | fail progress => exact ⟨rfl, hs⟩

@[simp] theorem contents_store (s : Sysroot) (data : Bytes) (f : EtcFile) : (s.store data f).contents f = some data := by
  cases f <;> rfl

/-- A file that was written holds what was written. -/
theorem writeFile_contents (f : EtcFile) (data : Bytes) :
    Ensures (fun _ => True) (writeFile f data) (fun _ s => s.contents f = some data) (fun _ _ => True) fun _ => True := by
  refine .bind (M := fun _ s => ∃ done, done ++ data = data ∧ s.contents f = some done)
    (.step (fun _ _ => trivial) fun c s _ => ?_) fun _ => ?_
  · cases c with
    | go => exact ⟨[], rfl, contents_store s [] f⟩
    | fail progress => trivial
  · refine .weaken (.forM (I := fun rest s => ∃ done, done ++ rest = data ∧ s.contents f = some done)
      (fun b rest => .step (fun _ _ => trivial) fun c s hs => ?_) data) (fun _ h => h) (fun _ s hs => ?_)
      (fun _ _ h => h) fun _ h => h
    · obtain ⟨done, hdone, hcontents⟩ := hs
      cases c with
      | go => exact ⟨done ++ [b], by simpa using hdone, by simp [hcontents]⟩
      | fail progress => trivial
    · obtain ⟨done, hdone, hcontents⟩ := hs
      rw [hcontents, ← hdone, List.append_nil]

/-- Reading changes nothing, and its failures are no `ValueError`. -/
theorem look_ensures {α : Type} {P : Sysroot → Prop} {Q : α → Sysroot → Prop} {g : Sysroot → Except PyError α}
    (hok : ∀ s a, P s → g s = .ok a → Q a s) (herr : ∀ s e, P s → g s = .error e → e.isValueError = false) :
    Ensures P (.look (.osError .io) g) Q (fun e s => e.isValueError = false ∧ P s) P := by
  refine .step (fun _ h => h) fun c s hs => ?_
  cases c with
  | go =>
    rcases hg : g s with e | a
    · simpa [hg] using ⟨herr s e hs hg, hs⟩
    · simpa [hg] using hok s a hs hg
  | fail progress => exact ⟨rfl, hs⟩

theorem elsewhere_ensures {P : Sysroot → Prop} :
    Ensures P elsewhere (fun _ => P) (fun e s => e.isValueError = false ∧ P s) P :=
  look_ensures (fun _ _ hs _ => hs) fun _ _ _ h => by cases h

theorem readFstab_ensures {P : Sysroot → Prop} :
    Ensures P readFstab (fun data s => s.fstab = some data ∧ P s) (fun e s => e.isValueError = false ∧ P s) P := by
  refine look_ensures (fun s data hs h => ?_) fun s e _ h => ?_
  all_goals cases hfile : s.fstab <;> rw [hfile] at h
  · cases h
  · exact ⟨congrArg some (Except.ok.inj h), hs⟩
  · exact Except.error.inj h ▸ rfl
  · cases h

/-- The fstab is as it was while it is copied, and the backup is complete then. -/
theorem copyBackup_ensures (data : Bytes) : Ensures (fun s => s.fstab = some data) copyBackup
    (fun _ s => s.fstab = some data ∧ s.backup = some data)
    (fun e s => e.isValueError = false ∧ s.fstab = some data) fun s => s.fstab = some data := by
  refine .bind (M := fun copied s => copied = data ∧ s.fstab = some data) (readFstab_ensures.weaken (fun _ h => h)
    (fun copied s h => ⟨Option.some.inj (h.1.symm.trans h.2), h.2⟩) (fun _ _ h => h) fun _ h => h) fun copied => ?_
  refine .assume fun hcopied => ?_
  subst hcopied
  refine .bind (M := fun _ s => s.fstab = some copied ∧ s.backup = some copied) ?_ fun _ =>
    elsewhere_ensures.weaken (fun _ h => h) (fun _ _ h => h) (fun _ _ h => ⟨h.1, h.2.1⟩) fun _ h => h.1
  have hkeep := writeFile_ensures (I := fun s => s.fstab = some copied) (f := .backup) (fun _ _ h => h) copied
  exact (hkeep.and (writeFile_contents .backup copied)).weaken (fun _ h => ⟨h, trivial⟩) (fun _ _ h => h)
    (fun _ _ h => h.1) fun _ h => h.1

/-- What a run leaves behind wherever it ends. -/
theorem fixSteps_ensures (s : Sysroot) : Ensures (· = s) fixSteps (fun _ => Safe s)
    (fun e t => Safe s t ∧ (e.isValueError = true → t = s)) (Safe s) := by
  have hsame : ∀ t, t = s → Safe s t := fun _ h => .inl h
  have hstop : ∀ (e : PyError) t, t = s → Safe s t ∧ (e.isValueError = true → t = s) := fun _ t h => ⟨.inl h, fun _ => h⟩
  refine .bind (.look (Q := fun _ t => t = s) hsame (fun _ _ h _ => h) hstop) fun enabled => ?_
  refine .bind (.require (Q := fun _ t => t = s) (fun _ h _ => h) fun t h _ => hstop _ t h) fun _ => ?_
  refine .bind (.look (Q := fun _ t => t = s) hsame (fun _ _ h _ => h) hstop) fun entries => ?_
  refine .bind (.ofExcept (Q := fun _ t => t = s) (fun _ _ h _ => h) fun t e h _ => hstop e t h) fun bootOptions => ?_
  refine .bind (.look (Q := fun _ t => t = s) hsame (fun _ _ h _ => h) hstop) fun canonical => ?_
  refine .bind (readFstab_ensures.weaken (fun _ h => h) (fun _ _ h => h) (fun e t h => hstop e t h.2) hsame) fun data => ?_
  refine .bind (.ofExcept (Q := fun _ t => t.fstab = some data ∧ t = s) (fun _ _ h _ => h)
    fun t e h _ => hstop e t h.2) fun original => ?_
  refine .bind (.ofExcept (Q := fun _ t => t.fstab = some data ∧ t = s) (fun _ _ h _ => h)
    fun t e h _ => hstop e t h.2) fun updated => ?_
  refine .ite (fun _ => elsewhere_ensures.weaken (fun _ h => h.2) (fun _ t h => hsame t h) (fun e t h => hstop e t h.2) hsame) fun _ => ?_
  refine .bind (.look (Q := fun missing t => missing = t.backup.isNone ∧ t.fstab = some data ∧ t = s)
    (fun t h => hsame t h.2) (fun t missing h hm => ⟨(Except.ok.inj hm).symm, h⟩) fun e t h => hstop e t h.2) fun missing => ?_
  refine .bind (.require (Q := fun _ t => s.backup = none ∧ s.fstab = some data ∧ t.fstab = some data)
    (fun t h hm => ?_) fun t h _ => hstop _ t h.2.2) fun _ => ?_
  · obtain ⟨rfl, hfile, rfl⟩ := h
    exact ⟨Option.isNone_iff_eq_none.mp hm, hfile, hfile⟩
  refine .assume fun hnone => .assume fun hfile => ?_
  -- from here on the backup is being written, or it is complete
  have hcopying : ∀ t, t.fstab = some data → Safe s t := fun t h => .inr ⟨hnone, .inl (h.trans hfile.symm)⟩
  have hcopied : ∀ t, t.backup = some data → Safe s t := fun t h => .inr ⟨hnone, .inr ⟨data, hfile, h⟩⟩
  have hother : ∀ (e : PyError) t, e.isValueError = false → Safe s t → Safe s t ∧ (e.isValueError = true → t = s) :=
    fun e t he ht => ⟨ht, fun h => by simp [he] at h⟩
  refine .bind ((copyBackup_ensures data).weaken (fun _ h => h) (fun _ _ h => h.2)
    (fun e t h => hother e t h.1 (hcopying t h.2)) hcopying) fun _ => ?_
  refine .bind ((writeFile_ensures (I := fun t => t.backup = some data) (f := .fstab) (fun _ _ h => h) _).weaken
    (fun _ h => h) (fun _ _ h => h) (fun e t h => hother e t h.1 (hcopied t h.2)) hcopied) fun _ => ?_
  exact elsewhere_ensures.weaken (fun _ h => h) (fun _ t h => hcopied t h) (fun e t h => hother e t h.1 (hcopied t h.2)) hcopied

/-! ## The run without failures -/

theorem store_store (s : Sysroot) (data data' : Bytes) (f : EtcFile) :
    (s.store data f).store data' f = s.store data' f := by
  cases f <;> rfl

theorem appendBytes_goes (s : Sysroot) (f : EtcFile) (data done : Bytes) :
    Goes (data.forM (appendByte f)) (s.store done f) () (s.store (done ++ data) f) := by
  induction data generalizing done with
  | nil => simpa using Goes.pure () (s.store done f)
  | cons b data ih =>
    have hbyte : Goes (appendByte f b) (s.store done f) () (s.store (done ++ [b]) f) := by
      refine Goes.step ?_
      simp [store_store]
    have hrest := ih (done ++ [b])
    rw [List.append_assoc, List.singleton_append] at hrest
    exact hbyte.bind hrest

theorem writeFile_goes (s : Sysroot) (f : EtcFile) (data : Bytes) :
    Goes (writeFile f data) s () (s.store data f) :=
  Goes.bind (t := s.store [] f) (Goes.step rfl) (appendBytes_goes s f data [])

theorem readFstab_goes (h : s.fstab = some data) : Goes readFstab s data s := Goes.look (by rw [h, Option.elim_some])

/-- A run of the steps in which nothing fails is a run of `fix`. -/
theorem fixSteps_goes (h : fix s = (.ok (), t)) : Goes fixSteps s () t := by
  obtain ⟨enabled, bootOptions, data, original, updated, henabled, hallowed, hoptions, hfstab, hread, hupdated, hnone, rfl⟩ :=
    fix_cases h
  have helse : ∀ s, Goes elsewhere s () s := fun s => Goes.look rfl
  refine .bind (.look henabled) (.bind (.require hallowed _) (.bind (.look rfl) (.bind (.ofExcept hoptions _)
    (.bind (.look rfl) (.bind (readFstab_goes hfstab) (.bind (.ofExcept hread _) (.bind (.ofExcept hupdated _) ?_)))))))
  by_cases hsame : updated = original
  · simpa only [if_pos hsame] using helse s
  · simp only [if_neg hsame]
    have hbackup := hnone hsame
    have hcopy : Goes copyBackup s () (s.store data .backup) :=
      (readFstab_goes hfstab).bind ((writeFile_goes s .backup data).bind (helse _))
    exact .bind (.look rfl) (.bind (.require (by rw [hbackup]; rfl) _) (hcopy.bind
      ((writeFile_goes _ .fstab (utf8 updated)).bind (helse _))))

/-! ## Two moments of a run -/

instance : IsPreorder Sysroot (KeepsBackup before) where
  refl _ _ _ h := h
  trans _ _ _ hst htu data hbefore h := htu data hbefore (hst data hbefore h)

theorem readFstab_grows {P : Sysroot → Prop} :
    Advances P readFstab (fun data s => s.fstab = some data ∧ P s) (KeepsBackup before) := by
  refine .look fun s data hs h => ?_
  cases hfile : s.fstab <;> rw [hfile] at h
  · cases h
  · exact ⟨congrArg some (Except.ok.inj h), hs⟩

/-- Writing the fstab leaves the backup as it is. -/
theorem writeFstab_grows (data : Bytes) :
    Advances (fun _ => True) (writeFile .fstab data) (fun _ _ => True) (KeepsBackup before) := by
  refine .bind (M := fun _ _ => True) (.step fun c s _ => ⟨?_, fun _ _ => trivial⟩) fun _ =>
    .forM (I := fun _ _ => True) (fun b rest => .step fun c s _ => ⟨?_, fun _ _ => trivial⟩) data
  · cases c with
    | go => exact fun _ _ h => h
    | fail progress => by_cases hzero : progress = 0 <;> simp [hzero, KeepsBackup, store]
  · cases c <;> exact fun _ _ h => h

/-- A backup is complete only when its last byte is written. -/
theorem writeBackup_grows (hbefore : before.fstab = some data) :
    Advances (fun s => s.backup = none) (writeFile .backup data) (fun _ _ => True) (KeepsBackup before) := by
  have hstart : ∀ s t : Sysroot, s.backup = none → KeepsBackup before s t := by
    intro s t hs d _ h
    rw [hs] at h
    cases h
  refine .bind (M := fun _ s => ∃ done, done ++ data = data ∧ s.backup = some done)
    (.step fun c s hs => ⟨hstart _ _ hs, ?_⟩) fun _ => ?_
  · rintro u hu
    cases c with
    | go => exact ⟨[], rfl, rfl⟩
    | fail progress => cases hu
  · refine .weaken (.forM (I := fun rest s => ∃ done, done ++ rest = data ∧ s.backup = some done)
      (fun b rest => .step fun c s hs => ?_) data) (fun _ h => h) fun _ _ _ => trivial
    obtain ⟨done, hdone, hbackup⟩ := hs
    cases c with
    | go =>
      refine ⟨fun d hd h => ?_, fun _ _ => ⟨done ++ [b], by simpa using hdone, by simp [store, contents, hbackup]⟩⟩
      obtain rfl : data = d := Option.some.inj (hbefore.symm.trans hd)
      obtain rfl : done = data := Option.some.inj (hbackup.symm.trans h)
      simp at hdone
    | fail progress => exact ⟨fun _ _ h => h, fun _ h => by cases h⟩

/-- The fstab is the original where there is no backup yet. -/
def Untouched (before s : Sysroot) : Prop := s.backup = none → s.fstab = before.fstab

/-- Once the backup is complete, a run leaves it so. -/
theorem fixSteps_grows (before : Sysroot) :
    Advances (Untouched before) fixSteps (fun _ _ => True) (KeepsBackup before) := by
  have helse : ∀ P : Sysroot → Prop, Advances P elsewhere (fun _ _ => True) (KeepsBackup before) := fun P =>
    .look fun _ _ _ _ => trivial
  refine .bind (M := fun _ => Untouched before) (.look fun _ _ h _ => h) fun enabled => ?_
  refine .bind (M := fun _ => Untouched before) (.require fun _ h _ => h) fun _ => ?_
  refine .bind (M := fun _ => Untouched before) (.look fun _ _ h _ => h) fun entries => ?_
  refine .bind (M := fun _ => Untouched before) (.ofExcept fun _ _ h _ => h) fun bootOptions => ?_
  refine .bind (M := fun _ => Untouched before) (.look fun _ _ h _ => h) fun canonical => ?_
  refine .bind readFstab_grows fun data => ?_
  refine .bind (M := fun _ s => s.fstab = some data ∧ Untouched before s) (.ofExcept fun _ _ h _ => h) fun original => ?_
  refine .bind (M := fun _ s => s.fstab = some data ∧ Untouched before s) (.ofExcept fun _ _ h _ => h) fun updated => ?_
  refine .ite (fun _ => helse _) fun _ => ?_
  refine .bind (M := fun missing s => missing = s.backup.isNone ∧ s.fstab = some data ∧ Untouched before s)
    (.look fun s missing h hm => ⟨(Except.ok.inj hm).symm, h⟩) fun missing => ?_
  refine .bind (M := fun _ s => before.fstab = s.fstab ∧ s.backup = none) (.require fun s h hm => ?_) fun _ => ?_
  · obtain ⟨rfl, -, huntouched⟩ := h
    have hnone := Option.isNone_iff_eq_none.mp hm
    exact ⟨(huntouched hnone).symm, hnone⟩
  refine .bind (M := fun _ _ => True) (.bind (M := fun copied s => before.fstab = some copied ∧ s.backup = none)
    (readFstab_grows.weaken (fun _ h => h) fun copied s h => ⟨h.2.1.trans h.1, h.2.2⟩) fun copied =>
      .assume fun hbefore => (writeBackup_grows hbefore).bind fun _ => helse _) fun _ =>
    (writeFstab_grows _).bind fun _ => helse _

end Run

/-! ## Any sequence of runs -/

variable {before s t : Sysroot} {a : Attempt} {attempts : List Attempt}

theorem Recoverable.untouched (h : Recoverable before s) : Untouched before s := by
  intro hnone
  rcases h with h | ⟨data, -, h⟩
  · exact h
  · rw [hnone] at h
    cases h

/-- A run from where the original can be recovered. -/
theorem Safe.recoverable (h : Recoverable before s) (ht : Safe s t) : Recoverable before t := by
  rcases ht with rfl | ⟨hnone, ht⟩
  · exact h
  · have hfile := h.untouched hnone
    rcases ht with ht | ⟨data, hdata, ht⟩
    · exact .inl (ht.trans hfile)
    · exact .inr ⟨data, hfile.symm.trans hdata, ht⟩

theorem safe_run (s : Sysroot) (fates : List Fate) : Safe s (fixSteps ⟨fates, s⟩).2.state :=
  (fixSteps_ensures s).weaken (fun _ h => h) (fun _ _ h => h) (fun _ _ h => h.1) (fun _ h => h) |>.invariant
    (w := ⟨fates, s⟩) rfl rfl

theorem recoverable_history (h : Recoverable before s) : ∀ t ∈ history attempts s, Recoverable before t := by
  induction attempts generalizing s with
  | nil => simpa [history] using h
  | cons a attempts ih =>
    have hstart : Recoverable before (a.start s) := h
    refine List.forall_mem_cons.mpr ⟨h, List.forall_mem_append.mpr ⟨fun t ht => ?_, ih ?_⟩⟩
    · obtain ⟨n, -, rfl⟩ := Prog.mem_moments.mp ht
      exact Safe.recoverable hstart (safe_run _ _)
    · exact Safe.recoverable hstart (safe_run _ _)

theorem keepsBackup_history (h : Recoverable before s) : (history attempts s).Pairwise (KeepsBackup before) ∧
    ∀ t ∈ history attempts s, KeepsBackup before s t := by
  induction attempts generalizing s with
  | nil => exact ⟨List.pairwise_singleton _ _, by simp [history, KeepsBackup]⟩
  | cons a attempts ih =>
    have hstart : Recoverable before (a.start s) := h
    have hend : Recoverable before (a.run s).2 := Safe.recoverable hstart (safe_run _ _)
    obtain ⟨hmoments, hbounds⟩ := (fixSteps_grows before).pairwise_moments hstart.untouched a.fates
    obtain ⟨hlater, hfrom⟩ := ih hend
    have hrun : KeepsBackup before s (a.run s).2 := (fixSteps_grows before).start (s := a.start s) hstart.untouched
    have hall : ∀ t ∈ Prog.moments fixSteps a.fates (a.start s) ++ history attempts (a.run s).2, KeepsBackup before s t :=
      List.forall_mem_append.mpr ⟨fun t ht => (hbounds t ht).1, fun t ht => trans_of (KeepsBackup before) hrun (hfrom t ht)⟩
    refine ⟨List.pairwise_cons.mpr ⟨hall, List.pairwise_append.mpr ⟨hmoments, hlater, fun t ht u hu => ?_⟩⟩,
      List.forall_mem_cons.mpr ⟨refl_of (KeepsBackup before) s, hall⟩⟩
    exact trans_of (KeepsBackup before) (hbounds t ht).2 (hfrom u hu)

/-- **The original fstab can be recovered.** Whatever fails and wherever runs are cut off, at every moment
the fstab holds what it held before the first run or the backup holds exactly that; a complete backup
stays complete; and a run that ends in a `ValueError` leaves both files as they were. -/
theorem original_recoverable (before : Sysroot) (attempts : List Attempt) :
    (∀ s ∈ history attempts before, Recoverable before s) ∧
      (history attempts before).Pairwise (KeepsBackup before) ∧
      ∀ (a : Attempt) (s : Sysroot) (e : PyError), (a.run s).1 = .error (.raised e) → e.isValueError = true →
        (a.run s).2.fstab = s.fstab ∧ (a.run s).2.backup = s.backup := by
  refine ⟨recoverable_history (.inl rfl), (keepsBackup_history (.inl rfl)).1, fun a s e hraised he => ?_⟩
  have hend := (fixSteps_ensures (a.start s)).raised (w := ⟨a.fates, a.start s⟩) rfl (Prod.ext hraised rfl)
  have hsame : (a.run s).2 = a.start s := hend.2 he
  exact ⟨hsame ▸ rfl, hsame ▸ rfl⟩

end Sysroot

end Azurefin
