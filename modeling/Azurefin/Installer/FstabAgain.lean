import Azurefin.Installer.Fstab

/-!
# The installer hook again

What the hook writes is what it would write again, so that a second run changes nothing
(`correctedFstab_idempotent`).
-/

namespace Azurefin

namespace Fstab

variable {lines ls arranged : List Text} {line text t : Text} {bootOptions : List (List Text)}
  {canonical : Bool} {p : List Text → Bool}

/-! ## Lines that are left as they are -/

/-- There is no home entry, or the only one is canonical and behind the only entry of `/var`. -/
def HomeSettled (lines : List Text) : Prop :=
  (∀ l ∈ lines, isEntry isHome l = false) ∨ ∃ before home after,
    lines = before ++ home :: after ∧ isEntry isHome home = true ∧
      (∀ l ∈ before ++ after, isEntry isHome l = false) ∧ (lines.filter (isEntry isVar)).length ≤ 1 ∧
      (∀ l ∈ after, isEntry isVar l = false) ∧ renameHome home = home

theorem entries_eq_nil_iff : (entries lines).filter (fun e => p e.2) = [] ↔
    ∀ l ∈ lines, isEntry p l = false := by
  rw [← List.length_eq_zero_iff, length_entries, List.length_eq_zero_iff, List.filter_eq_nil_iff]
  simp

theorem moveHome_settled (h : HomeSettled lines) :
    moveHome ((entries lines).filter fun e => isHome e.2) ((entries lines).filter fun e => isVar e.2) lines =
      .ok lines := by
  rcases h with hnone | ⟨before, home, after, rfl, hhome, hother, hone, hafter, hname⟩
  · rw [entries_eq_nil_iff.mpr hnone, moveHome]
  · obtain ⟨words, hwords⟩ := Option.isSome_iff_exists.mp ((isSome_filter isHome home).trans hhome)
    have hhomes : (entries (before ++ home :: after)).filter (fun e => isHome e.2) = [(before.length, words)] := by
      rw [entries_filter, indexed_eq_singleton]
      exact ⟨before, home, after, rfl, rfl, hwords, fun l hl => isEntry_eq_false.mp (hother l hl)⟩
    rw [hhomes, moveHome]
    rw [← length_entries] at hone
    rcases hvars : (entries (before ++ home :: after)).filter fun e => isVar e.2 with _ | ⟨⟨first, words'⟩, _ | _⟩
    case nil => simp [hvars, hname]
    case cons.cons => simp [hvars] at hone
    case cons.nil =>
      obtain ⟨before', var, after', hlines, rfl, hvar, -⟩ := entries_eq_singleton hvars
      have hne : home ≠ var := by
        rintro rfl
        rw [isEntry_of_disjoint isVar_of_isHome hhome] at hvar
        cases hvar
      have hlt : ¬ before.length < before'.length := by
        rcases split_twice hne hlines with ⟨between, -, rfl, -⟩ | ⟨between, -, -, hlt⟩
        · rw [hafter var (by simp)] at hvar
          cases hvar
        · exact hlt
      simp [hvars, hname, hlt]

/-- What is settled is left as it is. -/
theorem correctedFstab_eq_self (hlines : Lines lines) (hformed : WellFormed lines)
    (hroot : ∀ l ∈ lines, isEntry isRoot l = false) (hhome : canonical = true → HomeSettled lines)
    (bootOptions : List (List Text)) :
    correctedFstab lines.flatten bootOptions canonical = .ok lines.flatten := by
  simp only [correctedFstab, splitlinesKeep_flatten hlines, any_short.mpr hformed,
    entries_eq_nil_iff.mpr hroot, commentRoot, Except.ok_bind]
  cases canonical with
  | false => rfl
  | true =>
    rw [if_pos rfl, moveHome_settled (hhome rfl)]
    rfl

/-! ## The lines that are written are left as they are -/

theorem fields?_comment : fields? comment = none := fields?_eq_none rfl

/-- An entry that is written is one of the lines, and not the root entry. -/
theorem fields?_of_mem_commented (h : line ∈ lines.flatMap commented) {words : List Text}
    (hwords : fields? line = some words) : line ∈ lines ∧ isEntry isRoot line = false := by
  obtain ⟨l, hl, hline⟩ := List.mem_flatMap.mp h
  rw [commented] at hline
  split at hline
  case isTrue =>
    rcases List.mem_pair.mp hline with rfl | rfl
    · rw [fields?_comment] at hwords
      cases hwords
    · rw [fields?_eq_none rfl] at hwords
      cases hwords
  case isFalse hroot =>
    obtain rfl := List.mem_singleton.mp hline
    exact ⟨hl, by simpa using hroot⟩

theorem filter_commented (hp : ∀ words, p words = true → isRoot words = false) (lines : List Text) :
    (lines.flatMap commented).filter (isEntry p) = lines.filter (isEntry p) := by
  have hcomment : isEntry p comment = false := by rw [isEntry, fields?_comment, Option.any_none]
  induction lines with
  | nil => rfl
  | cons l lines ih =>
    rw [List.flatMap_cons, List.filter_append, ih, commented]
    split
    case isTrue hroot =>
      have hmarked : isEntry p ("# ".toList ++ l) = false := by rw [isEntry, fields?_eq_none rfl, Option.any_none]
      have hl : isEntry p l = false := by
        by_contra hl
        rw [isEntry_of_disjoint hp (by simpa using hl)] at hroot
        cases hroot
      rw [List.filter_cons, List.filter_cons, List.filter_cons, hcomment, hmarked, hl]
      rfl
    case isFalse =>
      rw [List.filter_cons, List.filter_cons, List.filter_nil]
      split <;> rfl

theorem not_mem_commented (hp : ∀ words, p words = true → isRoot words = false)
    (h : ∀ l ∈ lines, isEntry p l = false) : ∀ l ∈ lines.flatMap commented, isEntry p l = false := by
  have hnil : lines.filter (isEntry p) = [] := List.filter_eq_nil_iff.mpr fun l hl => by simp [h l hl]
  rw [← filter_commented hp lines, List.filter_eq_nil_iff] at hnil
  exact fun l hl => by simpa using hnil l hl

theorem HomeSettled.commented (h : HomeSettled lines) : HomeSettled (lines.flatMap commented) := by
  rcases h with hnone | ⟨before, home, after, rfl, hhome, hother, hone, hafter, hname⟩
  · exact .inl (not_mem_commented isRoot_of_isHome hnone)
  · have hline : Fstab.commented home = [home] :=
      if_neg (by simp [isEntry_of_disjoint isRoot_of_isHome hhome])
    have hsplit := not_mem_commented isRoot_of_isHome hother
    rw [← filter_commented isRoot_of_isVar, List.flatMap_append, List.flatMap_cons, hline] at hone
    rw [List.flatMap_append] at hsplit
    refine .inr ⟨before.flatMap Fstab.commented, home, after.flatMap Fstab.commented, ?_, hhome, hsplit, ?_,
      not_mem_commented isRoot_of_isVar hafter, hname⟩
    · rw [List.flatMap_append, List.flatMap_cons, hline, List.singleton_append]
    · rw [List.flatMap_append, List.flatMap_cons, hline]
      exact hone

/-- Where the home entry is among the lines that were read and among those that are written. -/
theorem Arranged.home_cases (h : Arranged Rewritten true lines arranged) :
    (arranged = lines ∧ ∀ l ∈ lines, isEntry isHome l = false) ∨ ∃ before home after before' after',
      lines = before ++ home :: after ∧ isEntry isHome home = true ∧
        (∀ l ∈ before ++ after, isEntry isHome l = false) ∧ arranged = before' ++ renameHome home :: after' ∧
        (∀ l ∈ before' ++ after', isEntry isHome l = false) ∧
        (arranged.filter (isEntry isVar)).length ≤ 1 ∧ ∀ l ∈ after', isEntry isVar l = false := by
  cases h with
  | same hnone => exact .inl ⟨rfl, hnone rfl⟩
  | @renamed before after home _ _ heq hhome hother hone hafter hnew =>
    have hhome' : isEntry isHome (renameHome home) = true := (isHome_renameHome home).trans hhome
    rw [hnew]
    refine .inr ⟨before, home, after, before, after, heq, hhome, hother, rfl, hother, ?_, hafter⟩
    rw [heq, List.filter_append, List.filter_cons, isEntry_of_disjoint isVar_of_isHome hhome] at hone
    rw [List.filter_append, List.filter_cons, isEntry_of_disjoint isVar_of_isHome hhome']
    exact hone
  | @moved before between after home var home' var' _ heq hhome hother hvar hone hnew hended =>
    have hhome' : isEntry isHome (renameHome home) = true := (isHome_renameHome home).trans hhome
    have hother' := hother
    simp only [List.forall_mem_append, List.forall_mem_cons] at hother' hone
    obtain ⟨hbefore, hbetween, hvar', hafter⟩ := hother'
    have hnone : ∀ ls : List Text, (∀ l ∈ ls, isEntry isVar l = false) → ls.filter (isEntry isVar) = [] :=
      fun ls hls => List.filter_eq_nil_iff.mpr fun l hl => by simp [hls l hl]
    rw [hnew]
    refine .inr ⟨before, home, _, before ++ between ++ [var'], after, heq, hhome, hother, by simp, ?_, ?_,
      hone.2.2.2⟩
    · simp only [List.forall_mem_append, List.forall_mem_singleton, hended.isEntry_eq]
      exact ⟨⟨⟨hbefore, hbetween⟩, hvar'⟩, hafter⟩
    · rw [List.filter_append, List.filter_append, hnone _ hone.1, hnone _ hone.2.2.1, List.filter_cons,
        List.filter_cons, isEntry_of_disjoint isVar_of_isHome hhome', hnone _ hone.2.2.2]
      split <;> simp

/-- The lines of the entries are settled once they are arranged. -/
theorem Arranged.settled (h : Arranged Rewritten true lines arranged) : HomeSettled arranged := by
  rcases h.home_cases with ⟨rfl, hnone⟩ | ⟨before, home, after, before', after', -, hhome, -, rfl, hother, hone, hafter⟩
  · exact .inl hnone
  · exact .inr ⟨before', renameHome home, after', rfl, (isHome_renameHome home).trans hhome, hother, hone, hafter,
      renameHome_renameHome home⟩

theorem Arranged.wellFormed (h : Arranged Rewritten canonical lines arranged) (hformed : WellFormed lines) :
    WellFormed arranged := by
  have hname : ∀ l, (∀ words, fields? l = some words → 4 ≤ words.length) →
      ∀ words, fields? (renameHome l) = some words → 4 ≤ words.length := by
    intro l hl words hwords
    rcases fields?_renameHome l with h | ⟨device, rest, hold, hnew⟩
    · exact hl words (h ▸ hwords)
    · obtain rfl := Option.some.inj (hnew.symm.trans hwords)
      have hlength := hl _ hold
      exact hlength
  cases h with
  | same => exact hformed
  | renamed _ heq _ _ _ _ hnew =>
    rw [heq] at hformed
    simp only [WellFormed, List.forall_mem_append, List.forall_mem_cons] at hformed ⊢
    exact ⟨hformed.1, hnew ▸ hname _ hformed.2.1, hformed.2.2⟩
  | moved _ heq _ _ _ _ hnew hended =>
    rw [heq] at hformed
    simp only [WellFormed, List.forall_mem_append, List.forall_mem_cons, hended.fields?_eq] at hformed ⊢
    exact ⟨⟨hformed.1, hformed.2.2.1⟩, hformed.2.2.2.1, hnew ▸ hname _ hformed.2.1, hformed.2.2.2.2⟩

/-- What is written, and that it would be written again. -/
theorem correctedFstab_written (hbreaks : NewlineBreaks text) (h : correctedFstab text bootOptions canonical = .ok t) :
    ∃ arranged, Arranged Rewritten canonical (splitlinesKeep text) arranged ∧
      splitlinesKeep t = arranged.flatMap commented ∧ NewlineBreaks t ∧
      ∀ bootOptions, correctedFstab t bootOptions canonical = .ok t := by
  obtain ⟨hformed, -, arranged, harranged, rfl⟩ := correctedFstab_cases hbreaks h
  have hlines := lines_commented (lines_arranged harranged (lines_splitlinesKeep hbreaks))
  refine ⟨arranged, harranged, splitlinesKeep_flatten hlines, newlineBreaks_flatten hlines,
    correctedFstab_eq_self hlines ?_ ?_ ?_⟩
  · exact fun l hl words hwords =>
      harranged.wellFormed hformed l (fields?_of_mem_commented hl hwords).1 words hwords
  · intro l hl
    cases hwords : fields? l with
    | none => rw [isEntry, hwords, Option.any_none]
    | some words => exact (fields?_of_mem_commented hl hwords).2
  · rintro rfl
    exact harranged.settled.commented

end Fstab

/-! ## The installer hook -/

/-- What the hook reads and writes of the installed system: what `config.get` returns of
`prepare-root.conf`, the boot entries in the order of `glob`, the target of `/home` where it is a
link, and the two files. -/
structure Sysroot where
  composefs : Except PyError Text
  entries : List Bytes
  home : Option Text
  fstab : Option Bytes
  backup : Option Bytes

namespace Sysroot

/-- The options of a boot entry. -/
def entryOptions (entry : Bytes) : Except PyError (List (List Text)) := do
  let text ← readText entry
  .ok (((splitlines text).filter "options ".toList.isPrefixOf).map fun line => (pySplit line).drop 1)

def canonicalHome (root : Sysroot) : Bool := root.home.any fun target =>
  let target := (PurePosixPath.ofText target).str
  target == "var/home".toList || target == "/var/home".toList

def fix : Act Sysroot PyError Unit := do
  let root ← Act.read
  let enabled ← .ofExcept root.composefs
  .require (["yes".toList, "true".toList, "1".toList, "signed".toList].contains enabled)
    (.valueError "Composefs is not explicitly enabled; refusing to edit")
  let bootOptions ← .ofExcept (root.entries.mapM entryOptions)
  let data ← .ofExcept (root.fstab.elim (.error (.osError .noent)) .ok)
  let original ← .ofExcept (readText data)
  let updated ← .ofExcept (Fstab.correctedFstab original bootOptions.flatten root.canonicalHome)
  if updated = original then pure ()
  else do
    .require root.backup.isNone (.valueError "Backup already exists; refusing to overwrite")
    fun _ => (.ok (), { root with backup := some data, fstab := some (utf8 updated) })

variable {root root' : Sysroot}

/-- What a run of the hook that completes read and wrote. -/
theorem fix_cases (h : fix root = (.ok (), root')) : ∃ enabled bootOptions data original updated,
    root.composefs = .ok enabled ∧
      ["yes".toList, "true".toList, "1".toList, "signed".toList].contains enabled = true ∧
      root.entries.mapM entryOptions = .ok bootOptions ∧ root.fstab = some data ∧
      readText data = .ok original ∧
      Fstab.correctedFstab original bootOptions.flatten root.canonicalHome = .ok updated ∧
      (updated ≠ original → root.backup = none) ∧ root' = if updated = original then root
        else { root with backup := some data, fstab := some (utf8 updated) } := by
  simp only [fix, Act.bind_eq_ok, Act.read_apply, Act.ofExcept_eq_ok, Act.require_eq_ok, Prod.mk.injEq,
    Except.ok.injEq] at h
  obtain ⟨_, _, ⟨rfl, rfl⟩, enabled, _, ⟨henabled, rfl⟩, _, _, ⟨hallowed, rfl⟩, bootOptions, _, ⟨hoptions, rfl⟩,
    data, _, ⟨hdata, rfl⟩, original, _, ⟨hread, rfl⟩, updated, _, ⟨hupdated, rfl⟩, hwrite⟩ := h
  have hfstab : root.fstab = some data := by
    cases hfile : root.fstab with
    | none => simp [hfile] at hdata
    | some file =>
      rw [hfile] at hdata
      rw [Except.ok.inj hdata]
  refine ⟨enabled, bootOptions, data, original, updated, henabled, hallowed, hoptions, hfstab, hread,
    hupdated, ?_⟩
  split at hwrite
  case isTrue hsame =>
    rw [if_pos hsame]
    exact ⟨fun hdiff => absurd hsame hdiff, (Prod.mk.inj hwrite).2.symm⟩
  case isFalse hdiff =>
    rw [if_neg hdiff]
    obtain ⟨_, _, hbackup, hwritten⟩ := Act.bind_eq_ok.mp hwrite
    obtain ⟨hnone, rfl⟩ := Act.require_eq_ok.mp hbackup
    exact ⟨fun _ => Option.isNone_iff_eq_none.mp hnone, (Prod.mk.inj hwritten).2.symm⟩

/-- Nothing is written where nothing is corrected. -/
theorem fix_unchanged {enabled original : Text} {bootOptions : List (List (List Text))} {data : Bytes}
    (henabled : root.composefs = .ok enabled)
    (hallowed : ["yes".toList, "true".toList, "1".toList, "signed".toList].contains enabled = true)
    (hoptions : root.entries.mapM entryOptions = .ok bootOptions) (hfstab : root.fstab = some data)
    (hread : readText data = .ok original)
    (hsame : Fstab.correctedFstab original bootOptions.flatten root.canonicalHome = .ok original) :
    fix root = (.ok (), root) := by
  simp only [fix, Act.bind_apply, Act.read_apply, Act.ofExcept_apply, henabled, hallowed, Act.require, if_true,
    Act.pure_apply, hoptions, hfstab, Option.elim_some, hread, hsame]

/-- A second run of the hook, with whatever boot entries there are then. -/
theorem fix_again (hbreaks : ∀ data text, root.fstab = some data → readText data = .ok text → NewlineBreaks text)
    (h : fix root = (.ok (), root')) {entries : List Bytes} {bootOptions : List (List (List Text))}
    (hoptions : entries.mapM entryOptions = .ok bootOptions) :
    fix { root' with entries := entries } = (.ok (), { root' with entries := entries }) := by
  obtain ⟨enabled, _, data, original, updated, henabled, hallowed, -, hfstab, hread, hupdated, -, rfl⟩ := fix_cases h
  obtain ⟨-, -, -, hnewlines, hagain⟩ := Fstab.correctedFstab_written (hbreaks data original hfstab hread) hupdated
  split
  case isTrue hsame =>
    rw [hsame] at hagain
    exact fix_unchanged henabled hallowed hoptions hfstab hread (hagain _)
  case isFalse =>
    refine fix_unchanged henabled hallowed hoptions rfl ?_ (hagain _)
    rw [readText_utf8, hnewlines.universalNewlines_eq]

end Sysroot

/-- **The correction is idempotent.** What is written is written again whatever the boot options are,
and the hook changes nothing where it completed before. -/
theorem correctedFstab_idempotent :
    (∀ text bootOptions bootOptions' canonical t, NewlineBreaks text →
      Fstab.correctedFstab text bootOptions canonical = .ok t →
        Fstab.correctedFstab t bootOptions' canonical = .ok t) ∧
    ∀ (root root' : Sysroot) entries options,
      (∀ data text, root.fstab = some data → readText data = .ok text → NewlineBreaks text) →
      root.fix = (.ok (), root') → entries.mapM Sysroot.entryOptions = .ok options →
        Sysroot.fix { root' with entries := entries } = (.ok (), { root' with entries := entries }) := by
  constructor
  · intro text bootOptions bootOptions' canonical t hbreaks h
    obtain ⟨-, -, -, -, hagain⟩ := Fstab.correctedFstab_written hbreaks h
    exact hagain bootOptions'
  · intro root root' entries options hbreaks h hoptions
    exact Sysroot.fix_again hbreaks h hoptions

/-- A system whose home entry stands before the entry of `/var`. -/
def sampleHomes : Text := "UUID=1 /home btrfs subvol=home 0 0\nUUID=2 /var ext4 defaults 0 2".toList

def sampleHomesCorrected : Text :=
  "UUID=2 /var ext4 defaults 0 2\nUUID=1 /var/home btrfs subvol=home 0 0\n".toList

def sampleRoot : Sysroot := ⟨.ok "yes".toList, [], some "var/home".toList, some (utf8 sampleHomes), none⟩

def sampleRootFixed : Sysroot :=
  { sampleRoot with fstab := some (utf8 sampleHomesCorrected), backup := some (utf8 sampleHomes) }

theorem readText_sampleHomes : readText (utf8 sampleHomes) = .ok sampleHomes := by
  have hbreaks : NewlineBreaks sampleHomes := forall_mem_of_all (by decide +kernel)
  rw [readText_utf8, hbreaks.universalNewlines_eq]

theorem sampleRoot_fixed : sampleRoot.fix = (.ok (), sampleRootFixed) := by
  have hhome : sampleRoot.canonicalHome = true := by decide +kernel
  have hcorrected : Fstab.correctedFstab sampleHomes [] true = .ok sampleHomesCorrected := by decide +kernel
  have hdiff : sampleHomesCorrected ≠ sampleHomes := by decide +kernel
  have henabled : ["yes".toList, "true".toList, "1".toList, "signed".toList].contains "yes".toList = true := by
    decide +kernel
  simp only [Sysroot.fix, Act.bind_apply, Act.read_apply, Act.ofExcept_apply, hhome, Act.require]
  simp only [sampleRoot, henabled, if_true, List.mapM_nil, pure, Except.pure, Option.elim_some,
    readText_sampleHomes, List.flatten_nil, hcorrected, if_neg hdiff]
  rfl

theorem correctedFstab_idempotent_sample :
    Fstab.correctedFstab Fstab.sampleCorrected [] true = .ok Fstab.sampleCorrected ∧
      sampleRootFixed.fix = (.ok (), sampleRootFixed) := by
  refine ⟨correctedFstab_idempotent.1 _ _ _ _ _ Fstab.sampleFstab_breaks Fstab.sampleFstab_corrected,
    correctedFstab_idempotent.2 sampleRoot sampleRootFixed [] [] ?_ sampleRoot_fixed rfl⟩
  rintro data text ⟨⟩ hread
  obtain rfl := Except.ok.inj (readText_sampleHomes.symm.trans hread)
  exact forall_mem_of_all (by decide +kernel)

end Azurefin
