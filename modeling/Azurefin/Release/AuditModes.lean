import Azurefin.Release.Audit
import Mathlib.Data.List.Forall2

/-!
# The two ways to audit a tree

A tree can be audited in place, or through an archive of it. The archive mode looks at the targets
of links, the tree mode at the contents behind each hard link, so they differ on some trees:
`auditModes_agree_iff`.
-/

namespace Azurefin

variable {archive : List TarEntry} {tree : List TreeEntry} {hashes : List Text}

/-! ## Archives of a tree -/

/-- The entry stands for the path. A hard link names a path that is stored with its bytes. -/
inductive Stores (archive : List TarEntry) : TarEntry → TreeEntry → Prop
  | directory (name : Text) : Stores archive ⟨name, .other⟩ ⟨name, .directory⟩
  | file (name : Text) (data : Bytes) : Stores archive ⟨name, .file data⟩ ⟨name, .file data⟩
  | hardLink (name target : Text) (data : Bytes) (h : ⟨target, .file data⟩ ∈ archive) :
    Stores archive ⟨name, .hardLink target⟩ ⟨name, .file data⟩
  | symlink (name target : Text) : Stores archive ⟨name, .symlink target⟩ ⟨name, .symlink target⟩

/-- The archive has exactly the entries of the tree, in some order; no two have the same name. -/
structure ArchiveOf (archive : List TarEntry) (tree : List TreeEntry) : Prop where
  entries : ∃ paths, paths.Perm tree ∧ List.Forall₂ (Stores archive) archive paths
  names : (archive.map TarEntry.name).Nodup

theorem forall₂_left {α β : Type} {R : α → β → Prop} {l : List α} {m : List β}
    (h : List.Forall₂ R l m) : ∀ a ∈ l, ∃ b ∈ m, R a b := by
  induction h with
  | nil => simp
  | cons hab _ ih =>
    refine List.forall_mem_cons.mpr ⟨⟨_, List.mem_cons_self, hab⟩, fun a ha => ?_⟩
    obtain ⟨b, hb, hR⟩ := ih a ha
    exact ⟨b, List.mem_cons_of_mem _ hb, hR⟩

theorem ArchiveOf.path_of (h : ArchiveOf archive tree) {entry : TarEntry} (hmem : entry ∈ archive) :
    ∃ path ∈ tree, Stores archive entry path := by
  obtain ⟨paths, hperm, hall⟩ := h.entries
  obtain ⟨path, hpath, hstores⟩ := forall₂_left hall entry hmem
  exact ⟨path, hperm.mem_iff.mp hpath, hstores⟩

theorem ArchiveOf.entry_of (h : ArchiveOf archive tree) {path : TreeEntry} (hmem : path ∈ tree) :
    ∃ entry ∈ archive, Stores archive entry path := by
  obtain ⟨paths, hperm, hall⟩ := h.entries
  exact forall₂_left hall.flip path (hperm.mem_iff.mpr hmem)

/-! ## What each mode checks -/

/-- What both modes check of an entry. -/
structure EntryPasses (hashes : List Text) (entry : TarEntry) : Prop where
  name : forbidden entry.name = false
  bytes : ∀ data, entry.kind = .file data → checkFile entry.name data hashes = .ok ()

/-- A symbolic link does not lead to a forbidden name. -/
def SafeTarget (entry : TarEntry) : Prop :=
  ∀ target, entry.kind = .symlink target → forbidden target = false

/-- A hard link is not a `machine-id` with contents. -/
def SafeLink (archive : List TarEntry) (entry : TarEntry) : Prop :=
  ∀ target data, entry.kind = .hardLink target → ⟨target, .file data⟩ ∈ archive →
    isMachineId entry.name = true → data = []

theorem checkFile_eq_ok {name : Text} {data : Bytes} :
    checkFile name data hashes = .ok () ↔ forbidden name = false ∧
      (isMachineId name = true → data = []) ∧ sha256 data ∉ hashes := by
  simp only [checkFile, Except.check_eq_ok, Bool.not_eq_true, Bool.and_eq_false_imp, bne_eq_false_iff_eq,
    List.length_eq_zero_iff, List.contains_eq_mem, decide_eq_false_iff_not, and_true]

theorem auditEntry_eq_ok {entry : TarEntry} :
    auditEntry hashes entry = .ok () ↔
      EntryPasses hashes entry ∧ ∀ target, entry.kind.linkname = some target → forbidden target = false := by
  obtain ⟨name, kind⟩ := entry
  simp only [auditEntry, Except.check_eq_ok, Bool.or_eq_true, not_or, Bool.not_eq_true]
  constructor
  · rintro ⟨⟨hname, hlink⟩, h⟩
    refine ⟨⟨hname, ?_⟩, ?_⟩
    · rintro data hdata
      simp only at hdata
      subst hdata
      exact h
    · intro target htarget
      simpa [htarget] using hlink
  · rintro ⟨⟨hname, hbytes⟩, hlink⟩
    refine ⟨⟨hname, ?_⟩, ?_⟩
    · cases hkind : kind.linkname with
      | none => rfl
      | some target => simpa using hlink target hkind
    · cases kind with
      | file data => exact hbytes data rfl
      | _ => rfl

theorem auditPath_eq_ok {path : TreeEntry} :
    auditPath hashes path = .ok () ↔ forbidden path.name = false ∧
      ∀ data, path.node = .file data → checkFile path.name data hashes = .ok () := by
  obtain ⟨name, node⟩ := path
  simp only [auditPath, Except.check_eq_ok, Bool.not_eq_true]
  refine and_congr_right fun _ => ?_
  cases node <;> simp

/-- What a path passes, its entry passes. -/
theorem Stores.entryPasses {entry : TarEntry} {path : TreeEntry} (h : Stores archive entry path)
    (hp : auditPath hashes path = .ok ()) : EntryPasses hashes entry := by
  obtain ⟨hname, hbytes⟩ := auditPath_eq_ok.mp hp
  cases h with
  | file name data => exact ⟨hname, fun data' h => by cases h; exact hbytes data rfl⟩
  | _ => exact ⟨hname, fun data' h => by cases h⟩

/-- Where all entries pass, a path passes when its hard link does. -/
theorem Stores.auditPath_iff (ha : ArchiveOf archive tree)
    (hall : ∀ entry ∈ archive, EntryPasses hashes entry) {entry : TarEntry} {path : TreeEntry}
    (hmem : entry ∈ archive) (h : Stores archive entry path) :
    SafeLink archive entry ↔ auditPath hashes path = .ok () := by
  have hname := (hall entry hmem).name
  rw [auditPath_eq_ok]
  cases h with
  | directory name => exact iff_of_true (fun _ _ h => by cases h) ⟨hname, fun _ h => by cases h⟩
  | symlink name target => exact iff_of_true (fun _ _ h => by cases h) ⟨hname, fun _ h => by cases h⟩
  | file name data =>
    refine iff_of_true (fun _ _ h => by cases h) ⟨hname, fun data' h => ?_⟩
    cases h
    exact (hall _ hmem).bytes data rfl
  | hardLink name target data htarget =>
    have hhash := (checkFile_eq_ok.mp ((hall _ htarget).bytes data rfl)).2.2
    constructor
    · intro hsafe
      refine ⟨hname, fun data' h => ?_⟩
      cases h
      exact checkFile_eq_ok.mpr ⟨hname, hsafe target data rfl htarget, hhash⟩
    · rintro ⟨-, hcheck⟩ target' data' hkind htarget' hmachine
      cases hkind
      obtain hdata : (⟨target, .file data'⟩ : TarEntry) = ⟨target, .file data⟩ :=
        List.inj_on_of_nodup_map ha.names htarget' htarget rfl
      cases hdata
      exact (checkFile_eq_ok.mp (hcheck data rfl)).2.1 hmachine

/-- Where all entries pass, an entry passes in an archive when its symbolic link does. -/
theorem Stores.auditEntry_iff (hall : ∀ entry ∈ archive, EntryPasses hashes entry) {entry : TarEntry}
    {path : TreeEntry} (hmem : entry ∈ archive) (h : Stores archive entry path) :
    auditEntry hashes entry = .ok () ↔ SafeTarget entry := by
  rw [auditEntry_eq_ok, and_iff_right (hall entry hmem)]
  cases h with
  | hardLink name target data htarget =>
    refine iff_of_true (fun target' h => ?_) fun _ h => by cases h
    obtain rfl : target = target' := by simpa [TarKind.linkname] using h
    exact (hall _ htarget).name
  | symlink name target =>
    constructor
    · intro hlink target' h
      cases h
      exact hlink target rfl
    · intro hsafe target' h
      obtain rfl : target = target' := by simpa [TarKind.linkname] using h
      exact hsafe target rfl
  | _ => exact iff_of_true (fun _ h => by cases h) fun _ h => by cases h

theorem auditTar_eq_ok : auditTar archive hashes = .ok () ↔
    ∀ entry ∈ archive, auditEntry hashes entry = .ok () := Except.forM_eq_ok

theorem auditTree_eq_ok (hne : tree ≠ []) : auditTree tree hashes = .ok () ↔
    ∀ path ∈ tree, auditPath hashes path = .ok () := by
  rw [auditTree, if_neg (by simpa using hne)]
  exact Except.forM_eq_ok

/-- **When the two modes agree** on a tree and an archive of it: some entry fails what both modes
check, or there is a symbolic link to a forbidden name exactly when there is a hard link that is a
`machine-id` with contents. -/
theorem auditModes_agree_iff (ha : ArchiveOf archive tree) (hne : tree ≠ []) :
    (auditTree tree hashes = .ok () ↔ auditTar archive hashes = .ok ()) ↔
      ((∀ entry ∈ archive, EntryPasses hashes entry) →
        ((∀ entry ∈ archive, SafeTarget entry) ↔ ∀ entry ∈ archive, SafeLink archive entry)) := by
  rw [auditTree_eq_ok hne, auditTar_eq_ok]
  by_cases hall : ∀ entry ∈ archive, EntryPasses hashes entry
  case pos =>
    have htree : (∀ path ∈ tree, auditPath hashes path = .ok ()) ↔
        ∀ entry ∈ archive, SafeLink archive entry := by
      constructor
      · intro h entry hmem
        obtain ⟨path, hpath, hstores⟩ := ha.path_of hmem
        exact (hstores.auditPath_iff ha hall hmem).mpr (h path hpath)
      · intro h path hpath
        obtain ⟨entry, hmem, hstores⟩ := ha.entry_of hpath
        exact (hstores.auditPath_iff ha hall hmem).mp (h entry hmem)
    have htar : (∀ entry ∈ archive, auditEntry hashes entry = .ok ()) ↔
        ∀ entry ∈ archive, SafeTarget entry := by
      refine forall₂_congr fun entry hmem => ?_
      obtain ⟨path, -, hstores⟩ := ha.path_of hmem
      exact hstores.auditEntry_iff hall hmem
    rw [htree, htar]
    exact ⟨fun h _ => h.symm, fun h => (h hall).symm⟩
  case neg =>
    have htree : ¬ ∀ path ∈ tree, auditPath hashes path = .ok () := fun h => hall fun entry hmem => by
      obtain ⟨path, hpath, hstores⟩ := ha.path_of hmem
      exact hstores.entryPasses (h path hpath)
    have htar : ¬ ∀ entry ∈ archive, auditEntry hashes entry = .ok () := fun h =>
      hall fun entry hmem => (auditEntry_eq_ok.mp (h entry hmem)).1
    exact iff_of_true (iff_of_false htree htar) fun h => absurd h hall

/-- A tree with a link to a host key. -/
def linkedKey : List TreeEntry := [⟨"key".toList, .symlink "etc/ssh/ssh_host_rsa_key".toList⟩]

def linkedKeyArchive : List TarEntry := [⟨"key".toList, .symlink "etc/ssh/ssh_host_rsa_key".toList⟩]

theorem linkedKeyArchive_archiveOf : ArchiveOf linkedKeyArchive linkedKey :=
  ⟨⟨_, .refl _, .cons (.symlink _ _) .nil⟩, List.nodup_singleton _⟩

/-- The tree mode passes a tree whose archive is refused. -/
theorem auditModes_disagree : ArchiveOf linkedKeyArchive linkedKey ∧
    auditTree linkedKey [] = .ok () ∧ auditTar linkedKeyArchive [] ≠ .ok () := by
  refine ⟨linkedKeyArchive_archiveOf, rfl, fun h => ?_⟩
  have hforbidden : forbidden "etc/ssh/ssh_host_rsa_key".toList = true := by decide +kernel
  have hlink := (auditEntry_eq_ok.mp (auditTar_eq_ok.mp h _ List.mem_cons_self)).2
    "etc/ssh/ssh_host_rsa_key".toList rfl
  rw [hforbidden] at hlink
  cases hlink

/-- A program under two names, with a symbolic link to it. -/
def linkedTools : List TreeEntry :=
  [⟨"bin".toList, .directory⟩, ⟨"bin/a".toList, .file [1]⟩, ⟨"bin/b".toList, .file [1]⟩,
    ⟨"bin/c".toList, .symlink "a".toList⟩]

/-- The second name is a hard link, and stands last. -/
def linkedToolsArchive : List TarEntry :=
  [⟨"bin".toList, .other⟩, ⟨"bin/a".toList, .file [1]⟩, ⟨"bin/c".toList, .symlink "a".toList⟩,
    ⟨"bin/b".toList, .hardLink "bin/a".toList⟩]

theorem linkedToolsArchive_archiveOf : ArchiveOf linkedToolsArchive linkedTools where
  entries := by
    refine ⟨_, .cons _ (.cons _ (.swap _ _ _)), .cons (.directory _) (.cons (.file _ _)
      (.cons (.symlink _ _) (.cons (.hardLink _ "bin/a".toList _ ?_) .nil)))⟩
    exact List.mem_cons_of_mem _ List.mem_cons_self
  names := by decide

/-- It passes both modes. -/
theorem auditModes_agree_sample :
    auditTree linkedTools [List.replicate 64 '0'] = .ok () ∧
      auditTar linkedToolsArchive [List.replicate 64 '0'] = .ok () := by
  have htree : auditTree linkedTools [List.replicate 64 '0'] = .ok () := by
    have hok : (auditTree linkedTools [List.replicate 64 '0']).isOk = true := by decide +kernel
    cases h : auditTree linkedTools [List.replicate 64 '0'] with
    | ok => rfl
    | error e =>
      rw [h] at hok
      cases hok
  have hchecks : forbidden ['a'] = false ∧ isMachineId ['b', 'i', 'n', '/', 'b'] = false := by
    decide +kernel
  refine ⟨htree, ((auditModes_agree_iff linkedToolsArchive_archiveOf (by simp [linkedTools])).mpr
    fun _ => iff_of_true ?_ ?_).mp htree⟩
  · simp [linkedToolsArchive, SafeTarget, hchecks.1]
  · simp [linkedToolsArchive, SafeLink, hchecks.2]

end Azurefin
