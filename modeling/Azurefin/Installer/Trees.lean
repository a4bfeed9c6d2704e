import Azurefin.Lib.Python
import Azurefin.Lib.Worklist

/-!
# Comparing installer trees

`compare_installer_trees.py` walks two trees side by side and compares what it finds at each path, the
contents of a regular file at the first of its hard links only. It accepts exactly the trees that are
the same in all that it is meant to compare: `compare_exact`.
-/

namespace Azurefin

/-! ## Trees with hard links -/

inductive FileType where
  | directory | symlink | regular | fifo | socket | block | character
  deriving DecidableEq, Repr

/-- What there is at a path: a regular file is the inode it leads to. -/
inductive FileKind where
  | directory (names : List Text)
  | symlink (target : Text)
  | regular (dev ino : Nat)
  | fifo (rdev : Nat)
  | socket (rdev : Nat)
  | block (rdev : Nat)
  | character (rdev : Nat)
  deriving DecidableEq, Repr

def FileKind.type : FileKind → FileType
  | directory _ => .directory
  | symlink _ => .symlink
  | regular _ _ => .regular
  | fifo _ => .fifo
  | socket _ => .socket
  | block _ => .block
  | character _ => .character

/-- `st_rdev`, of what is neither a directory nor a link nor a regular file -/
def FileKind.rdev : FileKind → Nat
  | fifo rdev | socket rdev | block rdev | character rdev => rdev
  | _ => 0

/-- What a symbolic link leads to -/
def FileKind.target : FileKind → Option Text
  | symlink target => some target
  | _ => none

/-- The device and the inode of a regular file -/
def FileKind.inode : FileKind → Option (Nat × Nat)
  | regular dev ino => some (dev, ino)
  | _ => none

/-- What `lstat` and `listxattr` tell of a path, beside its kind. -/
structure FileInfo where
  kind : FileKind
  permissions : Nat
  uid : Nat
  gid : Nat
  mtime : Int
  xattrs : List (Text × Bytes)

/-- `(s.st_mode, s.st_uid, s.st_gid, s.st_mtime_ns)` -/
def FileInfo.metadata (f : FileInfo) : FileType × Nat × Nat × Nat × Int :=
  (f.kind.type, f.permissions, f.uid, f.gid, f.mtime)

abbrev RelativePath := List Text

/-- A finite tree: what is at each path, and the contents of each inode. -/
structure FileTree where
  info : RelativePath → Option FileInfo
  data : Nat × Nat → Bytes
  depth : Nat
  root : info [] ≠ none
  listed : ∀ p f names, info p = some f → f.kind = .directory names →
    ∀ name, name ∈ names ↔ info (p ++ [name]) ≠ none
  below : ∀ p name, info (p ++ [name]) ≠ none → ∃ f names, info p = some f ∧ f.kind = .directory names
  bounded : ∀ p, info p ≠ none → p.length ≤ depth

/-- The inode of the regular file at a path. -/
def FileTree.inode (t : FileTree) (p : RelativePath) : Option (Nat × Nat) := (t.info p).bind (·.kind.inode)

/-! ## The script -/

/-- The paths at which inodes were seen first. -/
structure SeenLinks where
  source : List ((Nat × Nat) × RelativePath)
  result : List ((Nat × Nat) × RelativePath)

/-- `links.setdefault(key, path)`: the links and the value -/
def setdefault (links : List ((Nat × Nat) × RelativePath)) (key : Nat × Nat) (path : RelativePath) :
    List ((Nat × Nat) × RelativePath) × RelativePath :=
  match links.lookup key with
  | some first => (links, first)
  | none => (links ++ [(key, path)], path)

/-- `xa == xb` for the attributes of two files -/
def sameAttributes (xa xb : List (Text × Bytes)) : Bool :=
  (xa.map Prod.fst ++ xb.map Prod.fst).all fun name => xa.lookup name == xb.lookup name

/-- `path.lstat()` -/
def lstatFile (t : FileTree) (p : RelativePath) : Except PyError FileInfo :=
  match t.info p with
  | some f => .ok f
  | none => .error (.osError .noent)

/-- The regular files at a path. -/
def compareFiles (source result : FileTree) (relative : RelativePath) (ia ib : Nat × Nat) (links : SeenLinks) :
    Except PyError SeenLinks :=
  let firstA := setdefault links.source ia relative
  let firstB := setdefault links.result ib relative
  if firstA.2 ≠ firstB.2 then .error (.valueError "Regular-file hardlink mismatch")
  else if (source.data ia).length ≠ (result.data ib).length then .error (.valueError "File size mismatch")
  else if firstA.2 = relative ∧ sha256 (source.data ia) ≠ sha256 (result.data ib) then
    .error (.valueError "File contents mismatch")
  else .ok ⟨firstA.1, firstB.1⟩

/-- One round of the loop. -/
def compareAt (source result : FileTree) (links : SeenLinks) (relative : RelativePath) :
    Except PyError SeenLinks := do
  let sa ← lstatFile source relative
  let sb ← lstatFile result relative
  if sa.metadata ≠ sb.metadata then .error (.valueError "Metadata mismatch")
  else if !sameAttributes sa.xattrs sb.xattrs then .error (.valueError "Extended attribute mismatch")
  else match sa.kind, sb.kind with
    | .directory namesA, .directory namesB =>
      if namesA.all namesB.contains && namesB.all namesA.contains then .ok links
      else .error (.valueError "Directory entries mismatch")
    | .symlink targetA, .symlink targetB =>
      if targetA ≠ targetB then .error (.valueError "Symlink target mismatch") else .ok links
    | .regular devA inoA, .regular devB inoB => compareFiles source result relative (devA, inoA) (devB, inoB) links
    | ka, kb => -- of the same type, as the metadata say
      if ka.rdev ≠ kb.rdev then .error (.valueError "Device number mismatch") else .ok links

/-- What a directory puts on the stack, the next path first. -/
def pushed (source : FileTree) (relative : RelativePath) : List RelativePath :=
  match source.info relative with
  | some f => match f.kind with
    | .directory names => (names.eraseDups.mergeSort fun a b => decide (a ≤ b)).map fun name => relative ++ [name]
    | _ => []
  | none => []

/-- `compare(source, result)`, for so many rounds at most -/
def compareTrees (source result : FileTree) (rounds : Nat) : Option (Except PyError Unit) :=
  (Worklist.loop (pushed source) (compareAt source result) rounds [[]] ⟨[], []⟩).map fun r => r.map fun _ => ()

/-! ## What is compared -/

/-- The same target or device number; what directories and regular files hold is compared apart. -/
structure SameKind (ka kb : FileKind) : Prop where
  type : ka.type = kb.type
  target : ka.target = kb.target
  rdev : ka.rdev = kb.rdev

/-- The same mode, owner, group, modification time and extended attributes, and the same kind. -/
structure SameInfo (x y : FileInfo) : Prop where
  metadata : x.metadata = y.metadata
  xattrs : ∀ name, x.xattrs.lookup name = y.xattrs.lookup name
  kind : SameKind x.kind y.kind

/-- The same paths with the same at each, the same contents of regular files, and the same groups of
hard links. -/
structure SameTree (a b : FileTree) : Prop where
  info : ∀ p, (a.info p = none ∧ b.info p = none) ∨ ∃ x y, a.info p = some x ∧ b.info p = some y ∧ SameInfo x y
  contents : ∀ p i j, a.inode p = some i → b.inode p = some j → a.data i = b.data j
  links : ∀ p q i j i' j', a.inode p = some i → b.inode p = some j → a.inode q = some i' → b.inode q = some j' →
    (i = i' ↔ j = j')

/-- The script accepts the trees. -/
def AcceptsTrees (a b : FileTree) : Prop := ∃ rounds, compareTrees a b rounds = some (.ok ())

/-- No two contents of regular files in the trees have the same digest. -/
def NoCollision (a b : FileTree) : Prop := ∀ p q i j, a.inode p = some i → b.inode q = some j →
  sha256 (a.data i) = sha256 (b.data j) → a.data i = b.data j

/-! ## The paths that are visited -/

namespace FileTree

variable {t : FileTree} {p q : RelativePath} {name : Text}

/-- What a directory pushes is what is in it. -/
theorem mem_pushed : q ∈ pushed t p ↔ ∃ name, q = p ++ [name] ∧ t.info q ≠ none := by
  constructor
  · intro h
    rw [pushed] at h
    split at h
    case h_1 f hinfo =>
      split at h
      case h_1 names hkind =>
        obtain ⟨name, hname, rfl⟩ := List.mem_map.mp h
        rw [List.mem_mergeSort, List.mem_eraseDups] at hname
        exact ⟨name, rfl, (t.listed p f names hinfo hkind name).mp hname⟩
      case h_2 => cases h
    case h_2 => cases h
  · rintro ⟨name, rfl, hname⟩
    obtain ⟨f, names, hinfo, hkind⟩ := t.below p name hname
    rw [pushed, hinfo]
    simp only [hkind]
    refine List.mem_map.mpr ⟨name, ?_, rfl⟩
    rw [List.mem_mergeSort, List.mem_eraseDups]
    exact (t.listed p f names hinfo hkind name).mpr hname

theorem reachable_iff : Relation.ReflTransGen (fun a b => b ∈ pushed t a) [] p ↔ t.info p ≠ none := by
  constructor
  · intro h
    induction h with
    | refl => exact t.root
    | tail _ hstep _ =>
      obtain ⟨name, -, hinfo⟩ := mem_pushed.mp hstep
      exact hinfo
  · intro h
    induction p using List.reverseRecOn with
    | nil => exact .refl
    | append_singleton p name ih =>
      obtain ⟨f, names, hinfo, -⟩ := t.below p name h
      exact (ih (by simp [hinfo])).tail (mem_pushed.mpr ⟨name, rfl, h⟩)

theorem shallow {depth : Nat} (h : t.depth ≤ p.length + depth) : Worklist.Shallow (pushed t) depth p := by
  induction depth generalizing p with
  | zero =>
    refine List.eq_nil_iff_forall_not_mem.mpr fun q hq => ?_
    obtain ⟨name, rfl, hinfo⟩ := mem_pushed.mp hq
    have hlength := t.bounded _ hinfo
    rw [List.length_append, List.length_singleton] at hlength
    omega
  | succ depth ih =>
    intro q hq
    obtain ⟨name, rfl, -⟩ := mem_pushed.mp hq
    refine ih ?_
    rw [List.length_append, List.length_singleton]
    omega

/-- The paths in the order in which they are visited. -/
def visited (t : FileTree) : List RelativePath := Worklist.order (pushed t) t.depth []

theorem shallow_root (t : FileTree) : Worklist.Shallow (pushed t) t.depth [] := shallow (by simp)

theorem mem_visited : p ∈ t.visited ↔ t.info p ≠ none := by
  rw [visited, Worklist.mem_order t.shallow_root, reachable_iff]

/-! ## Links that were seen -/

/-- The first of some paths that lead to an inode -/
def firstSeen (t : FileTree) (seen : List RelativePath) (i : Nat × Nat) : Option RelativePath :=
  seen.find? fun p => t.inode p == some i

variable {seen : List RelativePath} {i j : Nat × Nat} {links : List ((Nat × Nat) × RelativePath)}

theorem firstSeen_concat (t : FileTree) (seen : List RelativePath) (p : RelativePath) (i : Nat × Nat) :
    t.firstSeen (seen ++ [p]) i = (t.firstSeen seen i).or (if t.inode p == some i then some p else none) := by
  rw [firstSeen, List.find?_append, firstSeen, List.find?_cons, List.find?_nil]
  cases t.inode p == some i <;> rfl

/-- `setdefault` keeps the first path of each inode. -/
theorem setdefault_seen (hlinks : ∀ j, links.lookup j = t.firstSeen seen j) (hp : t.inode p = some i) :
    (∀ j, (setdefault links i p).1.lookup j = t.firstSeen (seen ++ [p]) j) ∧
      t.firstSeen (seen ++ [p]) i = some (setdefault links i p).2 := by
  have hself : (t.inode p == some i) = true := by rw [hp, beq_self_eq_true]
  rw [setdefault]
  cases hfirst : links.lookup i with
  | some first =>
    refine ⟨fun j => ?_, ?_⟩
    · rw [firstSeen_concat, hlinks j, hp]
      by_cases hj : i = j
      · rw [← hj, ← hlinks i, hfirst]
        rfl
      · rw [if_neg (by simpa using hj), Option.or_none]
    · rw [firstSeen_concat, ← hlinks i, hfirst]
      rfl
  | none =>
    refine ⟨fun j => ?_, ?_⟩
    · rw [firstSeen_concat, List.lookup_append, hlinks j, hp, List.lookup_cons, List.lookup_nil]
      congr 1
      by_cases hj : i = j
      · simp [hj]
      · have hne : (j == i) = false := by simpa using fun h => hj h.symm
        rw [hne, if_neg (by simpa using hj)]
    · rw [firstSeen_concat, ← hlinks i, hfirst, hself, if_pos rfl]
      rfl

theorem firstSeen_other (h : t.inode p = none) (seen : List RelativePath) (j : Nat × Nat) :
    t.firstSeen (seen ++ [p]) j = t.firstSeen seen j := by
  rw [firstSeen_concat, h]
  simp

end FileTree

/-! ## One round -/

open FileTree

section Comparison

variable {a b : FileTree} {seen : List RelativePath} {links links' : SeenLinks} {p : RelativePath}
  {x y : FileInfo} {i j : Nat × Nat}

/-- The first paths of the inodes that were seen in both trees are on record. -/
structure SeenBy (a b : FileTree) (seen : List RelativePath) (links : SeenLinks) : Prop where
  source : ∀ j, links.source.lookup j = a.firstSeen seen j
  result : ∀ j, links.result.lookup j = b.firstSeen seen j

/-- What holds of the regular files at a path that was visited. -/
structure SameFile (a b : FileTree) (seen : List RelativePath) (p : RelativePath) (i j : Nat × Nat) : Prop where
  first : a.firstSeen (seen ++ [p]) i = b.firstSeen (seen ++ [p]) j
  size : (a.data i).length = (b.data j).length
  digest : a.firstSeen (seen ++ [p]) i = some p → sha256 (a.data i) = sha256 (b.data j)

/-- What holds of a path that was visited. -/
structure SameAt (a b : FileTree) (seen : List RelativePath) (p : RelativePath) (x y : FileInfo) : Prop where
  source : a.info p = some x
  result : b.info p = some y
  info : SameInfo x y
  names : ∀ namesA namesB, x.kind = .directory namesA → y.kind = .directory namesB →
    ∀ name, name ∈ namesA ↔ name ∈ namesB
  file : ∀ i j, a.inode p = some i → b.inode p = some j → SameFile a b seen p i j

theorem sameAttributes_iff (xa xb : List (Text × Bytes)) :
    sameAttributes xa xb = true ↔ ∀ name, xa.lookup name = xb.lookup name := by
  have hmem : ∀ (l : List (Text × Bytes)) name, name ∉ l.map Prod.fst → l.lookup name = none := by
    intro l name hname
    rw [List.lookup_eq_none_iff]
    intro e he
    simpa using fun h : name = e.1 => hname (h ▸ List.mem_map_of_mem he)
  rw [sameAttributes, List.all_eq_true]
  constructor
  · intro h name
    by_cases hname : name ∈ xa.map Prod.fst ++ xb.map Prod.fst
    · exact beq_iff_eq.mp (h name hname)
    · rw [List.mem_append, not_or] at hname
      rw [hmem xa name hname.1, hmem xb name hname.2]
  · exact fun h name _ => beq_iff_eq.mpr (h name)

theorem lstatFile_eq_ok {t : FileTree} : lstatFile t p = .ok x ↔ t.info p = some x := by
  rw [lstatFile]
  split <;> simp_all

theorem compareFiles_eq_ok (h : SeenBy a b seen links) (hi : a.inode p = some i) (hj : b.inode p = some j) :
    compareFiles a b p i j links = .ok links' ↔ SameFile a b seen p i j ∧
      links' = ⟨(setdefault links.source i p).1, (setdefault links.result j p).1⟩ := by
  have hsource := (setdefault_seen h.source hi).2
  have hresult := (setdefault_seen h.result hj).2
  simp only [compareFiles, Except.check_eq_ok, not_not, not_and, Except.ok.injEq]
  constructor
  · rintro ⟨hfirst, hsize, hdigest, rfl⟩
    refine ⟨⟨by rw [hsource, hresult, hfirst], hsize, fun hp => hdigest ?_⟩, rfl⟩
    rw [hsource] at hp
    exact Option.some.inj hp
  · rintro ⟨hfile, rfl⟩
    refine ⟨?_, hfile.size, fun hp => hfile.digest (by rw [hsource, hp]), rfl⟩
    have hfirst := hfile.first
    rw [hsource, hresult] at hfirst
    exact Option.some.inj hfirst

theorem inode_eq {t : FileTree} (h : t.info p = some x) : t.inode p = x.kind.inode := by
  rw [FileTree.inode, h, Option.bind_some]

theorem FileKind.inode_eq_none {k : FileKind} (h : k.type ≠ .regular) : k.inode = none := by
  cases k with
  | regular dev ino => exact absurd rfl h
  | _ => rfl

theorem FileInfo.type_eq (h : x.metadata = y.metadata) : x.kind.type = y.kind.type :=
  congrArg Prod.fst h

/-- Nothing is put on record at a path that leads to no regular file. -/
theorem SeenBy.other (h : SeenBy a b seen links) (ha : a.inode p = none) (hb : b.inode p = none) :
    SeenBy a b (seen ++ [p]) links :=
  ⟨fun j => by rw [firstSeen_other ha, h.source], fun j => by rw [firstSeen_other hb, h.result]⟩

/-- Kinds of one type have no target where they are not both of links. -/
theorem FileKind.target_eq {ka kb : FileKind} (htype : ka.type = kb.type)
    (hlink : ∀ s t, ka = .symlink s → kb = .symlink t → False) : ka.target = kb.target := by
  cases ka with
  | symlink s =>
    cases kb with
    | symlink t => exact (hlink s t rfl rfl).elim
    | _ => cases htype
  | _ =>
    cases kb with
    | symlink t => cases htype
    | _ => rfl

/-- Kinds of one type are both of regular files or neither. -/
theorem isRegular_of_type {ka kb : FileKind} (htype : ka.type = kb.type) : (ka.inode = none ∧ kb.inode = none) ∨
    ∃ i j : Nat × Nat, ka = .regular i.1 i.2 ∧ kb = .regular j.1 j.2 := by
  by_cases hreg : ka.type = .regular
  · cases ka with
    | regular devA inoA =>
      cases kb with
      | regular devB inoB => exact .inr ⟨(devA, inoA), (devB, inoB), rfl, rfl⟩
      | _ => cases htype
    | _ => cases hreg
  · exact .inl ⟨FileKind.inode_eq_none hreg, FileKind.inode_eq_none (htype ▸ hreg)⟩

theorem sameNames_iff (namesA namesB : List Text) : (namesA.all namesB.contains && namesB.all namesA.contains) = true ↔
    ∀ name, name ∈ namesA ↔ name ∈ namesB := by
  simp only [Bool.and_eq_true, List.all_eq_true, List.contains_iff_mem]
  exact ⟨fun h name => ⟨h.1 name, h.2 name⟩, fun h => ⟨fun name => (h name).mp, fun name => (h name).mpr⟩⟩

/-- A path that passes is the same in both trees, and is on record. -/
theorem compareAt_keeps (h : SeenBy a b seen links) (hpass : compareAt a b links p = .ok links') :
    (∃ x y, SameAt a b seen p x y) ∧ SeenBy a b (seen ++ [p]) links' := by
  simp only [compareAt, Except.bind_eq_ok, lstatFile_eq_ok, Except.check_eq_ok, not_not, Bool.not_eq_true',
    Bool.not_eq_false, sameAttributes_iff] at hpass
  obtain ⟨x, hx, y, hy, hmeta, hattrs, hpass⟩ := hpass
  have htype := FileInfo.type_eq hmeta
  have hx' := inode_eq hx
  have hy' := inode_eq hy
  split at hpass
  case h_1 namesA namesB ha hb =>
    rw [ha] at hx'
    rw [hb] at hy'
    split at hpass
    case isFalse => cases hpass
    case isTrue hnames =>
      obtain rfl := Except.ok.inj hpass
      refine ⟨⟨x, y, hx, hy, ⟨hmeta, hattrs, ?_⟩, ?_, fun i j hi => ?_⟩, h.other hx' hy'⟩
      · rw [ha, hb]
        exact ⟨rfl, rfl, rfl⟩
      · intro namesA' namesB' ha' hb'
        obtain rfl := FileKind.directory.inj (ha.symm.trans ha')
        obtain rfl := FileKind.directory.inj (hb.symm.trans hb')
        exact (sameNames_iff _ _).mp hnames
      · rw [hx'] at hi
        cases hi
  case h_2 targetA targetB ha hb =>
    rw [ha] at hx'
    rw [hb] at hy'
    obtain ⟨htarget, hlinks⟩ := Except.check_eq_ok.mp hpass
    obtain rfl := Except.ok.inj hlinks
    refine ⟨⟨x, y, hx, hy, ⟨hmeta, hattrs, ?_⟩, ?_, fun i j hi => ?_⟩, h.other hx' hy'⟩
    · rw [ha, hb]
      exact ⟨rfl, congrArg some (not_not.mp htarget), rfl⟩
    · intro namesA' namesB' ha'
      rw [ha] at ha'
      cases ha'
    · rw [hx'] at hi
      cases hi
  case h_3 devA inoA devB inoB ha hb =>
    rw [ha] at hx'
    rw [hb] at hy'
    obtain ⟨hfile, rfl⟩ := (compareFiles_eq_ok h hx' hy').mp hpass
    refine ⟨⟨x, y, hx, hy, ⟨hmeta, hattrs, ?_⟩, ?_, fun i j hi hj => ?_⟩,
      (setdefault_seen h.source hx').1, (setdefault_seen h.result hy').1⟩
    · rw [ha, hb]
      exact ⟨rfl, rfl, rfl⟩
    · intro namesA' namesB' ha'
      rw [ha] at ha'
      cases ha'
    · obtain rfl := Option.some.inj (hx'.symm.trans hi)
      obtain rfl := Option.some.inj (hy'.symm.trans hj)
      exact hfile
  case h_4 hdir hlink hreg =>
    obtain ⟨hrdev, hlinks⟩ := Except.check_eq_ok.mp hpass
    obtain rfl := Except.ok.inj hlinks
    obtain ⟨ha, hb⟩ := (isRegular_of_type htype).resolve_right fun ⟨i, j, ha, hb⟩ => hreg _ _ _ _ ha hb
    rw [ha] at hx'
    rw [hb] at hy'
    refine ⟨⟨x, y, hx, hy, ⟨hmeta, hattrs, ?_⟩, ?_, fun i j hi => ?_⟩, h.other hx' hy'⟩
    · exact ⟨htype, FileKind.target_eq htype hlink, not_not.mp hrdev⟩
    · exact fun namesA namesB hna hnb => (hdir namesA namesB hna hnb).elim
    · rw [hx'] at hi
      cases hi

/-- A path that is the same in both trees passes. -/
theorem compareAt_goes (h : SeenBy a b seen links) (hsame : SameAt a b seen p x y) :
    ∃ links', compareAt a b links p = .ok links' := by
  simp only [compareAt, Except.bind_eq_ok, lstatFile_eq_ok, Except.check_eq_ok, not_not, Bool.not_eq_true',
    Bool.not_eq_false, sameAttributes_iff]
  suffices ∃ links', _ = Except.ok links' by
    obtain ⟨links', hlinks'⟩ := this
    exact ⟨links', x, hsame.source, y, hsame.result, hsame.info.metadata, hsame.info.xattrs, hlinks'⟩
  have hkind := hsame.info.kind
  split
  case h_1 namesA namesB ha hb =>
    rw [if_pos ((sameNames_iff _ _).mpr (hsame.names _ _ ha hb))]
    exact ⟨links, rfl⟩
  case h_2 targetA targetB ha hb =>
    have htarget := hkind.target
    rw [ha, hb] at htarget
    exact ⟨links, if_neg (not_not.mpr (Option.some.inj htarget))⟩
  case h_3 devA inoA devB inoB ha hb =>
    have hi : a.inode p = some (devA, inoA) := by rw [inode_eq hsame.source, ha]; rfl
    have hj : b.inode p = some (devB, inoB) := by rw [inode_eq hsame.result, hb]; rfl
    exact ⟨_, (compareFiles_eq_ok h hi hj).mpr ⟨hsame.file _ _ hi hj, rfl⟩⟩
  case h_4 => exact ⟨links, if_neg (not_not.mpr hkind.rdev)⟩

/-! ## The whole walk -/

theorem loop_eq (a b : FileTree) (rounds : Nat) :
    Worklist.loop (pushed a) (compareAt a b) (rounds + a.visited.length) [[]] ⟨[], []⟩ =
      match a.visited.foldlM (compareAt a b) ⟨[], []⟩ with
      | .error e => some (.error e)
      | .ok t => some (.ok t) := by
  rw [visited, Worklist.loop_order a.shallow_root]
  cases (Worklist.order (pushed a) a.depth []).foldlM (compareAt a b) ⟨[], []⟩ with
  | error e => rfl
  | ok t => cases rounds <;> rfl

/-- The script comes to an end. -/
theorem compareTrees_ends (a b : FileTree) : ∃ rounds r, compareTrees a b rounds = some r := by
  refine ⟨0 + a.visited.length, ?_⟩
  rw [compareTrees, loop_eq]
  cases a.visited.foldlM (compareAt a b) ⟨[], []⟩ with
  | error e => exact ⟨.error e, rfl⟩
  | ok t => exact ⟨.ok (), rfl⟩

theorem acceptsTrees_iff_foldlM :
    AcceptsTrees a b ↔ ∃ t, a.visited.foldlM (compareAt a b) ⟨[], []⟩ = .ok t := by
  constructor
  · intro ⟨rounds, h⟩
    obtain ⟨r, hr, hok⟩ := Option.map_eq_some_iff.mp h
    have hloop := Worklist.loop_add hr a.visited.length
    rw [loop_eq] at hloop
    cases r with
    | error e => cases hok
    | ok t =>
      cases hfold : a.visited.foldlM (compareAt a b) ⟨[], []⟩ with
      | error e => rw [hfold] at hloop; cases hloop
      | ok u => exact ⟨u, rfl⟩
  · intro ⟨t, h⟩
    refine ⟨0 + a.visited.length, ?_⟩
    rw [compareTrees, loop_eq, h]
    rfl

/-- The script accepts where each path it visits is the same in both trees. -/
theorem acceptsTrees_iff_sameAt : AcceptsTrees a b ↔
    ∀ before p after, a.visited = before ++ p :: after → ∃ x y, SameAt a b before p x y := by
  have hempty : SeenBy a b [] ⟨[], []⟩ := ⟨fun _ => rfl, fun _ => rfl⟩
  rw [acceptsTrees_iff_foldlM]
  exact Worklist.foldlM_isOk_iff (fun seen p s t hs ht => compareAt_keeps hs ht)
    (fun seen p s hs ⟨x, y, hsame⟩ => compareAt_goes hs hsame) hempty

/-! ## Trees that pass are the same -/

theorem inode_eq_some {t : FileTree} (h : t.inode p = some i) :
    ∃ x, t.info p = some x ∧ x.kind = .regular i.1 i.2 := by
  obtain ⟨x, hx, hkind⟩ := Option.bind_eq_some_iff.mp h
  refine ⟨x, hx, ?_⟩
  cases hk : x.kind with
  | regular dev ino =>
    rw [hk] at hkind
    obtain rfl := Option.some.inj hkind
    rfl
  | _ => rw [hk] at hkind; cases hkind

theorem visited_of_inode {t : FileTree} (h : t.inode p = some i) : p ∈ t.visited := by
  obtain ⟨x, hx, -⟩ := inode_eq_some h
  exact mem_visited.mpr (by simp [hx])

/-- The first path of an inode is found as soon as one of its paths was seen. -/
theorem firstSeen_append {t : FileTree} (hp : t.inode p = some i) (before after : List RelativePath) :
    t.firstSeen (before ++ p :: after) i = t.firstSeen (before ++ [p]) i := by
  have hsplit : before ++ p :: after = (before ++ [p]) ++ after := by simp
  have hsome : (t.firstSeen (before ++ [p]) i).isSome := by
    rw [firstSeen, List.find?_isSome]
    exact ⟨p, by simp, by simp [hp]⟩
  rw [hsplit, firstSeen, List.find?_append]
  exact Option.or_of_isSome hsome

theorem inode_firstSeen {t : FileTree} (h : t.firstSeen seen i = some p) : t.inode p = some i := by
  rw [firstSeen] at h
  simpa using List.find?_some h

section Accepted

variable (h : ∀ before p after, a.visited = before ++ p :: after → ∃ x y, SameAt a b before p x y)
include h

theorem sameAt_of_visited (hp : a.info p ≠ none) :
    ∃ before after, a.visited = before ++ p :: after ∧ ∃ x y, SameAt a b before p x y := by
  obtain ⟨before, after, hsplit⟩ := List.append_of_mem (mem_visited.mpr hp)
  exact ⟨before, after, hsplit, h before p after hsplit⟩

/-- Nothing is in the second tree alone: a directory in which it is would have other names. -/
theorem info_source_of_result (hp : b.info p ≠ none) : a.info p ≠ none := by
  induction p using List.reverseRecOn with
  | nil => exact a.root
  | append_singleton p name ih =>
    obtain ⟨f, names, hf, hnames⟩ := b.below p name hp
    obtain ⟨before, after, -, x, y, hsame⟩ := sameAt_of_visited h (ih (by simp [hf]))
    obtain rfl := Option.some.inj (hf.symm.trans hsame.result)
    have htype := hsame.info.kind.type
    rw [hnames] at htype
    cases hx : x.kind with
    | directory namesA =>
      apply (a.listed p x namesA hsame.source hx name).mp
      apply (hsame.names namesA names hx hnames name).mpr
      exact (b.listed p f names hf hnames name).mpr hp
    | _ => rw [hx] at htype; cases htype

theorem sameInfo_of_sameAt (p : RelativePath) : (a.info p = none ∧ b.info p = none) ∨
    ∃ x y, a.info p = some x ∧ b.info p = some y ∧ SameInfo x y := by
  by_cases hp : a.info p = none
  · exact .inl ⟨hp, not_not.mp fun hb => info_source_of_result h hb hp⟩
  · obtain ⟨before, after, -, x, y, hsame⟩ := sameAt_of_visited h hp
    exact .inr ⟨x, y, hsame.source, hsame.result, hsame.info⟩

/-- Both inodes of a path were seen first at one path. -/
theorem firstSeen_visited (hi : a.inode p = some i) (hj : b.inode p = some j) :
    ∃ q, a.firstSeen a.visited i = some q ∧ b.firstSeen a.visited j = some q := by
  obtain ⟨x, hx, -⟩ := inode_eq_some hi
  obtain ⟨before, after, hsplit, x', y, hsame⟩ := sameAt_of_visited h (p := p) (by simp [hx])
  have hfirst := (hsame.file i j hi hj).first
  obtain ⟨q, hq⟩ : ∃ q, a.firstSeen a.visited i = some q := by
    rw [← Option.isSome_iff_exists, firstSeen, List.find?_isSome]
    exact ⟨p, visited_of_inode hi, by simp [hi]⟩
  refine ⟨q, hq, ?_⟩
  rw [← hq, hsplit, firstSeen_append hi, firstSeen_append hj, hfirst]

theorem sameTree_of_sameAt (hcollision : NoCollision a b) : SameTree a b where
  info := sameInfo_of_sameAt h
  contents p i j hi hj := by
    obtain ⟨q, hqa, hqb⟩ := firstSeen_visited h hi hj
    have hia := inode_firstSeen hqa
    obtain ⟨x, hx, -⟩ := inode_eq_some hia
    obtain ⟨before, after, hsplit, x', y, hsame⟩ := sameAt_of_visited h (p := q) (by simp [hx])
    rw [hsplit, firstSeen_append hia] at hqa
    exact hcollision q q i j hia (inode_firstSeen hqb) ((hsame.file i j hia (inode_firstSeen hqb)).digest hqa)
  links p q i j i' j' hi hj hi' hj' := by
    obtain ⟨r, hra, hrb⟩ := firstSeen_visited h hi hj
    obtain ⟨r', hra', hrb'⟩ := firstSeen_visited h hi' hj'
    constructor
    · intro heq
      have hr : r = r' := Option.some.inj (hra.symm.trans (heq ▸ hra'))
      exact Option.some.inj ((inode_firstSeen hrb).symm.trans (hr ▸ inode_firstSeen hrb'))
    · intro heq
      have hr : r = r' := Option.some.inj (hrb.symm.trans (heq ▸ hrb'))
      exact Option.some.inj ((inode_firstSeen hra).symm.trans (hr ▸ inode_firstSeen hra'))

end Accepted

/-! ## Trees that are the same pass -/

namespace SameInfo

variable {z : FileInfo}

theorem symm (h : SameInfo x y) : SameInfo y x where
  metadata := h.metadata.symm
  xattrs name := (h.xattrs name).symm
  kind := ⟨h.kind.type.symm, h.kind.target.symm, h.kind.rdev.symm⟩

theorem trans (h : SameInfo x y) (h' : SameInfo y z) : SameInfo x z where
  metadata := h.metadata.trans h'.metadata
  xattrs name := (h.xattrs name).trans (h'.xattrs name)
  kind := ⟨h.kind.type.trans h'.kind.type, h.kind.target.trans h'.kind.target, h.kind.rdev.trans h'.kind.rdev⟩

end SameInfo

namespace SameTree

theorem refl (a : FileTree) : SameTree a a where
  info p := by
    cases hp : a.info p with
    | none => exact .inl ⟨rfl, rfl⟩
    | some x => exact .inr ⟨x, x, rfl, rfl, rfl, fun _ => rfl, rfl, rfl, rfl⟩
  contents p i j hi hj := by rw [Option.some.inj (hi.symm.trans hj)]
  links p q i j i' j' hi hj hi' hj' := by
    rw [Option.some.inj (hi.symm.trans hj), Option.some.inj (hi'.symm.trans hj')]

theorem inode_result (h : SameTree a b) (hi : a.inode p = some i) : ∃ j, b.inode p = some j := by
  obtain ⟨x, hx, hkind⟩ := inode_eq_some hi
  rcases h.info p with ⟨hnone, -⟩ | ⟨x', y, hx', hy, hinfo⟩
  · rw [hx] at hnone
    cases hnone
  · obtain rfl := Option.some.inj (hx.symm.trans hx')
    have htype := hinfo.kind.type
    rw [inode_eq hy]
    rw [hkind] at htype
    cases hk : y.kind with
    | regular dev ino => exact ⟨(dev, ino), rfl⟩
    | _ => rw [hk] at htype; cases htype

theorem symm (h : SameTree a b) : SameTree b a where
  info p := (h.info p).imp And.symm fun ⟨x, y, hx, hy, hinfo⟩ =>
    ⟨y, x, hy, hx, hinfo.symm⟩
  contents p i j hi hj := (h.contents p j i hj hi).symm
  links p q i j i' j' hi hj hi' hj' := (h.links p q j i j' i' hj hi hj' hi').symm

theorem trans {c : FileTree} (h : SameTree a b) (h' : SameTree b c) : SameTree a c where
  info p := by
    rcases h.info p with ⟨ha, hb⟩ | ⟨x, y, hx, hy, hinfo⟩
    · rcases h'.info p with ⟨-, hc⟩ | ⟨y, z, hy, -, -⟩
      · exact .inl ⟨ha, hc⟩
      · rw [hb] at hy
        cases hy
    · rcases h'.info p with ⟨hb, -⟩ | ⟨y', z, hy', hz, hinfo'⟩
      · rw [hb] at hy
        cases hy
      · obtain rfl := Option.some.inj (hy.symm.trans hy')
        exact .inr ⟨x, z, hx, hz, hinfo.trans hinfo'⟩
  contents p i k hi hk := by
    obtain ⟨j, hj⟩ := h.inode_result hi
    exact (h.contents p i j hi hj).trans (h'.contents p j k hj hk)
  links p q i k i' k' hi hk hi' hk' := by
    obtain ⟨j, hj⟩ := h.inode_result hi
    obtain ⟨j', hj'⟩ := h.inode_result hi'
    exact (h.links p q i j i' j' hi hj hi' hj').trans (h'.links p q j k j' k' hj hk hj' hk')

/-- The paths of the inode of a file are those of the inode in the other tree. -/
theorem inode_iff (h : SameTree a b) (hi : a.inode p = some i) (hj : b.inode p = some j) (q : RelativePath) :
    a.inode q = some i ↔ b.inode q = some j := by
  constructor
  · intro hq
    obtain ⟨j', hj'⟩ := h.inode_result hq
    rw [hj', (h.links p q i j i j' hi hj hq hj').mp rfl]
  · intro hq
    obtain ⟨i', hi'⟩ := h.symm.inode_result hq
    rw [hi', (h.links p q i j i' j hi hj hi' hq).mpr rfl]

theorem sameFile (h : SameTree a b) (seen : List RelativePath) (hi : a.inode p = some i) (hj : b.inode p = some j) :
    SameFile a b seen p i j := by
  have hdata := h.contents p i j hi hj
  have hpaths : (fun q => a.inode q == some i) = fun q => b.inode q == some j := by
    funext q
    rw [Bool.eq_iff_iff, beq_iff_eq, beq_iff_eq]
    exact h.inode_iff hi hj q
  exact ⟨by rw [firstSeen, hpaths, firstSeen], congrArg List.length hdata, fun _ => congrArg sha256 hdata⟩

theorem sameAt (h : SameTree a b) (seen : List RelativePath) (hp : a.info p ≠ none) :
    ∃ x y, SameAt a b seen p x y := by
  obtain ⟨ha, -⟩ | ⟨x, y, hx, hy, hinfo⟩ := h.info p
  · exact absurd ha hp
  · refine ⟨x, y, hx, hy, hinfo, fun namesA namesB hna hnb name => ?_, fun i j => h.sameFile seen⟩
    rw [a.listed p x namesA hx hna, b.listed p y namesB hy hnb]
    grind [h.info (p ++ [name])]

/-- Trees that are the same pass, whatever the digest does. -/
theorem accepts (h : SameTree a b) : AcceptsTrees a b :=
  acceptsTrees_iff_sameAt.mpr fun before p after hsplit =>
    h.sameAt before (mem_visited.mp (by rw [hsplit]; simp))

end SameTree

theorem sameTree_of_accepts (hcollision : NoCollision a b) (h : AcceptsTrees a b) : SameTree a b :=
  sameTree_of_sameAt (acceptsTrees_iff_sameAt.mp h) hcollision

theorem NoCollision.symm (h : NoCollision a b) : NoCollision b a :=
  fun p q i j hi hj hdigest => (h q p j i hj hi hdigest.symm).symm

end Comparison

/-- The script accepts exactly the trees that are the same, so that what it accepts is symmetric and
transitive. -/
theorem compare_exact (a b c : FileTree) (hab : NoCollision a b) (hbc : NoCollision b c) :
    (∃ rounds r, compareTrees a b rounds = some r) ∧ (AcceptsTrees a b ↔ SameTree a b) ∧
      (AcceptsTrees a b ↔ AcceptsTrees b a) ∧ (AcceptsTrees a b → AcceptsTrees b c → AcceptsTrees a c) := by
  refine ⟨compareTrees_ends a b, ⟨sameTree_of_accepts hab, SameTree.accepts⟩, ⟨fun h => ?_, fun h => ?_⟩, ?_⟩
  · exact (sameTree_of_accepts hab h).symm.accepts
  · exact (sameTree_of_accepts hab.symm h).symm.accepts
  · intro h h'
    exact ((sameTree_of_accepts hab h).trans (sameTree_of_accepts hbc h')).accepts

def sampleInfo (kind : FileKind) : FileInfo := ⟨kind, 0o644, 0, 0, 0, []⟩

/-- A tree of two empty files, which lead to one inode or to two. -/
def sampleTree (ino : Nat) : FileTree where
  info
    | [] => some (sampleInfo (.directory ["a".toList, "b".toList]))
    | [name] =>
      if name = "a".toList then some (sampleInfo (.regular 1 1))
      else if name = "b".toList then some (sampleInfo (.regular 1 ino)) else none
    | _ => none
  data _ := []
  depth := 1
  root := by simp
  listed
    | [], f, names, h, hkind, name => by
      obtain rfl := Option.some.inj h
      obtain rfl := FileKind.directory.inj hkind
      grind
    | [_], f, names, h, hkind, _ => by grind [sampleInfo]
    | _ :: _ :: _, f, names, h, _, _ => by cases h
  below
    | [], name, _ => ⟨_, _, rfl, rfl⟩
    | _ :: _, name, h => by simp at h
  bounded
    | [], _ => Nat.zero_le _
    | [_], _ => Nat.le_refl _
    | _ :: _ :: _, h => absurd rfl h

theorem sampleTree_noCollision (m n : Nat) : NoCollision (sampleTree m) (sampleTree n) := fun _ _ _ _ _ _ _ => rfl

theorem compare_exact_sample :
    AcceptsTrees (sampleTree 1) (sampleTree 1) ∧ ¬ AcceptsTrees (sampleTree 1) (sampleTree 2) := by
  have hlinked := compare_exact (sampleTree 1) (sampleTree 1) (sampleTree 1) (sampleTree_noCollision 1 1)
    (sampleTree_noCollision 1 1)
  have hunlinked := compare_exact (sampleTree 1) (sampleTree 2) (sampleTree 1) (sampleTree_noCollision 1 2)
    (sampleTree_noCollision 2 1)
  refine ⟨hlinked.2.1.mpr (SameTree.refl _), fun h => ?_⟩
  have hlinks := (hunlinked.2.1.mp h).links ["a".toList] ["b".toList] (1, 1) (1, 1) (1, 1) (1, 2) rfl rfl rfl rfl
  exact absurd (hlinks.mp rfl) (by decide)

end Azurefin
