import Azurefin.Installer.Mountinfo
import Azurefin.Lib.Act

/-!
# Cleaning a workspace

`iso_workspace.py` removes named intermediates from a marked workspace, and nothing else. All of a
request is checked before anything is removed: either it is refused and the tree is as it was, or the
named intermediates are gone with all below them and every other path is as it was
(`remove_confined`).
-/

namespace Azurefin

/-! ## A tree of paths -/

/-- What is at a path: a directory, a link, or something to be read. -/
inductive PathNode where
  | dir
  | link (target : Text)
  | file (data : Bytes)
  deriving DecidableEq, Repr

/-- What is where, by the names that lead there from the root. Only directories have something below
them. -/
structure PathTree where
  node : List Text → Option PathNode
  below : ∀ p name, node (p ++ [name]) ≠ none → node p = some .dir

namespace PathTree

variable {tree tree' : PathTree} {p q target : List Text} {name : Text}

/-- Without what is at the path and below it. -/
def without (tree : PathTree) (target : List Text) : PathTree where
  node p := if target.isPrefixOf p then none else tree.node p
  below p name h := by
    split at h
    case isTrue => exact absurd rfl h
    case isFalse hout =>
      have hparent : target.isPrefixOf p ≠ true := fun hp =>
        hout (List.isPrefixOf_iff_prefix.mpr ((List.isPrefixOf_iff_prefix.mp hp).trans (List.prefix_append p [name])))
      rw [if_neg hparent]
      exact tree.below p name h

/-- Where the names lead, through links all but perhaps the last: the errors are those of the kernel,
which follows forty links. -/
def walk (tree : PathTree) (follow : Bool) (links : Nat) (place : List Text) (names : List Text) :
    Except Errno (List Text) :=
  match names with
  | [] => .ok place
  | name :: names =>
    if name = "..".toList then walk tree follow links place.dropLast names
    else match tree.node (place ++ [name]) with
      | none => .error .noent
      | some .dir => walk tree follow links (place ++ [name]) names
      | some (.file _) => if names = [] then .ok (place ++ [name]) else .error .notdir
      | some (.link target) =>
        if names = [] && !follow then .ok (place ++ [name])
        else match links with
          | 0 => .error .loop
          | links + 1 =>
            let target := PurePosixPath.ofText target
            walk tree follow links (if target.isAbsolute then [] else place) (target.names ++ names)
termination_by (links, names.length)

/-- The path itself is a link. -/
def isLink (tree : PathTree) (p : List Text) : Bool :=
  match tree.node p with
  | some (.link _) => true
  | _ => false

/-- `path.is_symlink()` -/
def isSymlink (tree : PathTree) (cwd names : List Text) : Bool :=
  match tree.walk false 40 cwd names with
  | .ok p => tree.isLink p
  | .error _ => false

/-- `path.is_dir()` -/
def isDir (tree : PathTree) (cwd names : List Text) : Bool :=
  match tree.walk true 40 cwd names with
  | .ok p => tree.node p == some .dir
  | .error _ => false

end PathTree

/-! ## The script -/

def workspaceMarker : Text := ".azurefin-iso-workspace".toList

def workspaceToken : Text := "azurefin-iso-workspace-v1\n".toList

def intermediates : List Text :=
  ["installer-oci".toList, "compose".toList, "modules".toList, "surface.iso".toList, "bundle".toList,
    "audit".toList, "live-oci".toList, "live-artifacts".toList, "seed".toList]

def absolutePath (names : List Text) : PurePosixPath := ⟨"/".toList, names⟩

/-- `path.parents` -/
def parents (p : PurePosixPath) : List PurePosixPath :=
  (List.range p.names.length).map fun n => { p with names := p.names.take n }

/-- `marker.read_text()` -/
def readMarker (tree : PathTree) (marker : List Text) : Except PyError Text :=
  match tree.node marker with
  | some (.file data) => readText data
  | some .dir => .error (.osError .isdir)
  | _ => .error (.osError .noent)

/-- The checks of a target. -/
def checkTarget (tree : PathTree) (mounts : List PurePosixPath) (target : List Text) : Except PyError Unit :=
  if tree.isLink target then .error (.valueError "Symlink intermediate")
  else if mounts.any fun mount => mount == absolutePath target || (parents mount).contains (absolutePath target) then
    .error (.valueError "Mounted intermediate")
  else .ok ()

/-- Where the script starts to look for the workspace. -/
def startPlace (cwd : List Text) (root : Text) : List Text :=
  if (PurePosixPath.ofText root).isAbsolute then [] else cwd

/-- The targets of a request, all of which are checked before anything is removed. `mounts` is what is
read of `mountinfo`. -/
def checkedTargets (tree : PathTree) (cwd : List Text) (root : Text) (names : List Text)
    (mounts : Except PyError (List PurePosixPath)) : Except PyError (List (List Text)) := do
  let start := startPlace cwd root
  let path := (PurePosixPath.ofText root).names
  if tree.isSymlink start path || !tree.isDir start path then
    .error (.valueError "Workspace must be a real directory")
  else
    let root ← (tree.walk true 40 start path).mapError .osError
    let marker := root ++ [workspaceMarker]
    if tree.isLink marker then .error (.valueError "Unmarked ISO workspace")
    else
      let token ← readMarker tree marker
      if token ≠ workspaceToken then .error (.valueError "Unmarked ISO workspace")
      else if names = [] ∨ names.any fun name => !intermediates.contains name then
        .error (.valueError "Only named ISO intermediates may be removed")
      else
        let mounts ← mounts
        let targets := names.map fun name => root ++ [name]
        targets.forM (checkTarget tree mounts)
        .ok targets

def removeTarget (target : List Text) : Act PathTree PyError Unit := fun tree =>
  match tree.node target with
  | some .dir => (.ok (), tree.without target) -- shutil.rmtree
  | some _ => (.ok (), tree.without target) -- target.unlink(): nothing is below it
  | none => (.ok (), tree)

/-- `remove`, in the directory `cwd` -/
def removeIntermediates (cwd : List Text) (root : Text) (names : List Text)
    (mounts : Except PyError (List PurePosixPath)) : Act PathTree PyError Unit := do
  let tree ← Act.read
  let targets ← .ofExcept (checkedTargets tree cwd root names mounts)
  targets.forM removeTarget

/-! ## What is removed -/

namespace PathTree

variable {tree tree' : PathTree} {p target : List Text} {targets : List (List Text)}

/-- Nothing is below a path where nothing is. -/
theorem node_eq_none (h : tree.node target = none) (hp : target <+: p) : tree.node p = none := by
  obtain ⟨rest, rfl⟩ := hp
  induction rest using List.reverseRecOn with
  | nil => rwa [List.append_nil]
  | append_singleton rest name ih =>
    by_contra hne
    rw [← List.append_assoc] at hne
    rw [tree.below _ name hne] at ih
    cases ih

theorem node_without (tree : PathTree) (target p : List Text) :
    (tree.without target).node p = if target.isPrefixOf p then none else tree.node p := rfl

theorem removeTarget_apply (target : List Text) (tree : PathTree) :
    ∃ tree', removeTarget target tree = (.ok (), tree') ∧
      ∀ p, tree'.node p = if target.isPrefixOf p then none else tree.node p := by
  rw [removeTarget]
  split
  case h_3 hnone =>
    refine ⟨tree, rfl, fun p => ?_⟩
    split
    case isTrue hp => exact node_eq_none hnone (List.isPrefixOf_iff_prefix.mp hp)
    case isFalse => rfl
  all_goals exact ⟨_, rfl, node_without tree target⟩

/-- All targets are removed with what is below them. -/
theorem removeTargets_apply (targets : List (List Text)) (tree : PathTree) :
    ∃ tree', targets.forM removeTarget tree = (.ok (), tree') ∧
      ∀ p, tree'.node p = if targets.any (·.isPrefixOf p) then none else tree.node p := by
  induction targets generalizing tree with
  | nil => exact ⟨tree, rfl, fun p => rfl⟩
  | cons target targets ih =>
    obtain ⟨middle, hfirst, hmiddle⟩ := removeTarget_apply target tree
    obtain ⟨tree', hrest, htree'⟩ := ih middle
    have hstep : (target :: targets).forM removeTarget =
        removeTarget target >>= fun _ => targets.forM removeTarget := rfl
    refine ⟨tree', by rw [hstep, Act.bind_of_ok hfirst, hrest], fun p => ?_⟩
    rw [htree', hmiddle, List.any_cons]
    grind

end PathTree

/-! ## Which requests are served -/

/-- The workspace is a real directory with its marker; some names are asked for, all of intermediates;
no target is a link, is a mount point or has one below it. -/
structure Removable (tree : PathTree) (cwd : List Text) (root : Text) (names : List Text)
    (mounts : List (List Text)) (workspace : List Text) : Prop where
  real : tree.isSymlink (startPlace cwd root) (PurePosixPath.ofText root).names = false
  place : tree.walk true 40 (startPlace cwd root) (PurePosixPath.ofText root).names = .ok workspace
  directory : tree.node workspace = some .dir
  marked : ∃ data, tree.node (workspace ++ [workspaceMarker]) = some (.file data) ∧
    readText data = .ok workspaceToken
  asked : names ≠ [] ∧ ∀ name ∈ names, name ∈ intermediates
  plain : ∀ name ∈ names, ∀ target, tree.node (workspace ++ [name]) ≠ some (.link target)
  unmounted : ∀ name ∈ names, ∀ mount ∈ mounts, ¬ workspace ++ [name] <+: mount

variable {tree : PathTree} {cwd names : List Text} {root : Text} {mounts targets : List (List Text)}
  {target : List Text}

/-- A mount point is a target or below it. -/
theorem mounted_iff (target mount : List Text) :
    (absolutePath mount == absolutePath target || (parents (absolutePath mount)).contains (absolutePath target)) =
      true ↔ target <+: mount := by
  have hinj : ∀ p q : List Text, absolutePath p = absolutePath q ↔ p = q := fun p q => by
    simp [absolutePath]
  rw [Bool.or_eq_true, beq_iff_eq, hinj, List.contains_iff_mem, parents, List.mem_map]
  constructor
  · rintro (rfl | ⟨n, -, hn⟩)
    · exact List.prefix_refl _
    · obtain rfl : mount.take n = target := (hinj _ _).mp hn
      exact List.take_prefix n mount
  · intro h
    rcases Nat.lt_or_ge target.length mount.length with hlt | hge
    · refine .inr ⟨target.length, List.mem_range.mpr hlt, ?_⟩
      exact (hinj _ _).mpr (List.prefix_iff_eq_take.mp h).symm
    · exact .inl (h.eq_of_length_le hge).symm

theorem isLink_eq_false : tree.isLink target = false ↔ ∀ t, tree.node target ≠ some (.link t) := by
  rw [PathTree.isLink]
  split <;> simp_all

theorem checkTarget_eq_ok {u : Unit} : checkTarget tree (mounts.map absolutePath) target = .ok u ↔
    (∀ t, tree.node target ≠ some (.link t)) ∧ ∀ mount ∈ mounts, ¬ target <+: mount := by
  rw [checkTarget, Except.check_eq_ok, Except.check_eq_ok, Bool.not_eq_true, isLink_eq_false, List.any_map,
    List.any_eq_true]
  simp only [Function.comp_apply, mounted_iff]
  simp

theorem readMarker_eq_ok {marker : List Text} {text : Text} : readMarker tree marker = .ok text ↔
    ∃ data, tree.node marker = some (.file data) ∧ readText data = .ok text := by
  rw [readMarker]
  split <;> simp_all

theorem isDir_iff {start path : List Text} : tree.isDir start path = true ↔
    ∃ workspace, tree.walk true 40 start path = .ok workspace ∧ tree.node workspace = some .dir := by
  rw [PathTree.isDir]
  split <;> simp_all

/-- A request passes the checks exactly where it is served. -/
theorem checkedTargets_eq_ok :
    checkedTargets tree cwd root names (.ok (mounts.map absolutePath)) = .ok targets ↔
      ∃ workspace, Removable tree cwd root names mounts workspace ∧
        targets = names.map fun name => workspace ++ [name] := by
  simp only [checkedTargets, Except.check_eq_ok, Except.bind_eq_ok, Except.ok_bind, Except.forM_eq_ok,
    readMarker_eq_ok, Except.ok.injEq, Bool.or_eq_true, Bool.not_eq_true', not_or, Bool.not_eq_true,
    Bool.not_eq_false, isDir_iff, isLink_eq_false, List.any_eq_false, not_not, List.contains_iff_mem]
  constructor
  · rintro ⟨⟨hreal, place, hplace, hdir⟩, workspace, hroot, hmarker, token, htoken, rfl, ⟨hne, hnames⟩, _, hall, rfl⟩
    rw [hplace] at hroot
    obtain rfl : place = workspace := Except.ok.inj hroot
    have hchecked : ∀ name ∈ names, _ := fun name hname =>
      checkTarget_eq_ok.mp (hall _ (List.mem_map_of_mem hname))
    exact ⟨place, ⟨hreal, hplace, hdir, htoken, ⟨hne, hnames⟩, fun name hname => (hchecked name hname).1,
      fun name hname => (hchecked name hname).2⟩, rfl⟩
  · rintro ⟨workspace, h, rfl⟩
    obtain ⟨data, hmarker, hdata⟩ := h.marked
    refine ⟨⟨h.real, workspace, h.place, h.directory⟩, workspace, by rw [h.place]; rfl, ?_, workspaceToken,
      h.marked, rfl, h.asked, (), ?_, rfl⟩
    · simp [hmarker]
    · exact List.forall_mem_map.mpr fun name hname =>
        checkTarget_eq_ok.mpr ⟨h.plain name hname, h.unmounted name hname⟩

theorem removeIntermediates_apply (mounts : Except PyError (List PurePosixPath)) :
    removeIntermediates cwd root names mounts tree = match checkedTargets tree cwd root names mounts with
      | .ok targets => targets.forM removeTarget tree
      | .error e => (.error e, tree) := by
  rw [removeIntermediates, Act.bind_of_ok (Act.read_apply tree), Act.bind_apply, Act.ofExcept_apply]
  cases checkedTargets tree cwd root names mounts <;> rfl

/-- What is left of the tree by a request that is served. -/
theorem Removable.run {workspace : List Text} (h : Removable tree cwd root names mounts workspace) : ∃ tree',
    removeIntermediates cwd root names (.ok (mounts.map absolutePath)) tree = (.ok (), tree') ∧
      (∀ name ∈ names, ∀ p, workspace ++ [name] <+: p → tree'.node p = none) ∧
      ∀ p, (∀ name ∈ names, ¬ workspace ++ [name] <+: p) → tree'.node p = tree.node p := by
  obtain ⟨tree', hremoved, hnode⟩ :=
    PathTree.removeTargets_apply (names.map fun name => workspace ++ [name]) tree
  have hserved : removeIntermediates cwd root names (.ok (mounts.map absolutePath)) tree = (.ok (), tree') := by
    rw [removeIntermediates_apply, checkedTargets_eq_ok.mpr ⟨workspace, h, rfl⟩]
    exact hremoved
  refine ⟨tree', hserved, fun name hname p hp => ?_, fun p hp => ?_⟩
  · rw [hnode, if_pos]
    rw [List.any_map, List.any_eq_true]
    exact ⟨name, hname, List.isPrefixOf_iff_prefix.mpr hp⟩
  · rw [hnode, if_neg]
    rw [List.any_map, List.any_eq_true]
    rintro ⟨name, hname, hbelow⟩
    exact hp name hname (List.isPrefixOf_iff_prefix.mp hbelow)

/-- **Cleaning is all or nothing, and confined.** A request that is served removes its targets with all
that is below them and leaves every other path as it was; any other request is refused, and the tree
is as it was. -/
theorem remove_confined (tree : PathTree) (cwd : List Text) (root : Text) (names : List Text)
    (mounts : List (List Text)) :
    (∀ workspace, Removable tree cwd root names mounts workspace → ∃ tree',
      removeIntermediates cwd root names (.ok (mounts.map absolutePath)) tree = (.ok (), tree') ∧
        (∀ name ∈ names, ∀ p, workspace ++ [name] <+: p → tree'.node p = none) ∧
        ∀ p, (∀ name ∈ names, ¬ workspace ++ [name] <+: p) → tree'.node p = tree.node p) ∧
    ((¬ ∃ workspace, Removable tree cwd root names mounts workspace) →
      ∃ e, removeIntermediates cwd root names (.ok (mounts.map absolutePath)) tree = (.error e, tree)) := by
  refine ⟨fun workspace h => h.run, fun h => ?_⟩
  rw [removeIntermediates_apply]
  cases hchecked : checkedTargets tree cwd root names (.ok (mounts.map absolutePath)) with
  | ok targets =>
    obtain ⟨workspace, hremovable, -⟩ := checkedTargets_eq_ok.mp hchecked
    exact absurd ⟨workspace, hremovable⟩ h
  | error e => exact ⟨e, rfl⟩

/-! ## A workspace -/

/-- The tree of some paths, where every path stands below a directory. -/
def PathTree.ofPaths (paths : List (List Text × PathNode))
    (h : paths.all (fun e => e.1 == [] || paths.lookup e.1.dropLast == some .dir) = true) : PathTree where
  node p := paths.lookup p
  below p name hne := by
    obtain ⟨node, hnode⟩ := Option.ne_none_iff_exists'.mp hne
    have hmem : ∀ ps : List (List Text × PathNode), ps.lookup (p ++ [name]) = some node → (p ++ [name], node) ∈ ps := by
      intro ps
      induction ps with
      | nil => simp
      | cons e ps ih => grind
    have hall := List.all_eq_true.mp h _ (hmem paths hnode)
    simpa using hall

/-- A workspace with a link out of it, and a file beside it. -/
def samplePaths (marker : Bytes) : List (List Text × PathNode) :=
  [([], .dir), (["work".toList], .dir), (["work".toList, workspaceMarker], .file marker),
    (["work".toList, "seed".toList], .dir), (["work".toList, "seed".toList, "out".toList], .link "/keep".toList),
    (["keep".toList], .file [])]

def samplePathTree (marker : Bytes) : PathTree := .ofPaths (samplePaths marker) (by rfl)

variable {marker : Bytes}

theorem walk_samplePathTree (follow : Bool) : (samplePathTree marker).walk follow 40 [] ["work".toList] =
    .ok ["work".toList] := by
  have hnode : (samplePathTree marker).node ([] ++ ["work".toList]) = some .dir := rfl
  rw [PathTree.walk, if_neg (by decide)]
  simp only [hnode]
  rw [PathTree.walk]
  rfl

theorem samplePathTree_removable (h : readText marker = .ok workspaceToken) :
    Removable (samplePathTree marker) [] "/work".toList ["seed".toList, "seed".toList] [["keep".toList]]
      ["work".toList] := by
  have hnames : (PurePosixPath.ofText "/work".toList).names = ["work".toList] := by decide
  have hstart : startPlace [] "/work".toList = [] := by decide
  refine ⟨?_, ?_, rfl, ⟨marker, rfl, h⟩, ⟨by decide, by decide⟩, ?_, ?_⟩
  · rw [hnames, hstart, PathTree.isSymlink, walk_samplePathTree]
    rfl
  · rw [hnames, hstart, walk_samplePathTree]
  · rintro name hname target
    obtain rfl : name = "seed".toList := by simpa using hname
    intro hlink
    cases hlink
  · decide

/-- The seed is removed, and what the link in it leads to is not. -/
theorem remove_confined_sample : ∃ tree',
    removeIntermediates [] "/work".toList ["seed".toList, "seed".toList] (.ok ([["keep".toList]].map absolutePath))
      (samplePathTree (utf8 workspaceToken)) = (.ok (), tree') ∧
    tree'.node ["work".toList, "seed".toList, "out".toList] = none ∧
    tree'.node ["keep".toList] = some (.file []) := by
  have hmarker : readText (utf8 workspaceToken) = .ok workspaceToken := by
    rw [readText_utf8]
    decide +kernel
  obtain ⟨tree', hrun, hgone, hkept⟩ :=
    (remove_confined _ _ _ _ _).1 _ (samplePathTree_removable hmarker)
  refine ⟨tree', hrun, hgone "seed".toList (by simp) _ ⟨["out".toList], rfl⟩, ?_⟩
  rw [hkept _ (by decide)]
  rfl

/-- A marker with another line end -/
def crlfMarker : Bytes := utf8 "azurefin-iso-workspace-v1\r\n".toList

/-- A marker that is not the token byte by byte is read as the token. -/
theorem crlfMarker_accepted : crlfMarker ≠ utf8 workspaceToken ∧
    (samplePathTree crlfMarker).node ["work".toList, workspaceMarker] = some (.file crlfMarker) ∧
    ∃ tree', removeIntermediates [] "/work".toList ["seed".toList, "seed".toList]
        (.ok ([["keep".toList]].map absolutePath)) (samplePathTree crlfMarker) = (.ok (), tree') ∧
      (samplePathTree crlfMarker).node ["work".toList, "seed".toList] = some .dir ∧
      tree'.node ["work".toList, "seed".toList] = none := by
  have hmarker : readText crlfMarker = .ok workspaceToken := by
    rw [crlfMarker, readText_utf8]
    decide +kernel
  obtain ⟨tree', hrun, hgone, -⟩ := (samplePathTree_removable hmarker).run
  refine ⟨by decide +kernel, rfl, tree', hrun, rfl, hgone "seed".toList (by simp) _ ?_⟩
  exact List.prefix_refl _

end Azurefin
