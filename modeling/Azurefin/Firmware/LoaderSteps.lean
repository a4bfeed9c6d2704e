import Azurefin.Firmware.Loader

/-!
# The steps of the loader

What each part of `load-firmware.sh` ensures, and the invariant of its copy loop, `Staged`:
the temporary directory has the files of the lines read so far and nothing else.
-/

namespace Azurefin

open Prog Fs Shell

/-! ## The manifest -/

namespace BootManifest

def rows (m : BootManifest) : List Row :=
  match policyRows m.policy with
  | .ok rows => rows
  | .error _ => []

/-- The name of the bundle. -/
def bundleId (m : BootManifest) : Text := sha256 m.contents

theorem fileSet (m : BootManifest) : ∃ F : FileSet, F.rows = m.rows ∧
    policyRows m.policy = .ok F.rows ∧ m.contents = encodeAscii (manifestText F.rows) := by
  obtain ⟨rows, hrows, hc⟩ := manifest_eq_ok.mp m.generated
  obtain ⟨F, rfl⟩ := policyRows_ok hrows
  exact ⟨F, by simp [BootManifest.rows, hrows], hrows, hc⟩

end BootManifest

/-! ## Commands -/

variable {α : Type} {P : Boot → Prop}

theorem command_ensures {S : Boot → Prop} (hS : ∀ b, P b → S b) :
    Ensures P command (fun _ => P) (fun _ => S) S :=
  .look hS (fun _ _ h _ => h) fun _ => hS

theorem asking_ensures {S : Boot → Prop} (hS : ∀ b, P b → S b) {r : Except Status α} :
    Ensures P (asking r) (fun a b => r = .ok a ∧ P b) (fun _ => S) S :=
  .look hS (fun _ _ h hr => ⟨hr, h⟩) fun _ => hS

theorem require_ensures {S : Boot → Prop} (hS : ∀ b, P b → S b) {c : Bool} {e : Status} :
    Ensures P (require c e) (fun _ b => c = true ∧ P b) (fun _ => S) S :=
  .require (fun _ h hc => ⟨hc, h⟩) fun b h _ => hS b h

/-- What a program ensures of `/run` holds in the whole state, and the search path stays. -/
theorem onRun_ensures {p : Prog Disk Status α} {P : Disk → Prop} {Q : α → Disk → Prop}
    {R : Status → Disk → Prop} {K : Disk → Prop} (h : Ensures P p Q R K) (u : Option Text) :
    Ensures (fun b => b.searchPath = u ∧ P b.run) (onRun p)
      (fun a b => b.searchPath = u ∧ Q a b.run) (fun _ b => b.searchPath = u)
      (fun b => b.searchPath = u) := by
  refine .zoom fun b hb => h.weaken ?_ (fun _ _ hs => ⟨hb.1, hs⟩) (fun _ _ _ => hb.1)
    fun _ _ => hb.1
  rintro s rfl
  exact hb.2

/-- Unmounting touches neither `/run` nor the search path. -/
theorem umount_ensures {P : Option Text → Disk → Prop} :
    Ensures (fun b => P b.searchPath b.run) umount (fun _ b => P b.searchPath b.run)
      (fun _ b => P b.searchPath b.run) (fun b => P b.searchPath b.run) := by
  refine .step (fun _ h => h) fun fate b hb => ?_
  cases fate <;> exact hb

/-! ## The boot UUID and its device -/

theorem uuidValues_append (l l' : List Text) :
    uuidValues (l ++ l') = uuidValues l ++ uuidValues l' := by
  simp [uuidValues]

/-- The value of `boot_uuid` after the arguments `done`. -/
structure FoundUuid (done : List Text) (bootUuid : Text) : Prop where
  values : uuidValues done = if bootUuid = [] then [] else [bootUuid]
  text : bootUuid ≠ [] → isUuidText bootUuid = true

theorem bootArgument_ensures {done : List Text} {bootUuid argument : Text}
    (h : FoundUuid done bootUuid) :
    Ensures P (bootArgument bootUuid argument)
      (fun u b => FoundUuid (done ++ [argument]) u ∧ P b) (fun _ => P) P := by
  refine .ite (fun hc => .ite (fun _ => .bind (command_ensures fun _ h => h) fun _ => .raise fun _ hb => hb)
    fun hne => ?_) fun hc => .pure fun b hb => ⟨⟨?_, h.text⟩, hb⟩
  · have hnil : bootUuid = [] := not_not.mp hne
    refine .bind (require_ensures fun _ h => h) fun _ => .pure fun b hb => ⟨⟨?_, fun _ => hb.1⟩, hb.2⟩
    have hne' : afterFirst '=' argument ≠ [] := fun hn => by
      have := hb.1
      rw [hn] at this
      exact absurd this (by decide)
    rw [uuidValues_append, h.values, if_pos hnil, if_neg hne']
    simp [uuidValues, hc]
  · rw [uuidValues_append, h.values]
    simp [uuidValues, hc]

theorem bootArguments_ensures (words : List Text) :
    Ensures P (words.foldlM bootArgument [])
      (fun u b => FoundUuid words u ∧ P b) (fun _ => P) P := by
  refine (Ensures.foldlM (f := bootArgument)
    (I := fun rest u b => ∃ done, done ++ rest = words ∧ FoundUuid done u ∧ P b)
    ?_ words []).weaken ?_ ?_ (fun _ _ h => h) fun _ h => h
  · intro argument rest u
    refine .exists_pre fun done => .assume fun hwords => .assume fun hf => ?_
    refine (bootArgument_ensures hf).weaken (fun _ h => h) (fun v b hv => ?_) (fun _ _ h => h)
      fun _ h => h
    exact ⟨done ++ [argument], by simpa using hwords, hv⟩
  · exact fun b hb => ⟨[], rfl, ⟨rfl, fun h => absurd rfl h⟩, hb⟩
  · rintro u b ⟨done, hwords, hf, hb⟩
    obtain rfl : done = words := by simpa using hwords
    exact ⟨hf, hb⟩

theorem findDevice_ensures (env : Environment) (uuid : Text) (left : Nat) :
    Ensures P (findDevice env uuid left)
      (fun d b => (d = [] ∨ ∃ attempt, d = env.blkid attempt uuid) ∧ P b) (fun _ => P) P := by
  induction left with
  | zero => exact .pure fun _ hb => ⟨.inl rfl, hb⟩
  | succ left ih =>
    refine .bind (M := fun d b => (d = [] ∨ ∃ attempt, d = env.blkid attempt uuid) ∧ P b)
      (.step (fun _ h => h) fun fate b hb => ?_) fun d => ?_
    · cases fate
      · exact ⟨.inr ⟨_, rfl⟩, hb⟩
      · exact ⟨.inl rfl, hb⟩
    · refine .ite (fun _ => .pure fun _ h => h) fun _ => ?_
      exact (Ensures.bind (command_ensures fun _ h => h) fun _ => ih).weaken (fun _ h => h.2) (fun _ _ h => h)
        (fun _ _ h => h) fun _ h => h

theorem mktemp_ensures {c : Caller} {template : Text} {P : Disk → Prop}
    {Q : Text × Nat → Disk → Prop}
    (h : ∀ s t draw, P s → Created s 0 (template ++ draw) (.dir (c.attr 0o700)) t →
      Q (template ++ draw, s.next) t) :
    Ensures P (mktemp c template) Q (fun _ _ => True) (fun _ => True) := by
  refine .makeTemporary (fun _ _ => trivial) (fun s t n hs hn hc => ?_) fun _ _ _ => trivial
  obtain ⟨draw, -, rfl⟩ := List.mem_map.mp hn
  exact h s t draw hs hc

/-! ## The copies -/

/-- What `lstat` shows below a directory of the mounted file system. -/
def Mount.below (mount : Mount) (store : Path) : Tree := fun p => mount.lstat (store ++ p)

/-- A regular file of allowed size for the row. -/
structure HasFile (tree : Tree) (r : Row) (data : Bytes) : Prop where
  file : tree r.path = some (.file data)
  size_pos : 0 < data.length
  size_le : data.length ≤ maxFile

/-- The tree has the files of the rows `done` as they are in the bundle, and besides them only
directories on the way to a file. -/
structure Stage (bundle : Tree) (rows done : List Row) (tree : Tree) : Prop where
  root : IsDirectory tree []
  files : ∀ r ∈ done, ∃ data, HasFile bundle r data ∧ tree r.path = some (.file data)
  shape : ∀ p o, tree p = some o →
    (∃ r ∈ done, p = r.path) ∨ ∃ r ∈ rows, OnTheWay r.path.dropLast p o

namespace Stage

variable {bundle tree tree' : Tree} {rows done : List Row} {r : Row} {data : Bytes}

theorem grows (h : Stage bundle rows done tree) (hr : r ∈ rows)
    (hg : Grows (OnTheWay r.path.dropLast) tree tree') : Stage bundle rows done tree' := by
  refine ⟨hg.isDirectory h.root, fun q hq => ?_, fun p o hp => ?_⟩
  · obtain ⟨data, hd, ht⟩ := h.files q hq
    exact ⟨data, hd, hg.1 _ _ ht⟩
  · rcases hg.2 p o hp with hp | hp
    · exact h.shape p o hp
    · exact .inr ⟨r, hr, hp⟩

/-- No file is where the next one goes. -/
theorem not_file (h : Stage bundle rows done tree) (hnew : ∀ q ∈ done, q.path ≠ r.path) :
    tree r.path ≠ some (.file data) := by
  intro hf
  rcases h.shape _ _ hf with ⟨q, hq, hp⟩ | ⟨q, -, -, a, ha⟩
  · exact hnew q hq hp.symm
  · cases ha

/-- The file of the row `r` has been copied. -/
theorem add (h : Stage bundle rows done tree) (hne : r.path ≠ []) (hnone : tree r.path = none)
    (hd : HasFile bundle r data) :
    Stage bundle rows (done ++ [r]) (Function.update tree r.path (some (.file data))) := by
  have hg : Grows (fun p _ => p = r.path) tree
      (Function.update tree r.path (some (.file data))) := .update hnone rfl
  refine ⟨hg.isDirectory h.root, fun q hq => ?_, fun p o hp => ?_⟩
  · rcases List.mem_append.mp hq with hq | hq
    · obtain ⟨data', hd', ht⟩ := h.files q hq
      exact ⟨data', hd', hg.1 _ _ ht⟩
    · obtain rfl : q = r := by simpa using hq
      exact ⟨data, hd, Function.update_self ..⟩
  · rcases hg.2 p o hp with hp | rfl
    · rcases h.shape p o hp with ⟨q, hq, he⟩ | hp
      · exact .inl ⟨q, by simp [hq], he⟩
      · exact .inr hp
    · exact .inl ⟨r, by simp, rfl⟩

end Stage

/-- The temporary directory is listed in `/run`, where the runtime directory is still `o`, and
its tree is at this stage. -/
structure Staged (bundle : Tree) (rows done : List Row) (o : Option Nat) (name : Text)
    (temporary : Nat) (s : Disk) : Prop where
  lookup : s.lookup 0 name = some temporary
  runtime : s.lookup 0 runtimeName = o
  lt : temporary < s.next
  stage : Stage bundle rows done (treeAt s temporary)

namespace Staged

variable {bundle : Tree} {rows done : List Row} {r : Row} {data : Bytes} {o : Option Nat}
  {name : Text} {temporary : Nat} {s t : Disk}

theorem found (h : Staged bundle rows done o name temporary s) :
    FoundDir s temporary [] temporary := ⟨h.lt, rfl, isDir_of_isDirectory h.stage.root rfl⟩

/-- The new temporary directory, for a file set that is not empty. -/
theorem start {a : Attr} (hr : r ∈ rows) (ho : s.lookup 0 runtimeName = o)
    (hne : name ≠ runtimeName) (hc : Created s 0 name (.dir a) t) :
    Staged bundle rows [] o name s.next t := by
  refine ⟨by simp [hc.lookup], by simp [hc.lookup, hne.symm, ho], by have := hc.next; omega,
    ⟨a, hc.tree_next []⟩, by simp, fun p o hp => .inr ?_⟩
  rw [treeAt, hc.tree_next] at hp
  split at hp
  · cases hp
    exact ⟨r, hr, ‹p = []› ▸ List.nil_prefix, a, rfl⟩
  · cases hp

/-- Nothing made below the temporary directory is in `/run` itself. -/
theorem lookup_created {e : Nat} {x : Path} {n : Text} {k : Kind Attr}
    (h : Staged bundle rows done o name temporary s) (hf : FoundDir s temporary x e)
    (hc : Created s e n k t) (m : Text) : t.lookup 0 m = s.lookup 0 m := by
  have := (lookup_lt h.lookup).1
  have := resolve_le hf.resolve
  rw [hc.lookup, if_neg (by omega)]

theorem created_dir {e : Nat} {x : Path} {part : Text} {a : Attr}
    (h : Staged bundle rows done o name temporary s) (hr : r ∈ rows)
    (hf : FoundDir s temporary x e) (hx : x ++ [part] <+: r.path.dropLast)
    (hc : Created s e part (.dir a) t) : Staged bundle rows done o name temporary t := by
  have hl := h.lookup_created hf hc
  refine ⟨(hl name).trans h.lookup, (hl _).trans h.runtime, ?_, h.stage.grows hr ?_⟩
  · have := hc.next
    have := h.lt
    omega
  · have hnone : treeAt s temporary (x ++ [part]) = none := by
      rw [treeAt, View.tree_eq_none, resolve_concat, hf.resolve]
      simp [hf.dir, hc.absent]
    have htree : treeAt t temporary =
        Function.update (treeAt s temporary) (x ++ [part]) (some (.dir a)) :=
      hc.tree hf.lt hf.resolve
    rw [htree]
    exact .update hnone ⟨hx, a, rfl⟩

end Staged

variable {bundle : Tree} {rows done : List Row} {r : Row} {o : Option Nat} {name : Text}
  {temporary : Nat}

/-- The file of the row `r` is open for writing and has got the bytes `copied`. -/
def Receiving (bundle : Tree) (rows done : List Row) (o : Option Nat) (name : Text)
    (temporary : Nat) (r : Row) (output : Nat) (copied : Bytes) (s : Disk) : Prop :=
  s.lookup 0 name = some temporary ∧ s.lookup 0 runtimeName = o ∧ ∃ before, Stage bundle rows done before ∧
    before r.path = none ∧ Filling temporary output r.path before copied s

theorem openOutput_ensures (hne : r.path ≠ []) (hnew : ∀ q ∈ done, q.path ≠ r.path) {d : Nat} :
    Ensures (fun s => Staged bundle rows done o name temporary s ∧
        FoundDir s temporary r.path.dropLast d)
      (openOutput temporary r.path)
      (fun output => Receiving bundle rows done o name temporary r output [])
      (fun _ _ => True) (fun _ => True) := by
  have hpath : r.path.dropLast ++ [r.path.getLast?.getD []] = r.path := by
    rw [List.getLast?_eq_some_getLast hne]
    exact List.dropLast_append_getLast hne
  refine .call (fun _ _ => trivial) (fun s output t hs h => ?_) fun _ _ _ => trivial
  obtain ⟨hs, hd⟩ := hs
  rw [hd.resolve] at h
  dsimp only at h
  split at h
  case h_1 habs =>
    obtain ⟨rfl, hc⟩ := create_ok h
    have hfill := Filling.created hs.lt hd.resolve hc
    rw [hpath] at hfill
    have hl := hs.lookup_created hd hc
    refine ⟨(hl name).trans hs.lookup, (hl _).trans hs.runtime, _, hs.stage, ?_, hfill⟩
    rw [treeAt, View.tree_eq_none, ← hpath, resolve_concat, hd.resolve]
    simp [hd.dir, habs]
  case h_2 i hi =>
    -- the file of a row is made only once
    split at h
    case isTrue hfile =>
      have hres : s.view.resolve temporary r.path = some i := by
        rw [← hpath]
        exact View.resolve_snoc hd.resolve hd.dir hi
      exact absurd (View.tree_eq_file.mpr ⟨i, hres, hfile, rfl⟩) (hs.stage.not_file hnew)
    case isFalse => cases h

theorem mkdirParents_staged {c : Caller} (hr : r ∈ rows) :
    Ensures (Staged bundle rows done o name temporary)
      (Fs.mkdirParents failed (c.attr 0o777) temporary r.path.dropLast)
      (fun d s => Staged bundle rows done o name temporary s ∧
        FoundDir s temporary r.path.dropLast d) (fun _ _ => True) (fun _ => True) :=
  (Ensures.mkdirParents (I := Staged bundle rows done o name temporary) r.path.dropLast
    fun _ _ _ _ _ hs hf hx hc => hs.created_dir hr hf hx hc).weaken
    (fun _ hs => ⟨hs, hs.found⟩) (fun _ _ hs => hs) (fun _ _ _ => trivial) fun _ _ => trivial

/-- With its data written, the file is staged. -/
theorem Receiving.append {output : Nat} {data : Bytes} {s : Disk} (hne : r.path ≠ [])
    (hd : HasFile bundle r data) (h : Receiving bundle rows done o name temporary r output [] s) :
    Staged bundle rows (done ++ [r]) o name temporary (s.append output data) := by
  obtain ⟨hl, ho, before, hstage, hnone, hfill⟩ := h
  have hfilled := hfill.append data
  refine ⟨hl, ho, hfilled.lt, ?_⟩
  rw [hfilled.tree]
  exact hstage.add hne hnone hd

/-- A regular file that is no symlink is what `head` opens. -/
theorem realFile {mount : Mount} {p : Path} {size : Nat} (h : isRealFile mount p = true)
    (hs : sizeOf mount p = .ok size) :
    ∃ data, mount.lstat p = some (.file data) ∧ mount.stat p = some (.file data) ∧
      size = data.length := by
  have hlink : mount.lstat p ≠ some .symlink := by
    intro hl
    rcases hst : mount.stat p with _ | o
    · simp [isRealFile, hst] at h
    · cases o <;> simp [isRealFile, hst, hl] at h
  have hst := mount.stat_eq p hlink
  rcases hl : mount.lstat p with _ | o
  · simp [isRealFile, hst, hl] at h
  · rw [hl] at hst
    cases o with
    | file data => exact ⟨data, rfl, hst, by simpa [sizeOf, hl, eq_comm] using hs⟩
    | _ => simp [isRealFile, hst] at h

theorem copyLine_ensures {c : Caller} {mount : Mount} {store : Path} {total : Nat}
    (hr : r ∈ rows) (hv : r.valid = true) (hnew : ∀ q ∈ done, q.path ≠ r.path) :
    Ensures (fun b => b.searchPath = none ∧
        Staged (mount.below store) rows done o name temporary b.run)
      (copyLine c mount store temporary total r.digest r.target)
      (fun total' b => (total' = total + sizeAt (mount.below store) r ∧ total' ≤ maxTotal) ∧
        b.searchPath = none ∧
          Staged (mount.below store) rows (done ++ [r]) o name temporary b.run)
      (fun _ b => b.searchPath = none) (fun b => b.searchPath = none) := by
  have hne := r.path_ne_nil hv
  refine .bind (require_ensures fun _ h => h.1) fun _ => .assume fun _ => ?_
  refine .bind (require_ensures fun _ h => h.1) fun _ => .assume fun hqcom => ?_
  refine .bind (require_ensures fun _ h => h.1) fun _ => .assume fun _ => ?_
  refine .bind (asking_ensures fun _ h => h.1) fun _ => .assume fun hreal => ?_
  refine .bind (asking_ensures fun _ h => h.1) fun size => .assume fun hsize => ?_
  refine .bind (require_ensures fun _ h => h.1) fun _ => .assume fun hbound => ?_
  refine .bind (require_ensures fun _ h => h.1) fun _ => .assume fun htotal => ?_
  have hreal' : isRealFile mount (store ++ r.path) = true := by
    by_contra hn
    rw [components, ← Row.path, if_neg hn] at hreal
    cases hreal
  obtain ⟨data, hl, hst, rfl⟩ := realFile hreal' hsize
  have hfile : HasFile (mount.below store) r data := by
    simp only [decide_eq_true_eq] at hbound
    exact ⟨hl, hbound.1, hbound.2⟩
  have hsizeAt : sizeAt (mount.below store) r = data.length := by
    simp [sizeAt, hfile.file]
  -- the directories, the file, its data
  have hslash : '/' ∈ r.target := by
    simp only [Bool.and_eq_true, List.isPrefixOf_iff_prefix] at hqcom
    exact hqcom.1.1.subset (by decide +kernel)
  rw [components, r.names_beforeLast hv hslash]
  refine .bind (onRun_ensures (mkdirParents_staged hr) none) fun d => ?_
  refine .bind (onRun_ensures (openOutput_ensures hne hnew) none) fun output => ?_
  refine .bind (asking_ensures fun _ h => h.1) fun input => .assume fun hinput => ?_
  obtain rfl : data = input := by
    rw [components, ← Row.path] at hinput
    simpa [openInput, hst] using hinput
  have hall : data.take 67108865 = data := by
    refine List.take_of_length_le ?_
    have hle : data.length ≤ 67108864 := hfile.size_le
    omega
  rw [hall]
  refine .bind (onRun_ensures (.appendCall (Q := fun _ => Staged (mount.below store) rows
    (done ++ [r]) o name temporary) (R := fun _ _ => True) (K := fun _ => True)
      (fun _ _ => trivial) (fun _ hs => hs.append hne hfile) fun _ _ _ _ => trivial) none)
        fun _ => .pure fun b hb => ?_
  exact ⟨⟨by rw [hsizeAt], of_decide_eq_true htotal⟩, hb⟩

/-- The loop may end early, when `read` fails. -/
theorem copyLines_ensures {c : Caller} {mount : Mount} {store : Path} (F : FileSet)
    (todo done : List Row) (hrows : done ++ todo = F.rows) {total : Nat}
    (htotal : total = totalSize (mount.below store) done ∧ total ≤ maxTotal) :
    Ensures (fun b => b.searchPath = none ∧
        Staged (mount.below store) F.rows done o name temporary b.run)
      (copyLines c mount store temporary total (todo.map Row.text))
      (fun _ b => b.searchPath = none ∧ ∃ done todo, done ++ todo = F.rows ∧
        totalSize (mount.below store) done ≤ maxTotal ∧
          Staged (mount.below store) F.rows done o name temporary b.run)
      (fun _ b => b.searchPath = none) (fun b => b.searchPath = none) := by
  induction todo generalizing done total with
  | nil => exact .pure fun b hb => ⟨hb.1, done, [], hrows, htotal.1 ▸ htotal.2, hb.2⟩
  | cons r todo ih =>
    have hr : r ∈ F.rows := by simp [← hrows]
    refine .bind (M := fun fields b => (fields = none ∨ fields = some (r.digest, r.target)) ∧
      b.searchPath = none ∧ Staged (mount.below store) F.rows done o name temporary b.run)
      (.step (fun _ h => h.1) fun fate b hb => ?_) fun fields => .assume fun hfields => ?_
    · cases fate
      · exact ⟨.inr (by rw [r.readFields_text (F.valid r hr)]), hb⟩
      · exact ⟨.inl rfl, hb⟩
    rcases hfields with rfl | rfl
    · exact .pure fun b hb =>
        ⟨hb.1, done, r :: todo, hrows, htotal.1 ▸ htotal.2, hb.2⟩
    · refine .bind (copyLine_ensures hr (F.valid r hr) (F.path_ne hrows)) fun total' =>
        .assume fun ht => ih (done ++ [r]) (by simpa using hrows) ⟨?_, ht.2⟩
      rw [ht.1, htotal.1, totalSize_append]
      simp [totalSize]

/-! ## The sums -/

theorem sumMatches_text {tree : Tree} (hv : r.valid = true) :
    sumMatches tree r.text = true ↔ ∃ data, tree r.path = some (.file data) ∧
      sha256 data = r.digest := by
  have hsha := (r.valid_iff.mp hv).2
  have hlen : r.digest.length = 64 := by
    simp only [isSha256Text, Bool.and_eq_true, beq_iff_eq] at hsha
    exact hsha.1
  have htake : r.text.take 64 = r.digest := by
    rw [Row.text, List.append_assoc, List.take_left' hlen]
  have hdrop : r.text.drop 64 = "  ".toList ++ r.target := by
    rw [Row.text, List.append_assoc, List.drop_left' hlen]
  have hname : r.text.drop 66 = r.target := by
    rw [show 66 = 64 + 2 from rfl, ← List.drop_drop, hdrop]
    rfl
  simp only [sumMatches, htake, hdrop, hname, hsha]
  rw [components, ← Row.path]
  rcases tree r.path with _ | o
  · simp
  · cases o <;> simp

/-- When all sums match, the loop has gone through all lines. -/
theorem Stage.all {tree : Tree} {F : FileSet} {todo : List Row}
    (h : Stage bundle F.rows done tree) (hrows : done ++ todo = F.rows)
    (hsums : ∀ r ∈ F.rows, ∃ data, tree r.path = some (.file data) ∧ sha256 data = r.digest) :
    done = F.rows := by
  rcases todo with _ | ⟨r, todo⟩
  · simpa using hrows
  · obtain ⟨data, hf, -⟩ := hsums r (by simp [← hrows])
    exact absurd hf (h.not_file (F.path_ne hrows))

end Azurefin
