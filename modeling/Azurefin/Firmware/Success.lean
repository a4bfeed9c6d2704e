import Azurefin.Firmware.Publication

/-!
# When `provision` adds a bundle

It does so only from a complete source (`provision_complete`), and from a complete source it
does when no operation fails (`provision_goes`).
-/

namespace Azurefin

open Prog Fs

variable {c : Caller} {source : Tree} {temporary store : Nat} {policy : Json}

/-! ## A run that succeeds had a complete source -/

/-- What the copy loop has counted and hashed after the bytes `copied`. -/
def Copied.of (total : Nat) (copied : Bytes) : Copied :=
  ⟨copied.length, total + copied.length, copied⟩

/-- The loop is within the limits when all of `data` has gone through it. -/
theorem copyChunks_returns (output : Nat) {total : Nat} (ht : total ≤ maxTotal) (data : Bytes) :
    Returns ((chunks chunkSize data).foldlM (copyChunk output) ⟨0, total, []⟩)
      fun acc => acc = Copied.of total data ∧ total + data.length ≤ maxTotal := by
  have hdata : (chunks chunkSize data).flatten = data := flatten_chunks (by decide) data
  have loop := Returns.foldlM (f := copyChunk output) (I := fun rest acc => ∃ copied,
    copied ++ rest.flatten = data ∧ acc = Copied.of total copied ∧
      total + copied.length ≤ maxTotal) ?_ (chunks chunkSize data) ⟨[], hdata, rfl, ht⟩
  · intro w acc v h
    obtain ⟨copied, hc, rfl, hle⟩ := loop w acc v h
    obtain rfl : copied = data := by simpa using hc
    exact ⟨rfl, hle⟩
  · rintro chunk rest acc ⟨copied, hc, rfl, hle⟩
    refine .ite (fun _ => .raise) fun hsmall => .bind (.any _) fun _ _ => .pure ?_
    simp only [Copied.of] at hsmall
    refine ⟨copied ++ chunk, by simpa using hc, ?_, ?_⟩
    · simp [Copied.of, Nat.add_assoc]
    · simp only [List.length_append]
      omega

theorem copyEntry_returns {r : Row} {entry : Json} (hd : Describes entry r)
    (hv : r.valid = true) {total : Nat} (ht : total ≤ maxTotal) :
    Returns (copyEntry c source temporary total entry) fun total' =>
      ∃ data, Holds source r data ∧ total' = total + data.length ∧ total' ≤ maxTotal := by
  refine .bind (M := fun target => target = r.target) (.ofExcept fun target h => ?_) ?_
  · rw [hd.1] at h
    exact (Except.ok.inj h).symm
  rintro _ rfl
  refine .bind (.look fun _ directory h => h) fun directory hdir => ?_
  refine .bind (.look fun _ stream h => h) fun stream hopen => ?_
  refine .bind (.look fun _ data h => h) fun data hdata => ?_
  refine .bind (.any _) fun parent _ => .bind (.any _) fun output _ => ?_
  refine .bind (copyChunks_returns output ht data) ?_
  rintro _ ⟨rfl, hle⟩
  refine .bind (M := fun expected => expected = .str r.digest) (.ofExcept fun expected h => ?_) ?_
  · rw [hd.2] at h
    exact (Except.ok.inj h).symm
  rintro _ rfl
  refine .ite (fun _ => .raise) fun hsha => .bind (.any _) fun _ _ => .pure ?_
  have hdigest : sha256 data = r.digest := by
    simpa [Copied.of, Json.eq] using hsha
  exact ⟨data, (holds_iff hv _ data).mpr ⟨hdigest, directory, stream, hdir, hopen, hdata⟩, rfl, hle⟩

theorem totalSize_append (tree : Tree) (rows rows' : List Row) :
    totalSize tree (rows ++ rows') = totalSize tree rows + totalSize tree rows' := by
  simp [totalSize]

/-- A copy that succeeds had a complete source. -/
theorem copyVerified_returns {F : FileSet} (hF : policyRows policy = .ok F.rows) :
    Returns (copyVerified c source temporary policy) fun _ => Complete source F.rows := by
  obtain ⟨entries, hi, hd⟩ := item_files_of_policyRows hF
  refine .bind (.look fun _ _ h => (openDirectory_eq_ok.mp h).2) fun _ hroot => ?_
  refine .bind (M := fun es => es = entries) (.ofExcept fun es h => ?_) ?_
  · rw [hi] at h
    exact (Except.ok.inj h).symm
  rintro es rfl
  refine .bind (.foldlM (I := fun rest total => ∃ done todo, done ++ todo = F.rows ∧
    List.Forall₂ Describes rest todo ∧ (∀ r ∈ done, ∃ data, Holds source r data) ∧
      total = totalSize source done ∧ total ≤ maxTotal) ?_ es
        ⟨[], F.rows, rfl, hd, by simp, rfl, Nat.zero_le _⟩) ?_
  · rintro entry rest total ⟨done, todo, hrows, hd, hdone, htotal, hle⟩
    obtain ⟨r, todo, he, hrest, rfl⟩ := List.forall₂_cons_left_iff.mp hd
    have hv : r.valid = true := F.valid r (by simp [← hrows])
    intro w total' v h
    obtain ⟨data, hh, rfl, hle'⟩ := copyEntry_returns he hv hle w total' v h
    refine ⟨done ++ [r], todo, by simpa using hrows, hrest, ?_, ?_, hle'⟩
    · intro q hq
      rcases List.mem_append.mp hq with hq | hq
      · exact hdone q hq
      · obtain rfl : q = r := by simpa using hq
        exact ⟨data, hh⟩
    · rw [totalSize_append, htotal]
      simp [totalSize, hh.sizeAt_eq]
  · rintro total ⟨done, todo, hrows, hd, hdone, htotal, hle⟩
    obtain rfl := List.forall₂_nil_left_iff.mp hd
    obtain rfl : done = F.rows := by simpa using hrows
    exact .pure ⟨hroot, hdone, htotal ▸ hle⟩

/-! ## A complete source is copied when nothing fails -/

theorem mkdirParents_goes {s : Disk} (h : FoundDir s temporary [] temporary)
    (mode : Nat) (path : Path) (hfree : ∀ x, x <+: path → treeAt s temporary x = none ∨
      IsDirectory (treeAt s temporary) x) :
    ∃ d t, Goes (mkdirParents c mode temporary path) s d t ∧ FoundDir t temporary path d ∧
      Grows (OnTheWay path) (treeAt s temporary) (treeAt t temporary) ∧
      ∀ x, x <+: path → IsDirectory (treeAt t temporary) x :=
  Goes.mkdirParents path h hfree

/-- The state inside the copy loop: `copied` has arrived in the new file. -/
structure Filling (temporary output : Nat) (path : Path) (before : Tree) (copied : Bytes)
    (s : Disk) : Prop where
  lt : temporary < s.next
  kind : s.kind output = .file
  data : s.data output = copied
  only : ∀ p, s.view.resolve temporary p = some output ↔ p = path
  tree : treeAt s temporary = Function.update before path (some (.file copied))

theorem Filling.created {s t : Disk} {d : Nat} {q : Path} {n : Text} (ht : temporary < s.next)
    (hq : s.view.resolve temporary q = some d) (hc : Created s d n .file t) :
    Filling temporary s.next (q ++ [n]) (treeAt s temporary) [] t := by
  refine ⟨by have := hc.next; omega, by rw [hc.kind, Function.update_self],
    by rw [hc.data, Function.update_self], fun p => ?_, hc.tree ht hq⟩
  rw [hc.resolve ht hq]
  by_cases hp : p = q ++ [n]
  · simp [hp]
  · simp only [hp, if_false, iff_false]
    intro h
    have := resolve_lt_next ht h
    omega

theorem Filling.append {s : Disk} {output : Nat} {path : Path} {before : Tree} {copied : Bytes}
    (h : Filling temporary output path before copied s) (chunk : Bytes) :
    Filling temporary output path before (copied ++ chunk) (s.append output chunk) := by
  have hres : ∀ p, (s.append output chunk).view.resolve temporary p =
      s.view.resolve temporary p := fun p =>
    (View.resolve_congr (v := s.view) (w := (s.append output chunk).view) (fun _ => True)
      (fun _ _ _ _ _ _ => trivial) (fun _ _ => rfl) (fun _ _ _ => rfl) trivial p).1
  refine ⟨h.lt, h.kind, by simp [Fs.append, h.data], fun p => by rw [hres, h.only], ?_⟩
  funext p
  rw [treeAt, Fs.append, write_tree h.kind, h.data]
  by_cases hp : p = path
  · rw [if_pos ((h.only p).mpr hp), hp, Function.update_self]
  · rw [if_neg fun hr => hp ((h.only p).mp hr), Function.update_of_ne hp]
    exact (congrFun h.tree p).trans (Function.update_of_ne hp _ _)

/-- The invariant of the copy loop: with the chunks in `rest`, the data is whole. -/
def CopyLoop (temporary output total : Nat) (path : Path) (before : Tree) (data : Bytes)
    (rest : List Bytes) (acc : Copied) (s : Disk) : Prop :=
  ∃ copied, copied ++ rest.flatten = data ∧ acc = Copied.of total copied ∧
    Filling temporary output path before copied s

theorem copyChunk_goes {output total : Nat} {path : Path} {before : Tree} {data chunk : Bytes}
    {rest : List Bytes} {acc : Copied} {s : Disk} (hsize : data.length ≤ maxFile)
    (htotal : total + data.length ≤ maxTotal)
    (h : CopyLoop temporary output total path before data (chunk :: rest) acc s) :
    ∃ acc' t, Goes (copyChunk output acc chunk) s acc' t ∧
      CopyLoop temporary output total path before data rest acc' t := by
  obtain ⟨copied, hc, rfl, hf⟩ := h
  have hlen : copied.length + chunk.length ≤ data.length := by
    rw [← hc]
    simp only [List.flatten_cons, List.length_append]
    omega
  refine ⟨Copied.of total (copied ++ chunk), _, ?_, copied ++ chunk, by simpa using hc, rfl,
    hf.append chunk⟩
  have hsmall : ¬ (copied.length + chunk.length > maxFile ∨
      total + copied.length + chunk.length > maxTotal) := by omega
  simp only [copyChunk, Copied.of, hsmall, if_false]
  refine .bind (.appendCall output chunk) ?_
  simpa [Copied.of, Nat.add_assoc] using Goes.pure (Copied.of total (copied ++ chunk)) _

theorem copyChunks_goes {output total : Nat} {path : Path} {before : Tree} {data : Bytes}
    (hsize : data.length ≤ maxFile) (htotal : total + data.length ≤ maxTotal) {s : Disk}
    (h : Filling temporary output path before [] s) :
    ∃ t, Goes ((chunks chunkSize data).foldlM (copyChunk output) ⟨0, total, []⟩) s
      (Copied.of total data) t ∧ Filling temporary output path before data t := by
  have hdata : (chunks chunkSize data).flatten = data := flatten_chunks (by decide) data
  obtain ⟨acc, t, hgo, copied, hc, rfl, hf⟩ := Goes.foldlM (f := copyChunk output)
    (I := CopyLoop temporary output total path before data)
    (fun _ _ _ _ h => copyChunk_goes hsize htotal h) (chunks chunkSize data) ⟨[], hdata, rfl, h⟩
  obtain rfl : copied = data := by simpa using hc
  exact ⟨t, hgo, hf⟩

/-- What the copy of the row `r` adds to the tree. -/
def Copies (r : Row) (data : Bytes) (p : Path) (o : Obj UInt8 Attr) : Prop :=
  OnTheWay r.path.dropLast p o ∨ p = r.path ∧ o = .file data

theorem copyEntry_goes {r : Row} {entry : Json} (hd : Describes entry r) (hv : r.valid = true)
    {data : Bytes} (hr : Holds source r data) {total : Nat}
    (htotal : total + data.length ≤ maxTotal) {s : Disk} (ht : temporary < s.next)
    (hroot : IsDirectory (treeAt s temporary) [])
    (hfree : ∀ q, q <+: r.path.dropLast → treeAt s temporary q = none ∨
      IsDirectory (treeAt s temporary) q) (habs : treeAt s temporary r.path = none) :
    ∃ t, Goes (copyEntry c source temporary total entry) s (total + data.length) t ∧
      temporary < t.next ∧ Grows (Copies r data) (treeAt s temporary) (treeAt t temporary) ∧
      treeAt t temporary r.path = some (.file data) ∧
      ∀ q, q <+: r.path.dropLast → IsDirectory (treeAt t temporary) q := by
  obtain ⟨hsha, directory, stream, hdir, hopen, hbound⟩ := (holds_iff hv
    "Invalid firmware file type/size" data).mp hr
  have hne := ((isCanonicalTarget_iff _).mp (r.valid_iff.mp hv).1).2.2.2.1
  have hpath : r.path.dropLast ++ [(PurePosixPath.ofText r.target).name] = r.path :=
    PurePosixPath.dropLast_append_name hne
  have htext : (entry.item "target".toList >>= Json.text) = .ok r.target := by
    rw [hd.1]
    rfl
  -- the directories
  have start : FoundDir s temporary [] temporary := ⟨ht, rfl, isDir_of_isDirectory hroot rfl⟩
  obtain ⟨parent, s₁, hmk, hp, hg, hdirs⟩ := mkdirParents_goes (c := c) start 0o777
    r.path.dropLast hfree
  -- the file
  have hnone : treeAt s₁ temporary r.path = none := by
    rcases ho : treeAt s₁ temporary r.path with _ | o
    · rfl
    · rcases hg.2 _ o ho with h | ⟨h, -⟩
      · simp [habs] at h
      · have := h.length_le
        have hpos : 0 < r.path.length := List.length_pos_iff.mpr hne
        simp only [List.length_dropLast] at this
        omega
  have habs₁ : s₁.lookup parent (PurePosixPath.ofText r.target).name = none := by
    have h := hnone
    rw [treeAt, View.tree_eq_none, ← hpath, resolve_concat, hp.resolve] at h
    simpa [hp.dir] using h
  obtain ⟨s₂, hc'⟩ := create_of_absent .file hp.lt_next hp.dir habs₁
  obtain ⟨-, hc⟩ := create_ok hc'
  have hfill := Filling.created hp.lt hp.resolve hc
  rw [hpath] at hfill
  -- its data
  obtain ⟨s₃, hcopy, hf⟩ := copyChunks_goes hr.size_le htotal hfill
  have hgrow : Grows (Copies r data) (treeAt s temporary) (treeAt s₃ temporary) := by
    refine (hg.mono fun p o h => .inl h).trans ?_
    rw [hf.tree]
    exact .update hnone (.inr ⟨rfl, rfl⟩)
  refine ⟨s₃.syncFile s₁.next, ?_, hf.lt, hgrow, ?_, fun q hq => ?_⟩
  · refine .bind (.ofExcept htext s) ?_
    refine .bind (.look hdir) (.bind (.look hopen) (.bind (.look hbound) ?_))
    refine .bind hmk (.bind (.call hc') (.bind hcopy ?_))
    refine .bind (.ofExcept hd.2 s₃) ?_
    have hgood : ¬ ((Copied.of total data).size ≠ data.length ∨
        (!(Json.str (sha256 (Copied.of total data).hashed)).eq (.str r.digest)) = true) := by
      simp [Copied.of, Json.eq, hsha]
    rw [if_neg hgood]
    exact .bind (.fsyncCall _) (.pure _ _)
  · change treeAt s₃ temporary r.path = _
    rw [hf.tree, Function.update_self]
  · have hgrow₃ : Grows (Copies r data) (treeAt s₁ temporary) (treeAt s₃ temporary) := by
      rw [hf.tree]
      exact .update hnone (.inr ⟨rfl, rfl⟩)
    exact hgrow₃.isDirectory (hdirs q hq)

/-- The tree holds the files of the rows `done`, as the source has them, and the directories
they need. -/
structure Mirrors (source : Tree) (done : List Row) (tree : Tree) : Prop where
  root : IsDirectory tree []
  holds : ∀ r ∈ done, ∃ data, Holds source r data ∧ Holds tree r data
  shape : ∀ p o, tree p = some o →
    (∃ r ∈ done, p = r.path) ∨ ∃ a, o = .dir a ∧ IsDirectory source p
  way : ∀ p o, tree p = some o → p = [] ∨ ∃ r ∈ done, p <+: r.path

/-- What the source has under the path of a row is not a directory. -/
theorem Holds.not_isDirectory {tree : Tree} {r : Row} {data : Bytes} (h : Holds tree r data) :
    ¬ IsDirectory tree r.path := by
  rintro ⟨a, ha⟩
  simp [h.file] at ha

theorem Holds.isDirectory_source {r : Row} {data : Bytes} (h : Holds source r data)
    (hroot : IsDirectory source []) {p : Path} (hp : p <+: r.path.dropLast) :
    IsDirectory source p := by
  by_cases hne : p = []
  · exact hne ▸ hroot
  · exact h.parents p hne hp

theorem Mirrors.free {done : List Row} {tree : Tree} (h : Mirrors source done tree) {r : Row}
    {data : Bytes} (hr : Holds source r data) (hnew : ∀ q ∈ done, q.path ≠ r.path) :
    tree r.path = none := by
  rcases ho : tree r.path with _ | o
  · rfl
  · rcases h.shape _ o ho with ⟨q, hq, hp⟩ | ⟨a, -, hd⟩
    · exact absurd hp.symm (hnew q hq)
    · exact absurd hd hr.not_isDirectory

theorem Mirrors.open_way {done : List Row} {tree : Tree} (h : Mirrors source done tree) {r : Row}
    {data : Bytes} (hr : Holds source r data) (hroot : IsDirectory source []) {p : Path}
    (hp : p <+: r.path.dropLast) : tree p = none ∨ IsDirectory tree p := by
  rcases ho : tree p with _ | o
  · exact .inl rfl
  · rcases h.shape p o ho with ⟨q, hq, rfl⟩ | ⟨a, rfl, -⟩
    · obtain ⟨data', hs, -⟩ := h.holds q hq
      exact absurd (hr.isDirectory_source hroot hp) hs.not_isDirectory
    · exact .inr ⟨a, ho⟩

theorem Mirrors.add {done : List Row} {tree tree' : Tree} (h : Mirrors source done tree)
    {r : Row} {data : Bytes} (hr : Holds source r data) (hroot : IsDirectory source [])
    (hg : Grows (Copies r data) tree tree') (hf : tree' r.path = some (.file data))
    (hdirs : ∀ q, q <+: r.path.dropLast → IsDirectory tree' q) :
    Mirrors source (done ++ [r]) tree' := by
  refine ⟨hg.isDirectory h.root, fun q hq => ?_, fun p o hp => ?_, fun p o hp => ?_⟩
  · rcases List.mem_append.mp hq with hq | hq
    · obtain ⟨data', hs, ht⟩ := h.holds q hq
      exact ⟨data', hs, fun x hx hpre => hg.isDirectory (ht.parents x hx hpre), hg.1 _ _ ht.file,
        ht.size_pos, ht.size_le, ht.digest⟩
    · obtain rfl : q = r := by simpa using hq
      exact ⟨data, hr, fun x _ hpre => hdirs x hpre, hf, hr.size_pos, hr.size_le, hr.digest⟩
  · rcases hg.2 p o hp with hold | ⟨hway, a, rfl⟩ | ⟨rfl, rfl⟩
    · rcases h.shape p o hold with ⟨q, hq, he⟩ | hd
      · exact .inl ⟨q, by simp [hq], he⟩
      · exact .inr hd
    · exact .inr ⟨a, rfl, hr.isDirectory_source hroot hway⟩
    · exact .inl ⟨r, by simp, rfl⟩
  · rcases hg.2 p o hp with hold | ⟨hway, -⟩ | ⟨rfl, -⟩
    · exact (h.way p o hold).imp id fun ⟨q, hq, hpre⟩ => ⟨q, by simp [hq], hpre⟩
    · exact .inr ⟨r, by simp, hway.trans (List.dropLast_prefix _)⟩
    · exact .inr ⟨r, by simp, List.prefix_refl _⟩

/-- A tree that mirrors a complete source is complete. -/
theorem Mirrors.complete {rows : List Row} {tree : Tree} (h : Mirrors source rows tree)
    (hs : Complete source rows) : Complete tree rows := by
  have hsize : ∀ r ∈ rows, sizeAt tree r = sizeAt source r := by
    intro r hr
    obtain ⟨data, hsrc, ht⟩ := h.holds r hr
    rw [hsrc.sizeAt_eq, ht.sizeAt_eq]
  refine ⟨h.root, fun r hr => ?_, ?_⟩
  · obtain ⟨data, -, ht⟩ := h.holds r hr
    exact ⟨data, ht⟩
  · rw [totalSize, List.map_congr_left hsize]
    exact hs.total

/-- The rows of a file set have different paths. -/
theorem FileSet.path_ne (F : FileSet) {done todo : List Row} {r : Row}
    (h : done ++ r :: todo = F.rows) : ∀ q ∈ done, q.path ≠ r.path := by
  intro q hq hp
  have target : ∀ x ∈ F.rows, List.intercalate "/".toList x.path = x.target := by
    intro x hx
    obtain ⟨-, habs, -, hne, hstr⟩ := (isCanonicalTarget_iff _).mp (x.valid_iff.mp (F.valid x hx)).1
    rw [PurePosixPath.str, if_neg (by rw [PurePosixPath.parts_eq_names habs]; exact hne),
      PurePosixPath.root_eq_nil habs] at hstr
    exact hstr
  have hsame : q.target = r.target := by
    rw [← target q (by simp [← h, hq]), ← target r (by simp [← h]), hp]
  have hn := F.nodup
  rw [← h, List.map_append, List.map_cons] at hn
  exact List.disjoint_of_nodup_append hn (List.mem_map_of_mem hq) (by simp [hsame])

/-- The invariant of the loop over the entries. -/
def CopiedRows (source : Tree) (temporary : Nat) (rows : List Row) (rest : List Json)
    (total : Nat) (s : Disk) : Prop :=
  ∃ done todo, done ++ todo = rows ∧ List.Forall₂ Describes rest todo ∧
    total = totalSize source done ∧ temporary < s.next ∧ Mirrors source done (treeAt s temporary)

theorem copyVerified_goes {F : FileSet} (hF : policyRows policy = .ok F.rows)
    (hs : Complete source F.rows) {s : Disk} (ht : temporary < s.next)
    (hempty : Mirrors source [] (treeAt s temporary)) :
    ∃ t, Goes (copyVerified c source temporary policy) s () t ∧
      Mirrors source F.rows (treeAt t temporary) := by
  obtain ⟨entries, hi, hd⟩ := item_files_of_policyRows hF
  have step : ∀ entry rest total s, CopiedRows source temporary F.rows (entry :: rest) total s →
      ∃ total' t, Goes (copyEntry c source temporary total entry) s total' t ∧
        CopiedRows source temporary F.rows rest total' t := by
    rintro entry rest total s ⟨done, todo, hrows, hd, rfl, hlt, hm⟩
    obtain ⟨r, todo, he, hrest, rfl⟩ := List.forall₂_cons_left_iff.mp hd
    have hmem : r ∈ F.rows := by simp [← hrows]
    obtain ⟨data, hr⟩ := hs.files r hmem
    have hsum : totalSize source done + data.length ≤ maxTotal := by
      have := hs.total
      rw [← hrows, totalSize_append] at this
      simp only [totalSize, List.map_cons, List.sum_cons, hr.sizeAt_eq] at this ⊢
      omega
    obtain ⟨t, hgo, hlt', hg, hf, hdirs⟩ := copyEntry_goes he (F.valid r hmem) hr hsum hlt hm.root
      (fun q hq => hm.open_way hr hs.root hq) (hm.free hr (F.path_ne hrows))
    refine ⟨_, t, hgo, done ++ [r], todo, by simpa using hrows, hrest, ?_, hlt',
      hm.add hr hs.root hg hf hdirs⟩
    rw [totalSize_append]
    simp [totalSize, hr.sizeAt_eq]
  obtain ⟨total, t, hgo, done, todo, hrows, hnil, -, -, hm⟩ :=
    Goes.foldlM (I := CopiedRows source temporary F.rows) step entries
      (a := 0) (s := s) ⟨[], F.rows, rfl, hd, rfl, ht, hempty⟩
  obtain rfl := List.forall₂_nil_left_iff.mp hnil
  obtain rfl : done = F.rows := by simpa using hrows
  refine ⟨t, ?_, hm⟩
  have hes : (policy.item "files".toList >>= Json.elements) = .ok entries := by
    rw [hi]
    rfl
  refine .bind (.look (openDirectory_eq_ok.mpr ⟨rfl, hs.root⟩)) ?_
  exact .bind (.ofExcept hes s) (.bind hgo (.pure _ _))

/-! ## The whole of `provision` -/

theorem publish_goes {F : FileSet} (hF : policyRows policy = .ok F.rows)
    (hs : Complete source F.rows) {s₀ s : Disk} {name bundleId : Text} {attr : Attr}
    (hid : isSha256Text bundleId = true) (hname : isSha256Text name = false)
    (habs : s₀.lookup store bundleId = none)
    (h : Copying s₀ store name attr temporary (fun _ => False) s)
    (hempty : Mirrors source [] (treeAt s temporary)) :
    ∃ t, Goes (publish c source store policy bundleId name temporary) s () t ∧
      t.lookup store bundleId = some temporary ∧ Mirrors source F.rows (treeAt t temporary) := by
  obtain ⟨s₁, hcopy, hm⟩ := copyVerified_goes (c := c) hF hs h.1.lt hempty
  have h₁ := hcopy.ensures copyVerified_ensures h
  obtain ⟨out, hout⟩ := (inventory_ok_iff hF).mpr (hm.complete hs)
  obtain ⟨s₂, hsync, hl, htree⟩ := Goes.forM (f := syncDirectory)
    (I := fun s => s.lookup = s₁.lookup ∧ treeAt s temporary = treeAt s₁ temporary)
    (fun d s hs => ⟨_, .fsyncDirCall d, hs⟩) (s₁.dirsBelow s₁.next temporary) ⟨rfl, rfl⟩
  have hne : bundleId ≠ name := by
    rintro rfl
    simp [hname] at hid
  have hfrom : s₂.lookup store name = some temporary := by rw [hl, h₁.1.lookup, if_pos rfl]
  have hto : s₂.lookup store bundleId = none := by rw [hl, h₁.1.lookup, if_neg hne, habs]
  obtain ⟨s₃, hrename, hrenamed⟩ := rename_of_absent hfrom hto
  have hmove : Goes (renameCall PyError.osError store name bundleId) s₂ () s₃ :=
    .call (by rw [hrename]; rfl)
  have hgo : Goes (publish c source store policy bundleId name temporary) s () (s₃.syncDir store) :=
    .bind hcopy (.bind (.look hout) (.bind (.observe _ _) (.bind hsync (.bind hmove (.fsyncDirCall store)))))
  -- the bundle is the directory that was filled
  have hsame : SameOn (fun j => store < j) s₂ (s₃.syncDir store) :=
    (SameOn.renamed hrenamed (by omega)).trans (SameOn.syncDir (by omega))
  have hbelow : treeAt (s₃.syncDir store) temporary = treeAt s₂ temporary :=
    hsame.tree (lookup_lt hfrom).1 fun j n k hj hk => Nat.lt_trans hj (lookup_lt hk).1
  refine ⟨s₃.syncDir store, hgo, ?_, by rwa [hbelow, htree]⟩
  rw [syncDir_lookup, hrenamed.lookup, if_pos rfl, if_pos rfl]

/-- A new directory mirrors any source of which nothing has been copied. -/
theorem mirrors_created {s₀ s : Disk} {d : Nat} {n : Text} {attr : Attr}
    (hc : Created s₀ d n (.dir attr) s) (hroot : IsDirectory source []) :
    Mirrors source [] (treeAt s s₀.next) := by
  have hnil : ∀ p o, treeAt s s₀.next p = some o → p = [] ∧ o = .dir attr := by
    intro p o hp
    rw [treeAt, hc.tree_next] at hp
    split at hp
    case isTrue hnil => exact ⟨hnil, (Option.some.inj hp).symm⟩
    case isFalse => cases hp
  refine ⟨⟨attr, hc.tree_next []⟩, by simp, fun p o hp => .inr ?_, fun p o hp => .inl (hnil p o hp).1⟩
  obtain ⟨rfl, rfl⟩ := hnil p o hp
  exact ⟨attr, rfl, hroot⟩

/-- A name that is taken is passed over. -/
theorem mkdtemp_goes {s₀ : Disk} (hlt : store < s₀.next) (hdir : (s₀.kind store).isDir = true) {draws : List Text}
    (hfree : ∃ draw ∈ draws, s₀.lookup store (temporaryName draw) = none) :
    ∃ draw s, Goes (mkdtemp c store draws) s₀ (temporaryName draw, s₀.next) s ∧
      Created s₀ store (temporaryName draw) (.dir (c.attr 0o700)) s := by
  induction draws with
  | nil => simp at hfree
  | cons draw draws ih =>
    cases htaken : s₀.lookup store (temporaryName draw) with
    | none =>
      obtain ⟨s, hcreate⟩ := create_of_absent (.dir (c.attr 0o700)) hlt hdir htaken
      exact ⟨draw, s, .orElse (.bind (.call hcreate) (.pure _ _)), (create_ok hcreate).2⟩
    | some i =>
      obtain ⟨draw', s, hgo, hcreated⟩ := ih (by grind)
      have hexist := create_of_present (.dir (c.attr 0o700)) hlt hdir htaken
      refine ⟨draw', s, Goes.orElse_raised (e := .osError .exist) (t := s₀) (fun rest => ?_) hgo, hcreated⟩
      rw [Act.bind_of_error]
      simp only [createCall, call, Prog.step, hexist]

/-- **`provision` succeeds** from a complete source when no operation fails, the store does not
have the bundle, and a name drawn is free. -/
theorem provision_goes {F : FileSet} (hF : policyRows policy = .ok F.rows)
    (hs : Complete source F.rows) {s₀ : Disk} (hlt : store < s₀.next)
    (hdir : (s₀.kind store).isDir = true) {contents : Bytes}
    (hm : manifest policy = .ok contents) (habs : s₀.lookup store (sha256 contents) = none)
    (hfree : ∃ draw ∈ c.draws, s₀.lookup store (temporaryName draw) = none) :
    ∃ t i, Goes (provision c source (some store) policy) s₀ (sha256 contents) t ∧
      t.lookup store (sha256 contents) = some i ∧ Mirrors source F.rows (treeAt t i) := by
  obtain ⟨draw, s, hmk, hcreated⟩ := mkdtemp_goes (c := c) hlt hdir hfree
  have hcopying : Copying s₀ store (temporaryName draw) (c.attr 0o700) s₀.next
      (fun _ => False) s := (hmk.ensures (mkdtemp_ensures c.draws) rfl).2.2
  have hempty : Mirrors source [] (treeAt s s₀.next) := mirrors_created hcreated hs.root
  have hid := isSha256Text_sha256 contents
  have hname := isSha256Text_temporaryName draw
  obtain ⟨t, hpub, hfound, hmirrors⟩ := publish_goes (c := c) hF hs hid hname habs hcopying hempty
  have hgone := (hpub.ensures (publish_ensures hid hname habs) hcopying).2
  have hclean : Goes (removeTemporary store (temporaryName draw)) t () t := by
    refine .bind (.observe _ t) ?_
    simp only [hgone]
    exact .pure () t
  refine ⟨t, s₀.next, .bind (.ofExcept hm s₀) (.bind (.look (a := store) (by simp [openStore, hdir])) ?_),
    hfound, hmirrors⟩
  refine .bind (.look (a := none) (by rw [habs])) (.bind hmk ?_)
  exact .bind (.withCleanup hpub hclean) (.pure _ _)

/-- A name that was drawn was free. -/
theorem mkdtemp_free {s₀ : Disk} {draws : List Text} :
    Ensures (· = s₀) (mkdtemp c store draws)
      (fun _ _ => ∃ draw ∈ draws, s₀.lookup store (temporaryName draw) = none) (fun _ => (· = s₀))
      (fun _ => True) := by
  induction draws with
  | nil => exact .raise fun s hs => hs
  | cons draw draws ih =>
    refine .orElse (N := fun _ => (· = s₀)) ?_ fun e => ?_
    · refine .bind (M := fun _ _ => s₀.lookup store (temporaryName draw) = none)
        (.createCall (fun _ _ => trivial) (fun s t hs hc => ?_) fun _ s hs => hs)
        fun i => .pure fun _ hfree => ⟨draw, List.mem_cons_self, hfree⟩
      subst hs
      exact hc.absent
    · split
      · refine ih.weaken (fun s hs => hs) (fun _ _ hfree => ?_) (fun _ s hs => hs) fun _ _ => trivial
        obtain ⟨draw', hmem, hfree⟩ := hfree
        exact ⟨draw', List.mem_cons_of_mem _ hmem, hfree⟩
      · exact .raise fun s hs => hs

/-- **`provision` adds a bundle only from a complete source**, and has drawn a free name for it. -/
theorem provision_complete {F : FileSet} (hF : policyRows policy = .ok F.rows) {contents : Bytes}
    (hm : manifest policy = .ok contents) {s₀ : Disk} (habs : s₀.lookup store (sha256 contents) = none) :
    Ensures (· = s₀) (provision c source (some store) policy)
      (fun _ _ => Complete source F.rows ∧
        ∃ draw ∈ c.draws, s₀.lookup store (temporaryName draw) = none)
      (fun _ _ => True) (fun _ => True) := by
  refine lookup_ensures trivial (fun _ => trivial) fun contents' hm' => ?_
  obtain rfl : contents' = contents := Except.ok.inj (hm'.symm.trans hm)
  rw [habs]
  refine .bind (mkdtemp_free.weaken (fun s hs => hs) (fun _ _ hfree => And.intro hfree trivial)
    (fun _ _ _ => trivial) fun _ hs => hs) ?_
  rintro ⟨name, temporary⟩
  refine .assume fun hfree => Returns.ensures ?_
  refine .bind (M := fun _ => Complete source F.rows) ?_ fun _ hs => .pure ⟨hs, hfree⟩
  exact .withCleanup (.bind (copyVerified_returns hF) fun _ hs => fun _ _ _ _ => hs)

end Azurefin
