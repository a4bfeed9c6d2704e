import Azurefin.Firmware.Exposure
import Azurefin.Firmware.Store

/-!
# Which checked stores the loader accepts

`check_bundle` and `validate_mount` pass more than `load-firmware.sh` takes: the loader wants
targets below `qcom/` without two dots in a row, no symlink anywhere in the bundle, and splits
the command line at spaces and tabs only. With these conditions it takes every checked store.

## Main results

* `loadFirmware_goes` — a checked store that meets the conditions is exposed.
-/

namespace Azurefin

open Prog Fs Shell

variable {env : Environment} {mount : Mount} {store : Path} {c : Caller} {r : Row}
  {done todo : List Row} {o : Option Nat} {name : Text} {temporary : Nat}

/-! ## Commands -/

theorem command_goes (b : Boot) : Goes command b () b := .look rfl

theorem asking_goes {α : Type} {x : Except Status α} {a : α} (h : x = .ok a) (b : Boot) :
    Goes (asking x) b a b := .look h

theorem onRun_goes {α : Type} {p : Prog Disk Status α} {b : Boot} {a : α} {t : Disk}
    (h : Goes p b.run a t) : Goes (onRun p) b a { b with run := t } := .zoom h

/-- Where a loop with the arguments `rest` to come will find the UUID. -/
theorem bootArguments_goes {words : List Text} {uuid : Text} (h : uuidValues words = [uuid])
    (huuid : isUuidText uuid = true) (b : Boot) :
    Goes (words.foldlM bootArgument []) b uuid b := by
  have step : ∀ argument rest u t,
      t = b ∧ (u = [] ∧ uuidValues (argument :: rest) = [uuid] ∨
        u = uuid ∧ uuidValues (argument :: rest) = []) →
      ∃ v t', Goes (bootArgument u argument) t v t' ∧
        t' = b ∧ (v = [] ∧ uuidValues rest = [uuid] ∨ v = uuid ∧ uuidValues rest = []) := by
    rintro argument rest u t ⟨rfl, hu⟩
    by_cases hc : uuidArgument.isPrefixOf argument = true
    · rcases hu with ⟨rfl, hrest⟩ | ⟨rfl, hrest⟩
      · obtain ⟨rfl, hlast⟩ : afterFirst '=' argument = uuid ∧ uuidValues rest = [] := by
          simpa [uuidValues, hc] using hrest
        refine ⟨_, t, ?_, rfl, .inr ⟨rfl, hlast⟩⟩
        rw [bootArgument, if_pos hc, if_neg (by simp)]
        exact .bind (.require huuid t) (.pure _ t)
      · simp [uuidValues, hc] at hrest
    · refine ⟨u, t, ?_, rfl, ?_⟩
      · rw [bootArgument, if_neg hc]
        exact .pure u t
      · simpa [uuidValues, hc] using hu
  have loop := Goes.foldlM (f := bootArgument) (I := fun rest u t => t = b ∧
    (u = [] ∧ uuidValues rest = [uuid] ∨ u = uuid ∧ uuidValues rest = [])) step words
      (a := []) (s := b) ⟨rfl, .inl ⟨rfl, h⟩⟩
  obtain ⟨u, t, hgo, rfl, ⟨-, hnil⟩ | ⟨rfl, -⟩⟩ := loop
  · cases hnil
  · exact hgo

theorem findDevice_goes {uuid : Text} {left : Nat}
    (h : ∃ attempt, 20 - left ≤ attempt ∧ attempt < 20 ∧ env.blkid attempt uuid ≠ []) (b : Boot) :
    ∃ attempt, env.blkid attempt uuid ≠ [] ∧
      Goes (findDevice env uuid left) b (env.blkid attempt uuid) b := by
  induction left with
  | zero =>
    obtain ⟨attempt, hle, hlt, -⟩ := h
    omega
  | succ left ih =>
    by_cases hnow : env.blkid (20 - (left + 1)) uuid ≠ []
    · refine ⟨_, hnow, .bind (.step rfl) ?_⟩
      rw [if_pos hnow]
      exact .pure _ b
    · obtain ⟨attempt, hle, hlt, hsome⟩ := h
      have hne : attempt ≠ 20 - (left + 1) := by
        rintro rfl
        exact hnow hsome
      obtain ⟨found, hfound, hgo⟩ := ih ⟨attempt, by omega, hlt, hsome⟩
      refine ⟨found, hfound, .bind (.step rfl) ?_⟩
      rw [if_neg hnow]
      exact .bind (command_goes b) hgo

theorem mktemp_goes {template draw : Text} {draws : List Text} (hc : c.draws = draw :: draws)
    {s : Disk} (hlt : 0 < s.next) (hdir : (s.kind 0).isDir = true)
    (hfree : s.lookup 0 (template ++ draw) = none) :
    ∃ t, Goes (mktemp c template) s (template ++ draw, s.next) t ∧
      Created s 0 (template ++ draw) (.dir (c.attr 0o700)) t := by
  obtain ⟨t, ht⟩ := create_of_absent (.dir (c.attr 0o700)) hlt hdir hfree
  refine ⟨t, ?_, (create_ok ht).2⟩
  rw [mktemp, hc, List.map_cons]
  exact .makeTemporary ht

/-! ## The boot file system -/

/-- No symlink is on the way to the bundle or in it. -/
def NoLinks (mount : Mount) (store : Path) : Prop :=
  ∀ p, p <+: store ∨ store <+: p → mount.tree p ≠ some .symlink

theorem NoLinks.lstat_eq (h : NoLinks mount store) {p : Path} (hp : p <+: store ∨ store <+: p) :
    mount.lstat p = mount.tree p := by
  refine mount.lstat_eq p fun q hq _ => h q ?_
  rcases hp with hp | hp
  · exact .inl (hq.trans hp)
  · exact List.prefix_or_prefix_of_prefix hq hp

theorem NoLinks.stat_eq (h : NoLinks mount store) {p : Path} (hp : p <+: store ∨ store <+: p) :
    mount.stat p = mount.tree p := by
  have hl := h.lstat_eq hp
  rw [mount.stat_eq p (hl ▸ h p hp), hl]

theorem NoLinks.below (h : NoLinks mount store) : mount.below store = subtree mount.tree store :=
  funext fun _ => h.lstat_eq (.inr (List.prefix_append ..))

/-- The directories of a checked store are no symlinks. -/
theorem Holding.noLinks {bundleId : Text} {rows : List Row}
    (h : Holding mount.tree bundleId rows)
    (hlinks : ∀ p, bundlePath bundleId <+: p → mount.tree p ≠ some .symlink) :
    NoLinks mount (bundlePath bundleId) := by
  rintro p (hp | hp)
  · have real : ∀ {q}, IsTrusted mount.tree q → mount.tree q ≠ some .symlink := by
      rintro q ⟨a, ha, -⟩
      simp [ha]
    rcases List.prefix_cons_iff.mp hp with rfl | ⟨q₁, rfl, h₁⟩
    · exact real h.root
    rcases List.prefix_cons_iff.mp h₁ with rfl | ⟨q₂, rfl, h₂⟩
    · exact real h.azurefin
    rcases List.prefix_cons_iff.mp h₂ with rfl | ⟨q₃, rfl, h₃⟩
    · exact real h.store
    obtain rfl := List.prefix_nil.mp h₃
    exact real h.bundle
  · exact hlinks p hp

/-- A file of a complete tree is on the way to no other one. -/
theorem Complete.apart {tree : Tree} {rows : List Row} (h : Complete tree rows) {q : Row}
    (hq : q ∈ rows) (hr : r ∈ rows) : ¬ q.path <+: r.path.dropLast := by
  intro hp
  obtain ⟨data, hd⟩ := h.files q hq
  obtain ⟨data', hd'⟩ := h.files r hr
  exact hd.not_isDirectory (hd'.isDirectory_source h.root hp)

/-! ## The copies -/

/-- A target that the script takes. -/
structure Loadable (r : Row) : Prop where
  qcom : "qcom/".toList <+: r.target
  dots : ¬ "..".toList <:+: r.target

/-- A canonical target has no empty component. -/
theorem Row.slashes (hv : r.valid = true) : ¬ "//".toList <:+: r.target := by
  rintro ⟨u, v, h⟩
  have hsplit : r.target.splitOn '/' = u.splitOn '/' ++ [] :: v.splitOn '/' := by
    have heq : r.target = u ++ '/' :: '/' :: v := by
      rw [← h]
      simp
    rw [heq, List.splitOn_append_cons_self]
    exact congrArg _ (List.splitOn_append_cons_self_of_not_mem (List.not_mem_nil (a := '/')) v)
  have hmem : [] ∈ r.path := by
    rw [← r.splitOn_target hv, hsplit]
    simp
  have := (List.mem_filter.mp hmem).2
  simp at this

/-- The directory of the next file can be made. -/
theorem Stage.open_way {bundle tree : Tree} {rows : List Row} (h : Stage bundle rows done tree)
    (hdone : ∀ q ∈ done, q ∈ rows) (hs : Complete bundle rows) (hr : r ∈ rows) {p : Path}
    (hp : p <+: r.path.dropLast) : tree p = none ∨ IsDirectory tree p := by
  rcases ho : tree p with _ | x
  · exact .inl rfl
  · rcases h.shape p x ho with ⟨q, hq, rfl⟩ | ⟨q, -, -, a, rfl⟩
    · exact absurd hp (hs.apart (hdone q hq) hr)
    · exact .inr ⟨a, ho⟩

/-- Nothing is where the next file goes. -/
theorem Stage.free {bundle tree : Tree} {rows : List Row} (h : Stage bundle rows done tree)
    (hs : Complete bundle rows) (hr : r ∈ rows) (hnew : ∀ q ∈ done, q.path ≠ r.path) :
    tree r.path = none := by
  rcases ho : tree r.path with _ | x
  · rfl
  · rcases h.shape _ x ho with ⟨q, hq, hp⟩ | ⟨q, hq, hp, -⟩
    · exact absurd hp.symm (hnew q hq)
    · exact absurd hp (hs.apart hr hq)

theorem openOutput_goes {s : Disk} {d : Nat} (hne : r.path ≠ []) (hfree : treeAt s temporary r.path = none)
    (hd : FoundDir s temporary r.path.dropLast d) :
    ∃ output t, Goes (openOutput temporary r.path) s output t := by
  have hpath : r.path.dropLast ++ [r.path.getLast?.getD []] = r.path := by
    rw [List.getLast?_eq_some_getLast hne]
    exact List.dropLast_append_getLast hne
  have habs : s.lookup d (r.path.getLast?.getD []) = none := by
    rw [treeAt, View.tree_eq_none, ← hpath, resolve_concat, hd.resolve] at hfree
    simpa [hd.dir] using hfree
  obtain ⟨t, ht⟩ := create_of_absent .file hd.lt_next hd.dir habs
  refine ⟨s.next, t, .call ?_⟩
  simp [hd.resolve, habs, ht]

/-- A row of a complete bundle is copied. -/
theorem copyLine_goes {F : FileSet} (hs : Complete (mount.below store) F.rows)
    (hrows : done ++ r :: todo = F.rows) (hr : Loadable r) {b : Boot} {total : Nat} (hb : b.searchPath = none)
    (htotal : total + sizeAt (mount.below store) r ≤ maxTotal)
    (h : Staged (mount.below store) F.rows done o name temporary b.run) :
    ∃ t, Goes (copyLine c mount store temporary total r.digest r.target) b
        (total + sizeAt (mount.below store) r) t ∧ t.searchPath = none ∧
      Staged (mount.below store) F.rows (done ++ [r]) o name temporary t.run := by
  have hmem : r ∈ F.rows := by simp [← hrows]
  have hv := F.valid r hmem
  have hne := r.path_ne_nil hv
  obtain ⟨data, hd⟩ := hs.files r hmem
  have hsize : sizeAt (mount.below store) r = data.length := hd.sizeAt_eq
  have hl : mount.lstat (store ++ r.path) = some (.file data) := hd.file
  have hst : mount.stat (store ++ r.path) = some (.file data) := by
    rw [mount.stat_eq _ (by simp [hl]), hl]
  have hslash : '/' ∈ r.target := hr.qcom.subset (by decide +kernel)
  have hcomponents : components r.target = r.path := rfl
  -- the directories and the file
  have hdone : ∀ q ∈ done, q ∈ F.rows := fun q hq => by simp [← hrows, hq]
  obtain ⟨d, s₁, hmk, hfound, -, -⟩ := Goes.mkdirParents (a := c.attr 0o777)
    r.path.dropLast h.found fun x hx => by
      simpa [treeAt] using h.stage.open_way hdone hs hmem hx
  have h₁ := (hmk.ensures (mkdirParents_staged hmem) h).1
  obtain ⟨output, s₂, hopen⟩ := openOutput_goes hne
    (h₁.stage.free hs hmem (F.path_ne hrows)) (by simpa using hfound)
  have hgo : ∃ total' t, Goes (copyLine c mount store temporary total r.digest r.target) b
      total' t := by
    refine ⟨total + data.length, { b with run := s₂.append output (data.take 67108865) }, ?_⟩
    refine .bind (.require (r.valid_iff.mp hv).2 b) ?_
    refine .bind (.require ?_ b) (.bind (.require ?_ b) ?_)
    · rw [List.isPrefixOf_iff_prefix.mpr hr.qcom, hasPart, decide_eq_false hr.dots, hasPart,
        decide_eq_false (r.slashes hv)]
      rfl
    · exact ((isCanonicalTarget_iff _).mp (r.valid_iff.mp hv).1).1
    refine .bind (asking_goes (a := ()) ?_ b) (.bind (asking_goes (a := data.length) ?_ b) ?_)
    · simp [hcomponents, isRealFile, hst, hl]
    · simp [hcomponents, sizeOf, hl]
    refine .bind (.require ?_ b) (.bind (.require ?_ b) ?_)
    · simpa using ⟨hd.size_pos, hd.size_le⟩
    · rw [hsize] at htotal
      exact decide_eq_true htotal
    rw [components, r.names_beforeLast hv hslash]
    refine .bind (onRun_goes hmk) (.bind (onRun_goes hopen) ?_)
    refine .bind (asking_goes (a := data) (by simp [hcomponents, openInput, hst]) _) ?_
    exact .bind (onRun_goes (.appendCall output _)) (.pure _ _)
  obtain ⟨total', t, hgo⟩ := hgo
  obtain ⟨⟨rfl, -⟩, ht⟩ := hgo.ensures (copyLine_ensures hmem hv (F.path_ne hrows)) ⟨hb, h⟩
  exact ⟨t, hgo, ht⟩

theorem copyLines_goes {F : FileSet} (hs : Complete (mount.below store) F.rows)
    (hload : ∀ r ∈ F.rows, Loadable r) (todo done : List Row) (hrows : done ++ todo = F.rows)
    {b : Boot} {total : Nat} (hb : b.searchPath = none)
    (htotal : total = totalSize (mount.below store) done)
    (h : Staged (mount.below store) F.rows done o name temporary b.run) :
    ∃ t, Goes (copyLines c mount store temporary total (todo.map Row.text)) b () t ∧
      t.searchPath = none ∧ Staged (mount.below store) F.rows F.rows o name temporary t.run := by
  induction todo generalizing done total b with
  | nil =>
    obtain rfl : done = F.rows := by simpa using hrows
    exact ⟨b, .pure () b, hb, h⟩
  | cons r todo ih =>
    have hmem : r ∈ F.rows := by simp [← hrows]
    have hle : total + sizeAt (mount.below store) r ≤ maxTotal := by
      have := hs.total
      rw [← hrows, totalSize_append] at this
      simp only [totalSize, List.map_cons, List.sum_cons] at this htotal
      omega
    obtain ⟨b₁, hgo, hb₁, h₁⟩ := copyLine_goes (c := c) hs hrows (hload r hmem) hb hle h
    have htotal' : total + sizeAt (mount.below store) r =
        totalSize (mount.below store) (done ++ [r]) := by
      rw [htotal, totalSize_append]
      simp [totalSize]
    obtain ⟨t, hrest, ht⟩ := ih (done ++ [r]) (by simpa using hrows) hb₁ htotal' h₁
    refine ⟨t, ?_, ht⟩
    refine .bind (a := some (r.digest, r.target)) (t := b) (.step ?_) (.bind hgo hrest)
    rw [r.readFields_text (F.valid r hmem)]

/-! ## The script -/

/-- `/run` at the start: there is no runtime directory, and the first names drawn are free. -/
structure FreshRun (c : Caller) (run : Disk) : Prop where
  lt : 0 < run.next
  dir : (run.kind 0).isDir = true
  runtime : run.lookup 0 runtimeName = none
  names : ∃ draw draws, c.draws = draw :: draws ∧ run.lookup 0 (mountTemplate ++ draw) = none ∧
    run.lookup 0 (copyTemplate ++ draw) = none

theorem copyBundle_goes {F : FileSet} (hF : Listing env F)
    (hs : Complete (mount.below store) F.rows) (hload : ∀ r ∈ F.rows, Loadable r) {b : Boot}
    {draw : Text} {draws : List Text} (hc : c.draws = draw :: draws) (hlt : 0 < b.run.next)
    (hdir : (b.run.kind 0).isDir = true) (hfree : b.run.lookup 0 (copyTemplate ++ draw) = none)
    (hb : b.searchPath = none) :
    ∃ name t, Goes (copyBundle c mount store env.manifest.contents) b name t := by
  obtain ⟨r, hr⟩ := List.exists_mem_of_length_pos F.length_pos
  obtain ⟨s, hmk, hcreated⟩ := @mktemp_goes _ copyTemplate _ _ hc _ hlt hdir hfree
  have hstart : Staged (mount.below store) F.rows [] (b.run.lookup 0 runtimeName)
      (copyTemplate ++ draw) b.run.next s := .start hr rfl (copyName_ne draw) hcreated
  obtain ⟨t, hlines, -, ht⟩ := copyLines_goes (c := c) hs hload F.rows []
    rfl (b := { b with run := s }) hb rfl hstart
  have hsums : (F.rows.map Row.text).all (sumMatches (treeAt t.run b.run.next)) = true := by
    refine List.all_eq_true.mpr fun l hl => ?_
    obtain ⟨r, hr, rfl⟩ := List.mem_map.mp hl
    obtain ⟨data, hd, hf⟩ := ht.stage.files r hr
    obtain ⟨data', hd'⟩ := hs.files r hr
    obtain rfl : data = data' := by simpa [hd.file] using hd'.file
    exact (sumMatches_text (F.valid r hr)).mpr ⟨data, hf, hd'.digest⟩
  refine ⟨copyTemplate ++ draw, t, .bind (onRun_goes hmk) (.bind (asking_goes rfl _) ?_)⟩
  rw [hF.lines]
  exact .bind hlines (.bind (.look (if_pos hsums)) (.pure _ t))

theorem publishRuntime_goes {b : Boot} {i : Nat} (hfrom : b.run.lookup 0 name = some i)
    (hto : b.run.lookup 0 runtimeName = none) :
    ∃ t, Goes (publishRuntime name) b () t ∧ t.searchPath = some runtime := by
  obtain ⟨s, hrename, -⟩ := rename_of_absent hfrom hto
  let t : Boot := { b with run := s, searchPath := some runtime }
  have hmove : Goes (renameCall failed 0 name runtimeName) b.run () s :=
    .call (by simp [hrename, Except.map])
  refine ⟨t, .bind (.look (if_pos hto)) (.bind (onRun_goes hmove) ?_), rfl⟩
  exact .bind (a := ()) (t := t) (.step rfl) (command_goes t)

theorem cleanup_goes (b : Boot) : ∃ t, Goes cleanup b () t ∧ t.searchPath = b.searchPath := by
  rcases hm : b.mounted with _ | _
  · refine ⟨b, .bind (.observe _ b) (.bind (a := ()) (t := b) ?_ (command_goes b)), rfl⟩
    simpa [hm] using Goes.pure () b
  · let t : Boot := { b with attached := false }
    refine ⟨t, .bind (.observe _ b) (.bind (a := ()) (t := t) ?_ (command_goes t)), rfl⟩
    have hgo : Goes umount b () t := .step rfl
    simpa [hm] using hgo.orElse

theorem isRealDirectory_of_trusted (h : NoLinks mount store) {p : Path}
    (hp : p <+: store ∨ store <+: p) (ht : IsTrusted mount.tree p) :
    isRealDirectory mount p = true := by
  obtain ⟨a, ha, -⟩ := ht
  simp [isRealDirectory, h.lstat_eq hp, h.stat_eq hp, ha]

theorem exposeBundle_goes {F : FileSet} (hF : Listing env F) {bootdev : Text}
    (hmount : env.fileSystem bootdev = some mount)
    (hs : Holding mount.tree env.manifest.bundleId F.rows)
    (hlinks : ∀ p, bundlePath env.manifest.bundleId <+: p → mount.tree p ≠ some .symlink)
    (hload : ∀ r ∈ F.rows, Loadable r) {b : Boot} {draw : Text} {draws : List Text}
    (hc : env.caller.draws = draw :: draws) (hlt : 0 < b.run.next)
    (hdir : (b.run.kind 0).isDir = true) (hfree : b.run.lookup 0 (copyTemplate ++ draw) = none)
    (hruntime : b.run.lookup 0 runtimeName = none) (hb : b.searchPath = none) :
    ∃ t, Goes (exposeBundle env env.manifest.bundleId bootdev) b () t ∧
      t.searchPath = some runtime := by
  have hno := hs.noLinks hlinks
  have hcomplete : Complete (mount.below (bundlePath env.manifest.bundleId)) F.rows :=
    hno.below ▸ hs.complete
  have htrusted : ∀ p ∈ [["azurefin".toList], storePath, bundlePath env.manifest.bundleId],
      isRealDirectory mount p = true := by
    intro p hp
    simp only [List.mem_cons, List.not_mem_nil, or_false] at hp
    rcases hp with rfl | rfl | rfl
    · exact isRealDirectory_of_trusted hno (.inl ⟨_, rfl⟩) hs.azurefin
    · exact isRealDirectory_of_trusted hno (.inl ⟨_, rfl⟩) hs.store
    · exact isRealDirectory_of_trusted hno (.inl List.prefix_rfl) hs.bundle
  have hnone : linksAmong mount (bundlePath env.manifest.bundleId) mount.paths = [] := by
    refine List.filter_eq_nil_iff.mpr fun p _ => ?_
    simp only [Bool.and_eq_true, List.isPrefixOf_iff_prefix, decide_eq_true_eq, not_and]
    exact hlinks p
  let b₁ : Boot := { b with attached := true, mounted := true }
  obtain ⟨name, b₂, hcopy⟩ := copyBundle_goes (b := b₁) hF hcomplete hload hc hlt hdir hfree hb
  obtain ⟨-, -, temporary, hready⟩ := hcopy.ensures (copyBundle_ensures hF) ⟨hb, hruntime⟩
  let b₃ : Boot := { b₂ with attached := false, mounted := false }
  obtain ⟨t, hpublish, ht⟩ := publishRuntime_goes (b := b₃) hready.lookup hready.runtime
  refine ⟨t, .bind (a := mount) (t := { b with attached := true }) (.step (by simp [hmount])) ?_, ht⟩
  refine .bind (.sure _ _) ?_
  have hdirs : Goes ([["azurefin".toList], storePath, bundlePath env.manifest.bundleId].forM
      fun directory => asking (if isRealDirectory mount directory then .ok () else .error 1))
        b₁ () b₁ := by
    have hask : ∀ p ∈ [["azurefin".toList], storePath, bundlePath env.manifest.bundleId],
        Goes (asking (if isRealDirectory mount p then .ok () else .error 1)) b₁ () b₁ :=
      fun p hp => asking_goes (if_pos (htrusted p hp)) b₁
    exact .bind (hask _ (by simp)) (.bind (hask _ (by simp)) (.bind (hask _ (by simp))
      (.pure () b₁)))
  refine .bind hdirs (.bind (a := ()) (t := b₁) (.step (by simp [pathsSeen, hnone])) ?_)
  exact .bind hcopy (.bind (a := ()) (.step rfl) (.bind (.sure _ _) hpublish))

/-- What the loader wants of a checked store and of the command line it was checked with. -/
structure WithinLoader (env : Environment) (mount : Mount) : Prop where
  targets : ∀ r ∈ env.manifest.rows, Loadable r
  links : ∀ p, bundlePath env.manifest.bundleId <+: p → mount.tree p ≠ some .symlink
  words : ∃ line, (linesOf env.cmdline).head? = some line ∧
    uuidValues (readWords line) = uuidValues (pySplit env.cmdline)

/-- `blkid` finds the device of the boot file system, mounting it works, and `/run` is fresh. -/
structure Bootable (env : Environment) (run : Disk) (uuid : Text) (mount : Mount) : Prop where
  found : ∃ attempt, attempt < 20 ∧ env.blkid attempt uuid ≠ []
  mounts : ∀ attempt, env.blkid attempt uuid ≠ [] →
    env.fileSystem (env.blkid attempt uuid) = some mount
  fresh : FreshRun env.caller run

theorem mountName_ne (draw : Text) :
    copyTemplate ++ draw ≠ mountTemplate ++ draw ∧ runtimeName ≠ mountTemplate ++ draw := by
  have hne : copyTemplate ≠ mountTemplate := by decide +kernel
  have hlt : runtimeName.length < mountTemplate.length := by decide +kernel
  refine ⟨fun h => hne (List.append_cancel_right h), fun h => ?_⟩
  have := congrArg List.length h
  simp only [List.length_append] at this
  omega

/-- **The loader takes every checked store** that meets its own conditions: when no command
fails, it exits 0 and exposes exactly the files of the policy. -/
theorem loadFirmware_goes {run : Disk} {data : Json} {uuid : Text} {report : BundleReport}
    (hvalid : validateMount data env.cmdline = .ok uuid)
    (hcheck : checkBundle mount.tree env.manifest.policy env.manifest.contents = .ok report)
    (hw : WithinLoader env mount) (hboot : Bootable env run uuid mount) :
    ∃ t, Goes (loadFirmware env) (.start run) () t ∧ t.searchPath = some runtime ∧
      ∃ i, t.run.lookup 0 runtimeName = some i ∧
        Exposed env.manifest.rows (treeAt t.run i) := by
  obtain ⟨huuid, hvalues⟩ := validateMount_eq_ok hvalid
  obtain ⟨F, hrows, hF, hc⟩ := env.manifest.fileSet
  obtain ⟨-, hholding⟩ := (checkBundle_ok_iff hF env.manifest.generated).mp ⟨report, hcheck⟩
  obtain ⟨G, hG⟩ := exists_listing env
  have hs := hholding.perm (hrows ▸ hG.perm)
  obtain ⟨line, hline, hwords⟩ := hw.words
  obtain ⟨draw, draws, hdraws, hmountName, hcopyName⟩ := hboot.fresh.names
  obtain ⟨s, hmk, hcreated⟩ := mktemp_goes hdraws hboot.fresh.lt hboot.fresh.dir hmountName
  let b : Boot := .start run
  obtain ⟨attempt, hfound, hdevice⟩ := @findDevice_goes env uuid 20
    (hboot.found.imp fun _ h => ⟨Nat.zero_le _, h⟩) b
  -- `/run` with the mount point
  have hzero : (0 : Nat) ≠ run.next := Nat.ne_of_lt hboot.fresh.lt
  have hlt : 0 < s.next := by
    rw [hcreated.next]
    exact Nat.succ_pos _
  have hdir : (s.kind 0).isDir = true := by
    rw [hcreated.kind, Function.update_of_ne hzero, hboot.fresh.dir]
  have hcopy : s.lookup 0 (copyTemplate ++ draw) = none := by
    rw [hcreated.lookup, if_neg fun h => (mountName_ne draw).1 h.2, hcopyName]
  have hruntime : s.lookup 0 runtimeName = none := by
    rw [hcreated.lookup, if_neg fun h => (mountName_ne draw).2 h.2, hboot.fresh.runtime]
  obtain ⟨t, hexpose, ht⟩ := exposeBundle_goes (b := { b with run := s }) hG
    (hboot.mounts attempt hfound) hs hw.links
    (fun r hr => hw.targets r ((hG.mem r).mp hr)) hdraws hlt hdir hcopy hruntime rfl
  obtain ⟨u, hclean, hu⟩ := cleanup_goes t
  have hgo : Goes (loadFirmware env) b () u := by
    have hne : uuid ≠ [] := by
      rintro rfl
      exact absurd huuid (by decide)
    refine .bind (command_goes b) (.bind (command_goes b) ?_)
    refine .bind (asking_goes (a := line) (by rw [hline]; rfl) b) ?_
    refine .bind (bootArguments_goes (hwords.trans hvalues) huuid b) ?_
    rw [if_neg hne]
    refine .bind (asking_goes rfl b) ?_
    rw [readFields_manifestSum]
    refine .bind (.require (isSha256Text_sha256 _) b) ?_
    refine .bind (command_goes b) (.bind (command_goes b) (.bind (command_goes b) ?_))
    refine .bind hdevice (.bind (.require (decide_eq_true hfound) b) ?_)
    exact .bind (onRun_goes hmk) (.withCleanup hexpose hclean)
  refine ⟨u, hgo, hu.trans ht, ?_⟩
  rcases hgo.ensures (loadFirmware_ensures env) rfl with hnone | ⟨-, hexposed, -⟩
  · rw [hu.trans ht] at hnone
    cases hnone
  · exact hexposed

/-! ## A store the loader takes, and four that it does not -/

/-- The file system that consists of the given entries; symlinks in it lead nowhere. -/
def Mount.ofList (entries : List (Path × Obj UInt8 Attr)) : Mount where
  tree p := entries.lookup p
  lstat p := entries.lookup p
  stat p := if entries.lookup p = some .symlink then none else entries.lookup p
  paths := entries.map Prod.fst
  listed p hp := by
    rcases h : entries.lookup p with _ | o
    · exact absurd h hp
    · obtain ⟨l₁, l₂, rfl, -⟩ := List.lookup_eq_some_iff.mp h
      simp
  lstat_eq _ _ := rfl
  stat_eq _ hp := if_neg hp

theorem Mount.ofList_ne_symlink {entries : List (Path × Obj UInt8 Attr)}
    (h : ∀ e ∈ entries, e.2 ≠ .symlink) (p : Path) :
    (Mount.ofList entries).tree p ≠ some .symlink := by
  intro hp
  obtain ⟨l₁, l₂, rfl, -⟩ := List.lookup_eq_some_iff.mp hp
  exact h (p, .symlink) (by simp) rfl

def BootManifest.ofFiles (F : FileSet) : BootManifest :=
  ⟨policyOf F.rows, encodeAscii (manifestText F.rows),
    manifest_eq_ok.mpr ⟨_, policyRows_policyOf F, rfl⟩⟩

theorem BootManifest.rows_ofFiles (F : FileSet) : (BootManifest.ofFiles F).rows = F.rows := by
  simp [BootManifest.ofFiles, BootManifest.rows, policyRows_policyOf]

/-- A policy with one file. -/
def oneFile (target : Text) (h : isCanonicalTarget target = true) : FileSet where
  rows := [⟨target, sha256 sampleData⟩]
  valid r hr := by
    obtain rfl := List.mem_singleton.mp hr
    exact (Row.valid_iff _).mpr ⟨h, isSha256Text_sha256 _⟩
  nodup := by simp
  length_pos := by simp
  length_le := by simp

def directory : Obj UInt8 Attr := .dir ⟨0, 0o755⟩

/-- A boot file system with these entries in the bundle. -/
def bootWith (m : BootManifest) (entries : List (Path × Obj UInt8 Attr)) : Mount :=
  .ofList ([[], ["azurefin".toList], storePath, bundlePath m.bundleId].map (·, directory) ++
    entries.map fun e => (bundlePath m.bundleId ++ e.1, e.2))

def sampleUuid : Text := "11111111-2222-3333-4444-555555555555".toList

/-- What `findmnt` reports for it. -/
def sampleFindmnt : Json :=
  .obj [("filesystems".toList, .arr [.obj [("target".toList, .str "/boot".toList),
    ("fstype".toList, .str "ext4".toList), ("uuid".toList, .str sampleUuid),
    ("options".toList, .str "rw,relatime".toList)]])]

/-- The next boot with this command line, up to the UUID. -/
def bootEnvironment (F : FileSet) (quiet : Text) (entries : List (Path × Obj UInt8 Attr)) :
    Environment where
  caller := ⟨0, 0o022, ["x".toList]⟩
  cmdline := quiet ++ uuidArgument ++ sampleUuid ++ ['\n']
  manifest := .ofFiles F
  blkid _ _ := "/dev/nvme0n1p2".toList
  fileSystem _ := some (bootWith (.ofFiles F) entries)

def freshRun : Disk := Fs.empty ⟨0, 0o755⟩

theorem bootable (F : FileSet) (quiet : Text) (entries : List (Path × Obj UInt8 Attr)) :
    Bootable (bootEnvironment F quiet entries) freshRun sampleUuid
      (bootWith (.ofFiles F) entries) :=
  ⟨⟨0, by decide, by simp [bootEnvironment]⟩, fun _ _ => rfl, Nat.one_pos, rfl, rfl,
    "x".toList, [], rfl, rfl, rfl⟩

def sampleEntries : List (Path × Obj UInt8 Attr) :=
  [(["qcom".toList], directory), (["qcom".toList, "fw".toList], .file sampleData)]

def sampleBoot : Environment := bootEnvironment sampleFiles "quiet ".toList sampleEntries

/-- The bundle with one file below `qcom` is exposed. -/
theorem sampleBoot_goes : ∃ t, Goes (loadFirmware sampleBoot) (.start freshRun) () t ∧
    t.searchPath = some runtime ∧ ∃ i, t.run.lookup 0 runtimeName = some i ∧
      Exposed sampleBoot.manifest.rows (treeAt t.run i) := by
  have hchecked : checkBundle (bootWith sampleBoot.manifest sampleEntries).tree
      sampleBoot.manifest.policy sampleBoot.manifest.contents =
        .ok ⟨sampleBoot.manifest.bundleId, 1, 8⟩ := by decide +kernel
  refine @loadFirmware_goes sampleBoot (bootWith sampleBoot.manifest sampleEntries) freshRun
    sampleFindmnt sampleUuid _ (by decide +kernel) hchecked ⟨fun r hr => ?_, fun p _ => ?_, ?_⟩
      (bootable ..)
  · rw [sampleBoot, bootEnvironment, BootManifest.rows_ofFiles] at hr
    obtain rfl : r = sampleRow := by simpa [sampleFiles] using hr
    exact ⟨by decide +kernel, by decide +kernel⟩
  · exact Mount.ofList_ne_symlink (by simp [sampleEntries, directory]) p
  · exact ⟨"quiet ".toList ++ uuidArgument ++ sampleUuid, by decide +kernel, by decide +kernel⟩

/-- A run that was not killed has left the search path untouched. -/
def endsUntouched : Except (Stop Status) Unit × World Boot → Bool
  | (.error .killed, _) => false
  | (_, w) => w.state.searchPath.isNone

/-- Every check passes, and the loader, of which no command fails, ends and exposes nothing. -/
structure Refused (F : FileSet) (quiet : Text) (entries : List (Path × Obj UInt8 Attr)) : Prop where
  bootable : Bootable (bootEnvironment F quiet entries) freshRun sampleUuid
    (bootWith (.ofFiles F) entries)
  validated : validateMount sampleFindmnt (bootEnvironment F quiet entries).cmdline =
    .ok sampleUuid
  checked : (checkBundle (bootWith (.ofFiles F) entries).tree (BootManifest.ofFiles F).policy
    (BootManifest.ofFiles F).contents).isOk = true
  refuses : endsUntouched (loadFirmware (bootEnvironment F quiet entries)
    ⟨List.replicate 60 .go, .start freshRun⟩) = true

/-- The four ways in which a checked store is not taken: a target outside `qcom`, one with two
dots in a name, a symlink beside the listed files, and an argument after a vertical tab. -/
theorem loadFirmware_refuses :
    Refused (oneFile "fw".toList (by decide +kernel)) "quiet ".toList
      [(["fw".toList], .file sampleData)] ∧
    Refused (oneFile "qcom/a..b".toList (by decide +kernel)) "quiet ".toList
      [(["qcom".toList], directory), (["qcom".toList, "a..b".toList], .file sampleData)] ∧
    Refused sampleFiles "quiet ".toList (sampleEntries ++ [(["link".toList], .symlink)]) ∧
    Refused sampleFiles "quiet\x0b".toList sampleEntries :=
  ⟨⟨bootable .., by decide +kernel, by decide +kernel, by decide +kernel⟩,
    ⟨bootable .., by decide +kernel, by decide +kernel, by decide +kernel⟩,
    ⟨bootable .., by decide +kernel, by decide +kernel, by decide +kernel⟩,
    ⟨bootable .., by decide +kernel, by decide +kernel, by decide +kernel⟩⟩

end Azurefin
