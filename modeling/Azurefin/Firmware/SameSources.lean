import Azurefin.Firmware.Store
import Azurefin.Firmware.Success

/-!
# What is copied is what is checked

`copy_verified` and `inventory` walk the same tree, each with its own loop and its own totals. They
accept the same sources, and what was copied is checked with the same result
(`provision_iff_inventory`).
-/

namespace Azurefin

open Prog Fs

variable {c : Caller} {source tree tree' : Tree} {store : Nat} {policy : Json} {rows : List Row} {r : Row}
  {entries : List Json} {total : Nat} {seen : List Text} {data data' : Bytes}

/-! ## Checking two trees -/

theorem Holds.unique (h : Holds tree r data) (h' : Holds tree r data') : data = data' := by
  have heq := h.file.symm.trans h'.file
  simpa using heq

/-- Both trees have the same data for each row. -/
def SameData (tree tree' : Tree) (rows : List Row) : Prop :=
  ∀ r ∈ rows, ∃ data, Holds tree r data ∧ Holds tree' r data

/-- One pass gives the same item for trees with the same data. -/
theorem inventoryEntry_same {entry : Json} (hd : Describes entry r) (hv : r.valid = true) (hs : r.target ∉ seen)
    (h : Holds tree r data) (h' : Holds tree' r data) {out : InventoryItem × Nat} :
    inventoryEntry tree seen total entry = .ok out → inventoryEntry tree' seen total entry = .ok out := by
  rw [inventoryEntry_eq_ok hd hv hs, inventoryEntry_eq_ok hd hv hs]
  intro ⟨data', hholds, hle, hout⟩
  obtain rfl := h.unique hholds
  exact ⟨data, h', hle, hout⟩

theorem inventoryLoop_same (hd : List.Forall₂ Describes entries rows) (hv : ∀ r ∈ rows, r.valid = true)
    (hn : (rows.map Row.target).Nodup) (hs : ∀ r ∈ rows, r.target ∉ seen) (h : SameData tree tree' rows)
    {out : List InventoryItem × Nat} :
    inventoryLoop tree seen total entries = .ok out → inventoryLoop tree' seen total entries = .ok out := by
  induction hd generalizing seen total out with
  | nil => exact id
  | @cons entry r entries rows he hd ih =>
    obtain ⟨hr, hn⟩ := List.nodup_cons.mp hn
    obtain ⟨hvr, hv⟩ := List.forall_mem_cons.mp hv
    obtain ⟨hsr, hs⟩ := List.forall_mem_cons.mp hs
    obtain ⟨⟨data, hdata, hdata'⟩, h⟩ := List.forall_mem_cons.mp h
    simp only [inventoryLoop, Except.bind_eq_ok]
    rintro ⟨step, hstep, rest, hrest, hout⟩
    obtain ⟨data', -, -, hitem⟩ := (inventoryEntry_eq_ok he hvr hsr).mp hstep
    refine ⟨step, inventoryEntry_same he hvr hsr hdata hdata' hstep, rest, ?_, hout⟩
    refine ih hv hn (fun q hq => ?_) h hrest
    rw [hitem, List.mem_cons, not_or]
    exact ⟨fun heq : q.target = r.target => hr (heq ▸ List.mem_map_of_mem hq), hs q hq⟩

/-- Trees with the same data are checked with the same result. -/
theorem inventory_same {F : FileSet} (hF : policyRows policy = .ok F.rows) (hroot : IsDirectory tree' [])
    (h : SameData tree tree' F.rows) {out : List InventoryItem × Nat} (hout : inventory tree policy = .ok out) :
    inventory tree' policy = .ok out := by
  obtain ⟨entries, hi, hd⟩ := item_files_of_policyRows hF
  simp only [inventory, hi, Except.ok_bind, Except.check_eq_ok, Except.bind_eq_ok, openDirectory_eq_ok, Json.len,
    Json.elements] at hout ⊢
  obtain ⟨htruthy, hcount, _, ⟨rfl, -⟩, hloop⟩ := hout
  exact ⟨htruthy, hcount, [], ⟨rfl, hroot⟩, inventoryLoop_same hd F.valid F.nodup (by simp) h hloop⟩

/-! ## Copying a source -/

/-- The bundle holds the files of the policy, with the data the source has there, and beside them only
the directories that lead to them. -/
structure HoldsExactly (source : Tree) (rows : List Row) (bundle : Tree) : Prop where
  files : ∀ p data, bundle p = some (.file data) ↔ (∃ r ∈ rows, p = r.path) ∧ source p = some (.file data)
  others : ∀ p o, bundle p = some o → (∀ data, o ≠ .file data) →
    IsDirectory bundle p ∧ (p = [] ∨ ∃ r ∈ rows, p <+: r.path)

theorem Mirrors.holdsExactly (h : Mirrors source rows tree) : HoldsExactly source rows tree := by
  constructor
  · intro p data
    constructor
    · intro hp
      obtain ⟨r, hr, rfl⟩ | ⟨a, hdir, -⟩ := h.shape p _ hp
      · obtain ⟨data', hsource, htree⟩ := h.holds r hr
        obtain rfl : data = data' := by simpa [hp] using htree.file
        exact ⟨⟨r, hr, rfl⟩, hsource.file⟩
      · cases hdir
    · intro ⟨⟨r, hr, hp⟩, hfile⟩
      obtain ⟨data', hsource, htree⟩ := h.holds r hr
      obtain rfl : data = data' := by simpa [hp ▸ hfile] using hsource.file
      exact hp ▸ htree.file
  · intro p o hp hother
    obtain ⟨r, hr, rfl⟩ | ⟨a, rfl, -⟩ := h.shape p o hp
    · obtain ⟨data, -, htree⟩ := h.holds r hr
      exact absurd (Option.some.inj (hp.symm.trans htree.file)) (hother data)
    · exact ⟨⟨a, hp⟩, h.way p _ hp⟩

theorem Mirrors.sameData (h : Mirrors source rows tree) : SameData source tree rows := h.holds

/-- The sources that hold what the policy lists: a real directory from which real directories lead to each
file, a regular one of allowed size with the listed hash, and no more than fits. -/
def HoldsPolicy (source : Tree) (policy : Json) : Prop :=
  ∃ rows, policyRows policy = .ok rows ∧ Complete source rows

/-- **Copying and checking accept the same sources.** Where nothing fails, `provision` adds a bundle from a
source exactly when `inventory` passes the source, which is when the source holds what the policy lists.
The bundle then holds the files of the policy and no others, and is checked with the same result. -/
theorem provision_iff_inventory (c : Caller) (source : Tree) (store : Nat) (policy : Json) (contents : Bytes)
    (s : Disk) (hm : manifest policy = .ok contents) (hlt : store < s.next) (hdir : (s.kind store).isDir = true)
    (hlacks : s.lookup store (sha256 contents) = none)
    (hfree : ∃ draw ∈ c.draws, s.lookup store (temporaryName draw) = none) :
    ((∃ d t, Goes (provision c source (some store) policy) s d t) ↔ ∃ out, inventory source policy = .ok out) ∧
      ((∃ out, inventory source policy = .ok out) ↔ HoldsPolicy source policy) ∧
      ∀ d t, Goes (provision c source (some store) policy) s d t → d = sha256 contents ∧
        ∃ i rows, t.lookup store d = some i ∧ policyRows policy = .ok rows ∧ HoldsExactly source rows (treeAt t i) ∧
          inventory (treeAt t i) policy = inventory source policy := by
  obtain ⟨rows, hrows, -⟩ := manifest_eq_ok.mp hm
  obtain ⟨F, rfl⟩ := policyRows_ok hrows
  have hsound : HoldsPolicy source policy ↔ Complete source F.rows := by
    constructor
    · intro ⟨rows, hrows', hcomplete⟩
      rwa [Except.ok.inj (hrows.symm.trans hrows')]
    · exact fun hcomplete => ⟨F.rows, hrows, hcomplete⟩
  have hgoes : ∀ d t, Goes (provision c source (some store) policy) s d t → Complete source F.rows :=
    fun d t hgo => (hgo.ensures (provision_complete hrows hm hlacks) rfl).1
  refine ⟨?_, by rw [inventory_ok_iff hrows, hsound], fun d t hgo => ?_⟩
  · rw [inventory_ok_iff hrows]
    constructor
    · intro ⟨d, t, hgo⟩
      exact hgoes d t hgo
    · intro hcomplete
      obtain ⟨t, i, hgo, -⟩ := provision_goes hrows hcomplete hlt hdir hm hlacks hfree
      exact ⟨_, t, hgo⟩
  · have hcomplete := hgoes d t hgo
    obtain ⟨t', i, hgo', hfound, hmirrors⟩ := provision_goes hrows hcomplete hlt hdir hm hlacks hfree
    obtain ⟨rfl, rfl⟩ := hgo.unique hgo'
    obtain ⟨out, hout⟩ := (inventory_ok_iff hrows).mpr hcomplete
    refine ⟨rfl, i, F.rows, hfound, hrows, hmirrors.holdsExactly, ?_⟩
    rw [hout, inventory_same hrows hmirrors.root hmirrors.sameData hout]

/-- A complete source and an empty store. -/
theorem provision_iff_inventory_empty : ∃ d t,
    Goes (provision ⟨0, 0o077, ["x".toList]⟩ sampleSource (some 0) (policyOf sampleFiles.rows))
      (Fs.empty ⟨0, 0o700⟩) d t ∧
    ∃ i rows, t.lookup 0 d = some i ∧ HoldsExactly sampleSource rows (treeAt t i) := by
  have hrows := policyRows_policyOf sampleFiles
  obtain ⟨hcopied, hchecked, hexact⟩ := provision_iff_inventory ⟨0, 0o077, ["x".toList]⟩ sampleSource 0
    (policyOf sampleFiles.rows) _ (Fs.empty ⟨0, 0o700⟩) (manifest_eq_ok.mpr ⟨_, hrows, rfl⟩) (by decide) rfl rfl
    ⟨"x".toList, List.mem_cons_self .., rfl⟩
  obtain ⟨d, t, hgo⟩ := hcopied.mpr (hchecked.mpr ⟨_, hrows, sampleSource_complete⟩)
  obtain ⟨-, i, rows, hfound, -, hholds, -⟩ := hexact d t hgo
  exact ⟨d, t, hgo, i, rows, hfound, hholds⟩

end Azurefin
