import Azurefin.Firmware.CrashSafety
import Azurefin.Firmware.Setup

/-!
# Power failures during setup

The kernel argument must not be set on a disk whose bundle a power failure can take away. Setup
itself syncs a new bundle and the store that it is in, and nothing else: neither the directories
above the store, whether it made them or found them, nor a bundle that is there already. So the
property holds exactly where what setup does not sync is durable before.

## Main results

* `Azurefin.installStore_found` — with the bundle in the store, the disk stays as it is.
* `Azurefin.installStore_missing`, `Azurefin.installStore_absent` — when the argument is set otherwise.
* `Azurefin.Published.reachable_iff` — when no power failure takes a new bundle away.
* `Azurefin.installStore_safe_iff` — the exact condition.
-/

namespace Azurefin

open Prog Fs

variable {c : Caller} {source : Tree} {boot f : Nat} {policy : Json} {expected contents : Bytes}
  {s₀ s t : Disk} {uuid : Text} {u : Option Text}

/-- The disk image has the complete bundle for the policy under its name. -/
def BundleReachable (boot : Nat) (policy : Json) (v : View Text UInt8 Attr) : Prop :=
  ∃ contents i, manifest policy = .ok contents ∧
    v.resolve boot (bundlePath (sha256 contents)) = some i ∧
      ∃ out, inventory (v.tree i) policy = .ok out

/-- No power failure takes the bundle away. -/
def AlwaysReachable (boot : Nat) (policy : Json) (s : Disk) : Prop :=
  ∀ v, s.Crash v → BundleReachable boot policy v

/-- No power failure takes the directory of the store away. -/
def StoreDurable (boot : Nat) (s : Disk) : Prop :=
  ∀ v, s.Crash v → ∃ f, v.resolve boot storePath = some f

/-- The machine is only opted in to the loader with a bundle that stays there. -/
def OptedInSafely (boot : Nat) (policy : Json) (m : Machine) : Prop :=
  m.bootUuid.isSome = true → AlwaysReachable boot policy m.disk

/-- Setup can succeed on a disk that does not have the bundle yet. -/
structure Installable (c : Caller) (source : Tree) (boot : Nat) (policy : Json)
    (expected : Bytes) (s₀ : Disk) : Prop where
  uid : c.uid = 0
  root : IsTrusted (treeAt s₀ boot) []
  azurefin : treeAt s₀ boot ["azurefin".toList] = none ∨
    IsTrusted (treeAt s₀ boot) ["azurefin".toList]
  firmware : treeAt s₀ boot storePath = none ∨ IsTrusted (treeAt s₀ boot) storePath
  absent : treeAt s₀ boot (bundlePath (sha256 expected)) = none
  draws : ∃ draw ∈ c.draws, treeAt s₀ boot (storePath ++ [temporaryName draw]) = none
  accepted : ∃ F : FileSet, policyRows policy = .ok F.rows ∧ manifest policy = .ok expected ∧
    Complete source F.rows

/-! ## Directories -/

theorem resolve_storePath_iff {v : View Text UInt8 Attr} : v.resolve boot storePath = some f ↔
    (v.kind boot).isDir = true ∧ ∃ a, v.entry boot "azurefin".toList = some a ∧
      (v.kind a).isDir = true ∧ v.entry a "firmware".toList = some f := by
  simp only [storePath, View.resolve_cons, View.resolve_nil, Option.ite_none_right_eq_some,
    Option.bind_eq_some_iff, Option.some.injEq, exists_eq_right]

/-- A directory that is there is only opened. -/
theorem installDirectory_present {parent child : Nat} {name path : Text}
    (hl : s₀.lookup parent name = some child) :
    Ensures (· = s₀) (installDirectory c parent name path)
      (fun child' s => child' = child ∧ s = s₀ ∧ IsTrusted (treeAt s₀ child) [])
      (fun _ => (· = s₀)) (· = s₀) := by
  have same : ∀ s, Opening (c.attr 0o700) s₀ parent name s → s = s₀ := by
    rintro s (hs | hc)
    · exact hs
    · simp [hc.absent] at hl
  refine (installDirectory_ensures c s₀ parent name path).weaken (fun s hs => hs) ?_
    (fun _ => same) same
  rintro child' s ⟨⟨rfl, hl'⟩ | ⟨-, hc⟩, ht⟩
  · obtain rfl : child' = child := Option.some.inj (hl'.symm.trans hl)
    exact ⟨rfl, rfl, ht⟩
  · simp [hc.absent] at hl

theorem IsTrusted.isDir {i : Nat} (h : IsTrusted (treeAt s i) []) : (s.kind i).isDir = true := by
  obtain ⟨a, ha, -⟩ := h
  exact isDir_of_isDirectory ⟨a, ha⟩ rfl

/-- A new directory is trusted when root made it. -/
theorem trusted_attr : (c.attr 0o700).trusted = true ↔ c.uid = 0 := by
  have hmode : 448 &&& (511 ^^^ c.umask) &&& 18 = 0 := by
    rw [Nat.and_comm 448, Nat.and_assoc]
    simp
  simp only [Attr.trusted, Caller.attr, Bool.and_eq_true, beq_iff_eq]
  exact ⟨fun h => h.1, fun h => ⟨h, hmode⟩⟩

theorem trusted_of_created {t u : Disk} {d : Nat} {n : Text}
    (hc : Created t d n (.dir (c.attr 0o700)) u) (h : IsTrusted (treeAt u t.next) []) :
    c.uid = 0 := by
  obtain ⟨a, ha, ht⟩ := h
  obtain ⟨j, hj, hk⟩ := View.tree_eq_dir.mp ha
  obtain rfl : t.next = j := by simpa using hj
  simp only [view_kind, hc.kind, Function.update_self, Kind.dir.injEq] at hk
  exact trusted_attr.mp (hk ▸ ht)

/-- Where the store does not exist, its second directory is made. -/
theorem opened_absent {t u : Disk} {azurefin firmware : Nat}
    (hno : s₀.view.resolve boot storePath = none) (hroot : IsTrusted (treeAt s₀ boot) [])
    (h : Opened (c.attr 0o700) s₀ boot "azurefin".toList azurefin t)
    (htrusted : IsTrusted (treeAt t azurefin) [])
    (h' : Opened (c.attr 0o700) t azurefin "firmware".toList firmware u) :
    (treeAt s₀ boot ["azurefin".toList] = none ∨ IsTrusted (treeAt s₀ boot) ["azurefin".toList]) ∧
      firmware = t.next ∧ Created t azurefin "firmware".toList (.dir (c.attr 0o700)) u := by
  rcases h with ⟨rfl, ha⟩ | ⟨rfl, hc⟩
  · have hres : t.view.resolve boot ["azurefin".toList] = some azurefin :=
      View.resolve_snoc (p := []) rfl hroot.isDir ha
    refine ⟨.inr ?_, h'.resolve_left fun hf => ?_⟩
    · obtain ⟨a, ha, ht⟩ := htrusted
      exact ⟨a, (View.tree_append hres []).trans ha, ht⟩
    · have hr : t.view.resolve boot storePath = some firmware :=
        resolve_storePath_iff.mpr ⟨hroot.isDir, azurefin, ha, htrusted.isDir, hf.2⟩
      simp [hr] at hno
  · refine ⟨.inl (tree_child_of_absent hc.absent), h'.resolve_left fun hf => ?_⟩
    have := hf.2
    rw [hc.lookup_next] at this
    cases this

/-- Object `i` is a directory that only root can write to. -/
def TrustedDir (s : Disk) (i : Nat) : Prop := ∃ a, s.kind i = .dir a ∧ a.trusted = true

theorem TrustedDir.isDir {i : Nat} (h : TrustedDir s i) : (s.kind i).isDir = true := by
  obtain ⟨a, ha, -⟩ := h
  rw [ha]
  rfl

theorem TrustedDir.of_kind {i : Nat} (h : TrustedDir s₀ i) (hk : s.kind i = s₀.kind i) :
    TrustedDir s i := by
  rwa [TrustedDir, hk]

theorem isTrusted_iff {i : Nat} {p : Path} :
    IsTrusted (treeAt s i) p ↔ ∃ j, s.view.resolve i p = some j ∧ TrustedDir s j := by
  simp only [IsTrusted, treeAt, View.tree_eq_dir, TrustedDir, view_kind]
  constructor
  · rintro ⟨a, ⟨j, hj, hk⟩, ha⟩
    exact ⟨j, hj, a, hk, ha⟩
  · rintro ⟨j, hj, a, hk, ha⟩
    exact ⟨a, ⟨j, hj, hk⟩, ha⟩

theorem installDirectory_opens {parent child : Nat} {name path : Text}
    (hl : s.lookup parent name = some child) (ht : TrustedDir s child) :
    Goes (installDirectory c parent name path) s child s := by
  have htrust : trustedDirectory path (some (s.view.obj child)) = .ok () :=
    trustedDirectory_obj.mpr (isTrusted_iff.mpr ⟨child, rfl, ht⟩)
  have hmk : Goes (mkdirParents c 0o700 parent [name]) s child s :=
    .bind (.look (a := some child) (by simp [hl, ht.isDir])) (.pure _ _)
  exact .bind hmk (.bind (.look htrust) (.pure _ _))

theorem installDirectory_makes {parent : Nat} {name : Text} (path : Text) (hlt : parent < s.next)
    (hd : (s.kind parent).isDir = true) (hl : s.lookup parent name = none) (hu : c.uid = 0) :
    ∃ t, Goes (installDirectory c parent name path) s s.next t ∧
      Created s parent name (.dir (c.attr 0o700)) t ∧ TrustedDir t s.next := by
  obtain ⟨t, hcreate⟩ := create_of_absent (.dir (c.attr 0o700)) hlt hd hl
  obtain ⟨-, hc⟩ := create_ok hcreate
  have ht : TrustedDir t s.next :=
    ⟨c.attr 0o700, by rw [hc.kind, Function.update_self], trusted_attr.mpr hu⟩
  have htrust : trustedDirectory path (some (t.view.obj s.next)) = .ok () :=
    trustedDirectory_obj.mpr (isTrusted_iff.mpr ⟨_, rfl, ht⟩)
  have hmk : Goes (mkdirParents c 0o700 parent [name]) s s.next t :=
    .bind (.look (a := none) (by simp [hl])) (.bind (.call hcreate) (.pure _ _))
  exact ⟨t, .bind hmk (.bind (.look htrust) (.pure _ _)), hc, ht⟩

/-! ## A new bundle -/

theorem leads_storePath_iff : s.Leads boot storePath f ↔ (s.kind boot).isDir = true ∧
    s.past boot "azurefin".toList = [] ∧ ∃ a, s.lookup boot "azurefin".toList = some a ∧
      (s.kind a).isDir = true ∧ s.past a "firmware".toList = [] ∧
        s.lookup a "firmware".toList = some f := by
  simp only [storePath, Leads, exists_eq_right]

/-- A store that no power failure takes away is in directories that have been synced. -/
theorem storeDurable_iff : StoreDurable boot s ↔ ∃ f, s.Leads boot storePath f :=
  ⟨exists_leads, fun ⟨f, hf⟩ _ hv => ⟨f, hf.resolve hv⟩⟩

/-- Where no power failure takes the bundle away, none takes the store away. -/
theorem AlwaysReachable.storeDurable (h : AlwaysReachable boot policy s) : StoreDurable boot s := by
  intro v hv
  obtain ⟨contents, i, -, hr, -⟩ := h v hv
  obtain ⟨f, hf, -⟩ := View.resolve_prefix hr (by simp)
  exact ⟨f, hf⟩

variable {temporary : Nat} {attr : Attr}

/-- The directories above the store are as they were. -/
theorem Published.above (hp : Published s₀ f (sha256 contents) policy attr temporary t)
    (hf : s₀.view.resolve boot storePath = some f) :
    ∃ a, s₀.lookup boot "azurefin".toList = some a ∧ SameOn (fun i => i = boot ∨ i = a) s₀ t := by
  obtain ⟨-, a, ha, -, haf⟩ := resolve_storePath_iff.mp hf
  simp only [view_entry] at ha haf
  have hba := lookup_lt ha
  have haf := lookup_lt haf
  refine ⟨a, ha, hp.frame.mono ?_⟩
  rintro i (rfl | rfl)
  · exact ⟨by omega, by omega⟩
  · exact ⟨by omega, by omega⟩

theorem Published.leads_iff (hp : Published s₀ f (sha256 contents) policy attr temporary t)
    (hf : s₀.view.resolve boot storePath = some f) {g : Nat} :
    t.Leads boot storePath g ↔ s₀.Leads boot storePath g := by
  obtain ⟨a, ha, same⟩ := hp.above hf
  have hb : boot = boot ∨ boot = a := .inl rfl
  have ha' : a = boot ∨ a = a := .inr rfl
  rw [leads_storePath_iff, leads_storePath_iff, same.kind _ hb, same.past _ hb, same.lookup _ hb, ha]
  simp only [Option.some.injEq, exists_eq_left', same.kind _ ha', same.past _ ha', same.lookup _ ha']

theorem Published.resolve_storePath (hp : Published s₀ f (sha256 contents) policy attr temporary t)
    (hf : s₀.view.resolve boot storePath = some f) : t.view.resolve boot storePath = some f := by
  obtain ⟨a, ha, same⟩ := hp.above hf
  have hb : boot = boot ∨ boot = a := .inl rfl
  have ha' : a = boot ∨ a = a := .inr rfl
  rw [resolve_storePath_iff] at hf ⊢
  simp only [view_kind, view_entry, ha, Option.some.injEq, exists_eq_left'] at hf
  simpa only [view_kind, view_entry, same.kind _ hb, same.lookup _ hb, ha, Option.some.injEq, exists_eq_left',
    same.kind _ ha', same.lookup _ ha'] using hf

theorem Published.store_isDir (hp : Published s₀ f (sha256 contents) policy attr temporary t) :
    (t.kind f).isDir = true :=
  t.entry_dir f (sha256 contents) temporary (mem_entries (by rw [hp.lookup, if_pos rfl]))

theorem Published.resolve_bundlePath (hp : Published s₀ f (sha256 contents) policy attr temporary t)
    (hf : s₀.view.resolve boot storePath = some f) :
    t.view.resolve boot (bundlePath (sha256 contents)) = some temporary :=
  View.resolve_snoc (hp.resolve_storePath hf) hp.store_isDir (by rw [view_entry, hp.lookup, if_pos rfl])

/-- A new bundle, in a store that has itself been synced, is always reachable exactly where its
store was durable before. -/
theorem Published.reachable_iff (hp : Published s₀ f (sha256 contents) policy attr temporary t)
    (hf : s₀.view.resolve boot storePath = some f) (hm : manifest policy = .ok contents)
    (hpast : ∀ n, t.past f n = []) : AlwaysReachable boot policy t ↔ StoreDurable boot s₀ := by
  constructor
  · intro h
    obtain ⟨g, hg⟩ := storeDurable_iff.mp h.storeDurable
    exact storeDurable_iff.mpr ⟨g, (hp.leads_iff hf).mp hg⟩
  · intro h v hv
    obtain ⟨g, hg⟩ := storeDurable_iff.mp h
    obtain rfl : g = f := Option.some.inj ((hg.resolve (.nothing_lost s₀)).symm.trans hf)
    have hstore : t.Leads boot storePath g := (hp.leads_iff hf).mpr hg
    refine ⟨contents, temporary, hm, View.resolve_snoc (hstore.resolve hv) ?_ ?_, ?_⟩
    · rw [hv.kind, hp.store_isDir]
    · rw [hv.entry_of_synced (hpast _), hp.lookup, if_pos rfl]
    · rw [hp.settled.durable v hv]
      exact hp.complete

/-! ## What setup ensures in directories that exist -/

/-- What `installStore` does once the store has been opened. -/
def installBundle (c : Caller) (source : Tree) (store boot : Nat) (policy : Json) (expected : Bytes)
    (uuid : Text) : Prog Machine PyError Text := do
  let destination ← onDisk (provision c source (some store) policy)
  let _ ← onDisk (reading fun s => checkBundle (treeAt s boot) policy expected)
  setKargs uuid
  pure destination

/-- Directories that are there are only opened; then the bundle is installed in the store. -/
theorem installStore_opens {Q : Text → Machine → Prop} {K : Machine → Prop} (hK : K ⟨s₀, u⟩)
    (hf : s₀.view.resolve boot storePath = some f)
    (rest : IsTrusted (treeAt s₀ boot) [] → IsTrusted (treeAt s₀ boot) ["azurefin".toList] →
      IsTrusted (treeAt s₀ boot) storePath →
        Ensures (fun m => m.bootUuid = u ∧ m.disk = s₀)
          (installBundle c source f boot policy expected uuid) Q (fun _ => K) K) :
    Ensures (· = ⟨s₀, u⟩) (installStore c source boot policy expected uuid) Q (fun _ => K) K := by
  obtain ⟨hboot, a, ha, had, haf⟩ := resolve_storePath_iff.mp hf
  have start : ∀ m : Machine, m.bootUuid = u ∧ m.disk = s₀ → K m := by
    rintro ⟨s, u⟩ ⟨rfl, rfl⟩
    exact hK
  have opened : ∀ {parent child : Nat} {name path : Text}, s₀.lookup parent name = some child →
      Ensures (fun m => m.bootUuid = u ∧ m.disk = s₀) (onDisk (installDirectory c parent name path))
        (fun child' m => child' = child ∧ IsTrusted (treeAt s₀ child) [] ∧
          m.bootUuid = u ∧ m.disk = s₀) (fun _ => K) K :=
    fun hl => (onDisk_ensures (installDirectory_present hl) u).weaken (fun m hm => hm)
      (fun _ m hm => ⟨hm.2.1, hm.2.2.2, hm.1, hm.2.2.1⟩) (fun _ => start) start
  refine .bind (M := fun _ m => IsTrusted (treeAt s₀ boot) [] ∧ m.bootUuid = u ∧ m.disk = s₀)
    ((onDisk_reading_ensures (P := fun m => m.bootUuid = u ∧ m.disk = s₀) start fun _ => start).weaken
      ?_ ?_ (fun _ _ hm => hm) fun _ hm => hm) fun _ => .assume fun hroot => ?_
  · rintro m rfl
    exact ⟨rfl, rfl⟩
  · rintro _ m ⟨⟨hu, rfl⟩, hr⟩
    exact ⟨trustedDirectory_obj.mp hr, hu, rfl⟩
  refine .bind (opened ha) fun azurefin => .assume ?_
  rintro rfl
  refine .assume fun htrusted => .bind (opened haf) fun firmware => .assume ?_
  rintro rfl
  refine .assume fun htrusted' => rest hroot ?_ ?_
  · obtain ⟨attr, h, ht⟩ := htrusted
    have hres : s₀.view.resolve boot ["azurefin".toList] = some azurefin :=
      View.resolve_snoc (p := []) rfl hboot ha
    exact ⟨attr, (View.tree_append hres []).trans h, ht⟩
  · obtain ⟨attr, h, ht⟩ := htrusted'
    exact ⟨attr, (View.tree_append hf []).trans h, ht⟩

/-- With the bundle in the store, `provision` changes nothing. -/
theorem provision_found {i : Nat} (hm : manifest policy = .ok contents)
    (hl : s₀.lookup f (sha256 contents) = some i) :
    Ensures (· = s₀) (provision c source (some f) policy) (fun _ => (· = s₀)) (fun _ => (· = s₀))
      (· = s₀) := by
  refine lookup_ensures rfl (fun _ => rfl) fun contents' hm' => ?_
  obtain rfl : contents' = contents := Except.ok.inj (hm'.symm.trans hm)
  rw [hl]
  have same : ∀ {α : Type} (g : Disk → Except PyError α),
      Ensures (· = s₀) (reading g) (fun _ => (· = s₀)) (fun _ => (· = s₀)) (· = s₀) :=
    fun g => .look (fun _ hs => hs) (fun _ _ hs _ => hs) fun _ _ hs => hs
  exact .bind (same _) fun _ => .bind (same _) fun _ => .pure fun _ hs => hs

/-- The disk is `s₀`, and the argument is as it was unless the check passes on that disk. -/
def Rechecked (s₀ : Disk) (u : Option Text) (boot : Nat) (policy : Json) (expected : Bytes)
    (m : Machine) : Prop :=
  m.disk = s₀ ∧ (m.bootUuid = u ∨ ∃ report, checkBundle (treeAt s₀ boot) policy expected = .ok report)

/-- **With the bundle in the store, the disk stays as it is**, and the argument is only set where
the bundle passes the check. -/
theorem installStore_found {i : Nat} (hf : s₀.view.resolve boot storePath = some f)
    (hm : manifest policy = .ok contents) (hl : s₀.lookup f (sha256 contents) = some i) :
    Ensures (· = ⟨s₀, u⟩) (installStore c source boot policy expected uuid)
      (fun _ => Rechecked s₀ u boot policy expected) (fun _ => Rechecked s₀ u boot policy expected)
      (Rechecked s₀ u boot policy expected) := by
  have start : ∀ m : Machine, m.bootUuid = u ∧ m.disk = s₀ → Rechecked s₀ u boot policy expected m :=
    fun m hm => ⟨hm.2, .inl hm.1⟩
  refine installStore_opens ⟨rfl, .inl rfl⟩ hf fun _ _ _ => ?_
  refine .bind ((onDisk_ensures (provision_found hm hl) u).weaken (fun _ hm => hm) (fun _ _ hm => hm)
    (fun _ => start) start) fun destination => ?_
  refine .bind (onDisk_reading_ensures start fun _ => start) fun report => ?_
  refine .each fun m ⟨⟨_, hdisk⟩, hcheck⟩ => ?_
  have rechecked : ∀ m : Machine, m.disk = s₀ → Rechecked s₀ u boot policy expected m :=
    fun m hm => ⟨hm, .inr ⟨report, hdisk ▸ hcheck⟩⟩
  refine .bind (M := fun _ m => m.disk = s₀) ((setKargs_ensures (P := (· = s₀))).weaken ?_
    (fun _ _ hm => hm) (fun _ => rechecked) rechecked) fun _ => .pure rechecked
  rintro _ rfl
  exact hdisk

theorem treeAt_store (hf : s.view.resolve boot storePath = some f) (hd : (s.kind f).isDir = true) (n : Text) :
    treeAt s boot (storePath ++ [n]) = none ↔ s.lookup f n = none := by
  rw [treeAt, View.tree_eq_none, View.resolve_append, hf, Option.bind_some, View.resolve_cons, view_kind,
    if_pos hd]
  simp

/-- The bundle is new, and setup could succeed on the disk it started on. -/
def Installed (c : Caller) (source : Tree) (s₀ : Disk) (boot f : Nat) (policy : Json) (expected : Bytes)
    (s : Disk) : Prop :=
  Installable c source boot policy expected s₀ ∧ (∃ temporary,
    Published s₀ f (sha256 expected) policy (c.attr 0o700) temporary s) ∧ ∀ n, s.past f n = []

/-- Without the bundle in the store, a run of `provision` that returns has added it, and had all that
it needs. -/
theorem provision_missing {F : FileSet} (hF : policyRows policy = .ok F.rows)
    (hm : manifest policy = .ok contents) (hl : s₀.lookup f (sha256 contents) = none) :
    Ensures (· = s₀) (provision c source (some f) policy)
      (fun _ s => (Complete source F.rows ∧
        ∃ draw ∈ c.draws, s₀.lookup f (temporaryName draw) = none) ∧
          (∃ temporary, Published s₀ f (sha256 contents) policy (c.attr 0o700) temporary s) ∧
            ∀ n, s.past f n = [])
      (fun _ _ => True) (fun _ => True) := by
  have spec := (provision_ensures c source s₀ f policy).and (provision_complete (c := c) hF hm hl)
  refine spec.weaken (fun s hs => ⟨hs, hs⟩) ?_ (fun _ _ _ => trivial) fun _ _ => trivial
  rintro d s ⟨⟨⟨contents', hm', rfl⟩, hend⟩, hcomplete⟩
  obtain rfl : contents' = contents := Except.ok.inj (hm'.symm.trans hm)
  rcases hend with ⟨-, i, hi, -⟩ | ⟨⟨-, hp⟩, hpast⟩
  · rw [hl] at hi
    cases hi
  · exact ⟨hcomplete, hp, hpast⟩

/-- **Without the bundle in the store**, the argument is only set where setup could succeed, and
with a new bundle. -/
theorem installStore_missing (hf : s₀.view.resolve boot storePath = some f)
    (hmissing : ∀ contents, manifest policy = .ok contents → s₀.lookup f (sha256 contents) = none) :
    Ensures (· = ⟨s₀, u⟩) (installStore c source boot policy expected uuid)
      (fun _ m => m.bootUuid = u ∨ Installed c source s₀ boot f policy expected m.disk)
      (fun _ m => m.bootUuid = u ∨ Installed c source s₀ boot f policy expected m.disk)
      (fun m => m.bootUuid = u ∨ Installed c source s₀ boot f policy expected m.disk) := by
  have start : ∀ m : Machine, m.bootUuid = u → m.bootUuid = u ∨
      Installed c source s₀ boot f policy expected m.disk := fun m hm => .inl hm
  refine installStore_opens (.inl rfl) hf fun hroot htrusted hstore => ?_
  rcases hm : manifest policy with e | contents
  · -- `provision` does not return
    refine .bind (M := fun _ _ => False) ((onDisk_ensures (provision_ensures c source s₀ f policy) u).weaken
      (fun m hm => hm) ?_ (fun _ m hm => start m hm.1) fun m hm => start m hm.1) fun _ _ h => h.elim
    rintro d m ⟨-, ⟨contents, hcontents, -⟩, -⟩
    rw [hm] at hcontents
    cases hcontents
  obtain ⟨rows, hF, -⟩ := manifest_eq_ok.mp hm
  obtain ⟨F, rfl⟩ := policyRows_ok hF
  have hl := hmissing contents hm
  have hdir : (s₀.kind f).isDir = true := by
    obtain ⟨j, hj, ht⟩ := isTrusted_iff.mp hstore
    exact Option.some.inj (hj.symm.trans hf) ▸ ht.isDir
  refine .bind (M := fun _ m => (Complete source F.rows ∧
    ∃ draw ∈ c.draws, s₀.lookup f (temporaryName draw) = none) ∧ m.bootUuid = u ∧
      (∃ temporary, Published s₀ f (sha256 contents) policy (c.attr 0o700) temporary m.disk) ∧
        ∀ n, m.disk.past f n = []) ((onDisk_ensures (provision_missing hF hm hl) u).weaken (fun _ hm => hm)
      (fun _ _ hm => ⟨hm.2.1, hm.1, hm.2.2⟩) (fun _ m hm => start m hm.1) fun m hm => start m hm.1)
        fun destination => .assume ?_
  rintro ⟨hs, draw, hdraw, hfree⟩
  refine .bind (M := fun _ m => Installed c source s₀ boot f policy expected m.disk)
    ((onDisk_reading_ensures (fun m hm => start m hm.1) fun _ m hm => start m hm.1).weaken (fun _ hm => hm) ?_
      (fun _ _ hm => hm) fun _ hm => hm) fun _ => ?_
  · rintro report m ⟨⟨hu, ⟨temporary, hp⟩, hpast⟩, hr⟩
    obtain ⟨rfl, hholds⟩ := (checkBundle_ok_iff hF hm).mp ⟨report, hr⟩
    refine ⟨⟨?_, hroot, .inr htrusted, .inr hstore, (treeAt_store hf hdir _).mpr hl,
      ⟨draw, hdraw, (treeAt_store hf hdir _).mpr hfree⟩, F, hF, hm, hs⟩, ⟨temporary, hp⟩, hpast⟩
    -- the new directory is only trusted when root made it
    obtain ⟨j, hj, attr, hk, ht⟩ := isTrusted_iff.mp hholds.bundle
    obtain rfl : temporary = j := Option.some.inj ((hp.resolve_bundlePath hf).symm.trans hj)
    rw [hp.dir, Kind.dir.injEq] at hk
    exact trusted_attr.mp (hk ▸ ht)
  · exact .bind (setKargs_ensures.weaken (fun _ hm => hm) (fun _ _ hm => hm) (fun _ _ hm => .inr hm)
      fun _ hm => .inr hm) fun _ => .pure fun _ hm => .inr hm

/-! ## What setup ensures where it makes a directory -/

/-- A run of `provision` in an empty store that returns had everything it needs. -/
theorem provision_empty :
    Ensures (fun s => ∀ n, s.lookup f n = none) (provision c source (some f) policy)
      (fun _ _ => c.draws ≠ [] ∧ ∃ (F : FileSet) (contents : Bytes),
        policyRows policy = .ok F.rows ∧ manifest policy = .ok contents ∧ Complete source F.rows)
      (fun _ _ => True) (fun _ => True) := by
  rcases hm : manifest policy with e | contents
  · intro w _
    simp [provision, hm, Prog.ofExcept, Prog.raise, Act.raise, Act.bind_apply]
  · obtain ⟨rows, hrows, -⟩ := manifest_eq_ok.mp hm
    obtain ⟨F, rfl⟩ := policyRows_ok hrows
    refine .each fun s hs => (provision_complete hrows hm (hs _)).weaken (fun s hs => hs) (fun _ _ h => ?_)
      (fun _ _ _ => trivial) fun _ _ => trivial
    obtain ⟨hcomplete, draw, hdraw, -⟩ := h
    exact ⟨List.ne_nil_of_mem hdraw, F, contents, hrows, rfl, hcomplete⟩

/-- Nothing is in a store that does not exist. -/
theorem treeAt_absent (hno : s.view.resolve boot storePath = none) (p : Path) :
    treeAt s boot (storePath ++ p) = none := by
  rw [treeAt, View.tree_eq_none, View.resolve_append, hno, Option.bind_none]

/-- **Setup that makes the store** only gets to the kernel argument where it could succeed. -/
theorem installStore_absent (hno : s₀.view.resolve boot storePath = none) :
    Ensures (· = ⟨s₀, u⟩) (installStore c source boot policy expected uuid)
      (fun _ m => m.bootUuid = u ∨ Installable c source boot policy expected s₀)
      (fun _ m => m.bootUuid = u ∨ Installable c source boot policy expected s₀)
      (fun m => m.bootUuid = u ∨ Installable c source boot policy expected s₀) := by
  have closed : ∀ {α : Type} {p : Prog Disk PyError α} {P : Disk → Prop} {Q : α → Disk → Prop}
      {R : PyError → Disk → Prop} {K : Disk → Prop}, Ensures P p Q R K →
      Ensures (fun m => m.bootUuid = u ∧ P m.disk) (onDisk p)
        (fun a m => m.bootUuid = u ∧ Q a m.disk)
        (fun _ m => m.bootUuid = u ∨ Installable c source boot policy expected s₀)
        (fun m => m.bootUuid = u ∨ Installable c source boot policy expected s₀) :=
    fun h => (onDisk_ensures h u).weaken (fun _ hm => hm) (fun _ _ hm => hm)
      (fun _ _ hm => .inl hm.1) fun _ hm => .inl hm.1
  have start : ∀ m : Machine, m = ⟨s₀, u⟩ → m.bootUuid = u ∨ Installable c source boot policy expected s₀ :=
    fun m hm => .inl (congrArg Machine.bootUuid hm)
  refine .bind (M := fun _ m => IsTrusted (treeAt s₀ boot) [] ∧ m.bootUuid = u ∧ m.disk = s₀)
    ((onDisk_reading_ensures start fun _ => start).weaken (fun _ hm => hm) ?_ (fun _ _ hm => hm)
      fun _ hm => hm) fun _ => .assume fun hroot => ?_
  · rintro _ m ⟨rfl, hr⟩
    exact ⟨trustedDirectory_obj.mp hr, rfl, rfl⟩
  -- the first directory is there or made, so the second one is made
  refine .bind (closed (installDirectory_ensures c s₀ boot _ _)) fun azurefin => ?_
  refine .bind (M := fun firmware m => (c.uid = 0 ∧ (treeAt s₀ boot ["azurefin".toList] = none ∨
    IsTrusted (treeAt s₀ boot) ["azurefin".toList])) ∧ m.bootUuid = u ∧
      ∀ n, m.disk.lookup firmware n = none) ?_ fun firmware => .assume fun hfacts => ?_
  · refine .each fun m hm => ?_
    obtain ⟨hu, hopened, htrusted⟩ := hm
    refine (closed (installDirectory_ensures c m.disk azurefin _ _)).weaken
      (fun m' hm' => by subst hm'; exact ⟨hu, rfl⟩) (fun firmware m' hm' => ?_) (fun _ m' hm' => hm')
        fun m' hm' => hm'
    obtain ⟨hu', hsecond, htrusted'⟩ := hm'
    obtain ⟨hfirst, rfl, hc⟩ := opened_absent hno hroot hopened htrusted hsecond
    exact ⟨⟨trusted_of_created hc htrusted', hfirst⟩, hu', hc.lookup_next⟩
  refine .bind ((closed provision_empty).weaken (fun m hm => hm)
    (fun _ m hm => ⟨hm.2, hm.1⟩) (fun _ m hm => hm) fun m hm => hm) fun destination =>
      .assume ?_
  rintro ⟨hdraws, F, contents, hF, hm, hs⟩
  refine .bind (M := fun _ _ => Installable c source boot policy expected s₀)
    ((onDisk_reading_ensures (P := fun m => m.bootUuid = u) (fun _ hu => .inl hu) fun _ _ hu => .inl hu).weaken
      (fun _ hu => hu) ?_ (fun _ _ hm => hm) fun _ hm => hm) fun _ => ?_
  · rintro report m ⟨-, hr⟩
    obtain ⟨rfl, -⟩ := (checkBundle_ok_iff hF hm).mp ⟨report, hr⟩
    obtain ⟨draw, hdraw⟩ := List.exists_mem_of_ne_nil _ hdraws
    exact ⟨hfacts.1, hroot, hfacts.2, .inl ((List.append_nil storePath) ▸ treeAt_absent hno []),
      treeAt_absent hno _, ⟨draw, hdraw, treeAt_absent hno _⟩, F, hF, hm, hs⟩
  · exact .bind ((setKargs_ensures (P := fun _ => Installable c source boot policy expected s₀)).weaken
      (fun _ hi => hi) (fun _ _ hi => hi) (fun _ _ hi => .inr hi) fun _ hi => .inr hi) fun _ =>
        .pure fun _ hi => .inr hi

/-! ## Setup that succeeds -/

theorem trusted_of_found {p : Path} {j : Nat}
    (h : treeAt s boot p = none ∨ IsTrusted (treeAt s boot) p) (hj : s.view.resolve boot p = some j) :
    TrustedDir s j := by
  rcases h with hnone | htrusted
  · rw [treeAt, View.tree_eq_none, hj] at hnone
    cases hnone
  · obtain ⟨k, hk, ht⟩ := isTrusted_iff.mp htrusted
    exact Option.some.inj (hk.symm.trans hj) ▸ ht

theorem installDirectory_goes {parent : Nat} {name : Text} (path : Text) (hlt : parent < s.next)
    (hd : (s.kind parent).isDir = true) (hu : c.uid = 0)
    (hchild : ∀ child, s.lookup parent name = some child → TrustedDir s child) :
    ∃ child t, Goes (installDirectory c parent name path) s child t ∧
      Opened (c.attr 0o700) s parent name child t ∧ TrustedDir t child := by
  rcases hl : s.lookup parent name with _ | child
  · obtain ⟨t, hgo, hc, ht⟩ := installDirectory_makes path hlt hd hl hu
    exact ⟨s.next, t, hgo, .inr ⟨rfl, hc⟩, ht⟩
  · have ht := hchild child hl
    exact ⟨child, s, installDirectory_opens hl ht, .inl ⟨rfl, hl⟩, ht⟩

namespace Opened

variable {parent child : Nat} {name : Text} {attr : Attr}

theorem lookup (h : Opened attr s parent name child t) : t.lookup parent name = some child := by
  rcases h with ⟨rfl, hl⟩ | ⟨rfl, hc⟩
  · exact hl
  · rw [hc.lookup, if_pos ⟨rfl, rfl⟩]

theorem lookup_of_ne (h : Opened attr s parent name child t) {d : Nat} (hd : d ≠ parent) (n : Text) :
    t.lookup d n = s.lookup d n := by
  rcases h with ⟨rfl, -⟩ | ⟨-, hc⟩
  · rfl
  · rw [hc.lookup, if_neg fun he => hd he.1]

theorem kind (h : Opened attr s parent name child t) {i : Nat} (hi : i < s.next) : t.kind i = s.kind i := by
  rcases h with ⟨rfl, -⟩ | ⟨-, hc⟩
  · rfl
  · rw [hc.kind, Function.update_of_ne (by omega)]

theorem next_le (h : Opened attr s parent name child t) : s.next ≤ t.next := by
  rcases h with ⟨rfl, -⟩ | ⟨-, hc⟩
  · exact Nat.le_refl _
  · have := hc.next
    omega

/-- A directory whose entry has been synced was only opened. -/
theorem same (h : Opened attr s parent name child t) (hp : t.past parent name = []) : t = s := by
  rcases h with ⟨rfl, -⟩ | ⟨-, hc⟩
  · rfl
  · rw [hc.past, if_pos ⟨rfl, rfl⟩] at hp
    cases hp

/-- A directory that was made is empty. -/
theorem lookup_child (h : Opened attr s parent name child t) {n : Text} {i : Nat}
    (hl : t.lookup child n = some i) : t = s := by
  rcases h with ⟨rfl, -⟩ | ⟨rfl, hc⟩
  · rfl
  · rw [hc.lookup_next] at hl
    cases hl

end Opened

/-- Both directories of the store have been opened or made. -/
def StoreOpened (attr : Attr) (s₀ : Disk) (boot f : Nat) (s : Disk) : Prop :=
  ∃ a t, Opened attr s₀ boot "azurefin".toList a t ∧ Opened attr t a "firmware".toList f s

/-- A store on a synced path was there before. -/
theorem StoreOpened.same {attr : Attr} {g : Nat} (h : StoreOpened attr s₀ boot f s)
    (hg : s.Leads boot storePath g) : s = s₀ := by
  obtain ⟨a, t, hfirst, hsecond⟩ := h
  obtain ⟨-, hpast, a', ha', -, hpast', -⟩ := leads_storePath_iff.mp hg
  have hlt := lookup_lt hfirst.lookup
  have ha : s.lookup boot "azurefin".toList = some a := by
    rw [hsecond.lookup_of_ne (by omega), hfirst.lookup]
  obtain rfl : a = a' := Option.some.inj (ha.symm.trans ha')
  obtain rfl := hsecond.same hpast'
  exact hfirst.same hpast

/-- What was not there is not in the store. -/
theorem StoreOpened.lookup {attr : Attr} {n : Text} (h : StoreOpened attr s₀ boot f s)
    (hn : treeAt s₀ boot (storePath ++ [n]) = none) : s.lookup f n = none := by
  rcases hl : s.lookup f n with _ | i
  · rfl
  obtain ⟨a, t, hfirst, hsecond⟩ := h
  obtain rfl := hsecond.lookup_child hl
  obtain rfl := hfirst.lookup_child hsecond.lookup
  have isDir : ∀ {d n i}, s.lookup d n = some i → (s.kind d).isDir = true :=
    fun he => s.entry_dir _ _ _ (mem_entries he)
  have hf : s.view.resolve boot storePath = some f := resolve_storePath_iff.mpr
    ⟨isDir hfirst.lookup, a, hfirst.lookup, isDir hsecond.lookup, hsecond.lookup⟩
  exact hl.symm.trans ((treeAt_store hf (isDir hl) n).mp hn)

/-- The store is in directories that only root can write to. -/
structure TrustedStore (s : Disk) (boot f : Nat) : Prop where
  root : TrustedDir s boot
  store : TrustedDir s f
  path : ∃ a, s.lookup boot "azurefin".toList = some a ∧ TrustedDir s a ∧
    s.lookup a "firmware".toList = some f

theorem TrustedStore.resolve (h : TrustedStore s boot f) : s.view.resolve boot storePath = some f := by
  obtain ⟨a, ha, hta, haf⟩ := h.path
  exact resolve_storePath_iff.mpr ⟨h.root.isDir, a, ha, hta.isDir, haf⟩

theorem Published.trusted {temporary : Nat} {attr : Attr}
    (hp : Published s f (sha256 contents) policy attr temporary t) (h : TrustedStore s boot f) :
    TrustedStore t boot f := by
  obtain ⟨a, ha, same⟩ := hp.above h.resolve
  obtain ⟨a', ha', hta, haf⟩ := h.path
  obtain rfl : a' = a := Option.some.inj (ha'.symm.trans ha)
  refine ⟨h.root.of_kind (same.kind _ (.inl rfl)), h.store.of_kind hp.kind, a', ?_,
    hta.of_kind (same.kind _ (.inr rfl)), ?_⟩
  · rw [same.lookup _ (.inl rfl), ha]
  · rw [same.lookup _ (.inr rfl), haf]

/-- The check passes on a new bundle that root has made. -/
theorem Published.checks {temporary : Nat} {F : FileSet} (hu : c.uid = 0)
    (hF : policyRows policy = .ok F.rows) (hm : manifest policy = .ok contents)
    (hp : Published s f (sha256 contents) policy (c.attr 0o700) temporary t) (h : TrustedStore s boot f) :
    ∃ report, checkBundle (treeAt t boot) policy contents = .ok report := by
  have hstore := hp.trusted h
  obtain ⟨a, ha, hta, -⟩ := hstore.path
  have ra : t.view.resolve boot ["azurefin".toList] = some a :=
    View.resolve_snoc (p := []) rfl hstore.root.isDir ha
  have rb := hp.resolve_bundlePath h.resolve
  have hsub : subtree (treeAt t boot) (bundlePath (sha256 contents)) = treeAt t temporary :=
    funext fun q => View.tree_append rb q
  refine (checkBundle_ok_iff hF hm).mpr ⟨rfl, isTrusted_iff.mpr ⟨_, rfl, hstore.root⟩,
    isTrusted_iff.mpr ⟨_, ra, hta⟩, isTrusted_iff.mpr ⟨_, hstore.resolve, hstore.store⟩,
    isTrusted_iff.mpr ⟨_, rb, _, hp.dir, trusted_attr.mpr hu⟩, ?_⟩
  rw [hsub]
  exact (inventory_ok_iff hF).mp hp.complete

theorem storeOpened_goes (hboot : boot < s₀.next) (h : Installable c source boot policy expected s₀)
    (path path' : Text) : ∃ a t f s, Goes (installDirectory c boot "azurefin".toList path) s₀ a t ∧
      Goes (installDirectory c a "firmware".toList path') t f s ∧
        StoreOpened (c.attr 0o700) s₀ boot f s ∧ TrustedStore s boot f := by
  have hroot : TrustedDir s₀ boot := by
    obtain ⟨j, hj, ht⟩ := isTrusted_iff.mp h.root
    exact Option.some.inj hj ▸ ht
  obtain ⟨a, t, hgo, hfirst, hta⟩ := installDirectory_goes path hboot hroot.isDir h.uid fun child hl =>
    trusted_of_found h.azurefin (View.resolve_snoc (p := []) rfl hroot.isDir hl)
  have hlt := lookup_lt hfirst.lookup
  have second : ∀ child, t.lookup a "firmware".toList = some child → TrustedDir t child := fun child hl => by
    obtain rfl := hfirst.lookup_child hl
    exact trusted_of_found h.firmware
      (resolve_storePath_iff.mpr ⟨hroot.isDir, a, hfirst.lookup, hta.isDir, hl⟩)
  obtain ⟨f, s, hgo', hsecond, htf⟩ := installDirectory_goes path' hlt.2 hta.isDir h.uid second
  have hnext := hfirst.next_le
  refine ⟨a, t, f, s, hgo, hgo', ⟨a, t, hfirst, hsecond⟩, hroot.of_kind ?_, htf, a, ?_,
    hta.of_kind (hsecond.kind hlt.2), hsecond.lookup⟩
  · rw [hsecond.kind (by omega), hfirst.kind hboot]
  · rw [hsecond.lookup_of_ne (by omega), hfirst.lookup]

/-- **Setup succeeds where it could**: it opens or makes the store, adds the bundle and sets the
argument. -/
theorem installStore_goes (uuid : Text) (u : Option Text) (hboot : boot < s₀.next)
    (h : Installable c source boot policy expected s₀) : ∃ d f s temporary t,
      Goes (installStore c source boot policy expected uuid) ⟨s₀, u⟩ d ⟨t, some uuid⟩ ∧
      StoreOpened (c.attr 0o700) s₀ boot f s ∧ s.view.resolve boot storePath = some f ∧
        Published s f (sha256 expected) policy (c.attr 0o700) temporary t ∧ ∀ n, t.past f n = [] := by
  obtain ⟨F, hF, hm, hs⟩ := h.accepted
  obtain ⟨a, t, f, s, hgo₁, hgo₂, hopened, hstore⟩ :=
    storeOpened_goes hboot h (bootPath ["azurefin".toList]) (bootPath storePath)
  have habs := hopened.lookup h.absent
  obtain ⟨draw, hdraw, hfree⟩ := h.draws
  obtain ⟨a', -, -, haf⟩ := hstore.path
  obtain ⟨v, -, hgo₃, -⟩ := provision_goes hF hs (lookup_lt haf).2 hstore.store.isDir hm habs
    ⟨draw, hdraw, hopened.lookup hfree⟩
  -- what provisioning has done
  have hadded := (hgo₃.ensures (provision_ensures c source s f policy) rfl).2
  obtain ⟨⟨-, temporary, hp⟩, hpast⟩ : Added s f policy (c.attr 0o700) (sha256 expected) v ∧
      ∀ n, v.past f n = [] := by
    rcases hadded with ⟨-, i, hi, -⟩ | hadded
    · rw [habs] at hi
      cases hi
    · exact hadded
  obtain ⟨report, hreport⟩ := hp.checks h.uid hF hm hstore
  have hfirst : trustedDirectory (bootPath []) (some (s₀.view.obj boot)) = .ok () :=
    trustedDirectory_obj.mpr h.root
  refine ⟨sha256 expected, f, s, temporary, v, ?_, hopened, hstore.resolve, hp, hpast⟩
  refine .bind (.zoom (.look hfirst)) (.bind (.zoom hgo₁) (.bind (.zoom hgo₂) ?_))
  refine .bind (.zoom hgo₃) (.bind (.zoom (.look hreport)) ?_)
  exact .bind (.step rfl) (.pure _ _)

theorem Holding.trustedStore {id : Text} {rows : List Row} (h : Holding (treeAt s boot) id rows) :
    ∃ f, TrustedStore s boot f := by
  obtain ⟨j, hj, hroot⟩ := isTrusted_iff.mp h.root
  obtain rfl : boot = j := Option.some.inj hj
  obtain ⟨f, hf, hstore⟩ := isTrusted_iff.mp h.store
  obtain ⟨hdir, a, ha, -, haf⟩ := resolve_storePath_iff.mp hf
  obtain ⟨a', ha', hta⟩ := isTrusted_iff.mp h.azurefin
  have ra : s.view.resolve boot ["azurefin".toList] = some a := View.resolve_snoc (p := []) rfl hdir ha
  obtain rfl : a = a' := Option.some.inj (ra.symm.trans ha')
  exact ⟨f, hroot, hstore, a, ha, hta, haf⟩

/-- **Setup succeeds again** on a disk where its check passes, and leaves the disk as it is. -/
theorem installStore_again (c : Caller) (source : Tree) (uuid : Text) (u : Option Text)
    {report : BundleReport} (h : checkBundle (treeAt s₀ boot) policy expected = .ok report) :
    ∃ d, Goes (installStore c source boot policy expected uuid) ⟨s₀, u⟩ d ⟨s₀, some uuid⟩ := by
  obtain ⟨contents, hm, -⟩ := Except.bind_eq_ok.mp h
  obtain ⟨rows, hF, -⟩ := manifest_eq_ok.mp hm
  obtain ⟨F, rfl⟩ := policyRows_ok hF
  obtain ⟨rfl, hholds⟩ := (checkBundle_ok_iff hF hm).mp ⟨report, h⟩
  obtain ⟨f, hstore⟩ := hholds.trustedStore
  obtain ⟨a, ha, hta, haf⟩ := hstore.path
  obtain ⟨i, hi, hti⟩ := isTrusted_iff.mp hholds.bundle
  have hl : s₀.lookup f (sha256 contents) = some i := by
    have hi' := hi
    rw [bundlePath, View.resolve_append, hstore.resolve, Option.bind_some, View.resolve_cons, view_kind,
      if_pos hstore.store.isDir] at hi'
    simpa using hi'
  have hsub : subtree (treeAt s₀ boot) (bundlePath (sha256 contents)) = treeAt s₀ i :=
    funext fun q => View.tree_append hi q
  obtain ⟨out, hout⟩ : ∃ out, inventory (treeAt s₀ i) policy = .ok out := by
    rw [← hsub]
    exact (inventory_ok_iff hF).mpr hholds.complete
  have hprovision : Goes (provision c source (some f) policy) s₀ (sha256 contents) s₀ := by
    refine .bind (.ofExcept hm s₀) (.bind (.look (a := f) (by simp [openStore, hstore.store.isDir])) ?_)
    refine .bind (.look (a := some i) (by rw [hl])) ?_
    exact .bind (.look (a := ()) (by simp [hti.isDir])) (.bind (.look hout) (.pure _ _))
  have hfirst : trustedDirectory (bootPath []) (some (s₀.view.obj boot)) = .ok () :=
    trustedDirectory_obj.mpr hholds.root
  refine ⟨sha256 contents, .bind (.zoom (.look hfirst)) ?_⟩
  refine .bind (.zoom (installDirectory_opens ha hta)) (.bind (.zoom (installDirectory_opens haf hstore.store)) ?_)
  exact .bind (.zoom hprovision) (.bind (.zoom (.look h)) (.bind (.step rfl) (.pure _ _)))

/-! ## The exact condition -/

/-- The boot file system, in any state. -/
structure BootFs where
  disk : Disk
  root : Nat
  root_lt : root < disk.next

/-- A call of `install_store`. -/
structure Install where
  caller : Caller
  source : Tree
  policy : Json
  expected : Bytes
  uuid : Text

/-- The machine a call leaves, when it starts on the given file system. -/
def Install.run (call : Install) (b : BootFs) (bootUuid : Option Text) (fates : List Fate) :
    Machine :=
  (installStore call.caller call.source b.root call.policy call.expected call.uuid
    ⟨fates, ⟨b.disk, bootUuid⟩⟩).2.state

/-- On a machine that was opted in before, no power failure takes the bundle away. On any other, none
takes away a bundle that passes the check already, and none takes away the store of a disk on which
setup can add the bundle. -/
def Install.SafeOn (call : Install) (b : BootFs) (bootUuid : Option Text) : Prop :=
  if bootUuid.isSome then AlwaysReachable b.root call.policy b.disk
  else
    ((∃ report, checkBundle (treeAt b.disk b.root) call.policy call.expected = .ok report) →
      AlwaysReachable b.root call.policy b.disk) ∧
    (Installable call.caller call.source b.root call.policy call.expected b.disk →
      StoreDurable b.root b.disk)

theorem Install.run_nil (call : Install) (b : BootFs) (bootUuid : Option Text) :
    call.run b bootUuid [] = ⟨b.disk, bootUuid⟩ := rfl

theorem Install.run_goes (call : Install) {b : BootFs} {bootUuid : Option Text} {d : Text} {m : Machine}
    (h : Goes (installStore call.caller call.source b.root call.policy call.expected call.uuid)
      ⟨b.disk, bootUuid⟩ d m) : ∃ fates, call.run b bootUuid fates = m := by
  obtain ⟨n, hgo⟩ := h
  exact ⟨List.replicate n .go ++ [], congrArg (fun r => r.2.state) (hgo [])⟩

/-- The bundle for the policy is in the store. -/
theorem AlwaysReachable.found (h : AlwaysReachable boot policy s) : ∃ f contents i,
    s.view.resolve boot storePath = some f ∧ manifest policy = .ok contents ∧
      s.lookup f (sha256 contents) = some i := by
  obtain ⟨contents, i, hm, hr, -⟩ := h _ (.nothing_lost s)
  rw [bundlePath, View.resolve_append] at hr
  obtain ⟨f, hf, hi⟩ := Option.bind_eq_some_iff.mp hr
  rw [View.resolve_cons] at hi
  split at hi
  · exact ⟨f, contents, i, hf, hm, by simpa using hi⟩
  · cases hi

/-- Where the bundle is in the store, its own durability decides. -/
theorem Install.safe_of_found (call : Install) {b : BootFs} {i : Nat}
    (hf : b.disk.view.resolve b.root storePath = some f) (hm : manifest call.policy = .ok contents)
    (hl : b.disk.lookup f (sha256 contents) = some i)
    (h : u.isSome = true ∨
        (∃ report, checkBundle (treeAt b.disk b.root) call.policy call.expected = .ok report) →
      AlwaysReachable b.root call.policy b.disk) (fates : List Fate) :
    OptedInSafely b.root call.policy (call.run b u fates) := by
  intro hset
  obtain ⟨hdisk, hu⟩ : Rechecked b.disk u b.root call.policy call.expected (call.run b u fates) :=
    (installStore_found hf hm hl).invariant rfl rfl
  rw [hdisk]
  exact h (hu.imp_left fun he => by rwa [he] at hset)

/-- Where it is not, the durability of the store decides. -/
theorem Install.safe_of_missing (call : Install) {b : BootFs}
    (hf : b.disk.view.resolve b.root storePath = some f)
    (hmissing : ∀ contents, manifest call.policy = .ok contents → b.disk.lookup f (sha256 contents) = none)
    (h : Installable call.caller call.source b.root call.policy call.expected b.disk →
      StoreDurable b.root b.disk) (fates : List Fate) :
    OptedInSafely b.root call.policy (call.run b none fates) := by
  intro hset
  have hend : (call.run b none fates).bootUuid = none ∨ Installed call.caller call.source b.disk b.root f
      call.policy call.expected (call.run b none fates).disk :=
    (installStore_missing hf hmissing).invariant rfl rfl
  rcases hend with hu | ⟨hi, ⟨temporary, hp⟩, hpast⟩
  · simp [hu] at hset
  · obtain ⟨F, -, hm, -⟩ := hi.accepted
    exact (hp.reachable_iff hf hm hpast).mpr (h hi)

/-- A store that does not exist is not durable, so that setup cannot succeed. -/
theorem Install.safe_of_absent (call : Install) {b : BootFs}
    (hno : b.disk.view.resolve b.root storePath = none)
    (h : Installable call.caller call.source b.root call.policy call.expected b.disk →
      StoreDurable b.root b.disk) (fates : List Fate) :
    OptedInSafely b.root call.policy (call.run b none fates) := by
  intro hset
  have hend : (call.run b none fates).bootUuid = none ∨
      Installable call.caller call.source b.root call.policy call.expected b.disk :=
    (installStore_absent hno).invariant rfl rfl
  rcases hend with hu | hi
  · simp [hu] at hset
  · obtain ⟨f, hf⟩ := h hi _ (.nothing_lost _)
    rw [hno] at hf
    cases hf

/-- A call that is safe on a disk only opts in a machine that keeps its bundle. -/
theorem Install.SafeOn.safe {call : Install} {b : BootFs} {bootUuid : Option Text}
    (h : call.SafeOn b bootUuid) (fates : List Fate) :
    OptedInSafely b.root call.policy (call.run b bootUuid fates) := by
  unfold Install.SafeOn at h
  split at h
  · obtain ⟨f, contents, i, hf, hm, hl⟩ := h.found
    exact call.safe_of_found hf hm hl (fun _ => h) fates
  rename_i hu
  obtain rfl : bootUuid = none := by simpa using hu
  rcases hr : b.disk.view.resolve b.root storePath with _ | f
  · exact call.safe_of_absent hr h.2 fates
  by_cases hfound : ∃ contents i, manifest call.policy = .ok contents ∧
      b.disk.lookup f (sha256 contents) = some i
  · obtain ⟨contents, i, hm, hl⟩ := hfound
    exact call.safe_of_found hr hm hl (fun hcheck => h.1 (hcheck.resolve_left hu)) fates
  · refine call.safe_of_missing hr (fun contents hm => ?_) h.2 fates
    rcases hl : b.disk.lookup f (sha256 contents) with _ | i
    · rfl
    · exact absurd ⟨contents, i, hm, hl⟩ hfound

/-- On a disk that a call is not safe on, some run of it opts in a machine that may lose its bundle. -/
theorem Install.safeOn_of_safe {call : Install} {b : BootFs} {bootUuid : Option Text}
    (h : ∀ fates, OptedInSafely b.root call.policy (call.run b bootUuid fates)) :
    call.SafeOn b bootUuid := by
  unfold Install.SafeOn
  split
  · exact h [] ‹_›
  refine ⟨fun ⟨report, hcheck⟩ => ?_, fun hi => ?_⟩
  · obtain ⟨d, hgo⟩ := installStore_again call.caller call.source call.uuid bootUuid hcheck
    obtain ⟨fates, hrun⟩ := call.run_goes hgo
    exact (hrun ▸ h fates : OptedInSafely _ _ _) rfl
  · obtain ⟨d, f, s, temporary, t, hgo, hopened, hf, hp, hpast⟩ := installStore_goes call.uuid bootUuid
      b.root_lt hi
    obtain ⟨F, -, hm, -⟩ := hi.accepted
    obtain ⟨fates, hrun⟩ := call.run_goes hgo
    have hreach : AlwaysReachable b.root call.policy t := (hrun ▸ h fates : OptedInSafely _ _ _) rfl
    have hdurable := (hp.reachable_iff hf hm hpast).mp hreach
    -- the store is on a synced path, so setup has not made a directory of it
    obtain ⟨g, hg⟩ := storeDurable_iff.mp hdurable
    exact hopened.same hg ▸ hdurable

/-- **When setup is safe against power failures.** Whatever happens in a call of
`install_store`, the argument is only set on a disk that durably holds the bundle, if and only
if the call is safe on the disk it starts on. -/
theorem installStore_safe_iff (call : Install) (b : BootFs) (bootUuid : Option Text) :
    (∀ fates, OptedInSafely b.root call.policy (call.run b bootUuid fates)) ↔
      call.SafeOn b bootUuid :=
  ⟨Install.safeOn_of_safe, fun h fates => h.safe fates⟩

/-- No call is safe on a disk with a bundle that passes the check and whose entry in the store has not
been synced, as a run leaves it that is killed behind the rename: the next run finds it there. -/
theorem Install.not_safeOn_of_unsynced (call : Install) {b : BootFs}
    (hcheck : ∃ report, checkBundle (treeAt b.disk b.root) call.policy call.expected = .ok report)
    (hf : b.disk.view.resolve b.root storePath = some f) (hm : manifest call.policy = .ok contents)
    (hpast : b.disk.past f (sha256 contents) ≠ []) : ¬ call.SafeOn b none := by
  intro h
  have hreach : AlwaysReachable b.root call.policy b.disk := h.1 hcheck
  obtain ⟨v, hv, hlost⟩ := exists_crash_without hpast
  obtain ⟨contents', i, hm', hi, -⟩ := hreach v hv
  obtain rfl : contents' = contents := Except.ok.inj (hm'.symm.trans hm)
  obtain ⟨g, hg⟩ := storeDurable_iff.mp hreach.storeDurable
  obtain rfl : g = f := Option.some.inj ((hg.resolve (.nothing_lost _)).symm.trans hf)
  rw [bundlePath, View.resolve_append, hg.resolve hv, Option.bind_some, View.resolve_cons, hlost] at hi
  simp at hi

/-- Setup for one file on an empty boot file system. -/
def sampleInstall : Install :=
  ⟨⟨0, 0o077, ["x".toList]⟩, sampleSource, policyOf sampleFiles.rows,
    encodeAscii (manifestText sampleFiles.rows), "11111111-2222-3333-4444-555555555555".toList⟩

def emptyBoot : BootFs := ⟨Fs.empty ⟨0, 0o755⟩, 0, Nat.one_pos⟩

theorem sampleInstall_installable : Installable sampleInstall.caller sampleInstall.source
    emptyBoot.root sampleInstall.policy sampleInstall.expected emptyBoot.disk := by
  refine ⟨rfl, ⟨⟨0, 0o755⟩, rfl, by decide⟩, .inl rfl, .inl rfl, rfl, ⟨_, List.mem_cons_self, rfl⟩,
    sampleFiles, policyRows_policyOf sampleFiles, ?_, sampleSource_complete⟩
  exact manifest_eq_ok.mpr ⟨_, policyRows_policyOf sampleFiles, rfl⟩

/-- A power failure after setup on an empty boot file system can leave the kernel argument set
and no store. -/
theorem sampleInstall_unsafe : ¬ ∀ fates,
    OptedInSafely emptyBoot.root sampleInstall.policy (sampleInstall.run emptyBoot none fates) := by
  intro h
  have hdurable : StoreDurable emptyBoot.root emptyBoot.disk :=
    (Install.safeOn_of_safe h).2 sampleInstall_installable
  obtain ⟨f, hf⟩ := hdurable _ (.nothing_lost _)
  cases hf

end Azurefin
