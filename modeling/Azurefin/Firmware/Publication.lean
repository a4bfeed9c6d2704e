import Azurefin.Firmware.Provision

/-!
# What a run of `provision` does to the store

While it runs, the disk is in one of three phases, seen from the disk `s₀` it started on:
`Unchanged`, `Preparing` a temporary directory, or with the bundle `Published`.
`provision_ensures` says which phase each way to end leaves.
-/

namespace Azurefin

open Prog Fs

variable {s₀ s t : Disk} {store temporary : Nat} {name bundleId : Text} {policy : Json}

/-- Objects of the disk `s₀` other than the store's directory. -/
def Elsewhere (s₀ : Disk) (store i : Nat) : Prop := i < s₀.next ∧ i ≠ store

/-- The store lists what it listed, and everything that was there is as it was. -/
structure Unchanged (s₀ : Disk) (store : Nat) (s : Disk) : Prop where
  frame : SameOn (Elsewhere s₀ store) s₀ s
  kind : s.kind store = s₀.kind store
  lookup : ∀ n, s.lookup store n = s₀.lookup store n
  past : ∀ n, isSha256Text n = true → s.past store n = s₀.past store n

/-- A new directory `temporary` is being filled under a name that is not a digest. -/
structure Preparing (s₀ : Disk) (store : Nat) (name : Text) (attr : Attr) (temporary : Nat)
    (s : Disk) : Prop where
  frame : SameOn (Elsewhere s₀ store) s₀ s
  kind : s.kind store = s₀.kind store
  store_lt : store < s₀.next
  lookup : ∀ n, s.lookup store n = if n = name then some temporary else s₀.lookup store n
  past : ∀ n, n ≠ name → s.past store n = s₀.past store n
  absent : s₀.lookup store name = none
  hidden : isSha256Text name = false
  next_le : s₀.next ≤ s.next
  le : s₀.next ≤ temporary
  lt : temporary < s.next
  dir : s.kind temporary = .dir attr

/-- All new files are synced, but for those in `pending`. -/
def FilesSynced (s₀ : Disk) (pending : Nat → Prop) (s : Disk) : Prop :=
  ∀ i, s₀.next ≤ i → i < s.next → s.kind i = .file → ¬ pending i → s.synced i = true

/-- The store lists the new bundle besides what it listed, and the bundle is complete and
synced. -/
structure Published (s₀ : Disk) (store : Nat) (bundleId : Text) (policy : Json) (attr : Attr)
    (temporary : Nat) (s : Disk) : Prop where
  frame : SameOn (Elsewhere s₀ store) s₀ s
  kind : s.kind store = s₀.kind store
  store_lt : store < s₀.next
  absent : s₀.lookup store bundleId = none
  lookup : ∀ n, s.lookup store n = if n = bundleId then some temporary else s₀.lookup store n
  past : ∀ n, isSha256Text n = true → ∀ o ∈ s.past store n, o = none ∨ o ∈ s₀.past store n
  le : s₀.next ≤ temporary
  dir : s.kind temporary = .dir attr
  complete : ∃ out, inventory (treeAt s temporary) policy = .ok out
  settled : s.Settled temporary

namespace Unchanged

theorem refl (s₀ : Disk) (store : Nat) : Unchanged s₀ store s₀ :=
  ⟨SameOn.refl _ _, rfl, fun _ => rfl, fun _ _ => rfl⟩

end Unchanged

theorem elsewhere_closed {i j : Nat} {n : Text} (hs : store < i)
    (h : s₀.lookup i n = some j) : store < j ∧ j < s₀.next := by
  have := lookup_lt h
  omega

/-- A tree that was in the store and is not touched is the same. -/
theorem treeAt_of_frame {i : Nat} {n : Text} (frame : SameOn (Elsewhere s₀ store) s₀ s)
    (h : s₀.lookup store n = some i) : treeAt s i = treeAt s₀ i := by
  have frame' : SameOn (fun j => store < j ∧ j < s₀.next) s₀ s :=
    frame.mono fun j hj => ⟨hj.2, by omega⟩
  exact frame'.tree (lookup_lt h) fun j n k hj hk => elsewhere_closed hj.1 hk

theorem isSha256Text_temporaryName (draw : Text) :
    isSha256Text (temporaryName draw) = false := by
  have h : ".preparing-".toList.all Digest.isHexDigit = false := by decide +kernel
  unfold isSha256Text temporaryName
  simp only [List.all_append, h, Bool.false_and, Bool.and_false]

/-! ## Filling the temporary directory -/

namespace Preparing

variable {attr : Attr} {d i : Nat} {n : Text} {k : Kind Attr}

theorem not_elsewhere (hd : s₀.next ≤ d) : ¬ Elsewhere s₀ store d := fun h => by
  have := h.1
  omega

theorem created (h : Preparing s₀ store name attr temporary s) (hd : s₀.next ≤ d)
    (hc : Created s d n k t) : Preparing s₀ store name attr temporary t := by
  have hstore := h.store_lt
  have hnext := h.next_le
  have hlt := h.lt
  refine ⟨h.frame.trans (.created hc (not_elsewhere hd) (not_elsewhere h.next_le)), ?_,
    h.store_lt, fun m => ?_, fun m hm => ?_, h.absent, h.hidden, ?_, h.le, ?_, ?_⟩
  · rw [hc.kind, Function.update_of_ne (by omega), h.kind]
  · rw [hc.lookup, if_neg (by omega), h.lookup]
  · rw [hc.past, if_neg (by omega), if_neg (by omega), h.past m hm]
  · have := hc.next
    omega
  · have := hc.next
    omega
  · rw [hc.kind, Function.update_of_ne (by omega), h.dir]

theorem append (h : Preparing s₀ store name attr temporary s) (hi : s₀.next ≤ i) (l : Bytes) :
    Preparing s₀ store name attr temporary (s.append i l) :=
  ⟨h.frame.trans (.write _ (not_elsewhere hi)), h.kind, h.store_lt, h.lookup, h.past, h.absent,
    h.hidden, h.next_le, h.le, h.lt, h.dir⟩

theorem syncFile (h : Preparing s₀ store name attr temporary s) (hi : s₀.next ≤ i) :
    Preparing s₀ store name attr temporary (s.syncFile i) :=
  ⟨h.frame.trans (.syncFile (not_elsewhere hi)), h.kind, h.store_lt, h.lookup, h.past, h.absent,
    h.hidden, h.next_le, h.le, h.lt, h.dir⟩

theorem syncDir (h : Preparing s₀ store name attr temporary s) (hd : s₀.next ≤ d) :
    Preparing s₀ store name attr temporary (s.syncDir d) := by
  have := h.store_lt
  refine ⟨h.frame.trans (.syncDir (not_elsewhere hd)), h.kind, h.store_lt, h.lookup,
    fun m hm => ?_, h.absent, h.hidden, h.next_le, h.le, h.lt, h.dir⟩
  rw [syncDir_past, Function.update_of_ne (by omega), h.past m hm]

theorem unlink (h : Preparing s₀ store name attr temporary s) (hd : s₀.next ≤ d) (n : Text) :
    Preparing s₀ store name attr temporary (s.unlink d n) := by
  have := h.store_lt
  refine ⟨h.frame.trans (.unlink n (not_elsewhere hd)), h.kind, h.store_lt, fun m => ?_,
    fun m hm => ?_, h.absent, h.hidden, h.next_le, h.le, h.lt, h.dir⟩
  · rw [unlink_lookup, if_neg (by omega), h.lookup]
  · rw [unlink_past, if_neg (by omega), h.past m hm]

/-- Taking the name of the temporary directory out of the store undoes everything. -/
theorem removed (h : Preparing s₀ store name attr temporary s) :
    Unchanged s₀ store (s.unlink store name) := by
  refine ⟨h.frame.trans (.unlink name fun hs => hs.2 rfl), h.kind, fun m => ?_, fun m hm => ?_⟩
  · rw [unlink_lookup, h.lookup]
    by_cases hn : m = name <;> simp [hn, h.absent]
  · have hne : m ≠ name := by
      rintro rfl
      simp [h.hidden] at hm
    rw [unlink_past, if_neg (by simp [hne]), h.past m hne]

/-- Making the directory `temporary`. -/
theorem start (hc : Created s₀ store n (.dir attr) s) (hn : isSha256Text n = false) :
    Preparing s₀ store n attr s₀.next s := by
  have := hc.parent_lt
  have := hc.next
  refine ⟨.created hc (fun h => h.2 rfl) (not_elsewhere (Nat.le_refl _)), ?_, hc.parent_lt,
    fun m => ?_, fun m hm => ?_, hc.absent, hn, by omega, Nat.le_refl _, by omega, ?_⟩
  · rw [hc.kind, Function.update_of_ne (by omega)]
  · rw [hc.lookup]
    by_cases hm : m = n <;> simp [hm]
  · rw [hc.past, if_neg (by simp [hm]), if_neg (by omega)]
  · rw [hc.kind, Function.update_self]

end Preparing

namespace FilesSynced

variable {d i : Nat} {n : Text} {k : Kind Attr} {pending : Nat → Prop}

theorem created_dir {attr : Attr} (h : FilesSynced s₀ pending s) (hc : Created s d n (.dir attr) t) :
    FilesSynced s₀ pending t := by
  intro i hi hlt hk hp
  have := hc.next
  by_cases he : i = s.next
  · simp [hc.kind, he] at hk
  · rw [hc.kind, Function.update_of_ne he] at hk
    rw [hc.synced, Function.update_of_ne he]
    exact h i hi (by omega) hk hp

theorem created_file (h : FilesSynced s₀ (fun _ => False) s) (hc : Created s d n .file t) :
    FilesSynced s₀ (· = s.next) t := by
  intro i hi hlt hk hp
  have := hc.next
  rw [hc.kind, Function.update_of_ne hp] at hk
  rw [hc.synced, Function.update_of_ne hp]
  exact h i hi (by omega) hk id

theorem append (h : FilesSynced s₀ (· = i) s) (l : Bytes) :
    FilesSynced s₀ (· = i) (s.append i l) := by
  intro j hj hlt hk hp
  rw [Fs.append, write_synced, Function.update_of_ne hp]
  exact h j hj hlt hk hp

theorem syncFile (h : FilesSynced s₀ (· = i) s) :
    FilesSynced s₀ (fun _ => False) (s.syncFile i) := by
  intro j hj hlt hk _
  by_cases he : j = i
  · simp [he]
  · rw [syncFile_synced, Function.update_of_ne he]
    exact h j hj hlt hk he

end FilesSynced

/-! ## The triples -/

section
variable {c : Caller} {attr : Attr} {source : Tree}

/-- The state between two operations of the copy. -/
def Copying (s₀ : Disk) (store : Nat) (name : Text) (attr : Attr) (temporary : Nat)
    (pending : Nat → Prop) (s : Disk) : Prop :=
  Preparing s₀ store name attr temporary s ∧ FilesSynced s₀ pending s

/-- Reading keeps everything. -/
theorem reading_ensures {α : Type} {P : Disk → Prop} {R : PyError → Disk → Prop}
    {K : Disk → Prop} {f : Disk → Except PyError α} (hK : ∀ s, P s → K s)
    (hR : ∀ e s, P s → R e s) :
    Ensures P (reading f) (fun a s => P s ∧ f s = .ok a) R K :=
  .look hK (fun _ _ hs ha => ⟨hs, ha⟩) hR

theorem mkdirParents_ensures (mode : Nat) (parts : List Text) :
    Ensures (Copying s₀ store name attr temporary fun _ => False)
      (mkdirParents c mode temporary parts)
      (fun d s => s₀.next ≤ d ∧ Copying s₀ store name attr temporary (fun _ => False) s)
      (fun _ => Preparing s₀ store name attr temporary)
      (Preparing s₀ store name attr temporary) := by
  have new : ∀ {s e x}, Copying s₀ store name attr temporary (fun _ => False) s →
      FoundDir s temporary x e → s₀.next ≤ e := fun hs hf => by
    have := hs.1.le
    have := resolve_le hf.resolve
    omega
  refine (Ensures.mkdirParents (q := []) (d := temporary) (i := temporary)
    (I := Copying s₀ store name attr temporary fun _ => False) parts
    fun s t e x part hs hf _ hc => ⟨hs.1.created (new hs hf) hc, hs.2.created_dir hc⟩).weaken
      (fun s hs => ⟨hs, hs.1.lt, rfl, ?_⟩) (fun d s hs => ⟨new hs.1 hs.2, hs.1⟩)
      (fun _ s hs => hs.1) fun s hs => hs.1
  rw [hs.1.dir]
  rfl

theorem copyChunk_ensures {output : Nat} (ho : s₀.next ≤ output) (acc : Copied) (chunk : Bytes) :
    Ensures (Copying s₀ store name attr temporary (· = output)) (copyChunk output acc chunk)
      (fun _ => Copying s₀ store name attr temporary (· = output))
      (fun _ => Preparing s₀ store name attr temporary)
      (Preparing s₀ store name attr temporary) := by
  refine .ite (fun _ => .raise fun s hs => hs.1) fun _ => ?_
  refine .bind (M := fun _ => Copying s₀ store name attr temporary (· = output)) ?_
    fun _ => .pure fun s hs => hs
  exact .appendCall (fun s hs => hs.1) (fun s hs => ⟨hs.1.append ho chunk, hs.2.append chunk⟩)
    fun _ s l hs => hs.1.append ho l

theorem copyEntry_ensures (total : Nat) (entry : Json) :
    Ensures (Copying s₀ store name attr temporary fun _ => False)
      (copyEntry c source temporary total entry)
      (fun _ => Copying s₀ store name attr temporary fun _ => False)
      (fun _ => Preparing s₀ store name attr temporary)
      (Preparing s₀ store name attr temporary) := by
  have reads : ∀ {α : Type} (f : Disk → Except PyError α),
      Ensures (Copying s₀ store name attr temporary fun _ => False) (reading f)
        (fun _ => Copying s₀ store name attr temporary fun _ => False)
        (fun _ => Preparing s₀ store name attr temporary)
        (Preparing s₀ store name attr temporary) :=
    fun f => .look (fun s hs => hs.1) (fun s a hs _ => hs) fun _ s hs => hs.1
  refine .bind (.ofExcept (fun s _ hs _ => hs) fun s _ hs _ => hs.1) fun target => ?_
  refine .bind (reads _) fun directory => .bind (reads _) fun stream => .bind (reads _) fun data => ?_
  refine .bind (mkdirParents_ensures _ _) fun parent => .assume fun hparent => ?_
  refine .bind (M := fun i s => s₀.next ≤ i ∧ Copying s₀ store name attr temporary (· = i) s)
    ?_ fun output => .assume fun houtput => ?_
  · refine .createCall (fun s hs => hs.1) (fun s t hs hc => ⟨?_, ?_, ?_⟩) fun _ s hs => hs.1
    · exact hs.1.next_le
    · exact hs.1.created hparent hc
    · exact hs.2.created_file hc
  refine .bind (.foldlM (I := fun _ _ => Copying s₀ store name attr temporary (· = output))
    (fun chunk _ acc => copyChunk_ensures houtput acc chunk) _ _) fun copied => ?_
  refine .bind (.ofExcept (fun s _ hs _ => hs) fun s _ hs _ => hs.1) fun expected => ?_
  refine .ite (fun _ => .raise fun s hs => hs.1) fun _ => ?_
  refine .bind (M := fun _ => Copying s₀ store name attr temporary fun _ => False) ?_
    fun _ => .pure fun s hs => hs
  exact .fsyncCall (fun s hs => hs.1) (fun s hs => ⟨hs.1.syncFile houtput, hs.2.syncFile⟩)
    fun _ s hs => hs.1

theorem copyVerified_ensures :
    Ensures (Copying s₀ store name attr temporary fun _ => False)
      (copyVerified c source temporary policy)
      (fun _ => Copying s₀ store name attr temporary fun _ => False)
      (fun _ => Preparing s₀ store name attr temporary)
      (Preparing s₀ store name attr temporary) := by
  refine .bind (.look (fun s hs => hs.1) (fun s a hs _ => hs) fun _ s hs => hs.1) fun _ => ?_
  refine .bind (.ofExcept (fun s _ hs _ => hs) fun s _ hs _ => hs.1) fun entries => ?_
  refine .bind (.foldlM (I := fun _ _ => Copying s₀ store name attr temporary fun _ => False)
    (fun entry _ total => copyEntry_ensures total entry) _ _) fun _ => ?_
  exact .pure fun s hs => hs

/-- The bundle is complete; the directories that are not in `rest` are synced. -/
structure Syncing (s₀ : Disk) (store : Nat) (name : Text) (attr : Attr) (policy : Json)
    (temporary : Nat) (rest : List Nat) (s : Disk) : Prop where
  copying : Copying s₀ store name attr temporary (fun _ => False) s
  complete : ∃ out, inventory (treeAt s temporary) policy = .ok out
  new : ∀ d ∈ rest, s₀.next ≤ d
  reached : ∀ p j, s.view.resolve temporary p = some j → (s.kind j).isDir = true →
    j ∈ rest ∨ ∀ n, s.past j n = []

theorem Syncing.walked (h : Copying s₀ store name attr temporary (fun _ => False) s)
    (hi : ∃ out, inventory (treeAt s temporary) policy = .ok out) :
    Syncing s₀ store name attr policy temporary (s.dirsBelow s.next temporary) s := by
  refine ⟨h, hi, fun d hd => ?_, fun p j hp hj => .inl (mem_dirsBelow ?_ hp hj)⟩
  · have := le_of_mem_dirsBelow hd
    have := h.1.le
    omega
  · have := resolve_le hp
    have := resolve_lt_next h.1.lt hp
    omega

theorem Syncing.syncDir {d : Nat} {rest : List Nat}
    (h : Syncing s₀ store name attr policy temporary (d :: rest) s) :
    Syncing s₀ store name attr policy temporary rest (s.syncDir d) := by
  have hd := h.new d (by simp)
  refine ⟨⟨h.copying.1.syncDir hd, h.copying.2⟩, h.complete, fun e he => h.new e (by simp [he]),
    fun p j hp hj => ?_⟩
  by_cases he : j = d
  · exact .inr fun n => by simp [he]
  · rw [syncDir_past, Function.update_of_ne he]
    simpa [he] using h.reached p j hp hj

theorem Syncing.settled (h : Syncing s₀ store name attr policy temporary [] s) :
    s.Settled temporary := by
  intro p j hj
  refine ⟨fun hd => by simpa using h.reached p j hj hd, fun hk => ?_⟩
  have := resolve_le hj
  have := h.copying.1.le
  exact h.copying.2 j (by omega) (resolve_lt_next h.copying.1.lt hj) hk id

/-- The rename publishes what has been prepared. -/
theorem Syncing.renamed {i : Nat} (h : Syncing s₀ store name attr policy temporary [] s)
    (hid : isSha256Text bundleId = true) (habs : s₀.lookup store bundleId = none)
    (hr : Renamed s store name bundleId i t) :
    Published s₀ store bundleId policy attr temporary t ∧ t.lookup store name = none := by
  have hp := h.copying.1
  have hne : name ≠ bundleId := by
    rintro rfl
    simp [hp.hidden] at hid
  obtain rfl : temporary = i := by
    have := hr.present
    rwa [hp.lookup, if_pos rfl, Option.some.injEq] at this
  have above : SameOn (fun j => store < j) s t := .renamed hr (lt_irrefl store)
  have closed : ∀ i n j, store < i → s.lookup i n = some j → store < j := fun i n j hi hn => by
    have := lookup_lt hn
    omega
  have hlt : store < temporary := by
    have := hp.store_lt
    have := hp.le
    omega
  refine ⟨⟨hp.frame.trans (.renamed hr fun hs => hs.2 rfl), ?_, hp.store_lt, habs, fun n => ?_,
    fun n hn o ho => ?_, hp.le, ?_, ?_, ?_⟩, ?_⟩
  · rw [hr.kind, hp.kind]
  · rw [hr.lookup, if_pos rfl]
    by_cases hb : n = bundleId
    · simp [hb]
    · by_cases hm : n = name <;> simp [hb, hm, hp.absent, hp.lookup, hne]
  · have hn' : n ≠ name := by
      rintro rfl
      simp [hp.hidden] at hn
    rw [hr.past, if_pos rfl, if_neg hn'] at ho
    rw [hp.past n hn', hp.past _ (Ne.symm hne), hp.lookup, if_neg (Ne.symm hne), habs] at ho
    by_cases hb : n = bundleId
    · simpa [hb] using ho
    · rw [if_neg hb] at ho
      exact .inr ho
  · rw [hr.kind, hp.dir]
  · rw [treeAt, above.tree hlt closed]
    exact h.complete
  · exact above.settled hlt closed h.settled
  · simp [hr.lookup, hne]

theorem Published.syncDir (h : Published s₀ store bundleId policy attr temporary s) :
    Published s₀ store bundleId policy attr temporary (s.syncDir store) := by
  have above : SameOn (fun j => store < j) s (s.syncDir store) := .syncDir (lt_irrefl store)
  have hlt : store < temporary := by
    have := h.store_lt
    have := h.le
    omega
  refine ⟨h.frame.trans (.syncDir fun hs => hs.2 rfl), h.kind, h.store_lt, h.absent, h.lookup,
    fun n _ o ho => by simp at ho, h.le, h.dir, h.complete, above.settled hlt ?_ h.settled⟩
  intro i n j hi hn
  have := lookup_lt hn
  omega

/-- Where an interrupted `publish` leaves the disk. -/
def Interrupted (s₀ : Disk) (store : Nat) (name bundleId : Text) (policy : Json) (attr : Attr)
    (temporary : Nat) (s : Disk) : Prop :=
  Preparing s₀ store name attr temporary s ∨
    Published s₀ store bundleId policy attr temporary s ∧ s.lookup store name = none

theorem publish_ensures (hid : isSha256Text bundleId = true)
    (hname : isSha256Text name = false) (habs : s₀.lookup store bundleId = none) :
    Ensures (Copying s₀ store name attr temporary fun _ => False)
      (publish c source store policy bundleId name temporary)
      (fun _ s => (Published s₀ store bundleId policy attr temporary s ∧
        ∀ n, s.past store n = []) ∧ s.lookup store name = none)
      (fun _ => Interrupted s₀ store name bundleId policy attr temporary)
      (Interrupted s₀ store name bundleId policy attr temporary) := by
  have hne : name ≠ bundleId := by
    rintro rfl
    simp [hname] at hid
  have stop : ∀ rest s, Syncing s₀ store name attr policy temporary rest s →
      Interrupted s₀ store name bundleId policy attr temporary s := fun _ s hs => .inl hs.copying.1
  refine .bind (copyVerified_ensures.weaken (fun s hs => hs) (fun _ s hs => hs)
    (fun _ s hs => .inl hs) fun s hs => .inl hs) fun _ => ?_
  refine .bind (reading_ensures (fun s hs => .inl hs.1) fun _ s hs => .inl hs.1) fun out => ?_
  refine .bind (M := fun ds => Syncing s₀ store name attr policy temporary ds) ?_ fun ds => ?_
  · exact .observe (fun s hs => .inl hs.1.1) fun s hs => .walked hs.1 ⟨out, hs.2⟩
  refine .bind (.forM (I := Syncing s₀ store name attr policy temporary) (fun d rest => ?_) ds)
    fun _ => ?_
  · exact .fsyncDirCall (stop _) (fun s hs => hs.syncDir) fun _ => stop _
  refine .bind (M := fun _ s => Published s₀ store bundleId policy attr temporary s ∧
    s.lookup store name = none) ?_ fun _ => ?_
  · exact .renameCall hne (stop []) (fun s i t hs hr => hs.renamed hid habs hr) fun _ => stop []
  · exact .fsyncDirCall (fun s hs => .inr hs)
      (fun s hs => ⟨⟨hs.1.syncDir, fun n => by simp⟩, hs.2⟩) fun _ s hs => .inr hs

/-! ## Cleaning up -/

theorem removeTemporary_preparing :
    Ensures (Preparing s₀ store name attr temporary) (removeTemporary store name)
      (fun _ => Unchanged s₀ store) (fun _ _ => False) (Preparing s₀ store name attr temporary) := by
  refine .bind (M := fun found s => found = some temporary ∧
    Preparing s₀ store name attr temporary s) ?_ fun found => .assume ?_
  · exact .observe (fun s hs => hs) fun s hs => ⟨by rw [hs.lookup, if_pos rfl], hs⟩
  rintro rfl
  refine .bind (M := fun links s => (∀ l ∈ links, s₀.next ≤ l.1) ∧
    Preparing s₀ store name attr temporary s) ?_ fun links => ?_
  · refine .observe (fun s hs => hs) fun s hs => ⟨fun l hl => ?_, hs⟩
    have := le_of_mem_linksBelow (j := l.1) (n := l.2) hl
    have := hs.le
    omega
  refine .bind (.forM (I := fun rest s => (∀ l ∈ rest, s₀.next ≤ l.1) ∧
    Preparing s₀ store name attr temporary s) (fun l rest => ?_) links) fun _ => ?_
  · refine .sure (fun s hs => hs.2) fun s hs => ⟨fun l' hl' => hs.1 l' (by simp [hl']), ?_⟩
    exact hs.2.unlink (hs.1 l (by simp)) _
  · exact .sure (fun s hs => hs.2) fun s hs => hs.2.removed

/-- There is nothing to remove once the name is gone. -/
theorem removeTemporary_absent {P : Disk → Prop} :
    Ensures (fun s => P s ∧ s.lookup store name = none) (removeTemporary store name)
      (fun _ => P) (fun _ _ => False) P := by
  refine .bind (M := fun found s => found = none ∧ P s) ?_ fun found => .assume ?_
  · exact .observe (fun s hs => hs.1) fun s hs => ⟨hs.2, hs.1⟩
  · rintro rfl
    exact .pure fun s hs => hs

/-! ## The whole run -/

theorem mkdtemp_ensures (draws : List Text) :
    Ensures (· = s₀) (mkdtemp c store draws)
      (fun made s => made.2 = s₀.next ∧ isSha256Text made.1 = false ∧
        Copying s₀ store made.1 (c.attr 0o700) made.2 (fun _ => False) s)
      (fun _ => (· = s₀)) (· = s₀) := by
  induction draws with
  | nil => exact .raise fun s hs => hs
  | cons draw draws ih =>
    refine .orElse (N := fun _ => (· = s₀)) ?_ fun e => ?_
    · refine .bind (M := fun i s => i = s₀.next ∧ Copying s₀ store (temporaryName draw)
        (c.attr 0o700) i (fun _ => False) s) ?_ fun i => .pure fun s hs =>
          ⟨hs.1, isSha256Text_temporaryName draw, hs.2⟩
      refine .createCall (fun s hs => hs) (fun s t hs hc => ?_) fun _ s hs => hs
      subst hs
      have none_new : FilesSynced s (fun _ => False) s := fun i hi hlt => by omega
      exact ⟨rfl, .start hc (isSha256Text_temporaryName draw), none_new.created_dir hc⟩
    · split
      · exact ih
      · exact .raise fun s hs => hs

/-- The bundle for the policy was in the store before. -/
def Present (s₀ : Disk) (store : Nat) (policy : Json) (d : Text) : Prop :=
  ∃ i, s₀.lookup store d = some i ∧ (s₀.kind i).isDir = true ∧
    ∃ out, inventory (treeAt s₀ i) policy = .ok out

/-- The bundle for the policy, with identity `d`, has been added. -/
def Added (s₀ : Disk) (store : Nat) (policy : Json) (attr : Attr) (d : Text) (s : Disk) : Prop :=
  (∃ contents, manifest policy = .ok contents ∧ d = sha256 contents) ∧
    ∃ temporary, Published s₀ store d policy attr temporary s

/-- What `provision` looks at first: the manifest, the store, and what the store has under the name
of the bundle. -/
theorem lookup_ensures {k : Bytes → Nat → Option Nat → Prog Disk PyError Text}
    {Q : Text → Disk → Prop} {R : PyError → Disk → Prop} {K : Disk → Prop} (hK : K s₀) (hR : ∀ e, R e s₀)
    (hk : ∀ contents, manifest policy = .ok contents →
      Ensures (· = s₀) (k contents store (s₀.lookup store (sha256 contents))) Q R K) :
    Ensures (· = s₀) (Prog.ofExcept (manifest policy) >>= fun contents =>
      reading (openStore (some store)) >>= fun i =>
        reading (fun s => .ok (s.lookup i (sha256 contents))) >>= fun found => k contents i found) Q R K := by
  have stay : ∀ s, s = s₀ → K s := fun s hs => hs ▸ hK
  have stop : ∀ e s, s = s₀ → R e s := fun e s hs => hs ▸ hR e
  refine .bind (M := fun contents s => manifest policy = .ok contents ∧ s = s₀)
    (.ofExcept (fun s a hs ha => ⟨ha, hs⟩) fun s e hs _ => stop e s hs) fun contents => .assume fun hm => ?_
  refine .bind (M := fun i s => i = store ∧ s = s₀)
    (.look stay (fun s i hs hi => ⟨?_, hs⟩) stop) fun i => .assume ?_
  · simp only [openStore] at hi
    split at hi
    · exact (Except.ok.inj hi).symm
    · cases hi
  rintro rfl
  refine .bind (M := fun found s => found = s₀.lookup i (sha256 contents) ∧ s = s₀)
    (.look stay (fun s found hs hf => ⟨?_, hs⟩) stop) fun found => .assume ?_
  · rw [← Except.ok.inj hf, hs]
  rintro rfl
  exact hk contents hm

/-- **What a run of `provision` does to the disk**, however it ends. -/
theorem provision_ensures (c : Caller) (source : Tree) (s₀ : Disk) (store : Nat) (policy : Json) :
    Ensures (· = s₀) (provision c source (some store) policy)
      (fun d s => (∃ contents, manifest policy = .ok contents ∧ d = sha256 contents) ∧
        (s = s₀ ∧ Present s₀ store policy d ∨
          Added s₀ store policy (c.attr 0o700) d s ∧ ∀ n, s.past store n = []))
      (fun _ s => Unchanged s₀ store s ∨ ∃ d, Added s₀ store policy (c.attr 0o700) d s)
      (fun s => Unchanged s₀ store s ∨
        (∃ name temporary, Preparing s₀ store name (c.attr 0o700) temporary s) ∨
        ∃ d, Added s₀ store policy (c.attr 0o700) d s) := by
  have same : ∀ s, s = s₀ → Unchanged s₀ store s := fun s hs => hs ▸ .refl s₀ store
  refine lookup_ensures (.inl (.refl s₀ store)) (fun _ => .inl (.refl s₀ store)) fun contents hm => ?_
  cases hfound : s₀.lookup store (sha256 contents) with
  | some destination =>
    refine .bind (M := fun _ s => (s₀.kind destination).isDir = true ∧ s = s₀)
      (.look (fun s hs => .inl (same s hs)) (fun s _ hs hk => ?_)
        fun _ s hs => .inl (same s hs)) fun _ => .assume fun hk => ?_
    · subst hs
      split at hk
      · exact ⟨‹_›, rfl⟩
      · cases hk
    refine .bind (reading_ensures (fun s hs => .inl (same s hs)) fun _ s hs => .inl (same s hs))
      fun out => .pure fun s hs => ⟨⟨contents, hm, rfl⟩, .inl ⟨hs.1, destination, ?_⟩⟩
    exact ⟨hfound, hk, out, hs.1 ▸ hs.2⟩
  | none =>
    refine .bind ((mkdtemp_ensures c.draws).weaken (fun s hs => hs) (fun _ s hs => hs)
      (fun _ s hs => .inl (same s hs)) fun s hs => .inl (same s hs)) ?_
    rintro ⟨name, temporary⟩
    refine .assume fun _ => .assume fun hname => ?_
    have added : ∀ s, Published s₀ store (sha256 contents) policy (c.attr 0o700) temporary s →
        Added s₀ store policy (c.attr 0o700) (sha256 contents) s :=
      fun s hs => ⟨⟨contents, hm, rfl⟩, temporary, hs⟩
    refine .bind (M := fun _ s => Published s₀ store (sha256 contents) policy (c.attr 0o700)
      temporary s ∧ ∀ n, s.past store n = []) (.withCleanup
        ((publish_ensures (isSha256Text_sha256 contents) hname hfound).weaken
          (fun s hs => hs) (fun _ s hs => hs) (fun _ s hs => hs) ?_) (fun _ => ?_) fun _ => ?_)
      fun _ => .pure fun s hs => ⟨⟨contents, hm, rfl⟩, .inr ⟨added s hs.1, hs.2⟩⟩
    · rintro s (hs | hs)
      · exact .inr (.inl ⟨_, _, hs⟩)
      · exact .inr (.inr ⟨_, added s hs.1⟩)
    · exact removeTemporary_absent.weaken (fun s hs => hs) (fun _ s hs => hs)
        (fun _ s hs => hs.elim) fun s hs => .inr (.inr ⟨_, added s hs.1⟩)
    · refine .or_pre ?_ ?_
      · exact removeTemporary_preparing.weaken (fun s hs => hs) (fun _ s hs => .inl hs)
          (fun _ s hs => hs.elim) fun s hs => .inr (.inl ⟨_, _, hs⟩)
      · exact removeTemporary_absent.weaken (fun s hs => hs)
          (fun _ s hs => .inr ⟨_, added s hs⟩) (fun _ s hs => hs.elim)
          fun s hs => .inr (.inr ⟨_, added s hs⟩)

end

end Azurefin
