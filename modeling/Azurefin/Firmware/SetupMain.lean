import Azurefin.Firmware.SetupCrash

/-!
# The setup command

`main` from `setup_firmware_store.py`, with `validate_host`. A successful run leaves the bundle
of the booted image in the store, and no run loses a bundle: `setupMain_checked`,
`setupMain_holding`.

What the lock, the commands, the extraction and the configuration of the Bluetooth address end
with is an input.
-/

namespace Azurefin

open Prog Fs

/-- The UUID that setup opts in: a normal deployment without pending changes is booted, and the
kernel arguments name no other UUID. -/
def validateHost (mounts : Json) (cmdline : Text) (status : Json) : Except PyError Text := do
  let host ← status.getD "status".toList (.obj [])
  let booted ← host.get "booted".toList
  let staged ← host.get "staged".toList
  let rollbackQueued ← host.get "rollbackQueued".toList
  let usrOverlay ← host.get "usrOverlay".toList
  if !booted.truthy || staged.truthy || rollbackQueued.truthy || usrOverlay.truthy then
    .error (.valueError
      "Boot a normal deployment with no staged update or queued rollback first")
  else if (pySplit cmdline).any fun arg =>
      arg == "azurefin.live=1".toList || arg == "rd.live.image".toList then
    .error (.valueError "Firmware setup requires an installed system, not the live session")
  else
    let entries ← mounts.getD "filesystems".toList (.arr [])
    let uuid ←
      if (← entries.len) = 1 then (← entries.first).getD "uuid".toList (.str [])
      else pure (.str [])
    let uuid ← validateMount mounts (uuidArgument ++ formatted uuid)
    let arguments := (pySplit cmdline).filter uuidArgument.isPrefixOf
    if arguments ≠ [] ∧ arguments ≠ [uuidArgument ++ uuid] then
      .error (.valueError "Conflicting or duplicate firmware boot UUID; refusing to replace it")
    else .ok uuid
where
  -- `validate_mount` refuses a UUID that is no text before it looks at the arguments
  formatted : Json → Text
    | .str t => t
    | _ => []

def minExtractionFree : Int := 30 * 1024 ^ 3

def checkExtractionSpace (free : Int) : Except PyError Unit :=
  if free < minExtractionFree then
    .error (.valueError "Firmware extraction requires at least 30 GiB free on /var/lib/azurefin")
  else .ok ()

/-- The firmware of the booted image, or what the extraction leaves, with the space there is. -/
inductive FirmwareSource where
  | installed (tree : Tree)
  | extracted (free : Int) (tree : Except PyError Tree)

def FirmwareSource.open : FirmwareSource → Except PyError Tree
  | installed tree => .ok tree
  | extracted free tree => do
    checkExtractionSpace free
    tree

/-- What a run of setup reads of the system. -/
structure SetupCall where
  caller : Caller
  lock : Except PyError Unit
  mounts : Except PyError Json
  cmdline : Text
  status : Except PyError Json
  available : Int
  source : FirmwareSource
  bluetooth : Except PyError Unit

/-- `main`, with the files of the booted image and the root of the boot file system. -/
def setupMain (files : ImageFiles) (boot : Nat) (call : SetupCall) : Prog Machine PyError Text := do
  Prog.require (call.caller.uid == 0) (.systemExit "Run with sudo")
  Prog.ofExcept call.lock
  let mounts ← Prog.ofExcept call.mounts
  let status ← Prog.ofExcept call.status
  let uuid ← Prog.ofExcept (validateHost mounts call.cmdline status)
  onDisk (reading fun s => trustedDirectory (bootPath []) (some (s.view.obj boot)))
  let contents ← Prog.ofExcept (manifest files.policy)
  Prog.require (decide (contents = files.manifest))
    (.valueError "Image policy and boot manifest differ")
  -- leave the diagnostic headroom even after the largest permitted bundle
  Prog.ofExcept (checkSpace (call.available - 128 * 1024 * 1024))
  let source ← Prog.ofExcept call.source.open
  let destination ← installStore { call.caller with umask := 0o077 } source boot files.policy
    files.manifest uuid
  Prog.ofExcept call.bluetooth
  pure destination

variable {c : Caller} {source : Tree} {boot f : Nat} {policy : Json} {expected : Bytes}
  {uuid id : Text} {rows : List Row} {s₀ s : Disk}

/-! ## A successful run -/

/-- Setup returns only after the check of the bundle has passed. -/
theorem installStore_checked :
    Ensures (fun _ => True) (installStore c source boot policy expected uuid)
      (fun _ m => ∃ report, checkBundle (treeAt m.disk boot) policy expected = .ok report)
      (fun _ _ => True) (fun _ => True) := by
  refine .bind (M := fun _ _ => True) (Returns.any _).ensures fun _ => ?_
  refine .bind (M := fun _ _ => True) (Returns.any _).ensures fun azurefin => ?_
  refine .bind (M := fun _ _ => True) (Returns.any _).ensures fun firmware => ?_
  refine .bind (M := fun _ _ => True) (Returns.any _).ensures fun destination => ?_
  refine .bind (M := fun _ m => ∃ report, checkBundle (treeAt m.disk boot) policy expected = .ok report)
    ((onDisk_reading_ensures (P := fun _ => True) (fun _ _ => trivial) fun _ _ _ => trivial).weaken
      (fun _ h => h) (fun report _ hm => ⟨report, hm.2⟩) (fun _ _ h => h) fun _ h => h) fun _ => ?_
  exact .bind ((setKargs_ensures (P := fun s => ∃ report, checkBundle (treeAt s boot) policy expected =
    .ok report)).weaken (fun _ hm => hm) (fun _ _ hm => hm) (fun _ _ _ => trivial) fun _ _ => trivial) fun _ =>
      .pure fun _ hm => hm

theorem setupMain_checked {files : ImageFiles} (call : SetupCall) :
    Ensures (fun _ => True) (setupMain files boot call)
      (fun _ m => ∃ report,
        checkBundle (treeAt m.disk boot) files.policy files.manifest = .ok report)
      (fun _ _ => True) (fun _ => True) := by
  iterate 10 refine .bind (M := fun _ _ => True) (Returns.any _).ensures fun _ => ?_
  refine .bind installStore_checked fun _ => ?_
  exact .bind (.ofExcept (fun _ _ hm _ => hm) fun _ _ _ _ => trivial) fun _ =>
    .pure fun _ hm => hm

/-! ## No run loses a bundle -/

/-- A bundle stays where the store only gains entries. -/
theorem Holding.kept (h : Holding (treeAt s₀ boot) id rows)
    (hf : s₀.view.resolve boot storePath = some f) (hk : StoreKept f s₀ s)
    (kind : s.kind f = s₀.kind f) : Holding (treeAt s boot) id rows := by
  obtain ⟨hb, a, ha, had, haf⟩ := resolve_storePath_iff.mp hf
  simp only [view_kind, view_entry] at hb ha had haf
  have hboot : Elsewhere s₀ f boot :=
    ⟨by have := lookup_lt ha; have := lookup_lt haf; omega,
      by have := lookup_lt ha; have := lookup_lt haf; omega⟩
  have haz : Elsewhere s₀ f a := ⟨by have := lookup_lt haf; omega, by have := lookup_lt haf; omega⟩
  have ha' : s.lookup boot "azurefin".toList = some a := by rw [hk.frame.lookup _ hboot, ha]
  have hb' : (s.kind boot).isDir = true := by rw [hk.frame.kind _ hboot, hb]
  have had' : (s.kind a).isDir = true := by rw [hk.frame.kind _ haz, had]
  have hf' : s.view.resolve boot storePath = some f :=
    resolve_storePath_iff.mpr ⟨hb', a, ha', had', by rw [view_entry, hk.frame.lookup _ haz, haf]⟩
  -- a trusted directory before is one after
  have trusted : ∀ {p j}, s₀.view.resolve boot p = some j → s.view.resolve boot p = some j →
      s.kind j = s₀.kind j → IsTrusted (treeAt s₀ boot) p → IsTrusted (treeAt s boot) p := by
    intro p j hj hj' hkind ht
    obtain ⟨j', hr, ht⟩ := isTrusted_iff.mp ht
    obtain rfl : j' = j := Option.some.inj (hr.symm.trans hj)
    exact isTrusted_iff.mpr ⟨j', hj', ht.of_kind hkind⟩
  obtain ⟨i, hi, -⟩ := isTrusted_iff.mp h.bundle
  have hl : s₀.lookup f id = some i := by
    rw [bundlePath, resolve_concat, hf, Option.bind_some, Option.ite_none_right_eq_some] at hi
    exact hi.2
  have hfd : (s₀.kind f).isDir = true := by
    rw [bundlePath, resolve_concat, hf, Option.bind_some, Option.ite_none_right_eq_some] at hi
    exact hi.1
  have hi' : s.view.resolve boot (bundlePath id) = some i :=
    View.resolve_snoc hf' (by rw [view_kind, kind, hfd]) (hk.lookup _ _ hl)
  refine ⟨trusted rfl rfl (hk.frame.kind _ hboot) h.root,
    trusted (View.resolve_snoc (p := []) rfl hb ha) (View.resolve_snoc (p := []) rfl hb' ha')
      (hk.frame.kind _ haz) h.azurefin, trusted hf hf' kind h.store,
    trusted hi hi' (hk.kind hl) h.bundle, ?_⟩
  have hsub : subtree (treeAt s boot) (bundlePath id) =
      subtree (treeAt s₀ boot) (bundlePath id) := by
    funext q
    have ht := congrFun (hk.treeAt hl) q
    rw [subtree, subtree, treeAt, treeAt, View.tree_append hi, View.tree_append hi']
    exact ht
  rw [hsub]
  exact h.complete

/-- However a call of `provision` ends, it keeps the store. -/
theorem provision_kept :
    Ensures (· = s₀) (provision c source (some f) policy)
      (fun _ s => StoreKept f s₀ s ∧ s.kind f = s₀.kind f)
      (fun _ s => StoreKept f s₀ s ∧ s.kind f = s₀.kind f)
      (fun s => StoreKept f s₀ s ∧ s.kind f = s₀.kind f) := by
  have unchanged : ∀ {s}, Unchanged s₀ f s → StoreKept f s₀ s ∧ s.kind f = s₀.kind f :=
    fun hu => ⟨hu.kept, hu.kind⟩
  have added : ∀ {d s}, Added s₀ f policy (c.attr 0o700) d s →
      StoreKept f s₀ s ∧ s.kind f = s₀.kind f := fun ⟨_, _, hp⟩ => ⟨hp.kept, hp.kind⟩
  refine (provision_ensures c source s₀ f policy).weaken (fun s hs => hs) ?_ ?_ ?_
  · rintro d s ⟨-, ⟨rfl, -⟩ | ⟨ha, -⟩⟩
    · exact unchanged (.refl s f)
    · exact added ha
  · rintro e s (hu | ⟨d, ha⟩)
    · exact unchanged hu
    · exact added ha
  · rintro s (hu | ⟨name, temporary, hp⟩ | ⟨d, ha⟩)
    · exact unchanged hu
    · exact ⟨hp.kept, hp.kind⟩
    · exact added ha

/-- The machine has the bundle. -/
def HoldsBundle (boot : Nat) (id : Text) (rows : List Row) (m : Machine) : Prop :=
  Holding (treeAt m.disk boot) id rows

theorem onDisk_same {α : Type} {p : Prog Disk PyError α} {Q : α → Disk → Prop}
    (h : Ensures (· = s₀) p (fun a s => s = s₀ ∧ Q a s) (fun _ => (· = s₀)) (· = s₀))
    (hs : Holding (treeAt s₀ boot) id rows) :
    Ensures (fun m => m.disk = s₀) (onDisk p) (fun a m => Q a s₀ ∧ m.disk = s₀)
      (fun _ => HoldsBundle boot id rows) (HoldsBundle boot id rows) := by
  refine .zoom fun m hm => h.weaken (fun s heq => heq.trans hm) (fun a s hq => ?_) ?_ ?_
  · obtain ⟨rfl, hq⟩ := hq
    exact ⟨hq, rfl⟩
  · rintro e s rfl
    exact hs
  · rintro s rfl
    exact hs

/-- Reading does not change the machine. -/
theorem reading_holding {α : Type} (g : Disk → Except PyError α) :
    Ensures (HoldsBundle boot id rows) (onDisk (reading g)) (fun _ => HoldsBundle boot id rows)
      (fun _ => HoldsBundle boot id rows) (HoldsBundle boot id rows) := by
  refine .zoom fun m hm => .look (fun s hs => ?_) (fun s _ hs _ => ?_) fun _ s hs => ?_ <;>
    · subst hs
      exact hm

theorem installStore_holding :
    Ensures (HoldsBundle boot id rows) (installStore c source boot policy expected uuid)
      (fun _ => HoldsBundle boot id rows) (fun _ => HoldsBundle boot id rows)
      (HoldsBundle boot id rows) := by
  refine .each fun m₀ hm₀ => ?_
  obtain ⟨f, hf, -⟩ := isTrusted_iff.mp hm₀.store
  obtain ⟨-, a, ha, -, haf⟩ := resolve_storePath_iff.mp hf
  refine .bind (M := fun _ m => m.disk = m₀.disk) ((onDisk_same (Q := fun _ _ => True)
    (.look (fun _ hs => hs) (fun _ _ hs _ => ⟨hs, trivial⟩) fun _ _ hs => hs) hm₀).weaken
      (fun m hm => congrArg _ hm) (fun _ _ hm => hm.2) (fun _ _ hm => hm) fun _ hm => hm)
        fun _ => ?_
  -- both directories are there, so nothing is made
  have opened : ∀ {parent child : Nat} {name path : Text}, m₀.disk.lookup parent name = some child →
      Ensures (fun m => m.disk = m₀.disk) (onDisk (installDirectory c parent name path))
        (fun child' m => child' = child ∧ m.disk = m₀.disk) (fun _ => HoldsBundle boot id rows)
        (HoldsBundle boot id rows) := fun hl =>
    onDisk_same ((installDirectory_present hl).weaken (fun _ hs => hs)
      (fun _ _ hs => ⟨hs.2.1, hs.1⟩) (fun _ _ hs => hs) fun _ hs => hs) hm₀
  refine .bind (opened ha) fun azurefin => .assume ?_
  rintro rfl
  refine .bind (opened haf) fun firmware => .assume ?_
  rintro rfl
  refine .bind (M := fun _ => HoldsBundle boot id rows) (.zoom fun m hm => ?_) fun _ => ?_
  · have kept : ∀ s, StoreKept firmware m₀.disk s ∧ s.kind firmware = m₀.disk.kind firmware →
        Holding (treeAt s boot) id rows := fun s hs => hm₀.kept hf hs.1 hs.2
    exact provision_kept.weaken (fun s hs => hs.trans hm) (fun _ => kept) (fun _ => kept) kept
  refine .bind (reading_holding _) fun _ => .bind (M := fun _ => HoldsBundle boot id rows)
    (.step (fun _ hm => hm) fun fate m hm => ?_) fun _ => .pure fun _ hm => hm
  cases fate with
  | go => exact hm
  | fail progress =>
    show HoldsBundle boot id rows (if progress = 0 then m else _)
    split <;> exact hm

/-- **No run of setup loses a bundle**, however it ends. -/
theorem setupMain_holding {files : ImageFiles} (call : SetupCall) :
    Ensures (HoldsBundle boot id rows) (setupMain files boot call)
      (fun _ => HoldsBundle boot id rows) (fun _ => HoldsBundle boot id rows)
      (HoldsBundle boot id rows) := by
  have computed : ∀ {α : Type} (r : Except PyError α), Ensures (HoldsBundle boot id rows)
      (Prog.ofExcept r) (fun _ => HoldsBundle boot id rows) (fun _ => HoldsBundle boot id rows)
      (HoldsBundle boot id rows) :=
    fun r => .ofExcept (fun _ _ hm _ => hm) fun _ _ hm _ => hm
  have required : ∀ (b : Bool) (e : PyError), Ensures (HoldsBundle boot id rows)
      (Prog.require b e) (fun _ => HoldsBundle boot id rows) (fun _ => HoldsBundle boot id rows)
      (HoldsBundle boot id rows) :=
    fun b e => .require (fun _ hm _ => hm) fun _ hm _ => hm
  refine .bind (required _ _) fun _ => .bind (computed _) fun _ => .bind (computed _) fun _ =>
    .bind (computed _) fun _ => .bind (computed _) fun _ => .bind (reading_holding _) fun _ => ?_
  refine .bind (computed _) fun _ => .bind (required _ _) fun _ => .bind (computed _) fun _ =>
    .bind (computed _) fun _ => .bind installStore_holding fun _ => .bind (computed _) fun _ => ?_
  exact .pure fun _ hm => hm

end Azurefin
