import Azurefin.Firmware.Preflight
import Azurefin.Firmware.Success

/-!
# Installing the firmware store

`install_store` from `setup_firmware_store.py`: make the store's directories, provision the
bundle, check it, and only then set the kernel argument that turns the loader on.
-/

namespace Azurefin

open Prog Fs

/-- The boot file system and the `azurefin.boot_uuid` argument of the next boot. -/
structure Machine where
  disk : Disk
  bootUuid : Option Text

variable {α : Type}

def onDisk (p : Prog Disk PyError α) : Prog Machine PyError α :=
  Prog.zoom Machine.disk (fun m s => { m with disk := s }) p

/-- `directory.mkdir(mode=0o700, exist_ok=True)` and `trusted_directory(directory)`. -/
def installDirectory (c : Caller) (parent : Nat) (name path : Text) : Prog Disk PyError Nat := do
  let directory ← mkdirParents c 0o700 parent [name]
  reading fun s => trustedDirectory path (some (s.view.obj directory))
  pure directory

/-- `ostree admin instutil set-kargs`. When it fails, the argument may have been set. -/
def setKargs (uuid : Text) : Prog Machine PyError Unit :=
  Prog.step fun
    | .go, m => (.ok (), { m with bootUuid := some uuid })
    | .fail progress, m =>
      (.error .subprocessError, if progress = 0 then m else { m with bootUuid := some uuid })

/-- `boot` is the root directory of the boot file system. -/
def installStore (c : Caller) (source : Tree) (boot : Nat) (policy : Json) (expected : Bytes)
    (uuid : Text) : Prog Machine PyError Text := do
  onDisk (reading fun s => trustedDirectory (bootPath []) (some (s.view.obj boot)))
  let azurefin ← onDisk (installDirectory c boot "azurefin".toList (bootPath ["azurefin".toList]))
  let firmware ← onDisk (installDirectory c azurefin "firmware".toList (bootPath storePath))
  let destination ← onDisk (provision c source (some firmware) policy)
  let _ ← onDisk (reading fun s => checkBundle (treeAt s boot) policy expected)
  setKargs uuid
  pure destination

/-! ## Steps -/

/-- What a program ensures of the disk holds in the machine, and the argument stays. -/
theorem onDisk_ensures {p : Prog Disk PyError α} {P : Disk → Prop} {Q : α → Disk → Prop}
    {R : PyError → Disk → Prop} {K : Disk → Prop} (h : Ensures P p Q R K) (u : Option Text) :
    Ensures (fun m => m.bootUuid = u ∧ P m.disk) (onDisk p)
      (fun a m => m.bootUuid = u ∧ Q a m.disk) (fun e m => m.bootUuid = u ∧ R e m.disk)
      (fun m => m.bootUuid = u ∧ K m.disk) := by
  refine .zoom fun m hm => h.weaken ?_ (fun a s hs => ⟨hm.1, hs⟩) (fun e s hs => ⟨hm.1, hs⟩)
    fun s hs => ⟨hm.1, hs⟩
  rintro s rfl
  exact hm.2

theorem onDisk_goes {p : Prog Disk PyError α} {s t : Disk} {a : α} (h : Goes p s a t)
    (u : Option Text) : Goes (onDisk p) ⟨s, u⟩ a ⟨t, u⟩ := by
  have hp : Goes p (Machine.disk ⟨s, u⟩) a t := h
  exact hp.zoom

/-- Reading the boot file system leaves the machine as it is. -/
theorem onDisk_reading_ensures {g : Disk → Except PyError α} {P : Machine → Prop}
    {R : PyError → Machine → Prop} {K : Machine → Prop} (hK : ∀ m, P m → K m) (hR : ∀ e m, P m → R e m) :
    Ensures P (onDisk (reading g)) (fun a m => P m ∧ g m.disk = .ok a) R K := by
  refine .zoom fun m hm => .look ?_ ?_ ?_
  · rintro s rfl
    exact hK m hm
  · rintro s a rfl ha
    exact ⟨hm, ha⟩
  · rintro e s rfl
    exact hR e m hm

/-- Setting the argument leaves the disk as it is. -/
theorem setKargs_ensures {P : Disk → Prop} {uuid : Text} :
    Ensures (fun m => P m.disk) (setKargs uuid) (fun _ m => P m.disk) (fun _ m => P m.disk)
      (fun m => P m.disk) := by
  refine .step (fun m hm => hm) fun fate m hm => ?_
  rcases fate with _ | progress
  · exact hm
  · by_cases hp : progress = 0 <;> simpa [hp] using hm

/-- The directory was there, or it has been made. -/
def Opened (attr : Attr) (s : Disk) (parent : Nat) (name : Text) (child : Nat) (t : Disk) : Prop :=
  t = s ∧ s.lookup parent name = some child ∨
    child = s.next ∧ Created s parent name (.dir attr) t

/-- The state while a directory is opened or made. -/
def Opening (attr : Attr) (s : Disk) (parent : Nat) (name : Text) (t : Disk) : Prop :=
  t = s ∨ Created s parent name (.dir attr) t

theorem trustedDirectory_obj {path : Text} {s : Disk} {i : Nat} :
    trustedDirectory path (some (s.view.obj i)) = .ok () ↔ IsTrusted (treeAt s i) [] :=
  @trustedDirectory_eq_ok path (treeAt s i) []

theorem installDirectory_ensures (c : Caller) (s : Disk) (parent : Nat) (name path : Text) :
    Ensures (· = s) (installDirectory c parent name path)
      (fun child t => Opened (c.attr 0o700) s parent name child t ∧ IsTrusted (treeAt t child) [])
      (fun _ => Opening (c.attr 0o700) s parent name)
      (Opening (c.attr 0o700) s parent name) := by
  have opening : ∀ child t, Opened (c.attr 0o700) s parent name child t →
      Opening (c.attr 0o700) s parent name t :=
    fun child t ht => ht.imp And.left And.right
  refine .bind (M := Opened (c.attr 0o700) s parent name) (.bind
    (M := fun found t => found = s.lookup parent name ∧ t = s)
    (.look (fun t ht => .inl ht) (fun t found ht hf => ⟨?_, ht⟩) fun _ t ht => .inl ht) ?_) ?_
  · subst ht
    split at hf
    · rw [← Except.ok.inj hf, ‹t.lookup parent name = none›]
    · split at hf
      · rw [← Except.ok.inj hf, ‹t.lookup parent name = _›]
      · cases hf
  · rintro (_ | child)
    · refine .bind (M := fun child t => child = s.next ∧ Created s parent name (.dir (c.attr 0o700)) t)
        (.createCall (fun t ht => .inl ht.2) (fun t u ht hc => ?_) fun _ t ht => .inl ht.2)
        fun child => .pure fun t ht => .inr ht
      obtain ⟨-, rfl⟩ := ht
      exact ⟨rfl, hc⟩
    · exact .pure fun t ht => .inl ⟨ht.2, ht.1.symm⟩
  · intro child
    refine .bind (M := fun _ t => Opened (c.attr 0o700) s parent name child t ∧
      IsTrusted (treeAt t child) []) (.look (opening child) (fun t _ ht hf => ?_) fun _ => opening child)
        fun _ => .pure fun t ht => ht
    exact ⟨ht, trustedDirectory_obj.mp hf⟩

end Azurefin
