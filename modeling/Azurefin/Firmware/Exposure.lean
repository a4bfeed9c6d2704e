import Azurefin.Firmware.LoaderSteps

/-!
# What the loader exposes

At every moment of every run of `load-firmware.sh` the firmware search path is untouched, or it
names a directory that has exactly the files of the manifest, each with its hash.

## Main results

* `loadFirmware_safe` — this, and what was checked before the path is written.
-/

namespace Azurefin

open Prog Fs Shell

/-! ## What is exposed and what was checked -/

/-- The tree has the files of the rows with their hashes, the directories that lead to them,
and nothing else. -/
structure Exposed (rows : List Row) (tree : Tree) : Prop where
  files : ∀ r ∈ rows, ∃ data, tree r.path = some (.file data) ∧ sha256 data = r.digest
  only : ∀ p o, tree p = some o →
    (∃ r ∈ rows, p = r.path) ∨ ∃ r ∈ rows, OnTheWay r.path.dropLast p o

/-- The script was asked for the boot file system `uuid` in the one well-formed way, and found
in its bundle every file of the manifest, no symlink, of allowed size and with its hash. -/
structure Accepted (env : Environment) (uuid : Text) (mount : Mount) : Prop where
  line : ∃ line, (linesOf env.cmdline).head? = some line ∧ uuidValues (readWords line) = [uuid]
  uuid_text : isUuidText uuid = true
  device : ∃ attempt, env.fileSystem (env.blkid attempt uuid) = some mount
  files : ∀ r ∈ env.manifest.rows, ∃ data,
    HasFile (mount.below (bundlePath env.manifest.bundleId)) r data ∧ sha256 data = r.digest
  total : totalSize (mount.below (bundlePath env.manifest.bundleId)) env.manifest.rows ≤ maxTotal

/-- The search path is untouched, or names a verified directory. -/
def Safe (env : Environment) (b : Boot) : Prop :=
  b.searchPath = none ∨ b.searchPath = some runtime ∧
    (∃ i, b.run.lookup 0 runtimeName = some i ∧
      Exposed env.manifest.rows (treeAt b.run i)) ∧
    ∃ uuid mount, Accepted env uuid mount

/-! ## The script -/

variable {env : Environment} {rows done : List Row} {o : Option Nat} {name : Text} {temporary : Nat}

theorem Safe.untouched {b : Boot} (h : b.searchPath = none) : Safe env b := .inl h

theorem mountDevice_ensures {bootdev : Text} :
    Ensures (fun b => b.searchPath = none) (mountDevice env bootdev)
      (fun mount b => env.fileSystem bootdev = some mount ∧ b.searchPath = none)
      (fun _ => Safe env) (Safe env) := by
  refine .step (fun _ h => .untouched h) fun fate b hb => ?_
  rcases hf : env.fileSystem bootdev with _ | mount <;> cases fate
  · exact .untouched hb
  · exact .untouched hb
  · exact ⟨rfl, hb⟩
  · exact .untouched hb

theorem noLinks_ensures {mount : Mount} {store : Path} {P S : Boot → Prop}
    (hS : ∀ b, P b → S b) :
    Ensures P (noLinks mount store) (fun _ => P) (fun _ => S) S := by
  refine .step hS fun fate b hb => ?_
  by_cases h : linksAmong mount store (pathsSeen mount fate) = []
  · simpa [h] using hb
  · simpa [h] using hS b hb

/-- The file set of the manifest, in its order. -/
structure Listing (env : Environment) (F : FileSet) : Prop where
  lines : linesOf (decodeAscii env.manifest.contents) = F.rows.map Row.text
  mem : ∀ r, r ∈ F.rows ↔ r ∈ env.manifest.rows
  perm : F.rows.Perm env.manifest.rows

theorem exists_listing (env : Environment) : ∃ F : FileSet, Listing env F := by
  obtain ⟨F, hF, -, hc⟩ := env.manifest.fileSet
  refine ⟨F.sorted, by rw [hc, F.linesOf_manifest], fun r => ?_, ?_⟩
  · rw [F.mem_sorted, hF]
  · rw [← hF]
    exact manifestOrder_perm F.rows

/-- All is copied, and all sums match. -/
structure Ready (bundle : Tree) (rows : List Row) (o : Option Nat) (name : Text)
    (temporary : Nat) (s : Disk) : Prop where
  lookup : s.lookup 0 name = some temporary
  runtime : s.lookup 0 runtimeName = o
  exposed : Exposed rows (treeAt s temporary)
  files : ∀ r ∈ rows, ∃ data, HasFile bundle r data ∧ sha256 data = r.digest
  total : totalSize bundle rows ≤ maxTotal

theorem Staged.ready {bundle : Tree} {F : FileSet} {todo : List Row} {s : Disk}
    (h : Staged bundle F.rows done o name temporary s) (hrows : done ++ todo = F.rows)
    (htotal : totalSize bundle done ≤ maxTotal)
    (hsums : ∀ r ∈ F.rows, sumMatches (treeAt s temporary) r.text = true) :
    Ready bundle F.rows o name temporary s := by
  have hfiles : ∀ r ∈ F.rows, ∃ data, treeAt s temporary r.path = some (.file data) ∧
      sha256 data = r.digest := fun r hr => (sumMatches_text (F.valid r hr)).mp (hsums r hr)
  obtain rfl := h.stage.all hrows hfiles
  refine ⟨h.lookup, h.runtime, ⟨hfiles, h.stage.shape⟩, fun r hr => ?_, htotal⟩
  obtain ⟨data, hd, ht⟩ := h.stage.files r hr
  obtain ⟨data', ht', hsha⟩ := hfiles r hr
  obtain rfl : data = data' := by simpa [ht] using ht'
  exact ⟨data, hd, hsha⟩

theorem copyName_ne (draw : Text) : copyTemplate ++ draw ≠ runtimeName := by
  have hlt : runtimeName.length < copyTemplate.length := by decide +kernel
  intro h
  have := congrArg List.length h
  simp only [List.length_append] at this
  omega

/-- Moving the temporary directory does not change its tree. -/
theorem Ready.renamed {bundle : Tree} {s t : Disk} {i : Nat}
    (h : Ready bundle rows o name temporary s) (hr : Renamed s 0 name runtimeName i t) :
    ∃ i, t.lookup 0 runtimeName = some i ∧ Exposed rows (treeAt t i) := by
  obtain rfl : temporary = i := Option.some.inj (h.lookup.symm.trans hr.present)
  have hpos := (lookup_lt h.lookup).1
  refine ⟨temporary, by simp [hr.lookup], ?_⟩
  have hsame : SameOn (fun j => 0 < j) s t := .renamed hr (by omega)
  have htree : treeAt t temporary = treeAt s temporary :=
    hsame.tree hpos fun j n k hj hk => Nat.lt_trans hj (lookup_lt hk).1
  rw [htree]
  exact h.exposed

/-- What was asked for on the command line, and the device that answers to it. -/
structure Requested (env : Environment) (uuid bootdev : Text) : Prop where
  line : ∃ line, (linesOf env.cmdline).head? = some line ∧ uuidValues (readWords line) = [uuid]
  uuid_text : isUuidText uuid = true
  device : ∃ attempt, bootdev = env.blkid attempt uuid

theorem Ready.accepted {F : FileSet} {mount : Mount} {uuid bootdev : Text} {s : Disk}
    (hF : Listing env F) (hreq : Requested env uuid bootdev)
    (hmount : env.fileSystem bootdev = some mount)
    (h : Ready (mount.below (bundlePath env.manifest.bundleId)) F.rows o name temporary s) :
    Accepted env uuid mount := by
  obtain ⟨attempt, rfl⟩ := hreq.device
  refine ⟨hreq.line, hreq.uuid_text, ⟨attempt, hmount⟩,
    fun r hr => h.files r ((hF.mem r).mpr hr), ?_⟩
  have hsum : totalSize (mount.below (bundlePath env.manifest.bundleId)) F.rows =
      totalSize (mount.below (bundlePath env.manifest.bundleId)) env.manifest.rows :=
    (hF.perm.map _).sum_nat
  exact hsum ▸ h.total

theorem Listing.exposed {F : FileSet} (hF : Listing env F) {tree : Tree}
    (h : Exposed F.rows tree) : Exposed env.manifest.rows tree := by
  refine ⟨fun r hr => h.files r ((hF.mem r).mpr hr), fun p o hp => ?_⟩
  rcases h.only p o hp with ⟨r, hr, he⟩ | ⟨r, hr, hw⟩
  · exact .inl ⟨r, (hF.mem r).mp hr, he⟩
  · exact .inr ⟨r, (hF.mem r).mp hr, hw⟩

theorem mktemp_staged {c : Caller} {bundle : Tree} (F : FileSet) :
    Ensures (fun s => s.lookup 0 runtimeName = o) (mktemp c copyTemplate)
      (fun made s => made.1 ≠ runtimeName ∧ Staged bundle F.rows [] o made.1 made.2 s)
      (fun _ _ => True) (fun _ => True) := by
  obtain ⟨r, hr⟩ := List.exists_mem_of_length_pos F.length_pos
  exact mktemp_ensures fun s t draw ho hc => ⟨copyName_ne draw, .start hr ho (copyName_ne draw) hc⟩

theorem writeSearchPath_safe {uuid : Text} {mount : Mount} (hacc : Accepted env uuid mount) :
    Ensures (fun b => b.searchPath = none ∧ ∃ i, b.run.lookup 0 runtimeName = some i ∧
        Exposed env.manifest.rows (treeAt b.run i)) writeSearchPath
      (fun _ => Safe env) (fun _ => Safe env) (Safe env) := by
  refine .step (fun _ h => .untouched h.1) fun fate b hb => ?_
  have done : Safe env { b with searchPath := some runtime } :=
    .inr ⟨rfl, hb.2, uuid, mount, hacc⟩
  rcases fate with _ | progress
  · exact done
  · dsimp only
    split
    · exact .untouched hb.1
    · exact done

theorem copyBundle_ensures {c : Caller} {mount : Mount} {store : Path} {F : FileSet}
    (hF : Listing env F) :
    Ensures (fun b => b.searchPath = none ∧ b.run.lookup 0 runtimeName = o)
      (copyBundle c mount store env.manifest.contents)
      (fun name b => name ≠ runtimeName ∧ b.searchPath = none ∧
        ∃ temporary, Ready (mount.below store) F.rows o name temporary b.run)
      (fun _ b => b.searchPath = none) (fun b => b.searchPath = none) := by
  refine .bind (M := fun made b => made.1 ≠ runtimeName ∧ b.searchPath = none ∧
    Staged (mount.below store) F.rows [] o made.1 made.2 b.run)
    ((onRun_ensures (mktemp_staged F) none).weaken (fun _ h => h)
      (fun _ _ h => ⟨h.2.1, h.1, h.2.2⟩) (fun _ _ h => h) fun _ h => h) ?_
  rintro ⟨name, temporary⟩
  refine .assume fun hne => .bind (asking_ensures fun _ h => h.1) fun lines => .assume fun hl => ?_
  obtain rfl : F.rows.map Row.text = lines := hF.lines ▸ Except.ok.inj hl
  refine .bind (copyLines_ensures F F.rows [] rfl ⟨rfl, Nat.zero_le _⟩) fun _ => ?_
  refine .bind (M := fun _ b => b.searchPath = none ∧
    Ready (mount.below store) F.rows o name temporary b.run)
    (.look (fun _ h => h.1) (fun b _ h hsums => ?_) fun _ _ h => h.1) fun _ =>
      .pure fun _ h => ⟨hne, h.1, temporary, h.2⟩
  obtain ⟨hb, done, todo, hrows, htotal, hs⟩ := h
  split at hsums
  case isTrue hall =>
    exact ⟨hb, hs.ready hrows htotal fun r hr =>
      List.all_eq_true.mp hall _ (List.mem_map_of_mem hr)⟩
  case isFalse => cases hsums

theorem publishRuntime_safe {F : FileSet} (hF : Listing env F) {mount : Mount}
    {uuid bootdev : Text} (hreq : Requested env uuid bootdev)
    (hmount : env.fileSystem bootdev = some mount) (hne : name ≠ runtimeName) :
    Ensures (fun b => b.searchPath = none ∧ ∃ temporary,
        Ready (mount.below (bundlePath env.manifest.bundleId)) F.rows o name temporary b.run)
      (publishRuntime name) (fun _ => Safe env) (fun _ => Safe env) (Safe env) := by
  refine .bind (M := fun _ b => b.searchPath = none ∧ ∃ temporary,
    Ready (mount.below (bundlePath env.manifest.bundleId)) F.rows o name temporary b.run)
    (.look (fun _ h => .untouched h.1) (fun _ _ h _ => h) fun _ _ h => .untouched h.1) fun _ => ?_
  refine .bind (M := fun _ b => Accepted env uuid mount ∧ b.searchPath = none ∧
    ∃ i, b.run.lookup 0 runtimeName = some i ∧ Exposed env.manifest.rows (treeAt b.run i)) ?_ ?_
  · refine (onRun_ensures (P := fun s => ∃ temporary, Ready
      (mount.below (bundlePath env.manifest.bundleId)) F.rows o name temporary s) (.renameCall (Q := fun _ t => Accepted env uuid mount ∧
      ∃ i, t.lookup 0 runtimeName = some i ∧ Exposed env.manifest.rows (treeAt t i))
      (R := fun _ _ => True) (K := fun _ => True) hne (fun _ _ => trivial)
        (fun s i t hs hr => ?_) fun _ _ _ => trivial) none).weaken (fun _ h => h)
          (fun _ _ h => ⟨h.2.1, h.1, h.2.2⟩) (fun _ _ h => .untouched h) fun _ h => .untouched h
    obtain ⟨temporary, hs⟩ := hs
    obtain ⟨j, hj, hx⟩ := hs.renamed hr
    exact ⟨hs.accepted hF hreq hmount, j, hj, hF.exposed hx⟩
  · exact fun _ => .assume fun hacc => .bind (writeSearchPath_safe hacc) fun _ =>
      command_ensures fun _ h => h

theorem exposeBundle_safe {uuid bootdev : Text} (hreq : Requested env uuid bootdev) :
    Ensures (fun b => b.searchPath = none) (exposeBundle env env.manifest.bundleId bootdev)
      (fun _ => Safe env) (fun _ => Safe env) (Safe env) := by
  obtain ⟨F, hF⟩ := exists_listing env
  have untouched : ∀ b : Boot, b.searchPath = none → Safe env b := fun _ h => .untouched h
  refine .bind mountDevice_ensures fun mount => .assume fun hmount => ?_
  refine .bind (M := fun _ b => b.searchPath = none) (.sure untouched fun _ h => h) fun _ => ?_
  refine .bind (M := fun _ b => b.searchPath = none) (.forM (I := fun _ b => b.searchPath = none)
    (fun _ _ => (asking_ensures untouched).weaken (fun _ h => h) (fun _ _ h => h.2)
      (fun _ _ h => h) fun _ h => h) _) fun _ => ?_
  refine .bind (noLinks_ensures untouched) fun _ => ?_
  refine .weaken (P := fun b => ∃ o, b.searchPath = none ∧ b.run.lookup 0 runtimeName = o)
    (.exists_pre fun o => ?_) (fun b h => ⟨_, h, rfl⟩) (fun _ _ h => h) (fun _ _ h => h) fun _ h => h
  refine .bind ((copyBundle_ensures hF).weaken (fun _ h => h) (fun _ _ h => h)
    (fun _ => untouched) untouched) fun name => .assume fun hne => ?_
  refine .bind ((umount_ensures (P := fun u s => u = none ∧ ∃ temporary,
    Ready (mount.below (bundlePath env.manifest.bundleId)) F.rows o name temporary s)).weaken
      (fun _ h => h) (fun _ _ h => h) (fun _ b h => untouched b h.1) fun b h => untouched b h.1)
        fun _ => ?_
  refine .bind (M := fun _ b => b.searchPath = none ∧ ∃ temporary,
    Ready (mount.below (bundlePath env.manifest.bundleId)) F.rows o name temporary b.run)
    (.sure (fun b h => untouched b h.1) fun _ h => h) fun _ => ?_
  exact publishRuntime_safe hF hreq hmount hne

/-- The trap keeps what is exposed. -/
theorem cleanup_safe : Ensures (Safe env) cleanup (fun _ => Safe env) (fun _ => Safe env)
    (Safe env) := by
  refine .bind (M := fun _ => Safe env) (.observe (fun _ h => h) fun _ h => h) fun mounted => ?_
  refine .bind (M := fun _ => Safe env) (.ite (fun _ => ?_) fun _ => .pure fun _ h => h) fun _ =>
    command_ensures fun _ h => h
  exact .orElse (umount_ensures (P := fun u s => u = none ∨ u = some runtime ∧
    (∃ i, s.lookup 0 runtimeName = some i ∧ Exposed env.manifest.rows (treeAt s i)) ∧
      ∃ uuid mount, Accepted env uuid mount)) fun _ => .pure fun _ h => h

theorem readFields_manifestSum (env : Environment) :
    (readFields (manifestSum env)).1 = env.manifest.bundleId := by
  have hsha := isPlain_of_isSha256Text (isSha256Text_sha256 env.manifest.contents)
  have hname : ∀ c ∈ "/etc/azurefin/boot-firmware.sha256".toList, isBlank c = false :=
    forall_mem_of_all (by decide +kernel)
  rw [manifestSum, readFields_append hsha.1 (fun c hc => (hsha.2 c hc).2.1) hname]
  rfl

theorem loadFirmware_ensures (env : Environment) :
    Ensures (fun b => b.searchPath = none) (loadFirmware env) (fun _ => Safe env)
      (fun _ => Safe env) (Safe env) := by
  have untouched : ∀ b : Boot, b.searchPath = none → Safe env b := fun _ h => .untouched h
  refine .bind (command_ensures untouched) fun _ => .bind (command_ensures untouched) fun _ => ?_
  refine .bind (asking_ensures untouched) fun line => .assume fun hline => ?_
  have hhead : (linesOf env.cmdline).head? = some line := by
    rcases h : (linesOf env.cmdline).head? with _ | l
    · simp [h] at hline
    · simpa [h] using hline
  refine .bind ((bootArguments_ensures (readWords line)).weaken (fun _ h => h) (fun _ _ h => h)
    (fun _ => untouched) untouched) fun uuid => .assume fun hfound => ?_
  refine .ite (fun _ => (command_ensures untouched).weaken (fun _ h => h) (fun _ => untouched)
    (fun _ _ h => h) fun _ h => h) fun hne => ?_
  have hrequested : ∀ bootdev, (∃ attempt, bootdev = env.blkid attempt uuid) →
      Requested env uuid bootdev := fun bootdev hdev =>
    ⟨⟨line, hhead, by rw [hfound.values, if_neg hne]⟩, hfound.text hne, hdev⟩
  refine .bind (asking_ensures untouched) fun bundleId => .assume fun hid => ?_
  obtain rfl : env.manifest.bundleId = bundleId := by
    rw [readFields_manifestSum] at hid
    exact Except.ok.inj hid
  refine .bind (require_ensures untouched) fun _ => .assume fun _ => ?_
  refine .bind (command_ensures untouched) fun _ => .bind (command_ensures untouched) fun _ =>
    .bind (command_ensures untouched) fun _ => ?_
  refine .bind ((findDevice_ensures env uuid 20).weaken (fun _ h => h) (fun _ _ h => h)
    (fun _ => untouched) untouched) fun bootdev => .assume fun hdev => ?_
  refine .bind (require_ensures untouched) fun _ => .assume fun hsome => ?_
  refine .bind (M := fun _ b => b.searchPath = none) ?_ fun _ => ?_
  · exact (onRun_ensures (P := fun _ => True) (Q := fun _ _ => True) (mktemp_ensures
      fun _ _ _ _ _ => trivial) none).weaken (fun _ h => ⟨h, trivial⟩)
        (fun _ _ h => h.1) (fun _ => untouched) untouched
  refine .withCleanup (exposeBundle_safe (hrequested bootdev (hdev.resolve_left ?_)))
    (fun _ => cleanup_safe) fun _ => cleanup_safe
  simpa using hsome

/-- **The loader never exposes unverified firmware**: whatever is on the boot file system and the
command line, whatever fails and wherever it is killed. -/
theorem loadFirmware_safe (env : Environment) (run : Disk) (fates : List Fate) :
    Safe env (loadFirmware env ⟨fates, .start run⟩).2.state :=
  (loadFirmware_ensures env).invariant rfl rfl

end Azurefin
