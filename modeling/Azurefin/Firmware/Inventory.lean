import Azurefin.Firmware.Policy
import Azurefin.Lib.Parents

/-!
# Checking a firmware tree

`inventory` from `firmware_store_probe.py`, over a tree given as a map from paths to what
`lstat` shows there. `Complete` says what it checks, without its order: `inventory_ok_iff`.
-/

namespace Azurefin

/-- Owner and permission bits of a directory. -/
structure Attr where
  uid : Nat
  mode : Nat
  deriving DecidableEq, Repr

abbrev Path := List Text
abbrev Tree := Path → Option (Obj UInt8 Attr)

def maxFile : Nat := 64 * 1024 * 1024
def maxTotal : Nat := 128 * 1024 * 1024
def chunkSize : Nat := 1024 * 1024

/-- `os.open` with `O_DIRECTORY | O_NOFOLLOW`. -/
def openDirectory (tree : Tree) (p : Path) : Except PyError Path :=
  match tree p with
  | some (.dir _) => .ok p
  | some _ => .error (.osError .notdir)
  | none => .error (.osError .noent)

/-- The loop that opens the components of a path one below the other. -/
def openParents (tree : Tree) (parts : List Text) : Except PyError Path :=
  parts.foldlM (fun directory part => openDirectory tree (directory ++ [part])) []

/-- `os.open` with `O_NOFOLLOW | O_NONBLOCK` and `os.fdopen`, which refuses directories. -/
def openFile (tree : Tree) (p : Path) : Except PyError (Obj UInt8 Attr) :=
  match tree p with
  | some (.file data) => .ok (.file data)
  | some .special => .ok .special
  | some .symlink => .error (.osError .loop)
  | some (.dir _) => .error (.osError .isdir)
  | none => .error (.osError .noent)

/-- `os.fstat` on the opened file: its data, when it is a regular file of allowed size. -/
def boundedFile (message : String) : Obj UInt8 Attr → Except PyError Bytes
  | .file data =>
    if 0 < data.length ∧ data.length ≤ maxFile then .ok data else .error (.valueError message)
  | _ => .error (.valueError message)

/-- One pass of the read loop of `inventory`, with the bytes counted and hashed so far. -/
def countChunk (acc : Nat × Bytes) (chunk : Bytes) : Except PyError (Nat × Bytes) :=
  if acc.1 + chunk.length > maxFile then .error (.valueError "Firmware grew beyond size limit")
  else .ok (acc.1 + chunk.length, acc.2 ++ chunk)

def readCounted (data : Bytes) : Except PyError (Nat × Bytes) :=
  (chunks chunkSize data).foldlM countChunk (0, [])

structure InventoryItem where
  target : Text
  bytes : Nat
  digest : Text
  deriving DecidableEq, Repr

/-- One pass of the loop of `inventory`: the item and the new total. -/
def inventoryEntry (tree : Tree) (seen : List Text) (total : Nat) (entry : Json) :
    Except PyError (InventoryItem × Nat) := do
  let target ← entry.item "target".toList
  let expected ← entry.item "sha256".toList
  let target ← target.text
  let path := PurePosixPath.ofText target
  if path.isAbsolute || path.parts.contains "..".toList || path.parts == []
      || path.str != target || seen.contains target || !isTargetText target then
    .error (.valueError "Invalid or duplicate policy entry")
  else
    let expected ← expected.text
    if !isSha256Text expected then .error (.valueError "Invalid or duplicate policy entry")
    else
      let directory ← openParents tree path.parts.dropLast
      let opened ← openFile tree (directory ++ [path.name])
      let data ← boundedFile "Not a bounded regular firmware file" opened
      let (count, hashed) ← readCounted data
      if count ≠ data.length ∨ sha256 hashed ≠ expected then
        .error (.valueError ("Firmware checksum/size mismatch: " ++ String.ofList target))
      else if total + count > maxTotal then
        .error (.valueError "Firmware set exceeds size limit")
      else .ok (⟨target, count, expected⟩, total + count)

def inventoryLoop (tree : Tree) : List Text → Nat → List Json →
    Except PyError (List InventoryItem × Nat)
  | _, total, [] => .ok ([], total)
  | seen, total, entry :: entries => do
    let (item, total) ← inventoryEntry tree seen total entry
    let (items, total) ← inventoryLoop tree (item.target :: seen) total entries
    .ok (item :: items, total)

/-- The files found, and their total size. -/
def inventory (tree : Tree) (policy : Json) : Except PyError (List InventoryItem × Nat) := do
  let entries ← policy.item "files".toList
  if !entries.truthy then .error (.valueError "Invalid file count")
  else
    let count ← entries.len
    if count > 256 then .error (.valueError "Invalid file count")
    else
      let _ ← openDirectory tree []
      inventoryLoop tree [] 0 (← entries.elements)

/-! ## What it checks -/

/-- Row `r` is found in the tree, with this data: real directories lead to a regular file of
allowed size with the digest of the row. -/
structure Holds (tree : Tree) (r : Row) (data : Bytes) : Prop where
  parents : ∀ q, q ≠ [] → q <+: r.path.dropLast → IsDirectory tree q
  file : tree r.path = some (.file data)
  size_pos : 0 < data.length
  size_le : data.length ≤ maxFile
  digest : sha256 data = r.digest

/-- The size of the file of a row, zero when there is none. -/
def sizeAt (tree : Tree) (r : Row) : Nat :=
  match tree r.path with
  | some (.file data) => data.length
  | _ => 0

def totalSize (tree : Tree) (rows : List Row) : Nat := (rows.map (sizeAt tree)).sum

/-- The tree has the files of all rows, within the size limits. -/
structure Complete (tree : Tree) (rows : List Row) : Prop where
  root : IsDirectory tree []
  files : ∀ r ∈ rows, ∃ data, Holds tree r data
  total : totalSize tree rows ≤ maxTotal

theorem Holds.sizeAt_eq {tree : Tree} {r : Row} {data : Bytes} (h : Holds tree r data) :
    sizeAt tree r = data.length := by
  simp [sizeAt, h.file]

theorem openDirectory_eq_ok {tree : Tree} {p q : Path} :
    openDirectory tree p = .ok q ↔ q = p ∧ IsDirectory tree p := by
  unfold openDirectory IsDirectory
  split <;> simp_all [eq_comm]

theorem openParents_eq_ok {tree : Tree} {parts : List Text} {d : Path} :
    openParents tree parts = .ok d ↔
      d = parts ∧ ∀ q, q ≠ [] → q <+: parts → IsDirectory tree q := by
  have step : ∀ (parts : List Text) (p : Path),
      parts.foldlM (fun directory part => openDirectory tree (directory ++ [part])) p = .ok d ↔
        d = p ++ parts ∧ ∀ q, q ≠ [] → q <+: parts → IsDirectory tree (p ++ q) := by
    intro parts
    induction parts with
    | nil =>
      intro p
      simp only [List.foldlM_nil, pure, Except.pure, Except.ok.injEq, List.append_nil,
        List.prefix_nil]
      exact ⟨fun h => ⟨h.symm, fun q hne hq => absurd hq hne⟩, fun h => h.1.symm⟩
    | cons part parts ih =>
      intro p
      simp only [List.foldlM_cons, Except.bind_eq_ok, openDirectory_eq_ok]
      constructor
      · rintro ⟨_, ⟨rfl, hd⟩, h⟩
        obtain ⟨rfl, hq⟩ := (ih _).mp h
        refine ⟨by simp, fun q hne hpre => ?_⟩
        obtain ⟨x, q, rfl⟩ := List.exists_cons_of_ne_nil hne
        obtain ⟨rfl, hpre'⟩ := List.cons_prefix_cons.mp hpre
        by_cases hq' : q = []
        · simpa [hq'] using hd
        · simpa using hq q hq' hpre'
      · rintro ⟨rfl, hq⟩
        refine ⟨p ++ [part], ⟨rfl, hq [part] (by simp) (by simp)⟩, (ih _).mpr ⟨by simp, ?_⟩⟩
        intro q _ hpre
        simpa using hq (part :: q) (by simp) (List.cons_prefix_cons.mpr ⟨rfl, hpre⟩)
  simpa [openParents] using step parts []

theorem foldlM_countChunk {cs : List Bytes} {count : Nat} {hashed : Bytes}
    (h : count + cs.flatten.length ≤ maxFile) :
    cs.foldlM countChunk (count, hashed) =
      .ok (count + cs.flatten.length, hashed ++ cs.flatten) := by
  induction cs generalizing count hashed with
  | nil => simp [pure, Except.pure]
  | cons c cs ih =>
    simp only [List.flatten_cons, List.length_append] at h
    rw [List.foldlM_cons, countChunk, if_neg (by simp only; omega), Except.ok_bind,
      ih (by omega)]
    simp [Nat.add_assoc]

theorem readCounted_eq {data : Bytes} (h : data.length ≤ maxFile) :
    readCounted data = .ok (data.length, data) := by
  have hf : (chunks chunkSize data).flatten = data := flatten_chunks (by decide) data
  rw [readCounted, foldlM_countChunk (by rw [hf]; omega), hf]
  simp

theorem openFile_bounded {tree : Tree} {p : Path} {message : String} {data : Bytes} :
    (openFile tree p >>= boundedFile message) = .ok data ↔
      tree p = some (.file data) ∧ 0 < data.length ∧ data.length ≤ maxFile := by
  unfold openFile
  split <;> simp_all [boundedFile]
  case h_1 data' =>
    constructor
    · intro h
      split at h
      · cases h
        exact ⟨rfl, ‹_›⟩
      · cases h
    · rintro ⟨rfl, h⟩
      simp [h]

/-- The file found for a valid row, as the sources open it. -/
theorem holds_iff {tree : Tree} {r : Row} (hv : r.valid = true) (message : String)
    (data : Bytes) :
    Holds tree r data ↔ sha256 data = r.digest ∧
      ∃ directory opened, openParents tree (PurePosixPath.ofText r.target).parts.dropLast
          = .ok directory ∧
        openFile tree (directory ++ [(PurePosixPath.ofText r.target).name]) = .ok opened ∧
        boundedFile message opened = .ok data := by
  obtain ⟨-, habs, -, hne, -⟩ := (isCanonicalTarget_iff _).mp (r.valid_iff.mp hv).1
  have hparts := PurePosixPath.parts_eq_names habs
  have hpath : r.path.dropLast ++ [(PurePosixPath.ofText r.target).name] = r.path :=
    PurePosixPath.dropLast_append_name hne
  simp only [hparts, openParents_eq_ok]
  constructor
  · intro h
    have hfile : openFile tree r.path = .ok (.file data) := by simp [openFile, h.file]
    exact ⟨h.digest, _, .file data, ⟨rfl, h.parents⟩, hpath ▸ hfile,
      by simp [boundedFile, h.size_pos, h.size_le]⟩
  · rintro ⟨hsha, _, opened, ⟨rfl, hdirs⟩, ho, hb⟩
    have hf := openFile_bounded.mp (Except.bind_eq_ok.mpr ⟨opened, ho, hb⟩)
    have hf' : tree (r.path.dropLast ++ [(PurePosixPath.ofText r.target).name]) =
      some (.file data) := hf.1
    exact ⟨hdirs, hpath ▸ hf', hf.2.1, hf.2.2, hsha⟩

/-- One pass of the loop of `inventory`, for an entry that describes a valid row. -/
theorem inventoryEntry_eq_ok {tree : Tree} {seen : List Text} {total : Nat} {entry : Json}
    {r : Row} (hd : Describes entry r) (hv : r.valid = true) (hs : r.target ∉ seen)
    {out : InventoryItem × Nat} :
    inventoryEntry tree seen total entry = .ok out ↔
      ∃ data, Holds tree r data ∧ total + data.length ≤ maxTotal ∧
        out = (⟨r.target, data.length, r.digest⟩, total + data.length) := by
  obtain ⟨htext, habs, hdots, hne, hstr⟩ := (isCanonicalTarget_iff _).mp (r.valid_iff.mp hv).1
  have hsha := (r.valid_iff.mp hv).2
  have hparts := PurePosixPath.parts_eq_names habs
  have hbad : ((PurePosixPath.ofText r.target).isAbsolute
      || (PurePosixPath.ofText r.target).parts.contains "..".toList
      || (PurePosixPath.ofText r.target).parts == []
      || (PurePosixPath.ofText r.target).str != r.target || seen.contains r.target
      || !isTargetText r.target) = false := by
    rw [hparts, habs, hstr, htext]
    simpa [hne, hs] using hdots
  unfold inventoryEntry
  rw [hd.1, hd.2]
  simp only [Except.ok_bind, Json.text, hbad, hsha, Bool.not_true, Bool.false_eq_true, if_false,
    Except.bind_eq_ok]
  constructor
  · rintro ⟨directory, hdir, opened, ho, data, hb, ⟨count, hashed⟩, hread, h⟩
    have hle : data.length ≤ maxFile :=
      (openFile_bounded.mp (Except.bind_eq_ok.mpr ⟨opened, ho, hb⟩)).2.2
    obtain ⟨rfl, rfl⟩ : count = data.length ∧ hashed = data := by
      simpa [readCounted_eq hle, eq_comm] using hread
    split at h
    · cases h
    · split at h
      · cases h
      · rename_i hsum htotal
        refine ⟨hashed, (holds_iff hv _ hashed).mpr ⟨by simpa using hsum, directory, opened, hdir, ho, hb⟩,
          by omega, (Except.ok.inj h).symm⟩
  · rintro ⟨data, hh, hle, rfl⟩
    obtain ⟨hdig, directory, opened, hdir, ho, hb⟩ := (holds_iff hv _ data).mp hh
    refine ⟨directory, hdir, opened, ho, data, hb, _, readCounted_eq hh.size_le, ?_⟩
    rw [if_neg (by simp [hdig]), if_neg (by simp only; omega)]

/-- The loop of `inventory` succeeds when every file is found and the sizes fit. -/
theorem inventoryLoop_ok_iff {tree : Tree} {entries : List Json} {rows : List Row}
    (hd : List.Forall₂ Describes entries rows) (hv : ∀ r ∈ rows, r.valid = true)
    (hn : (rows.map Row.target).Nodup) {seen : List Text} (hs : ∀ r ∈ rows, r.target ∉ seen)
    {total : Nat} (ht : total ≤ maxTotal) :
    (∃ out, inventoryLoop tree seen total entries = .ok out) ↔
      (∀ r ∈ rows, ∃ data, Holds tree r data) ∧ total + totalSize tree rows ≤ maxTotal := by
  induction hd generalizing seen total with
  | nil => simpa [inventoryLoop, totalSize] using ht
  | @cons entry r entries rows he hd ih =>
    have hentry := @inventoryEntry_eq_ok tree seen total entry r he (hv r (by simp)) (hs r (by simp))
    obtain ⟨hr, hn⟩ := List.nodup_cons.mp hn
    have rest : ∀ {data : Bytes}, total + data.length ≤ maxTotal →
        ((∃ out, inventoryLoop tree (r.target :: seen) (total + data.length) entries = .ok out) ↔
          (∀ q ∈ rows, ∃ data, Holds tree q data) ∧
            total + data.length + totalSize tree rows ≤ maxTotal) := by
      intro data hle
      refine ih (fun q hq => hv q (by simp [hq])) hn (fun q hq => ?_) hle
      simp only [List.mem_cons, not_or]
      exact ⟨fun h => hr (h ▸ List.mem_map_of_mem hq), hs q (by simp [hq])⟩
    have hsum : totalSize tree (r :: rows) = sizeAt tree r + totalSize tree rows := by
      simp [totalSize]
    rw [inventoryLoop]
    simp only [Except.bind_eq_ok, List.forall_mem_cons, hsum]
    constructor
    · rintro ⟨_, _, hone, ⟨items, total'⟩, hloop, -⟩
      obtain ⟨data, hh, hle, rfl⟩ := hentry.mp hone
      obtain ⟨hall, htot⟩ := (rest hle).mp ⟨_, hloop⟩
      exact ⟨⟨⟨data, hh⟩, hall⟩, by rw [hh.sizeAt_eq]; omega⟩
    · rintro ⟨⟨⟨data, hh⟩, hall⟩, htot⟩
      rw [hh.sizeAt_eq] at htot
      obtain ⟨⟨items, total'⟩, hloop⟩ := (@rest data (by omega)).mpr ⟨hall, by omega⟩
      exact ⟨_, _, hentry.mpr ⟨data, hh, by omega, rfl⟩, _, hloop, rfl⟩

/-- **What `inventory` checks**: on the policies that `manifest` accepts, it succeeds exactly
on the trees that hold all files. -/
theorem inventory_ok_iff {tree : Tree} {policy : Json} {F : FileSet}
    (hF : policyRows policy = .ok F.rows) :
    (∃ out, inventory tree policy = .ok out) ↔ Complete tree F.rows := by
  obtain ⟨entries, hi, hd⟩ := item_files_of_policyRows hF
  have hlen : entries.length = F.rows.length := hd.length_eq
  have := F.length_pos
  have := F.length_le
  have htruthy : (Json.arr entries).truthy = true := by
    cases entries <;> simp_all [Json.truthy]
  have hcount : ¬ entries.length > 256 := by omega
  have hloop := @inventoryLoop_ok_iff tree entries F.rows hd F.valid F.nodup [] (by simp) 0
    (by simp)
  rw [Nat.zero_add] at hloop
  simp only [inventory, hi, Except.ok_bind, htruthy, Json.len, Json.elements, hcount, if_false,
    Bool.not_true, Bool.false_eq_true, Except.bind_eq_ok, openDirectory_eq_ok]
  constructor
  · rintro ⟨out, _, ⟨-, hroot⟩, h⟩
    obtain ⟨hfiles, htotal⟩ := hloop.mp ⟨out, h⟩
    exact ⟨hroot, hfiles, htotal⟩
  · intro h
    obtain ⟨out, hout⟩ := hloop.mpr ⟨h.files, h.total⟩
    exact ⟨out, _, ⟨rfl, h.root⟩, hout⟩

end Azurefin
