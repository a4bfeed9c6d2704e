import Azurefin.Release.Finalize

/-!
# An ISO in parts

The release workflow publishes an ISO in parts, with the checksum of each and of the whole, and
`assemble_release_iso.py` puts it together again. What it puts together is what was cut, and what it
puts together has the checksums that are listed: `assemble_inverse`.
-/

namespace Azurefin

open Decimal

/-! ## Names -/

/-- `{name}.part-{index:03d}` -/
def partName (tag : Text) (index : Nat) : Text := isoName tag ++ ".part-".toList ++ zeroPad 3 index

def sumsName : Text := "SHA256SUMS".toList

def buildInfoName : Text := "BUILD-INFO.txt".toList

def auditName : Text := "iso-audit.log".toList

def auditMarker : Text := "FINAL_ISO_CONTENT_AUDIT_PASSED".toList

def candidateMarker : Text := "LIVE_ISO_CANDIDATE_AUDIT_PASSED".toList

/-- A line of `sha256sum` -/
def checksumLine (data : Bytes) (name : Text) : Text := sha256 data ++ "  ".toList ++ name

/-! ## Cutting -/

/-- `grep -qx` for a pattern that stands for itself -/
def grepLine (pattern text : Text) : Bool := (text.splitOn '\n').contains pattern

/-- `split -b size -d -a 3`, in a directory of its own -/
def splitParts (size : Nat) (tag : Text) (iso : Bytes) : Except Nat (List (Text × Bytes)) :=
  if size = 0 then .error 1 -- invalid number of bytes
  else if 1000 < (chunks size iso).length then .error 1 -- output file suffixes exhausted
  else .ok ((chunks size iso).mapIdx fun index data => (partName tag index, data))

/-- `sha256sum ./*.part-*`: the names are sorted. -/
def sumParts (parts : List (Text × Bytes)) : Text :=
  (parts.mergeSort fun p q => p.1 ≤ q.1).flatMap fun p =>
    checksumLine p.2 ("./".toList ++ p.1) ++ ['\n']

/-- What `BUILD-INFO.txt` is written from. -/
structure BuildInfo where
  revision : Text
  workflow : Text
  base : Text
  installer : Text

def BuildInfo.text (info : BuildInfo) (tag : Text) : Text :=
  "Release: ".toList ++ tag ++ "\nRelease commit: ".toList ++ info.revision ++
    "\nISO workflow commit: ".toList ++ info.workflow ++ "\nBase: ".toList ++ info.base ++
    "\nInstaller: ".toList ++ info.installer ++
    "\nMedia: live desktop with Anaconda\nHardware boot/install test: NOT YET RUN\n".toList

/-- `Prepare checksummed release assets` from `release-iso.yml`: the files of `assets`. -/
def prepareAssets (size : Nat) (tag : Text) (iso : Bytes) (audit : Text) (info : BuildInfo) :
    Except Nat (List (Text × Bytes)) :=
  if !grepLine auditMarker audit then .error 1
  else if !grepLine candidateMarker audit then .error 1
  else if !(0 < iso.length && iso.length < 10000000000) then .error 1
  else do
    let parts ← splitParts size tag iso
    .ok (parts ++ [(sumsName, utf8 (sumParts parts)),
      (checksumName, utf8 (checksumLine iso (isoName tag) ++ ['\n'])),
      (buildInfoName, utf8 (info.text tag)), (auditName, utf8 audit)])

/-! ## Assembling -/

/-- What the files of a directory contain. -/
abbrev Files := Text → Option Bytes

/-- The directory that is written, if it exists. -/
abbrev Output := Option Files

def readFile (source : Files) (name : Text) : Except PyError Bytes :=
  match source name with
  | some data => .ok data
  | none => .error (.osError .noent)

def readTextFile (source : Files) (name : Text) : Except PyError Text := do
  readText (← readFile source name)

/-- `([a-f0-9]{64})  (?:\./)?(azurefin-{tag}-aarch64\.iso\.part-\d{3})` -/
def chunkEntry (tag line : Text) : Except PyError (Text × Text) :=
  let name := removePrefix "./".toList (line.drop 66)
  if isSha256Text (line.take 64) && "  ".toList.isPrefixOf (line.drop 64) && isPartName tag name then
    .ok (name, line.take 64)
  else .error (.valueError "Unexpected chunk checksum entry")

/-- `a <= b` for pairs of texts -/
def entryLe (a b : Text × Text) : Bool := a.1 < b.1 || a.1 == b.1 && a.2 ≤ b.2

/-- `([a-f0-9]{64})  azurefin-{tag}-aarch64\.iso` -/
def isoEntry (tag line : Text) : Except PyError Text :=
  if isSha256Text (line.take 64) && line.drop 64 == "  ".toList ++ isoName tag then .ok (line.take 64)
  else .error (.valueError "Unexpected whole-ISO checksum entry")

/-- `output.mkdir(exist_ok=False)` -/
def mkdir : Act Output PyError Unit := fun output =>
  match output with
  | some files => (.error (.osError .exist), some files)
  | none => (.ok (), some fun _ => none)

/-- Write a file as a whole. -/
def writeFile (name : Text) (data : Bytes) : Act Output PyError Unit := fun output =>
  (.ok (), output.map fun files => Function.update files name (some data))

/-- `target.write(data)` at the end of an open file -/
def appendFile (name : Text) (data : Bytes) : Act Output PyError Unit := fun output =>
  (.ok (), output.map fun files => Function.update files name (some ((files name).getD [] ++ data)))

/-- `handle.read(8 * 1024 * 1024)` -/
def readSize : Nat := 8 * 1024 * 1024

/-- One piece of a part, with what has gone into the checksums of the part and of the whole. -/
def copyPiece (name : Text) (hashed : Bytes × Bytes) (piece : Bytes) :
    Act Output PyError (Bytes × Bytes) := do
  appendFile name piece
  pure (hashed.1 ++ piece, hashed.2 ++ piece)

def copyPart (source : Files) (name : Text) (total : Bytes) (entry : Text × Text) :
    Act Output PyError Bytes := do
  let data ← Act.ofExcept (readFile source entry.1)
  let (chunk, total) ← (chunks readSize data).foldlM (copyPiece name) ([], total)
  Act.require (sha256 chunk == entry.2)
    (.valueError ("Chunk checksum mismatch: " ++ String.ofList entry.1))
  pure total

/-- `shutil.copyfile(source / name, output / name)` -/
def copyFile (source : Files) (name : Text) : Act Output PyError Unit := do
  let data ← Act.ofExcept (readFile source name)
  writeFile name data

/-- The files that are published with the ISO. -/
def metadataNames : List Text := [checksumName, buildInfoName, auditName]

/-- The parts with their checksums, in the order of their names. -/
def sourceEntries (tag : Text) (source : Files) : Except PyError (List (Text × Text)) := do
  let audit ← readTextFile source auditName
  if !(splitlines audit).contains auditMarker then
    .error (.valueError "Published ISO audit did not pass")
  else
    let sums ← readTextFile source sumsName
    let listed ← (splitlines sums).mapM (chunkEntry tag)
    let entries := listed.mergeSort entryLe
    if entries.isEmpty || entries.map Prod.fst != (List.range entries.length).map (partName tag) then
      .error (.valueError "Missing or duplicate ISO chunks")
    else .ok entries

/-- The checksum of the whole, where the parts have a size that can be published. -/
def sourceChecksum (tag : Text) (source : Files) (entries : List (Text × Text)) : Except PyError Text := do
  let expected ← readTextFile source checksumName
  let checksum ← isoEntry tag (strip expected)
  let sizes ← entries.mapM fun entry => do .ok (← readFile source entry.1).length
  if !(0 < sizes.sum && sizes.sum < 10000000000) then
    .error (.valueError "ISO exceeds conservative SourceForge 10 GB limit or is empty")
  else .ok checksum

/-- `assemble` from `assemble_release_iso.py` -/
def assemble (tag : Text) (source : Files) : Act Output PyError Unit := do
  Act.ofExcept (checkAssembleTag tag)
  let entries ← Act.ofExcept (sourceEntries tag source)
  let checksum ← Act.ofExcept (sourceChecksum tag source entries)
  mkdir
  writeFile (isoName tag) []
  let total ← entries.foldlM (copyPart source (isoName tag)) []
  Act.require (sha256 total == checksum) (.valueError "Whole ISO checksum mismatch")
  metadataNames.forM (copyFile source)

/-! ## Copying -/

variable {tag name text line checksum : Text} {source files : Files} {iso data total chunk : Bytes}
  {entry : Text × Text} {entries : List (Text × Text)} {output : Output}

/-- The file has these contents, and the others are as they were. -/
def Files.with (files : Files) (name : Text) (data : Bytes) : Files :=
  Function.update files name (some data)

@[simp] theorem Files.with_self : files.with name data name = some data := Function.update_self ..

/-- The part is there, with the checksum that is listed. -/
def IsPart (source : Files) (entry : Text × Text) (data : Bytes) : Prop :=
  source entry.1 = some data ∧ sha256 data = entry.2

theorem readFile_eq_ok : readFile source name = .ok data ↔ source name = some data := by
  unfold readFile
  split <;> simp_all

theorem writeFile_apply (name : Text) (data : Bytes) (files : Files) :
    writeFile name data (some files) = (.ok (), some (files.with name data)) := rfl

theorem appendFile_apply (name : Text) (files : Files) (data more : Bytes) :
    appendFile name more (some (files.with name data)) =
      (.ok (), some (files.with name (data ++ more))) := by
  simp [appendFile, Files.with]

/-- All pieces go into the file and into both checksums. -/
theorem copyPieces_apply (name : Text) (files : Files) (chunk total : Bytes) (pieces : List Bytes) :
    pieces.foldlM (copyPiece name) (chunk, total) (some (files.with name total)) =
      (.ok (chunk ++ pieces.flatten, total ++ pieces.flatten),
        some (files.with name (total ++ pieces.flatten))) := by
  induction pieces generalizing chunk total with
  | nil => simp
  | cons piece pieces ih =>
    have hpiece : copyPiece name (chunk, total) piece (some (files.with name total)) =
        (.ok (chunk ++ piece, total ++ piece), some (files.with name (total ++ piece))) := by
      rw [copyPiece, Act.bind_of_ok (appendFile_apply name files total piece)]
      rfl
    rw [List.foldlM_cons, Act.bind_of_ok hpiece, ih]
    simp only [List.flatten_cons, List.append_assoc]

theorem copyPart_eq_ok : copyPart source name total entry (some (files.with name total)) = (.ok iso, output) ↔
    ∃ data, IsPart source entry data ∧ iso = total ++ data ∧ output = some (files.with name (total ++ data)) := by
  simp only [copyPart, Act.bind_eq_ok, Act.ofExcept_eq_ok, readFile_eq_ok]
  constructor
  · rintro ⟨data, _, ⟨hdata, rfl⟩, ⟨chunk, whole⟩, _, hpieces, _, _, hcheck, hpure⟩
    rw [copyPieces_apply, flatten_chunks (by decide)] at hpieces
    simp only [Prod.mk.injEq, Except.ok.injEq, List.nil_append] at hpieces
    obtain ⟨⟨rfl, rfl⟩, rfl⟩ := hpieces
    obtain ⟨hsum, rfl⟩ := Act.require_eq_ok.mp hcheck
    simp only [Act.pure_apply, Prod.mk.injEq, Except.ok.injEq] at hpure
    exact ⟨data, ⟨hdata, by simpa using hsum⟩, hpure.1.symm, hpure.2.symm⟩
  · rintro ⟨data, ⟨hdata, hsum⟩, rfl, rfl⟩
    refine ⟨data, _, ⟨hdata, rfl⟩, _, _, copyPieces_apply .., (), _, Act.require_eq_ok.mpr ⟨?_, rfl⟩, ?_⟩
    · rw [flatten_chunks (by decide), List.nil_append, hsum, beq_self_eq_true]
    · rw [flatten_chunks (by decide)]
      rfl

/-- All parts are there, with the checksums that are listed, and are copied one after the other. -/
theorem copyParts_eq_ok :
    entries.foldlM (copyPart source name) total (some (files.with name total)) = (.ok iso, output) ↔
      ∃ parts, List.Forall₂ (IsPart source) entries parts ∧ iso = total ++ parts.flatten ∧
        output = some (files.with name (total ++ parts.flatten)) := by
  induction entries generalizing total with
  | nil => simp [eq_comm]
  | cons entry entries ih =>
    simp only [List.foldlM_cons, Act.bind_eq_ok]
    constructor
    · rintro ⟨_, _, hpart, hrest⟩
      obtain ⟨data, hdata, rfl, rfl⟩ := copyPart_eq_ok.mp hpart
      obtain ⟨parts, hparts, rfl, rfl⟩ := ih.mp hrest
      refine ⟨data :: parts, .cons hdata hparts, ?_, ?_⟩ <;> simp
    · rintro ⟨_, hparts, rfl, rfl⟩
      cases hparts with
      | cons hdata hrest =>
        refine ⟨_, _, copyPart_eq_ok.mpr ⟨_, hdata, rfl, rfl⟩, ih.mpr ⟨_, hrest, ?_, ?_⟩⟩ <;> simp

/-- Files are copied over what is there. -/
theorem copyFiles_eq_ok {names : List Text} : names.forM (copyFile source) (some files) = (.ok (), output) ↔
    (∀ n ∈ names, (source n).isSome) ∧
      output = some fun n => if names.contains n then source n else files n := by
  induction names generalizing files with
  | nil =>
    have hnil : ([] : List Text).forM (copyFile source) (some files) = (.ok (), some files) := rfl
    simp only [hnil, List.not_mem_nil, false_imp_iff, implies_true, true_and, Prod.mk.injEq]
    exact eq_comm
  | cons name names ih =>
    have hstep : (name :: names).forM (copyFile source) =
        copyFile source name >>= fun _ => names.forM (copyFile source) := rfl
    simp only [hstep, Act.bind_eq_ok, copyFile, Act.ofExcept_eq_ok, readFile_eq_ok]
    constructor
    · rintro ⟨_, _, ⟨data, _, ⟨hdata, rfl⟩, hwrite⟩, hrest⟩
      simp only [writeFile_apply, Prod.mk.injEq, true_and] at hwrite
      subst hwrite
      obtain ⟨hall, rfl⟩ := ih.mp hrest
      refine ⟨List.forall_mem_cons.mpr ⟨by simp [hdata], hall⟩, ?_⟩
      congr 1
      funext n
      by_cases hn : n = name <;> simp [hn, hdata, Files.with]
    · rintro ⟨hall, rfl⟩
      obtain ⟨data, hdata⟩ := Option.isSome_iff_exists.mp (hall name List.mem_cons_self)
      refine ⟨(), _, ⟨data, _, ⟨hdata, rfl⟩, writeFile_apply ..⟩,
        ih.mpr ⟨fun n hn => hall n (List.mem_cons_of_mem _ hn), ?_⟩⟩
      congr 1
      funext n
      by_cases hn : n = name <;> simp [hn, hdata, Files.with]

/-! ## When the assembly succeeds -/

/-- What there is in the source, with the entries as they are listed and the parts in the order of
their names. -/
structure Assembled (tag : Text) (source : Files) (listed : List (Text × Text)) (parts : List Bytes) :
    Prop where
  accepted : matchesTag isDecimal tag = true
  passed : ∃ audit, readTextFile source auditName = .ok audit ∧ auditMarker ∈ splitlines audit
  sums : ∃ sums, readTextFile source sumsName = .ok sums ∧
    (splitlines sums).mapM (chunkEntry tag) = .ok listed
  names : listed ≠ [] ∧
    (listed.mergeSort entryLe).map Prod.fst = (List.range listed.length).map (partName tag)
  copied : List.Forall₂ (IsPart source) (listed.mergeSort entryLe) parts
  whole : ∃ expected, readTextFile source checksumName = .ok expected ∧
    isoEntry tag (strip expected) = .ok (sha256 parts.flatten)
  size : 0 < parts.flatten.length ∧ parts.flatten.length < 10000000000
  metadata : ∀ name ∈ metadataNames, (source name).isSome

/-- The ISO, and what is copied. -/
def assembledFiles (tag : Text) (source : Files) (iso : Bytes) : Files := fun name =>
  if metadataNames.contains name then source name
  else Files.with (fun _ => none) (isoName tag) iso name

theorem checkAssembleTag_eq_ok {u : Unit} : checkAssembleTag tag = .ok u ↔ matchesTag isDecimal tag = true := by
  cases h : matchesTag isDecimal tag <;> simp [checkAssembleTag, h]

theorem mkdir_eq_ok {start : Output} {u : Unit} :
    mkdir start = (.ok u, output) ↔ start = none ∧ output = some fun _ => none := by
  cases start <;> simp [mkdir, eq_comm]

/-- The sizes of parts that are there. -/
theorem sizes_eq_ok {parts : List Bytes} (h : List.Forall₂ (IsPart source) entries parts) :
    (entries.mapM fun entry => do .ok (← readFile source entry.1).length) =
      (.ok (parts.map List.length) : Except PyError (List Nat)) := by
  induction h with
  | nil => rfl
  | cons hpart _ ih =>
    rw [List.mapM_cons, readFile_eq_ok.mpr hpart.1, Except.ok_bind, Except.ok_bind, ih]
    rfl

theorem sourceEntries_eq_ok : sourceEntries tag source = .ok entries ↔
    (∃ audit, readTextFile source auditName = .ok audit ∧ auditMarker ∈ splitlines audit) ∧
      ∃ sums listed, readTextFile source sumsName = .ok sums ∧
        (splitlines sums).mapM (chunkEntry tag) = .ok listed ∧ entries = listed.mergeSort entryLe ∧
          entries ≠ [] ∧ entries.map Prod.fst = (List.range entries.length).map (partName tag) := by
  simp only [sourceEntries, Except.bind_eq_ok, Except.check_eq_ok, Bool.not_eq_true', Bool.not_eq_false,
    List.contains_iff_mem, Bool.or_eq_true, List.isEmpty_iff, bne_iff_ne, not_or, ne_eq, not_not,
    Except.ok.injEq]
  constructor
  · rintro ⟨audit, haudit, hmarker, sums, hsums, listed, hlisted, hnames, rfl⟩
    exact ⟨⟨audit, haudit, hmarker⟩, sums, listed, hsums, hlisted, rfl, hnames⟩
  · rintro ⟨⟨audit, haudit, hmarker⟩, sums, listed, hsums, hlisted, rfl, hnames⟩
    exact ⟨audit, haudit, hmarker, sums, hsums, listed, hlisted, hnames, rfl⟩

theorem sourceChecksum_eq_ok {parts : List Bytes} (h : List.Forall₂ (IsPart source) entries parts) :
    sourceChecksum tag source entries = .ok checksum ↔
      (∃ expected, readTextFile source checksumName = .ok expected ∧
        isoEntry tag (strip expected) = .ok checksum) ∧
        0 < parts.flatten.length ∧ parts.flatten.length < 10000000000 := by
  simp only [sourceChecksum, Except.bind_eq_ok, Except.check_eq_ok, sizes_eq_ok h, Except.ok.injEq,
    exists_eq_left', ← List.length_flatten, Bool.not_eq_true', Bool.not_eq_false, Bool.and_eq_true,
    decide_eq_true_eq]
  constructor
  · rintro ⟨expected, hexpected, checksum, hchecksum, hsize, rfl⟩
    exact ⟨⟨expected, hexpected, hchecksum⟩, hsize⟩
  · rintro ⟨⟨expected, hexpected, hchecksum⟩, hsize⟩
    exact ⟨expected, hexpected, checksum, hchecksum, hsize, rfl⟩

theorem assemble_eq_ok {start : Output} : assemble tag source start = (.ok (), output) ↔
    start = none ∧ ∃ listed parts, Assembled tag source listed parts ∧
      output = some (assembledFiles tag source parts.flatten) := by
  simp only [assemble, Act.bind_eq_ok, Act.ofExcept_eq_ok, Act.require_eq_ok, checkAssembleTag_eq_ok, mkdir_eq_ok,
    sourceEntries_eq_ok]
  constructor
  · rintro ⟨_, _, ⟨haccepted, rfl⟩, entries, _, ⟨⟨hpassed, sums, listed, hread, hlisted, rfl, hne, hnames⟩, rfl⟩,
      checksum, _, ⟨hchecksum, rfl⟩, _, _, ⟨rfl, rfl⟩, _, _, hcreate, total, _, hcopy, _, _, ⟨hwhole, rfl⟩,
      hmetadata⟩
    rw [writeFile_apply, Prod.mk.injEq] at hcreate
    obtain ⟨-, rfl⟩ := hcreate
    obtain ⟨parts, hparts, rfl, rfl⟩ := copyParts_eq_ok.mp hcopy
    obtain ⟨hall, rfl⟩ := copyFiles_eq_ok.mp hmetadata
    obtain ⟨hentry, hsize⟩ := (sourceChecksum_eq_ok hparts).mp hchecksum
    rw [beq_iff_eq, List.nil_append] at hwhole
    rw [List.length_mergeSort] at hnames
    refine ⟨rfl, listed, parts, ⟨haccepted, hpassed, ⟨sums, hread, hlisted⟩, ⟨?_, hnames⟩, hparts, ?_, hsize, hall⟩,
      rfl⟩
    · rintro rfl
      exact hne (List.mergeSort_nil ..)
    · rwa [hwhole]
  · rintro ⟨rfl, listed, parts, h, rfl⟩
    obtain ⟨sums, hread, hlisted⟩ := h.sums
    have hne : listed.mergeSort entryLe ≠ [] := by
      rw [← List.length_pos_iff, List.length_mergeSort, List.length_pos_iff]
      exact h.names.1
    have hnames := h.names.2
    rw [← List.length_mergeSort listed] at hnames
    refine ⟨(), _, ⟨h.accepted, rfl⟩, _, _, ⟨⟨h.passed, sums, listed, hread, hlisted, rfl, hne, hnames⟩, rfl⟩,
      _, _, ⟨(sourceChecksum_eq_ok h.copied).mpr ⟨h.whole, h.size⟩, rfl⟩, (), _, ⟨rfl, rfl⟩, (), _,
      writeFile_apply .., _, _, copyParts_eq_ok.mpr ⟨parts, h.copied, rfl, rfl⟩, (), _, ⟨?_, rfl⟩,
      copyFiles_eq_ok.mpr ⟨h.metadata, rfl⟩⟩
    rw [List.nil_append, beq_self_eq_true]

/-! ## Names and lines -/

variable {i j : Nat}

theorem isSpace_of_mem_isoName (htag : matchesTag isDecimal tag = true) {c : Char}
    (h : c ∈ isoName tag) : isSpace c = false := by
  have hstarts : ∀ c ∈ "azurefin-".toList, isSpace c = false := forall_mem_of_all (by decide +kernel)
  have hsuffix : ∀ c ∈ "-aarch64.iso".toList, isSpace c = false := forall_mem_of_all (by decide +kernel)
  have hother : ∀ c ∈ ['v', '.', '-', 'a', 'l', 'p', 'h'], isSpace c = false :=
    forall_mem_of_all (by decide)
  rcases List.mem_append.mp h with h | h
  · rcases List.mem_append.mp h with h | h
    · exact hstarts c h
    · exact (mem_of_matchesTag htag h).elim isSpace_of_isDecimal (hother c)
  · exact hsuffix c h

theorem isSpace_of_mem_partName (htag : matchesTag isDecimal tag = true) {c : Char}
    (h : c ∈ partName tag i) : isSpace c = false := by
  have hpart : ∀ c ∈ ".part-".toList, isSpace c = false := forall_mem_of_all (by decide +kernel)
  rcases List.mem_append.mp h with h | h
  · rcases List.mem_append.mp h with h | h
    · exact isSpace_of_mem_isoName htag h
    · exact hpart c h
  · exact isSpace_of_isDecimal (isDecimal_of_isDigit (isDigit_of_mem_zeroPad h))

theorem isPartName_partName (h : i < 1000) : isPartName tag (partName tag i) = true := by
  simp only [isPartName, partName, List.drop_left, length_zeroPad (w := 3) (by decide) h, beq_self_eq_true,
    List.isPrefixOf_iff_prefix, List.prefix_append, List.all_eq_true, Bool.and_eq_true, true_and]
  exact fun c hc => isDecimal_of_isDigit (isDigit_of_mem_zeroPad hc)

theorem partName_injective (tag : Text) : Function.Injective (partName tag) := fun _ _ h =>
  zeroPad_injective 3 (List.append_cancel_left h)

theorem partName_lt (hj : j < 1000) (h : i < j) : partName tag i < partName tag j :=
  List.Lex.append_left _ (zeroPad_lt_zeroPad (by decide) hj h) _

theorem take_checksumLine (data : Bytes) (name : Text) : (checksumLine data name).take 64 = sha256 data ∧
    (checksumLine data name).drop 64 = "  ".toList ++ name := by
  have hlen : (sha256 data).length = 64 := by
    have h := isSha256Text_sha256 data
    simp only [isSha256Text, Bool.and_eq_true, beq_iff_eq] at h
    exact h.1
  rw [checksumLine, List.append_assoc]
  exact ⟨List.take_left' hlen, List.drop_left' hlen⟩

/-- A line of the checksums is read as what it was written for. -/
theorem chunkEntry_checksumLine (h : isPartName tag name = true) :
    chunkEntry tag (checksumLine data ("./".toList ++ name)) = .ok (name, sha256 data) := by
  obtain ⟨htake, hdrop⟩ := take_checksumLine data ("./".toList ++ name)
  have hname : (checksumLine data ("./".toList ++ name)).drop 66 = "./".toList ++ name := by
    rw [← List.drop_drop (i := 2) (j := 64), hdrop]
    rfl
  have hremove : removePrefix "./".toList ("./".toList ++ name) = name := rfl
  have hspaces : "  ".toList.isPrefixOf ("  ".toList ++ ("./".toList ++ name)) = true := rfl
  simp only [chunkEntry, htake, hdrop, hname, hremove, hspaces, isSha256Text_sha256, h, Bool.and_self, if_true]

theorem isoEntry_eq_ok : isoEntry tag line = .ok (sha256 iso) ↔ line = checksumLine iso (isoName tag) := by
  constructor
  · intro h
    simp only [isoEntry] at h
    split at h
    case isTrue hc =>
      simp only [Bool.and_eq_true, beq_iff_eq] at hc
      rw [checksumLine, List.append_assoc, ← Except.ok.inj h, ← hc.2, List.take_append_drop]
    case isFalse => cases h
  · rintro rfl
    obtain ⟨htake, hdrop⟩ := take_checksumLine iso (isoName tag)
    simp only [isoEntry, htake, hdrop, isSha256Text_sha256, beq_self_eq_true, Bool.and_self, if_true]

theorem isLineEnd_checksumLine (h : ∀ c ∈ name, isSpace c = false) :
    ∀ c ∈ checksumLine data name, isLineEnd c = false := by
  have hspaces : ∀ c ∈ "  ".toList, isLineEnd c = false := forall_mem_of_all (by decide)
  intro c hc
  rcases List.mem_append.mp hc with hc | hc
  · rcases List.mem_append.mp hc with hc | hc
    · exact isLineEnd_of_isSpace (isSpace_of_isSha256Text (isSha256Text_sha256 data) c hc)
    · exact hspaces c hc
  · exact isLineEnd_of_isSpace (h c hc)

theorem strip_checksumLine (h : ∀ c ∈ name, isSpace c = false) (hne : name ≠ []) :
    strip (checksumLine data name ++ ['\n']) = checksumLine data name := by
  have hsum : sha256 data ≠ [] := by
    intro hnil
    have htext := isSha256Text_sha256 data
    rw [hnil] at htext
    cases htext
  refine strip_append_newline (fun c hc => ?_) fun c hc => ?_
  · rw [checksumLine, List.append_assoc, head?_append hsum] at hc
    exact isSpace_of_isSha256Text (isSha256Text_sha256 data) c (List.mem_of_mem_head? hc)
  · rw [checksumLine, List.getLast?_append_of_ne_nil _ hne] at hc
    exact h c (List.mem_of_mem_getLast? hc)

/-! ## What was cut is put together -/

variable {size : Nat} {audit : Text} {info : BuildInfo} {parts : List Bytes}

/-- The parts under their names. -/
def namedParts (tag : Text) (parts : List Bytes) : List (Text × Bytes) :=
  parts.mapIdx fun index data => (partName tag index, data)

def listedParts (tag : Text) (parts : List Bytes) : List (Text × Text) :=
  (namedParts tag parts).map fun p => (p.1, sha256 p.2)

@[simp] theorem length_namedParts : (namedParts tag parts).length = parts.length := List.length_mapIdx

theorem names_namedParts : (namedParts tag parts).map Prod.fst = (List.range parts.length).map (partName tag) := by
  refine List.ext_getElem (by simp) fun i hi hi' => ?_
  simp [namedParts]

theorem isPartName_of_mem (hlen : parts.length ≤ 1000) {p : Text × Bytes} (h : p ∈ namedParts tag parts) :
    isPartName tag p.1 = true ∧ ∃ i, p.1 = partName tag i := by
  have hname : p.1 ∈ (namedParts tag parts).map Prod.fst := List.mem_map_of_mem h
  rw [names_namedParts, List.mem_map] at hname
  obtain ⟨i, hi, hp⟩ := hname
  rw [List.mem_range] at hi
  exact ⟨hp ▸ isPartName_partName (by omega), i, hp.symm⟩

/-- The parts are in the order of their names. -/
theorem pairwise_namedParts (hlen : parts.length ≤ 1000) :
    (namedParts tag parts).Pairwise fun p q => p.1 < q.1 := by
  refine List.pairwise_iff_getElem.mpr fun i j _ hj hij => ?_
  rw [length_namedParts] at hj
  simp only [namedParts, List.getElem_mapIdx]
  exact partName_lt (by omega) hij

theorem mergeSort_namedParts (hlen : parts.length ≤ 1000) :
    (namedParts tag parts).mergeSort (fun p q => p.1 ≤ q.1) = namedParts tag parts := by
  refine List.mergeSort_of_pairwise ((pairwise_namedParts hlen).imp fun hlt => ?_)
  exact decide_eq_true hlt.le

theorem mergeSort_listedParts (hlen : parts.length ≤ 1000) :
    (listedParts tag parts).mergeSort entryLe = listedParts tag parts := by
  refine List.mergeSort_of_pairwise (List.pairwise_map.mpr ((pairwise_namedParts hlen).imp fun hlt => ?_))
  simp [entryLe, hlt]

theorem lookup_of_mem {l : List (Text × Bytes)} {p : Text × Bytes} (hnodup : (l.map Prod.fst).Nodup)
    (h : p ∈ l) : l.lookup p.1 = some p.2 := by
  induction l with
  | nil => cases h
  | cons q l ih =>
    rw [List.map_cons, List.nodup_cons] at hnodup
    rcases List.mem_cons.mp h with rfl | h
    · exact List.lookup_cons_self
    · have hne : (p.1 == q.1) = false := by
        rw [beq_eq_false_iff_ne]
        exact fun heq => hnodup.1 (heq ▸ List.mem_map_of_mem h)
      rw [List.lookup_cons, hne, ih hnodup.2 h]

/-- The lines of `SHA256SUMS` -/
def sumLines (tag : Text) (parts : List Bytes) : List Text :=
  (namedParts tag parts).map fun p => checksumLine p.2 ("./".toList ++ p.1)

theorem sumParts_namedParts (hlen : parts.length ≤ 1000) :
    sumParts (namedParts tag parts) = (sumLines tag parts).flatMap fun l => l ++ ['\n'] := by
  rw [sumParts, mergeSort_namedParts hlen, sumLines, List.flatMap_map]

theorem isLineEnd_sumLines (htag : matchesTag isDecimal tag = true) (hlen : parts.length ≤ 1000) :
    ∀ l ∈ sumLines tag parts, ∀ c ∈ l, isLineEnd c = false := by
  intro l hl
  obtain ⟨p, hp, rfl⟩ := List.mem_map.mp hl
  obtain ⟨-, i, hname⟩ := isPartName_of_mem hlen hp
  have hdot : ∀ c ∈ "./".toList, isSpace c = false := forall_mem_of_all (by decide)
  refine isLineEnd_checksumLine fun c hc => ?_
  rcases List.mem_append.mp hc with hc | hc
  · exact hdot c hc
  · exact isSpace_of_mem_partName htag (hname ▸ hc)

theorem mapM_sumLines (hlen : parts.length ≤ 1000) :
    (sumLines tag parts).mapM (chunkEntry tag) = .ok (listedParts tag parts) := by
  have hentry : ∀ p ∈ namedParts tag parts,
      (chunkEntry tag ∘ fun p => checksumLine p.2 ("./".toList ++ p.1)) p = .ok (p.1, sha256 p.2) := by
    intro p hp
    rw [Function.comp_apply, chunkEntry_checksumLine (isPartName_of_mem hlen hp).1]
  rw [sumLines, List.mapM_map, listedParts, Except.mapM_eq_ok hentry]

/-- What is read of a text file is its text, with line ends of one kind. -/
theorem readTextFile_utf8 (h : source name = some (utf8 text)) :
    readTextFile source name = .ok (universalNewlines text) := by
  rw [readTextFile, readFile_eq_ok.mpr h, Except.ok_bind, readText_utf8]

/-- A directory with the parts, their checksums and a log that passed can be assembled. -/
theorem assembled_of_cut (htag : matchesTag isDecimal tag = true) (hlen : parts.length ≤ 1000)
    (hpos : 0 < parts.flatten.length) (hbound : parts.flatten.length < 10000000000)
    (hpassed : grepLine auditMarker audit = true)
    (hparts : ∀ p ∈ namedParts tag parts, source p.1 = some p.2)
    (hsums : source sumsName = some (utf8 (sumParts (namedParts tag parts))))
    (hwhole : source checksumName = some (utf8 (checksumLine parts.flatten (isoName tag) ++ ['\n'])))
    (hinfo : (source buildInfoName).isSome) (haudit : source auditName = some (utf8 audit)) :
    Assembled tag source (listedParts tag parts) parts where
  accepted := htag
  passed := by
    refine ⟨_, readTextFile_utf8 haudit, mem_splitlines_universalNewlines ?_ ?_ (by simpa [grepLine] using hpassed)⟩
    · exact forall_mem_of_all (by decide +kernel)
    · decide
  sums := by
    have hlines := isLineEnd_sumLines htag hlen
    refine ⟨_, readTextFile_utf8 hsums, ?_⟩
    rw [sumParts_namedParts hlen, universalNewlines_flatMap hlines, splitlines_flatMap hlines,
      mapM_sumLines hlen]
  names := by
    have hne : parts ≠ [] := by
      rintro rfl
      exact absurd hpos (Nat.lt_irrefl 0)
    rw [mergeSort_listedParts hlen, listedParts, List.map_map, List.length_map, length_namedParts]
    refine ⟨fun hnil => hne ?_, names_namedParts⟩
    rw [List.map_eq_nil_iff, ← List.length_eq_zero_iff, length_namedParts] at hnil
    exact List.length_eq_zero_iff.mp hnil
  copied := by
    rw [mergeSort_listedParts hlen, List.forall₂_iff_get]
    refine ⟨by simp [listedParts], fun i hi hi' => ?_⟩
    have hmem : (partName tag i, parts[i]) ∈ namedParts tag parts :=
      List.mem_iff_getElem.mpr ⟨i, by simpa using hi', by simp [namedParts]⟩
    simpa [listedParts, namedParts, IsPart] using hparts _ hmem
  whole := by
    have hname : ∀ c ∈ isoName tag, isSpace c = false := fun c hc => isSpace_of_mem_isoName htag hc
    have hline : universalNewlines (checksumLine parts.flatten (isoName tag) ++ ['\n']) =
        checksumLine parts.flatten (isoName tag) ++ ['\n'] := by
      have hlines := @universalNewlines_flatMap [checksumLine parts.flatten (isoName tag)]
        (by simpa using isLineEnd_checksumLine hname)
      simpa using hlines
    refine ⟨_, readTextFile_utf8 hwhole, isoEntry_eq_ok.mpr ?_⟩
    rw [hline, strip_checksumLine hname (List.cons_ne_nil _ _)]
  size := ⟨hpos, hbound⟩
  metadata := by
    intro name hname
    simp only [metadataNames, List.mem_cons, List.not_mem_nil, or_false] at hname
    rcases hname with rfl | rfl | rfl
    · exact Option.isSome_of_eq_some hwhole
    · exact hinfo
    · exact Option.isSome_of_eq_some haudit

/-- The log has both markers, and the ISO is not empty, not too large and cut into few parts. -/
structure Publishable (size : Nat) (tag : Text) (iso : Bytes) (audit : Text) : Prop where
  accepted : matchesTag isDecimal tag = true
  passed : grepLine auditMarker audit = true
  candidate : grepLine candidateMarker audit = true
  nonempty : 0 < iso.length
  bound : iso.length < 10000000000
  positive : 0 < size
  few : (chunks size iso).length ≤ 1000

/-- The files that are published. -/
def publishedFiles (size : Nat) (tag : Text) (iso : Bytes) (audit : Text) (info : BuildInfo) :
    List (Text × Bytes) :=
  let parts := namedParts tag (chunks size iso)
  parts ++ [(sumsName, utf8 (sumParts parts)),
    (checksumName, utf8 (checksumLine iso (isoName tag) ++ ['\n'])),
    (buildInfoName, utf8 (info.text tag)), (auditName, utf8 audit)]

theorem prepareAssets_eq_ok (h : Publishable size tag iso audit) :
    prepareAssets size tag iso audit info = .ok (publishedFiles size tag iso audit info) := by
  have hsplit : splitParts size tag iso = .ok (namedParts tag (chunks size iso)) := by
    have hsize := h.positive
    have hfew := h.few
    rw [splitParts, if_neg (by omega), if_neg (by omega), namedParts]
  simp only [prepareAssets, h.passed, h.candidate, h.nonempty, h.bound, hsplit, decide_true, Bool.and_self,
    Bool.not_true, Bool.false_eq_true, if_false]
  rfl

/-- What else is published is not under the name of a part. -/
theorem lookup_publishedFiles (h : name.head? ≠ some 'a') :
    (publishedFiles size tag iso audit info).lookup name =
      [(sumsName, utf8 (sumParts (namedParts tag (chunks size iso)))),
        (checksumName, utf8 (checksumLine iso (isoName tag) ++ ['\n'])),
        (buildInfoName, utf8 (info.text tag)), (auditName, utf8 audit)].lookup name := by
  have hnone : (namedParts tag (chunks size iso)).lookup name = none := by
    refine List.lookup_eq_none_iff.mpr fun p hp => ?_
    have hname : p.1 ∈ (namedParts tag (chunks size iso)).map Prod.fst := List.mem_map_of_mem hp
    rw [names_namedParts, List.mem_map] at hname
    obtain ⟨i, -, hp⟩ := hname
    rw [bne_iff_ne, ← hp]
    rintro rfl
    exact h rfl
  simp only [publishedFiles, List.lookup_append, hnone, Option.none_or]

theorem assembled_publishedFiles (h : Publishable size tag iso audit) :
    Assembled tag ((publishedFiles size tag iso audit info).lookup ·)
      (listedParts tag (chunks size iso)) (chunks size iso) := by
  have hflatten : (chunks size iso).flatten = iso := flatten_chunks h.positive iso
  have hnodup : ((namedParts tag (chunks size iso)).map Prod.fst).Nodup := by
    rw [names_namedParts]
    exact List.nodup_range.map (partName_injective tag)
  refine assembled_of_cut h.accepted h.few (by rw [hflatten]; exact h.nonempty) (by rw [hflatten]; exact h.bound)
    h.passed (fun p hp => ?_) ?_ ?_ ?_ ?_
  · simp only [publishedFiles, List.lookup_append, lookup_of_mem hnodup hp, Option.some_or]
  · exact lookup_publishedFiles (by decide)
  · rw [hflatten]
    exact lookup_publishedFiles (by decide)
  · rw [lookup_publishedFiles (by decide)]
    rfl
  · exact lookup_publishedFiles (by decide)

/-! ## What is put together is what is listed -/

variable {listed : List (Text × Text)} {lines : List Text}

/-- The line is for the name and the checksum of the entry. -/
def IsLineOf (tag line : Text) (entry : Text × Text) : Prop :=
  isSha256Text entry.2 = true ∧ isPartName tag entry.1 = true ∧
    (line = entry.2 ++ "  ".toList ++ entry.1 ∨ line = entry.2 ++ "  ./".toList ++ entry.1)

/-- Whatever `SHA256SUMS` lists is a part from 0 on, each is listed once, each has the checksum that
is listed for it, and the ISO is made of them in order and has the checksum of the whole. -/
structure Verified (tag : Text) (source output : Files) (listed : List (Text × Text)) (parts : List Bytes) :
    Prop where
  lines : ∃ sums, readTextFile source sumsName = .ok sums ∧
    List.Forall₂ (IsLineOf tag) (splitlines sums) listed
  nonempty : parts ≠ []
  once : (listed.map Prod.fst).Perm ((List.range parts.length).map (partName tag)) ∧
    (listed.map Prod.fst).Nodup
  checked : ∀ entry ∈ listed, ∃ data, source entry.1 = some data ∧ sha256 data = entry.2
  order : ∀ (i : Nat) (h : i < parts.length), source (partName tag i) = some parts[i]
  whole : ∃ expected, readTextFile source checksumName = .ok expected ∧
    strip expected = checksumLine parts.flatten (isoName tag)
  iso : output (isoName tag) = some parts.flatten

theorem isLineOf_of_chunkEntry (h : chunkEntry tag line = .ok entry) : IsLineOf tag line entry := by
  simp only [chunkEntry] at h
  split at h
  case isFalse => cases h
  case isTrue hc =>
    simp only [Bool.and_eq_true, List.isPrefixOf_iff_prefix] at hc
    obtain ⟨⟨hsum, rest, hrest⟩, hname⟩ := hc
    obtain rfl := Except.ok.inj h
    have hdrop : line.drop 66 = rest := by
      rw [← List.drop_drop (i := 2) (j := 64), ← hrest]
      rfl
    have hline : line = line.take 64 ++ ("  ".toList ++ rest) := by
      rw [hrest, List.take_append_drop]
    refine ⟨hsum, hname, ?_⟩
    simp only [removePrefix, hdrop]
    split
    case isTrue hdot =>
      obtain ⟨name, hname⟩ := List.isPrefixOf_iff_prefix.mp hdot
      have hlen : rest.drop "./".toList.length = name := by
        rw [← hname]
        rfl
      refine .inr (hline.trans ?_)
      rw [hlen, ← hname, List.append_assoc]
      rfl
    case isFalse =>
      refine .inl ?_
      rw [List.append_assoc]
      exact hline

/-- The ISO is not overwritten by what is copied. -/
theorem assembledFiles_iso : assembledFiles tag source iso (isoName tag) = some iso := by
  have hname : metadataNames.contains (isoName tag) = false := by
    have hhead : ∀ name ∈ metadataNames, name.head? ≠ some 'a' := by decide
    rw [List.contains_eq_mem, decide_eq_false_iff_not]
    exact fun hmem => hhead _ hmem rfl
  rw [assembledFiles, hname, if_neg Bool.false_ne_true, Files.with_self]

theorem Assembled.verified (h : Assembled tag source listed parts) :
    Verified tag source (assembledFiles tag source parts.flatten) listed parts := by
  have hsorted := List.mergeSort_perm listed entryLe
  have hlength : listed.length = parts.length := by
    rw [← h.copied.length_eq, List.length_mergeSort]
  have hperm : (listed.map Prod.fst).Perm ((List.range parts.length).map (partName tag)) := by
    rw [← hlength, ← h.names.2]
    exact (hsorted.map Prod.fst).symm
  have hpart : ∀ (i : Nat) (hi : i < (listed.mergeSort entryLe).length) (hi' : i < parts.length),
      IsPart source (listed.mergeSort entryLe)[i] parts[i] := (List.forall₂_iff_get.mp h.copied).2
  refine ⟨?_, ?_, ⟨hperm, hperm.nodup_iff.mpr (List.nodup_range.map (partName_injective tag))⟩, fun entry he => ?_,
    fun i hi => ?_, ?_, assembledFiles_iso⟩
  · obtain ⟨sums, hread, hlisted⟩ := h.sums
    exact ⟨sums, hread, (Except.mapM_eq_ok_iff.mp hlisted).imp fun _ _ => isLineOf_of_chunkEntry⟩
  · rintro rfl
    exact h.names.1 (List.length_eq_zero_iff.mp hlength)
  · obtain ⟨i, hi, rfl⟩ := List.mem_iff_getElem.mp (hsorted.mem_iff.mpr he)
    have hi' : i < parts.length := by rwa [List.length_mergeSort, hlength] at hi
    exact ⟨parts[i], hpart i hi hi'⟩
  · have hi' : i < (listed.mergeSort entryLe).length := by rwa [List.length_mergeSort, hlength]
    have hname : (listed.mergeSort entryLe)[i].1 = partName tag i := by
      have hget := congrArg (fun names => names[i]?) h.names.2
      simpa [hi', hlength, hi] using hget
    rw [← hname]
    exact (hpart i hi' hi).1
  · obtain ⟨expected, hread, hentry⟩ := h.whole
    exact ⟨expected, hread, isoEntry_eq_ok.mp hentry⟩

/-- **Assembling is the inverse of cutting.** What is published of an ISO is assembled to that ISO;
and whatever is assembled from a directory is what its checksums list. -/
theorem assemble_inverse :
    (∀ size tag iso audit info, Publishable size tag iso audit → ∃ files output,
      prepareAssets size tag iso audit info = .ok files ∧
        assemble tag (files.lookup ·) none = (.ok (), some output) ∧ output (isoName tag) = some iso) ∧
    ∀ tag source start final, assemble tag source start = (.ok (), final) →
      ∃ output listed parts, final = some output ∧ Verified tag source output listed parts := by
  refine ⟨fun size tag iso audit info h => ?_, fun tag source start final h => ?_⟩
  · refine ⟨_, _, prepareAssets_eq_ok h, assemble_eq_ok.mpr ⟨rfl, _, _, assembled_publishedFiles h, rfl⟩, ?_⟩
    rw [assembledFiles_iso, flatten_chunks h.positive]
  · obtain ⟨-, listed, parts, hassembled, rfl⟩ := assemble_eq_ok.mp h
    exact ⟨_, listed, parts, rfl, hassembled.verified⟩

/-- An ISO of three bytes, cut after two. -/
theorem assemble_inverse_three : ∃ files output listed parts,
    prepareAssets 2 "v0.0.1-alpha".toList [1, 2, 3]
      (auditMarker ++ ['\n'] ++ candidateMarker ++ ['\n']) ⟨[], [], [], []⟩ = .ok files ∧
    output (isoName "v0.0.1-alpha".toList) = some [1, 2, 3] ∧
    Verified "v0.0.1-alpha".toList (files.lookup ·) output listed parts := by
  obtain ⟨files, output, hfiles, hrun, hiso⟩ := assemble_inverse.1 2 "v0.0.1-alpha".toList [1, 2, 3]
    (auditMarker ++ ['\n'] ++ candidateMarker ++ ['\n']) ⟨[], [], [], []⟩
    ⟨by decide +kernel, by decide +kernel, by decide +kernel, by decide, by decide, by decide, by decide⟩
  obtain ⟨_, listed, parts, hfinal, hverified⟩ := assemble_inverse.2 _ _ _ _ hrun
  obtain rfl := Option.some.inj hfinal
  exact ⟨files, output, listed, parts, hfiles, hiso, hverified⟩

end Azurefin
