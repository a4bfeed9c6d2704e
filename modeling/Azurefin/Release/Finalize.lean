import Azurefin.Lib.Calls
import Azurefin.Lib.TextFile
import Azurefin.Release.Tag

/-!
# Finalizing a release

`finalize_iso_release.py`: the notes of a release get the link to the full ISO, and then the
temporary assets are deleted. Both need that the assets are the expected ones and that the mirror has
the ISO, whatever is answered and wherever the run dies: `finalize_justified`.
-/

namespace Azurefin

open Calls

/-! ## Assets -/

/-- `azurefin-{tag}-aarch64.iso` -/
def isoName (tag : Text) : Text := "azurefin-".toList ++ tag ++ "-aarch64.iso".toList

def checksumName : Text := "ISO-SHA256SUM".toList

/-- `azurefin-{tag}-aarch64\.iso\.part-\d{3}` -/
def isPartName (tag name : Text) : Bool :=
  let stem := isoName tag ++ ".part-".toList
  stem.isPrefixOf name && (name.drop stem.length).length == 3 && (name.drop stem.length).all isDecimal

def isTemporary (tag name : Text) : Bool :=
  ["SHA256SUMS".toList, "BUILD-INFO.txt".toList, "iso-audit.log".toList].contains name ||
    isPartName tag name

/-- `asset['name']` -/
def assetName (asset : Json) : Except PyError Json := asset.item "name".toList

/-- `asset['id']` -/
def assetId (asset : Json) : Except PyError Json := asset.item "id".toList

def removableAssets (tag : Text) : List Json → Except PyError (List Json)
  | [] => .ok []
  | asset :: rest => do
    match ← assetName asset with
    | .str name =>
      if name = checksumName then removableAssets tag rest
      else if !isTemporary tag name then
        .error (.valueError ("Refusing to delete unexpected release asset: " ++ String.ofList name))
      else .ok (asset :: (← removableAssets tag rest))
    | _ => .error .typeError -- a pattern matches text only

/-- `[a for a in assets if a['name'] == 'ISO-SHA256SUM']` -/
def checksumAssets : List Json → Except PyError (List Json)
  | [] => .ok []
  | asset :: rest => do
    let name ← assetName asset
    let others ← checksumAssets rest
    .ok (if name.eq (.str checksumName) then asset :: others else others)

def onlyAsset : List Json → Except PyError Json
  | [asset] => .ok asset
  | _ => .error (.valueError "Expected exactly one ISO-SHA256SUM asset")

/-- `[a-f0-9]{64}  azurefin-{tag}-aarch64\.iso\n?` -/
def isChecksumText (tag checksum : Text) : Bool :=
  isSha256Text (checksum.take 64) &&
    (checksum.drop 64 == "  ".toList ++ isoName tag ||
      checksum.drop 64 == "  ".toList ++ isoName tag ++ ['\n'])

/-! ## Response headers -/

/-- The length of `\n\s*\n` at the start of the text; 0 where it does not match. -/
def gapLength : Text → Nat
  | '\n' :: t => match ((t.takeWhile isSpace).rdropWhile (· ≠ '\n')).length with
    | 0 => 0
    | n + 1 => n + 2
  | _ => 0

/-- `re.split(r'\n\s*\n', text)`, with the length of a match that is being skipped and the part that
is being read, in reverse. -/
def splitBlocksFrom : Nat → Text → Text → List Text
  | _, block, [] => [block.reverse]
  | skip + 1, block, _ :: t => splitBlocksFrom skip block t
  | 0, block, c :: t =>
    match gapLength (c :: t) with
    | 0 => splitBlocksFrom 0 (c :: block) t
    | skip + 1 => block.reverse :: splitBlocksFrom skip [] t

def splitBlocks (t : Text) : List Text := splitBlocksFrom 0 [] t

/-- The last block of headers, after all redirects. -/
def finalHeaders (headers : Text) : Text :=
  lower ((splitBlocks (strip (joinLineEnds headers))).getLast?.getD [])

/-- `http/\S+ 200(?:\s|$)` at the start -/
def isSuccess (headers : Text) : Bool :=
  let version := (headers.drop 5).takeWhile fun c => !isSpace c
  let status := (headers.drop 5).dropWhile fun c => !isSpace c
  "http/".toList.isPrefixOf headers && !version.isEmpty && " 200".toList.isPrefixOf status &&
    match status.drop 4 with
    | [] => true
    | c :: _ => isSpace c

/-- `^content-length: [1-9][0-9]*\s*$` for one line -/
def isLengthLine (line : Text) : Bool :=
  "content-length: ".toList.isPrefixOf line &&
    match line.drop 16 with
    | [] => false
    | c :: t => c.isDigit && c != '0' && (t.dropWhile Char.isDigit).all isSpace

/-- The full ISO can be downloaded. -/
def isoReady (headers : Text) : Bool :=
  isSuccess headers && !Words.contains "text/html".toList headers &&
    (headers.splitOn '\n').any isLengthLine

/-! ## The program -/

/-- The requests. An id stands for the text it has in the path. -/
inductive FinalizeCall where
  | viewRelease (repo tag : Text)
  | downloadAsset (repo : Text) (id : Json)
  | fetch (url : Text)
  | fetchHead (url : Text)
  | editNotes (tag repo notes : Text)
  | deleteAsset (repo : Text) (id : Json)

/-- Edits and deletions. -/
def FinalizeCall.mutates : FinalizeCall → Bool
  | .editNotes .. | .deleteAsset .. => true
  | _ => false

/-- `[A-Za-z0-9_.-]+/[A-Za-z0-9_.-]+` -/
def isRepository (repo : Text) : Bool :=
  match repo.splitOn '/' with
  | [owner, name] => [owner, name].all fun part => !part.isEmpty &&
      part.all fun c => c.isAlphanum || c == '_' || c == '.' || c == '-'
  | _ => false

/-- `[a-z0-9][a-z0-9-]*` -/
def isProject (project : Text) : Bool :=
  project.all (fun c => c.isLower || c.isDigit || c == '-') && !project.isEmpty &&
    project.head? != some '-'

def downloadBase (project tag : Text) : Text :=
  "https://downloads.sourceforge.net/project/".toList ++ project ++ '/' :: tag

def isoUrl (project tag : Text) : Text := downloadBase project tag ++ '/' :: isoName tag

def prebuiltMarker : Text := "<!-- azurefin:prebuilt-tested-iso -->".toList

/-- The link, and how to verify what is behind it. -/
def downloadNotes (project tag : Text) : Text :=
  "[Download the ARM64 live ISO](".toList ++ isoUrl project tag ++ ")\n\n".toList ++
    "Download the attached `ISO-SHA256SUM` and verify with ".toList ++
    "`sha256sum -c ISO-SHA256SUM` before flashing.\n".toList

def finalNotes (project tag : Text) (prebuilt : Bool) : Text :=
  downloadNotes project tag ++ if prebuilt then '\n' :: prebuiltMarker ++ ['\n'] else []

variable {σ : Type}

/-- `main` from `finalize_iso_release.py` -/
def finalizeMain (loads : Text → Except PyError Json)
    (env : Calls.Environment σ FinalizeCall (fun _ => Text) PyError) (repo tag project : Text) :
    Act (Calls.Session σ FinalizeCall (fun _ => Text) PyError) PyError Unit := do
  Act.require (isRepository repo) (.valueError "Invalid repository")
  Act.ofExcept (checkFinalizeTag tag)
  Act.require (isProject project) (.valueError "Invalid SourceForge project")
  let document ← call env (.viewRelease repo tag)
  let release ← Act.ofExcept (loads document)
  let assets ← Act.ofExcept (do (← release.item "assets".toList).elements)
  let remove ← Act.ofExcept (removableAssets tag assets)
  let asset ← Act.ofExcept (do onlyAsset (← checksumAssets assets))
  let id ← Act.ofExcept (assetId asset)
  let checksum ← call env (.downloadAsset repo id)
  Act.require (isChecksumText tag checksum) (.valueError "Invalid ISO checksum")
  let mirrored ← call env (.fetch (downloadBase project tag ++ '/' :: checksumName))
  Act.require (strip mirrored == strip checksum)
    (.valueError "SourceForge checksum does not match GitHub release")
  let headers ← call env (.fetchHead (isoUrl project tag))
  -- reject an HTML landing or error page masquerading as a successful download
  Act.require (isoReady (finalHeaders headers))
    (.valueError "Full ISO download is not ready; retaining all GitHub assets")
  let prebuilt ← Act.ofExcept (do (← release.getD "body".toList (.str [])).has prebuiltMarker)
  let _ ← call env (.editNotes tag repo (finalNotes project tag prebuilt))
  remove.forM fun asset => do
    let id ← Act.ofExcept (assetId asset)
    let _ ← call env (.deleteAsset repo id)
    pure ()

/-! ## What the assets are -/

/-- The asset that is kept. -/
def isChecksumAsset (asset : Json) : Bool :=
  match assetName asset with
  | .ok (.str name) => name == checksumName
  | _ => false

/-- The checksum, or an asset that is there for the assembly only. -/
def Expected (tag : Text) (asset : Json) : Prop :=
  ∃ name, assetName asset = .ok (.str name) ∧
    (name = checksumName ∨ isTemporary tag name = true)

def Temporary (tag : Text) (asset : Json) : Prop :=
  ∃ name, assetName asset = .ok (.str name) ∧ isTemporary tag name = true

variable {tag name : Text} {asset : Json} {assets remove checksums : List Json}

/-- The checksum is not a temporary asset. -/
theorem isTemporary_checksumName : isTemporary tag checksumName = false := by
  have hpart : isPartName tag checksumName = false := by
    rw [Bool.eq_false_iff]
    intro h
    simp only [isPartName, Bool.and_eq_true] at h
    obtain ⟨rest, hname⟩ := List.isPrefixOf_iff_prefix.mp h.1.1
    have hfirst : some 'a' = some 'I' := congrArg List.head? hname
    cases hfirst
  simp only [isTemporary, hpart, Bool.or_false]
  decide +kernel

theorem removableAssets_eq_ok : removableAssets tag assets = .ok remove ↔
    (∀ asset ∈ assets, Expected tag asset) ∧ remove = assets.filter fun a => !isChecksumAsset a := by
  induction assets generalizing remove with
  | nil => simp [removableAssets, eq_comm]
  | cons asset rest ih =>
    simp only [removableAssets, Except.bind_eq_ok, List.forall_mem_cons, List.filter_cons]
    cases hname : assetName asset with
    | error e =>
      refine iff_of_false (by simp) fun h => ?_
      obtain ⟨name, hok, -⟩ := h.1.1
      rw [hname] at hok
      cases hok
    | ok value =>
      simp only [Except.ok.injEq, exists_eq_left']
      cases value with
      | str name =>
        have hexpected : Expected tag asset ↔ name = checksumName ∨ isTemporary tag name = true := by
          simp [Expected, hname]
        have hchecksum : isChecksumAsset asset = (name == checksumName) := by
          simp [isChecksumAsset, hname]
        by_cases hsum : name = checksumName
        · simp [hsum, hexpected, hchecksum, ih]
        · cases htemporary : isTemporary tag name with
          | false => simp [hsum, hexpected, htemporary]
          | true =>
            simp only [hsum, hexpected, hchecksum, htemporary, Except.bind_eq_ok, ih, if_false, or_true,
              true_and, Bool.not_true, Bool.false_eq_true, beq_eq_false_iff_ne.mpr hsum, Bool.not_false,
              if_true, Except.ok.injEq]
            constructor
            · rintro ⟨others, ⟨hall, rfl⟩, rfl⟩
              exact ⟨hall, rfl⟩
            · rintro ⟨hall, rfl⟩
              exact ⟨_, ⟨hall, rfl⟩, rfl⟩
      | _ => simp [Expected, hname]

theorem checksumAssets_eq_ok (h : ∀ asset ∈ assets, Expected tag asset) :
    checksumAssets assets = .ok (assets.filter isChecksumAsset) := by
  induction assets with
  | nil => rfl
  | cons asset rest ih =>
    obtain ⟨⟨name, hname, -⟩, hrest⟩ := List.forall_mem_cons.mp h
    have hchecksum : isChecksumAsset asset = (Json.str name).eq (.str checksumName) := by
      simp [isChecksumAsset, hname, Json.eq]
    simp only [checksumAssets, hname, Except.ok_bind, ih hrest, List.filter_cons, hchecksum]

theorem onlyAsset_eq_ok : onlyAsset checksums = .ok asset ↔ checksums = [asset] := by
  unfold onlyAsset
  split <;> simp_all

/-! ## What an edit and a deletion need -/

abbrev FinalizeEvent (σ : Type) := Calls.Event σ FinalizeCall (fun _ => Text) PyError

/-- What has been found out before the notes are edited. -/
structure Grounds (loads : Text → Except PyError Json) (repo tag project : Text)
    (seen : List (FinalizeEvent σ)) (assets : List Json) (kept : Json) : Prop where
  listed : ∃ document release value, Answered (.viewRelease repo tag) document seen ∧
    loads document = .ok release ∧ release.item "assets".toList = .ok value ∧ value.elements = .ok assets
  expected : ∀ asset ∈ assets, Expected tag asset
  unique : assets.filter isChecksumAsset = [kept]
  checksum : ∃ id text mirrored, assetId kept = .ok id ∧
    Answered (.downloadAsset repo id) text seen ∧ isChecksumText tag text = true ∧
      Answered (.fetch (downloadBase project tag ++ '/' :: checksumName)) mirrored seen ∧
        strip mirrored = strip text
  ready : ∃ headers, Answered (.fetchHead (isoUrl project tag)) headers seen ∧
    isoReady (finalHeaders headers) = true

/-- What has been done before an asset is deleted, and which one it is. -/
structure DeletionGrounds (repo tag project : Text) (seen : List (FinalizeEvent σ)) (assets : List Json)
    (kept id : Json) : Prop where
  edited : ∃ prebuilt output, Answered (.editNotes tag repo (finalNotes project tag prebuilt)) output seen
  temporary : ∃ asset ∈ assets, Temporary tag asset ∧ assetId asset = .ok id
  /-- It is not the checksum, as no two assets have the same id. -/
  other : (∀ a ∈ assets, ∀ b ∈ assets, assetId a = assetId b → a = b) → assetId kept ≠ .ok id

/-- An edit or a deletion has its grounds. -/
def Justified (loads : Text → Except PyError Json) (repo tag project : Text)
    (seen : List (FinalizeEvent σ)) (event : FinalizeEvent σ) : Prop :=
  event.call.mutates = true → ∃ assets kept, Grounds loads repo tag project seen assets kept ∧
    ∀ repository id, event.call = .deleteAsset repository id →
      repository = repo ∧ DeletionGrounds repo tag project seen assets kept id

variable {loads : Text → Except PyError Json} {repo project : Text} {kept : Json}
  {env : Calls.Environment σ FinalizeCall (fun _ => Text) PyError} {seen : List (FinalizeEvent σ)}

theorem temporary_of_removable (hexpected : ∀ asset ∈ assets, Expected tag asset)
    (h : asset ∈ assets.filter fun a => !isChecksumAsset a) : asset ∈ assets ∧ Temporary tag asset := by
  obtain ⟨hmem, hnot⟩ := List.mem_filter.mp h
  obtain ⟨name, hname, hkind⟩ := hexpected asset hmem
  refine ⟨hmem, name, hname, hkind.resolve_left fun hsum => ?_⟩
  simp [isChecksumAsset, hname, hsum] at hnot

/-- A temporary asset is not the one that is kept. -/
theorem Grounds.ne_of_temporary (h : Grounds loads repo tag project seen assets kept)
    (htemporary : Temporary tag asset) : asset ≠ kept := by
  rintro rfl
  have hkept : asset ∈ assets.filter isChecksumAsset := by simp [h.unique]
  obtain ⟨name, hname, hkind⟩ := htemporary
  have hsum : name = checksumName := by simpa [isChecksumAsset, hname] using (List.mem_filter.mp hkept).2
  rw [hsum, isTemporary_checksumName] at hkind
  cases hkind

theorem Grounds.deletion {id : Json} (h : Grounds loads repo tag project seen assets kept)
    (hedited : ∃ prebuilt output,
      Answered (.editNotes tag repo (finalNotes project tag prebuilt)) output seen)
    (hmem : asset ∈ assets) (htemporary : Temporary tag asset) (hid : assetId asset = .ok id) :
    DeletionGrounds repo tag project seen assets kept id where
  edited := hedited
  temporary := ⟨asset, hmem, htemporary, hid⟩
  other hdistinct hsame := by
    have hkept : kept ∈ assets.filter isChecksumAsset := by simp [h.unique]
    refine h.ne_of_temporary htemporary (hdistinct asset hmem kept (List.mem_filter.mp hkept).1 ?_)
    rw [hid, hsame]

theorem Grounds.snoc (h : Grounds loads repo tag project seen assets kept) (event : FinalizeEvent σ) :
    Grounds loads repo tag project (seen ++ [event]) assets kept := by
  obtain ⟨⟨document, release, value, hview, hlisted⟩, hexpected, hunique, hchecksum, headers, hhead, hready⟩ := h
  obtain ⟨id, text, mirrored, hid, htext, hvalid, hmirrored, hsame⟩ := hchecksum
  exact ⟨⟨document, release, value, hview.snoc, hlisted⟩, hexpected, hunique,
    ⟨id, text, mirrored, hid, htext.snoc, hvalid, hmirrored.snoc, hsame⟩, headers, hhead.snoc, hready⟩

/-- The grounds, as facts that stay. -/
def Grounds.facts (loads : Text → Except PyError Json) (repo tag project : Text) (assets : List Json)
    (kept : Json) : Facts σ FinalizeCall (fun _ => Text) PyError where
  holds seen := Grounds loads repo tag project seen assets kept
  snoc _ event h := h.snoc event

/-- A call that changes nothing needs no grounds. -/
theorem holds_request {F : Facts σ FinalizeCall (fun _ => Text) PyError} {c : FinalizeCall} (hc : c.mutates = false) :
    Act.Holds (Records (Justified loads repo tag project) F) (call env c)
      (fun output => Records (Justified loads repo tag project) (F.answered c output))
      (fun _ s => Always (Justified loads repo tag project) s.log) :=
  holds_record fun _ _ hmutates => absurd hmutates (by simpa [Calls.Environment.event] using hc)

/-- The deletions, after the edit. -/
theorem holds_deletions {prebuilt : Bool} {output : Text} (hexpected : ∀ asset ∈ assets, Expected tag asset) :
    Act.Holds (Records (Justified loads repo tag project)
        ((Grounds.facts loads repo tag project assets kept).answered
          (.editNotes tag repo (finalNotes project tag prebuilt)) output))
      ((assets.filter fun a => !isChecksumAsset a).forM fun asset => do
        let id ← Act.ofExcept (assetId asset)
        let _ ← call env (.deleteAsset repo id)
        pure ())
      (fun _ s => Always (Justified loads repo tag project) s.log)
      (fun _ s => Always (Justified loads repo tag project) s.log) := by
  let R := Justified (σ := σ) loads repo tag project
  let F := (Grounds.facts (σ := σ) loads repo tag project assets kept).answered
    (.editNotes tag repo (finalNotes project tag prebuilt)) output
  let remove := assets.filter fun a => !isChecksumAsset a
  have hloop := Act.Holds.forM (E := fun _ s => Always R s.log)
    (I := fun rest s => (∀ asset ∈ rest, asset ∈ remove) ∧ Records R F s)
    (f := fun asset => do
      let id ← Act.ofExcept (assetId asset)
      let _ ← call env (.deleteAsset repo id)
      pure ()) ?_ remove
  · exact hloop.weaken (fun s hs => ⟨fun _ h => h, hs⟩) (fun _ _ h => h.2.always) (fun _ _ h => h)
  intro asset rest
  refine .assume fun hrest => ?_
  obtain ⟨hmem, htemporary⟩ := temporary_of_removable hexpected (hrest asset List.mem_cons_self)
  refine .bind holds_known fun id => .bind (holds_record ?_) fun _ => .pure fun s hs => ?_
  · rintro s ⟨⟨hgrounds, hedited⟩, hid⟩ -
    refine ⟨assets, kept, hgrounds, ?_⟩
    rintro repository id' hcall
    cases hcall
    exact ⟨rfl, hgrounds.deletion ⟨prebuilt, output, hedited⟩ hmem htemporary hid⟩
  · exact ⟨fun a ha => hrest a (List.mem_cons_of_mem _ ha), hs.always, hs.facts.1.1⟩

/-- **Nothing is edited or deleted without its grounds**, at any moment of any run. -/
theorem finalize_justified (loads : Text → Except PyError Json)
    (env : Calls.Environment σ FinalizeCall (fun _ => Text) PyError) (repo tag project : Text) (start : σ) :
    Always (Justified loads repo tag project)
      (finalizeMain loads env repo tag project ⟨start, []⟩).2.log := by
  refine Act.Holds.final (I := fun s => Always (Justified loads repo tag project) s.log)
    (P := Records (Justified loads repo tag project) .nothing) ?_ ⟨always_nil, trivial⟩
  refine .bind holds_check fun _ => .bind holds_known fun _ => .bind holds_check fun _ => ?_
  refine .bind (holds_request rfl) fun document => .bind holds_known fun release => ?_
  refine .bind holds_known fun assets => .bind holds_known fun remove => ?_
  refine .of_pre (fun s hs => removableAssets_eq_ok.mp hs.facts.2) ?_
  rintro ⟨hexpected, rfl⟩
  refine .bind holds_known fun kept => .bind holds_known fun id => ?_
  refine .bind (holds_request rfl) fun checksum => .bind holds_check fun _ => ?_
  refine .bind (holds_request rfl) fun mirrored => .bind holds_check fun _ => ?_
  refine .bind (holds_request rfl) fun headers => .bind holds_check fun _ => ?_
  refine .bind holds_known fun prebuilt => ?_
  -- the record so far has all the grounds
  refine .weaken (P := Records (Justified loads repo tag project)
    (Grounds.facts loads repo tag project assets kept)) ?_ ?_ (fun _ _ h => h) (fun _ _ h => h)
  · refine .bind (holds_record fun s hgrounds _ => ?_) fun output => holds_deletions hexpected
    refine ⟨assets, kept, hgrounds, fun repository id hcall => ?_⟩
    cases hcall
  · rintro s ⟨halways, ⟨⟨⟨⟨⟨⟨⟨hfacts, hid⟩, htext⟩, hvalid⟩, hmirrored⟩, hsame⟩, hheaders⟩, hready⟩, -⟩
    obtain ⟨⟨⟨⟨⟨-, hdocument⟩, hloads⟩, hassets⟩, -⟩, hkept⟩ := hfacts
    obtain ⟨value, hvalue, helements⟩ := Except.bind_eq_ok.mp hassets
    rw [checksumAssets_eq_ok hexpected, Except.ok_bind, onlyAsset_eq_ok] at hkept
    refine ⟨halways, ⟨document, release, value, hdocument, hloads, hvalue, helements⟩, hexpected, hkept,
      ⟨id, checksum, mirrored, hid, htext, hvalid, hmirrored, by simpa using hsame⟩, headers, hheaders, hready⟩

end Azurefin
