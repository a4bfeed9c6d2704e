import Azurefin.Release.AuditModes
import Mathlib.Logic.Relation

/-!
# The layers that an audit of an image layout covers

A document that lists manifests is left before its own layers are read. Every other document that
can be reached from the index has all its layers audited, and its labels: `auditOci_complete_iff`.
-/

namespace Azurefin

variable {formats : Formats} {depth : Nat} {root : OciLayout} {hashes checked checked' : List Text}
  {descriptor : Json} {digest : Text} {data : Bytes}

/-! ## What is reachable, and what an audited layer is -/

/-- The descriptor names a blob of the layout by its digest. -/
def Names (root : OciLayout) (descriptor : Json) (data : Bytes) : Prop :=
  ∃ value, descriptor.item "digest".toList = .ok (.str ("sha256:".toList ++ value)) ∧
    root.blob value = some data

/-- A descriptor in the `manifests` list of one document names the other. -/
def Child (formats : Formats) (root : OciLayout) (document child : Json) : Prop :=
  ∃ descriptors descriptor data, document.item "manifests".toList = .ok (.arr descriptors) ∧
    descriptor ∈ descriptors ∧ Names root descriptor data ∧ formats.loads data = .ok child

/-- The document is read when descriptors in `manifests` lists are followed. -/
def Reachable (formats : Formats) (root : OciLayout) (document : Json) : Prop :=
  ∃ data index, root.index = some data ∧ formats.loads data = .ok index ∧
    Relation.ReflTransGen (Child formats root) index document

/-- The name and link target of an entry are allowed, and the bytes of a file. -/
def EntryAudited (hashes : List Text) (entry : TarEntry) : Prop :=
  EntryPasses hashes entry ∧ ∀ target, entry.kind.linkname = some target → forbidden target = false

/-- The digest is that of a blob whose archive passes, entry by entry. -/
def DigestAudited (formats : Formats) (root : OciLayout) (hashes : List Text) (digest : Text) : Prop :=
  ∃ value data entries, digest = "sha256:".toList ++ value ∧ root.blob value = some data ∧
    sha256 data = value ∧ formats.members data = .ok entries ∧ ∀ entry ∈ entries, EntryAudited hashes entry

def LayerAudited (formats : Formats) (root : OciLayout) (hashes : List Text) (layer : Json) : Prop :=
  ∃ digest, layer.item "digest".toList = .ok (.str digest) ∧ DigestAudited formats root hashes digest

/-- The configuration is read, and carries none of the labels of private images. -/
def ConfigAudited (formats : Formats) (root : OciLayout) (document : Json) : Prop :=
  ∃ descriptor data config, document.item "config".toList = .ok descriptor ∧
    Names root descriptor data ∧ formats.loads data = .ok config ∧ isPrivate config = false

/-- The layers that a document lists are audited, and so is its configuration. -/
def DocumentAudited (formats : Formats) (root : OciLayout) (hashes : List Text) (document : Json) : Prop :=
  ∀ layers, document.item "layers".toList = .ok (.arr layers) →
    ConfigAudited formats root document ∧ ∀ layer ∈ layers, LayerAudited formats root hashes layer

/-- Nothing was marked as checked before it was audited. -/
def Sound (formats : Formats) (root : OciLayout) (hashes checked : List Text) : Prop :=
  ∀ digest ∈ checked, DigestAudited formats root hashes digest

/-! ## What each function finds out -/

theorem readOptional_eq_ok {file : Option Bytes} : readOptional file = .ok data ↔ file = some data := by
  cases file <;> simp [readOptional]

theorem strMethod_eq_ok {j : Json} {t : Text} : j.strMethod = .ok t ↔ j = .str t := by
  cases j <;> simp [Json.strMethod]

/-- A blob is read exactly when its descriptor names it by the digest of its bytes. -/
theorem ociBlob_eq_ok : ociBlob root descriptor = .ok data ↔
    descriptor.item "digest".toList = .ok (.str ("sha256:".toList ++ sha256 data)) ∧
      root.blob (sha256 data) = some data := by
  simp only [ociBlob, Except.bind_eq_ok]
  constructor
  · rintro ⟨item, hitem, digest, hstr, h⟩
    obtain rfl := strMethod_eq_ok.mp hstr
    split at h
    case h_2 => cases h
    case h_1 algorithm value hsplit =>
      simp only [Except.check_eq_ok, Except.bind_eq_ok, not_or, not_not] at h
      obtain ⟨⟨halgorithm, -, -⟩, read, hread, hsha, hdata⟩ := h
      obtain rfl := Except.ok.inj hdata
      have hdigest : [':'].intercalate (digest.splitOn ':') = digest := List.intercalate_splitOn ':'
      rw [hsplit, halgorithm, ← hsha] at hdigest
      refine ⟨?_, ?_⟩
      · rw [hitem, ← hdigest]
        rfl
      · rw [hsha]
        exact readOptional_eq_ok.mp hread
  · rintro ⟨hitem, hblob⟩
    have hsha := isSha256Text_sha256 data
    simp only [isSha256Text, Bool.and_eq_true, beq_iff_eq, List.all_eq_true] at hsha
    obtain ⟨hlength, hhex⟩ := hsha
    have hcolon : ':' ∉ sha256 data := fun hmem => absurd (hhex _ hmem) (by decide)
    have hjoin : "sha256:".toList ++ sha256 data = [':'].intercalate ["sha256".toList, sha256 data] := rfl
    have hsplit : List.splitOn ':' ("sha256:".toList ++ sha256 data) =
        ["sha256".toList, sha256 data] := by
      rw [hjoin]
      apply List.splitOn_intercalate
      · simp only [List.forall_mem_cons]
        exact ⟨by decide, hcolon, by simp⟩
      · simp
    refine ⟨_, hitem, _, rfl, ?_⟩
    rw [hsplit]
    dsimp only
    have hvalid : ¬ ("sha256".toList ≠ "sha256".toList ∨ (sha256 data).length ≠ 64 ∨
        (sha256 data).any (fun c => !Digest.isHexDigit c) = true) := by
      simpa [hlength] using hhex
    rw [if_neg hvalid, readOptional_eq_ok.mpr hblob, Except.ok_bind, if_neg (by simp)]

theorem ociBlob_names (h : ociBlob root descriptor = .ok data) : Names root descriptor data :=
  ⟨sha256 data, ociBlob_eq_ok.mp h⟩

/-- A descriptor names one blob at most. -/
theorem Names.unique {data' : Bytes} (h : Names root descriptor data) (h' : Names root descriptor data') :
    data = data' := by
  obtain ⟨value, hitem, hblob⟩ := h
  obtain ⟨value', hitem', hblob'⟩ := h'
  rw [hitem, Except.ok.injEq, Json.str.injEq, List.append_cancel_left_eq] at hitem'
  subst hitem'
  exact Option.some.inj (hblob.symm.trans hblob')

theorem auditLayer_sound {layer : Json} (hs : Sound formats root hashes checked)
    (h : auditLayer formats root hashes checked layer = .ok checked') :
    Sound formats root hashes checked' ∧ LayerAudited formats root hashes layer := by
  simp only [auditLayer, Except.bind_eq_ok] at h
  obtain ⟨item, hitem, h⟩ := h
  split at h
  case h_1 digest =>
    split at h
    case isTrue hmem =>
      obtain rfl := Except.ok.inj h
      exact ⟨hs, digest, hitem, hs digest (by simpa using hmem)⟩
    case isFalse =>
      simp only [Except.bind_eq_ok] at h
      obtain ⟨data, hblob, entries, hmembers, _, htar, h⟩ := h
      obtain rfl := Except.ok.inj h
      obtain ⟨hnamed, hfound⟩ := ociBlob_eq_ok.mp hblob
      rw [hitem, Except.ok.injEq, Json.str.injEq] at hnamed
      have haudited : DigestAudited formats root hashes digest :=
        ⟨sha256 data, data, entries, hnamed, hfound, rfl, hmembers, fun entry hmem =>
          auditEntry_eq_ok.mp (auditTar_eq_ok.mp htar entry hmem)⟩
      exact ⟨List.forall_mem_cons.mpr ⟨haudited, hs⟩, digest, hitem, haudited⟩
  all_goals cases h

/-- A document that does not list manifests is audited itself. -/
def Covered (formats : Formats) (root : OciLayout) (hashes : List Text) (document : Json) : Prop :=
  document.has "manifests".toList = .ok false → DocumentAudited formats root hashes document

/-- All documents from this one on are covered. -/
def CoveredFrom (formats : Formats) (root : OciLayout) (hashes : List Text) (document : Json) : Prop :=
  ∀ reached, Relation.ReflTransGen (Child formats root) document reached →
    Covered formats root hashes reached

/-- The document that a descriptor names is covered, and all documents from there on. -/
def DescriptorCovered (formats : Formats) (root : OciLayout) (hashes : List Text) (descriptor : Json) :
    Prop :=
  ∀ data document, Names root descriptor data → formats.loads data = .ok document →
    CoveredFrom formats root hashes document

theorem has_of_item {document value : Json} {key : Text} (h : document.item key = .ok value) :
    document.has key = .ok true := by
  cases document with
  | obj fields =>
    simp only [Json.item] at h
    cases hlookup : fields.lookup key <;> simp_all [Json.has]
  | _ => cases h

/-- What its children cover, the list covers. -/
theorem CoveredFrom.of_children {document children : Json} {descriptors : List Json}
    (hchildren : document.item "manifests".toList = .ok children) (helements : children.elements = .ok descriptors)
    (h : ∀ descriptor ∈ descriptors, DescriptorCovered formats root hashes descriptor) :
    CoveredFrom formats root hashes document := by
  intro reached hreach
  obtain rfl | ⟨child, ⟨items, descriptor, data, hitems, hmem, hnames, hloads⟩, hrest⟩ :=
    hreach.cases_head
  · intro hnone
    rw [has_of_item hchildren] at hnone
    cases hnone
  · rw [hchildren, Except.ok.injEq] at hitems
    subst hitems
    obtain rfl := Except.ok.inj helements
    exact h descriptor hmem data child hnames hloads reached hrest

/-- A document without manifests leads nowhere. -/
theorem CoveredFrom.of_leaf {document : Json} (hleaf : document.has "manifests".toList = .ok false)
    (h : DocumentAudited formats root hashes document) : CoveredFrom formats root hashes document := by
  intro reached hreach
  obtain rfl | ⟨child, ⟨items, _, _, hitems, _⟩, _⟩ := hreach.cases_head
  · exact fun _ => h
  · rw [has_of_item hitems] at hleaf
    cases hleaf

theorem auditManifest_sound (hs : Sound formats root hashes checked)
    (h : auditManifest formats root hashes depth checked descriptor = .ok checked') :
    Sound formats root hashes checked' ∧ DescriptorCovered formats root hashes descriptor := by
  induction depth generalizing checked checked' descriptor with
  | zero => cases h
  | succ depth ih =>
    simp only [auditManifest, Except.bind_eq_ok] at h
    obtain ⟨data, hblob, document, hloads, hasManifests, hhas, h⟩ := h
    -- the descriptor names nothing else
    have hcovered (hfrom : CoveredFrom formats root hashes document) :
        DescriptorCovered formats root hashes descriptor := by
      intro data' document' hnames' hloads'
      obtain rfl := (ociBlob_names hblob).unique hnames'
      rw [hloads, Except.ok.injEq] at hloads'
      rwa [← hloads']
    cases hasManifests with
    | true =>
      simp only [if_true, Except.bind_eq_ok] at h
      obtain ⟨children, hchildren, descriptors, helements, h⟩ := h
      obtain ⟨hsound, hall⟩ := Except.foldlM_invariant
        (Q := DescriptorCovered formats root hashes) (fun _ _ _ hb hx => ih hb hx) hs h
      exact ⟨hsound, hcovered (.of_children hchildren helements hall)⟩
    | false =>
      simp only [Bool.false_eq_true, if_false, Except.bind_eq_ok, Except.check_eq_ok] at h
      obtain ⟨configItem, hconfigItem, configData, hconfigBlob, config, hconfigLoads, hpublic,
        layers, hlayers, descriptors, helements, h⟩ := h
      obtain ⟨hsound, hall⟩ := Except.foldlM_invariant
        (Q := LayerAudited formats root hashes) (fun _ _ _ hb hx => auditLayer_sound hb hx) hs h
      refine ⟨hsound, hcovered (.of_leaf hhas fun items hitems => ⟨?_, ?_⟩)⟩
      · exact ⟨configItem, configData, config, hconfigItem, ociBlob_names hconfigBlob, hconfigLoads,
          Bool.not_eq_true _ ▸ hpublic⟩
      · rw [hlayers, Except.ok.injEq] at hitems
        subst hitems
        obtain rfl := Except.ok.inj helements
        exact hall

/-- What is reachable from an index that passes is covered. -/
theorem auditOci_covers (h : auditOci formats depth root hashes = .ok checked) {document : Json}
    (hreach : Reachable formats root document) : Covered formats root hashes document := by
  simp only [auditOci, Except.bind_eq_ok, Except.check_eq_ok] at h
  obtain ⟨data, hread, index, hloads, entry, -, -, children, hchildren, descriptors, helements, h⟩ := h
  obtain ⟨-, hall⟩ := Except.foldlM_invariant (I := Sound formats root hashes)
    (Q := DescriptorCovered formats root hashes) (fun _ _ _ hb hx => auditManifest_sound hb hx)
    (by simp [Sound]) h
  obtain ⟨data', index', hread', hloads', hpath⟩ := hreach
  rw [← readOptional_eq_ok, hread, Except.ok.injEq] at hread'
  subst hread'
  rw [hloads, Except.ok.injEq] at hloads'
  subst hloads'
  exact CoveredFrom.of_children hchildren helements hall document hpath

/-! ## The result -/

/-- The document lists manifests and layers. -/
def ListsBoth (document : Json) : Prop :=
  document.has "manifests".toList = .ok true ∧ document.has "layers".toList = .ok true

theorem covered_or_listsBoth {document : Json} (h : Covered formats root hashes document)
    (hboth : ListsBoth document → DocumentAudited formats root hashes document) :
    DocumentAudited formats root hashes document := by
  intro layers hlayers
  have hhas := has_of_item hlayers
  cases document with
  | obj fields =>
    cases hmanifests : (fields.lookup "manifests".toList).isSome with
    | true => exact hboth ⟨by simp only [Json.has, hmanifests], hhas⟩ layers hlayers
    | false => exact h (by simp only [Json.has, hmanifests]) layers hlayers
  | _ => cases hlayers

/-- **When a passed audit misses no layer**: exactly when the documents that list both manifests and
layers, whose layers are skipped, have nothing to find in them. -/
theorem auditOci_complete_iff (h : auditOci formats depth root hashes = .ok checked) :
    (∀ document, Reachable formats root document → DocumentAudited formats root hashes document) ↔
      ∀ document, Reachable formats root document → ListsBoth document →
        DocumentAudited formats root hashes document :=
  ⟨fun hall document hreach _ => hall document hreach, fun hboth document hreach =>
    covered_or_listsBoth (auditOci_covers h hreach) (hboth document hreach)⟩

/-- No layer is missed where manifests and layers are listed by different documents. -/
theorem auditOci_complete (h : auditOci formats depth root hashes = .ok checked)
    (hnone : ∀ document, Reachable formats root document → ¬ ListsBoth document) {document : Json}
    (hreach : Reachable formats root document) : DocumentAudited formats root hashes document :=
  covered_or_listsBoth (auditOci_covers h hreach) fun hboth => absurd hboth (hnone document hreach)

/-! ## A layer that is skipped -/

/-- The layer with a key that is not to be published. -/
def keyArchive : Bytes := encodeAscii "ustar".toList

def keyEntries : List TarEntry := [⟨"root/.ssh/id_rsa".toList, .other⟩]

def descriptorOf (data : Bytes) : Json :=
  .obj [("digest".toList, .str ("sha256:".toList ++ sha256 data))]

/-- It lists the layer, and no manifests. -/
def hidingManifest : Json :=
  .obj [("layers".toList, .arr [descriptorOf keyArchive]), ("manifests".toList, .arr [])]

def hidingManifestBytes : Bytes := encodeAscii hidingManifest.dumps

def hidingIndex : Json := .obj [("manifests".toList, .arr [descriptorOf hidingManifestBytes])]

def hidingIndexBytes : Bytes := encodeAscii hidingIndex.dumps

def hidingFormats : Formats where
  loads data :=
    if data = hidingIndexBytes then .ok hidingIndex
    else if data = hidingManifestBytes then .ok hidingManifest
    else .error (.valueError "Expecting value")
  members data :=
    if data = keyArchive then .ok keyEntries
    else .error (.valueError "not a tar archive")

def hidingLayout : OciLayout where
  index := some hidingIndexBytes
  blob value :=
    if value = sha256 hidingManifestBytes then some hidingManifestBytes
    else if value = sha256 keyArchive then some keyArchive
    else none

theorem hidingManifestBytes_ne : hidingManifestBytes ≠ hidingIndexBytes := by
  intro h
  have hthird : hidingManifestBytes[2]? = hidingIndexBytes[2]? := congrArg (·[2]?) h
  revert hthird
  decide +kernel

theorem hidingFormats_loads : hidingFormats.loads hidingManifestBytes = .ok hidingManifest := by
  simp only [hidingFormats, if_neg hidingManifestBytes_ne, if_true]

theorem descriptorOf_digest (data : Bytes) : (descriptorOf data).item "digest".toList =
    .ok (.str ("sha256:".toList ++ sha256 data)) := by
  simp only [descriptorOf, Json.item, List.lookup_cons, beq_self_eq_true]

theorem hidingLayout_blob : hidingLayout.blob (sha256 hidingManifestBytes) = some hidingManifestBytes := by
  simp only [hidingLayout, if_true]

theorem hidingLayout_passes : auditOci hidingFormats 1 hidingLayout [] = .ok [] := by
  have hblob : ociBlob hidingLayout (descriptorOf hidingManifestBytes) = .ok hidingManifestBytes :=
    ociBlob_eq_ok.mpr ⟨descriptorOf_digest _, hidingLayout_blob⟩
  have hmanifest : auditManifest hidingFormats hidingLayout [] 1 [] (descriptorOf hidingManifestBytes) =
      .ok [] := by
    simp only [auditManifest, hblob, hidingFormats_loads, Except.ok_bind]
    rfl
  have hindex : hidingFormats.loads hidingIndexBytes = .ok hidingIndex := by
    simp only [hidingFormats, if_true]
  have hget : hidingIndex.get "manifests".toList = .ok (.arr [descriptorOf hidingManifestBytes]) := by
    simp only [hidingIndex, Json.get, List.lookup_cons, beq_self_eq_true, Option.getD_some]
  have hitem : hidingIndex.item "manifests".toList = .ok (.arr [descriptorOf hidingManifestBytes]) := by
    simp only [hidingIndex, Json.item, List.lookup_cons, beq_self_eq_true]
  have hread : readOptional hidingLayout.index = .ok hidingIndexBytes := rfl
  simp only [auditOci, hread, hindex, hget, hitem, Except.ok_bind, Json.elements, List.foldlM_cons,
    hmanifest]
  rfl

theorem hidingLayout_reaches : Reachable hidingFormats hidingLayout hidingManifest := by
  have hindex : hidingFormats.loads hidingIndexBytes = .ok hidingIndex := by
    simp only [hidingFormats, if_true]
  refine ⟨hidingIndexBytes, hidingIndex, rfl, hindex, .single ?_⟩
  exact ⟨_, descriptorOf hidingManifestBytes, hidingManifestBytes, rfl, List.mem_cons_self,
    ⟨_, descriptorOf_digest _, hidingLayout_blob⟩, hidingFormats_loads⟩

theorem keyArchive_refused : ¬ DigestAudited hidingFormats hidingLayout []
    ("sha256:".toList ++ sha256 keyArchive) := by
  rintro ⟨value, data, entries, hdigest, hblob, hsha, hmembers, hall⟩
  simp only [hidingFormats] at hmembers
  split at hmembers
  case isFalse => cases hmembers
  case isTrue =>
    obtain rfl := Except.ok.inj hmembers
    have hname := (hall _ List.mem_cons_self).1.name
    revert hname
    decide +kernel

/-- The audit passes, and yet a layer with a key is listed in a manifest that it reads. -/
theorem hiddenLayer_missed : auditOci hidingFormats 1 hidingLayout [] = .ok [] ∧
    ¬ ∀ document, Reachable hidingFormats hidingLayout document →
      DocumentAudited hidingFormats hidingLayout [] document := by
  refine ⟨hidingLayout_passes, fun hall => ?_⟩
  obtain ⟨-, hlayers⟩ := hall _ hidingLayout_reaches _ rfl
  obtain ⟨digest, hdigest, haudited⟩ := hlayers _ List.mem_cons_self
  rw [descriptorOf_digest, Except.ok.injEq, Json.str.injEq] at hdigest
  subst hdigest
  exact keyArchive_refused haudited

/-! ## A layout that passes -/

/-- One layer, listed twice. -/
def publishedManifest : Json := .obj [("config".toList, descriptorOf [2]),
  ("layers".toList, .arr [descriptorOf [3], descriptorOf [3]])]

def publishedIndex : Json := .obj [("manifests".toList, .arr [descriptorOf [1]])]

def publishedFormats : Formats where
  loads
    | [0] => .ok publishedIndex
    | [1] => .ok publishedManifest
    | [2] => .ok (.obj [])
    | _ => .error (.valueError "Expecting value")
  members
    | [3] => .ok [⟨"a".toList, .file [4]⟩, ⟨"b".toList, .hardLink "a".toList⟩]
    | _ => .error (.valueError "not a tar archive")

def publishedLayout : OciLayout where
  index := some [0]
  blob value := [[1], [2], [3]].find? fun data => sha256 data == value

/-- A document was read from some bytes. -/
theorem Reachable.loads_eq {document : Json} (h : Reachable formats root document) :
    ∃ data, formats.loads data = .ok document := by
  obtain ⟨data, index, -, hindex, hsteps⟩ := h
  cases hsteps with
  | refl => exact ⟨data, hindex⟩
  | tail _ hchild =>
    obtain ⟨_, _, read, -, -, -, hread⟩ := hchild
    exact ⟨read, hread⟩

theorem published_not_listsBoth {document : Json} (h : Reachable publishedFormats publishedLayout document) :
    ¬ ListsBoth document := by
  obtain ⟨data, hloads⟩ := h.loads_eq
  simp only [publishedFormats] at hloads
  split at hloads <;> simp only [Except.ok.injEq, reduceCtorEq] at hloads <;> subst hloads <;>
    rintro ⟨hmanifests, hlayers⟩
  · cases hlayers
  · cases hmanifests
  · cases hlayers

theorem publishedLayout_audited : (auditOci publishedFormats 1 publishedLayout []).isOk = true ∧
    ∀ document, Reachable publishedFormats publishedLayout document →
      DocumentAudited publishedFormats publishedLayout [] document := by
  have hok : (auditOci publishedFormats 1 publishedLayout []).isOk = true := by decide +kernel
  refine ⟨hok, ?_⟩
  cases h : auditOci publishedFormats 1 publishedLayout [] with
  | ok checked =>
    exact (auditOci_complete_iff h).mpr fun document hreach hboth =>
      absurd hboth (published_not_listsBoth hreach)
  | error e =>
    rw [h] at hok
    cases hok

end Azurefin
