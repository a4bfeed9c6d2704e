import Azurefin.Release.Finalize
import Azurefin.Update.Versions

/-!
# Finalizing a release to the end

On a release whose checks pass, with all requests answered, the program leaves the checksum as the only
asset and the link in the notes, also when an earlier run was interrupted anywhere. This
is so exactly when the notes are not `null`: `finalize_completes_iff`.
-/

namespace Azurefin

open Calls

/-! ## Releases on the server -/

structure Asset where
  id : Int
  name : Text
  deriving DecidableEq

/-- A release. Its notes may be `null`, and no two assets have the same id. -/
structure GithubRelease where
  assets : List Asset
  notes : Option Text
  ids : (assets.map Asset.id).Nodup

namespace GithubRelease

def edit (r : GithubRelease) (notes : Text) : GithubRelease := { r with notes := some notes }

def delete (r : GithubRelease) (id : Int) : GithubRelease where
  assets := r.assets.filter fun a => a.id ≠ id
  notes := r.notes
  ids := r.ids.sublist (List.filter_sublist.map Asset.id)

/-- The document is that of the release: what else it and its assets have in them is left open. -/
def Shows (document : Json) (r : GithubRelease) : Prop :=
  ∃ render : Asset → Json,
    (∀ a, assetName (render a) = .ok (.str a.name) ∧ assetId (render a) = .ok (.num a.id)) ∧
      document.item "assets".toList = .ok (.arr (r.assets.map render)) ∧
        document.getD "body".toList (.str []) = .ok (r.notes.elim .null .str)

end GithubRelease

open GithubRelease

/-- The server tells what the release is. A request that succeeds has its effect, and one that fails
may have had it. -/
structure GithubEnvironment (loads : Text → Except PyError Json) (repo tag : Text) extends
    Calls.Environment GithubRelease FinalizeCall (fun _ => Text) PyError where
  truthful : ∀ s text document, answer s (.viewRelease repo tag) = .ok text →
    loads text = .ok document → Shows document s.state
  edits : ∀ s notes text, answer s (.editNotes tag repo notes) = .ok text →
    next s (.editNotes tag repo notes) = s.state.edit notes
  edits_or_not : ∀ s notes, next s (.editNotes tag repo notes) = s.state.edit notes ∨
    next s (.editNotes tag repo notes) = s.state
  deletes : ∀ s id text, answer s (.deleteAsset repo (.num id)) = .ok text →
    next s (.deleteAsset repo (.num id)) = s.state.delete id
  deletes_or_not : ∀ s id, next s (.deleteAsset repo (.num id)) = s.state.delete id ∨
    next s (.deleteAsset repo (.num id)) = s.state
  next_other : ∀ s c, c.mutates = false → next s c = s.state

/-- The names that the program takes, and the assets of the release. -/
structure ReleaseReady (repo tag project : Text) (r : GithubRelease) : Prop where
  repository_valid : isRepository repo = true
  tag_valid : matchesTag isDecimal tag = true
  project_valid : isProject project = true
  expected : ∀ a ∈ r.assets, a.name = checksumName ∨ isTemporary tag a.name = true
  unique : ∃ kept, r.assets.filter (fun a => a.name == checksumName) = [kept]

/-- All requests succeed on the release, and the checksum, the mirror and the headers pass. Nothing is
said of assets that are not on the server, and nothing of what the temporary ones contain. -/
structure Responds {loads : Text → Except PyError Json} {repo tag : Text}
    (env : GithubEnvironment loads repo tag) (project : Text) (r : GithubRelease) : Prop where
  view : ∀ s, s.state = r → ∃ text document,
    env.answer s (.viewRelease repo tag) = .ok text ∧ loads text = .ok document
  checks : ∃ checksum mirrored headers,
    (∀ s, s.state = r → ∀ a ∈ r.assets, a.name = checksumName →
      env.answer s (.downloadAsset repo (.num a.id)) = .ok checksum) ∧
    (∀ s, env.answer s (.fetch (downloadBase project tag ++ '/' :: checksumName)) = .ok mirrored) ∧
    (∀ s, env.answer s (.fetchHead (isoUrl project tag)) = .ok headers) ∧
    isChecksumText tag checksum = true ∧ strip mirrored = strip checksum ∧
    isoReady (finalHeaders headers) = true
  edit : ∀ s notes, ∃ text, env.answer s (.editNotes tag repo notes) = .ok text
  delete : ∀ s, ∀ a ∈ s.state.assets, ∃ text, env.answer s (.deleteAsset repo (.num a.id)) = .ok text

/-- What a run that was interrupted may leave of the release: it has deleted some of the temporary
assets, and it has edited the notes or not. -/
structure LeftBy (tag project : Text) (r left : GithubRelease) : Prop where
  assets : ∃ deleted : Asset → Bool,
    (∀ a ∈ r.assets, deleted a = true → isTemporary tag a.name = true) ∧
      left.assets = r.assets.filter fun a => !deleted a
  notes : left.notes = r.notes ∨ ∃ old, r.notes = some old ∧
    left.notes = some (finalNotes project tag (Words.contains prebuiltMarker old))

/-- The checksum is the only asset, the link is in the notes, and the marker is where it was. -/
structure Finalized (tag project : Text) (r final : GithubRelease) : Prop where
  assets : ∃ kept ∈ r.assets, kept.name = checksumName ∧ final.assets = [kept]
  notes : ∃ notes, final.notes = some notes ∧ Words.contains (isoUrl project tag) notes = true ∧
    (Words.contains prebuiltMarker notes = true ↔
      ∃ old, r.notes = some old ∧ Words.contains prebuiltMarker old = true)

variable {loads : Text → Except PyError Json} {repo tag project : Text}
  {env : GithubEnvironment loads repo tag} {r left : GithubRelease}

/-! ## The notes -/

theorem less_not_mem_tag (h : matchesTag isDecimal tag = true) : '<' ∉ tag := by
  intro hmem
  rcases mem_of_matchesTag h hmem with hdigit | hother
  · exact absurd hdigit (by decide +kernel)
  · exact absurd hother (by decide)

theorem less_not_mem_project (h : isProject project = true) : '<' ∉ project := by
  intro hmem
  simp only [isProject, Bool.and_eq_true, List.all_eq_true] at h
  exact absurd (h.1.1 '<' hmem) (by decide)

theorem less_not_mem_downloadNotes (htag : matchesTag isDecimal tag = true)
    (hproject : isProject project = true) : '<' ∉ downloadNotes project tag := by
  have htexts : '<' ∉ "[Download the ARM64 live ISO](".toList ∧ '<' ∉ ")\n\n".toList ∧
      '<' ∉ "Download the attached `ISO-SHA256SUM` and verify with ".toList ∧
      '<' ∉ "`sha256sum -c ISO-SHA256SUM` before flashing.\n".toList ∧
      '<' ∉ "https://downloads.sourceforge.net/project/".toList ∧ '<' ∉ "azurefin-".toList ∧
      '<' ∉ "-aarch64.iso".toList := by decide +kernel
  obtain ⟨hlink, hclose, hattached, hverify, hhost, hstem, hsuffix⟩ := htexts
  have htag := less_not_mem_tag htag
  have hslash {t : Text} (ht : '<' ∉ t) : '<' ∉ '/' :: t :=
    List.not_mem_cons_of_ne_of_not_mem (by decide) ht
  have hbase : '<' ∉ downloadBase project tag :=
    List.not_mem_append (List.not_mem_append hhost (less_not_mem_project hproject)) (hslash htag)
  have hname : '<' ∉ isoName tag := List.not_mem_append (List.not_mem_append hstem htag) hsuffix
  have hurl : '<' ∉ isoUrl project tag := List.not_mem_append hbase (hslash hname)
  apply List.not_mem_append _ hverify
  apply List.not_mem_append _ hattached
  apply List.not_mem_append _ hclose
  exact List.not_mem_append hlink hurl

/-- The link alone does not bring the marker into the notes. -/
theorem contains_marker_finalNotes (htag : matchesTag isDecimal tag = true)
    (hproject : isProject project = true) (prebuilt : Bool) :
    Words.contains prebuiltMarker (finalNotes project tag prebuilt) = prebuilt := by
  cases prebuilt with
  | true =>
    apply Words.contains_iff.mpr
    refine ⟨downloadNotes project tag ++ ['\n'], ['\n'], ?_⟩
    rw [List.append_assoc, List.append_assoc]
    rfl
  | false =>
    rw [Bool.eq_false_iff]
    intro hmarker
    have hless : '<' ∈ prebuiltMarker := List.mem_cons_self
    have hnotes : finalNotes project tag false = downloadNotes project tag := List.append_nil _
    rw [hnotes] at hmarker
    exact less_not_mem_downloadNotes htag hproject ((Words.contains_iff.mp hmarker).subset hless)

theorem contains_url_finalNotes (prebuilt : Bool) :
    Words.contains (isoUrl project tag) (finalNotes project tag prebuilt) = true := by
  apply Words.contains_iff.mpr
  have hlink : isoUrl project tag <:+: "[Download the ARM64 live ISO](".toList ++ isoUrl project tag :=
    (List.suffix_append _ _).isInfix
  have hnotes : downloadNotes project tag <+: finalNotes project tag prebuilt := List.prefix_append _ _
  refine hlink.trans (List.IsPrefix.isInfix (.trans ?_ hnotes))
  exact .trans (.trans (List.prefix_append _ _) (List.prefix_append _ _)) (List.prefix_append _ _)

/-! ## Deleting the temporary assets -/

/-- Only the checksum and the assets that are still to be deleted are there. -/
def Remaining (r : GithubRelease) (todo : List Asset) (assets : List Asset) : Prop :=
  assets = r.assets.filter fun a => a.name == checksumName || todo.contains a

/-- The asset is one of the release, and the only one with its id. -/
theorem GithubRelease.eq_of_id {a b : Asset} (ha : a ∈ r.assets) (hb : b ∈ r.assets) (h : a.id = b.id) :
    a = b :=
  List.inj_on_of_nodup_map r.ids ha hb h

theorem Remaining.start : Remaining r (r.assets.filter fun a => !(a.name == checksumName)) r.assets := by
  refine (List.filter_eq_self.mpr fun a ha => ?_).symm
  cases hname : a.name == checksumName <;> simp_all

theorem Remaining.delete {a : Asset} {rest assets : List Asset} (h : Remaining r (a :: rest) assets)
    (hmem : a ∈ r.assets) (hname : a.name ≠ checksumName) (hrest : a ∉ rest) :
    Remaining r rest (assets.filter fun b => b.id ≠ a.id) := by
  rw [Remaining, h, List.filter_filter]
  apply List.filter_congr
  intro b hb
  by_cases hsame : b = a
  · subst hsame
    simp [hname, hrest]
  · have hid : b.id ≠ a.id := fun hid => hsame (eq_of_id hb hmem hid)
    simp [hid, hsame]

/-- What is still to be deleted is still there. -/
theorem Remaining.mem {a : Asset} {rest assets : List Asset} (h : Remaining r (a :: rest) assets)
    (hmem : a ∈ r.assets) : a ∈ assets := by
  rw [h]
  exact List.mem_filter.mpr ⟨hmem, by simp⟩

/-- The deletions leave nothing to do. -/
theorem holds_cleanup {render : Asset → Json} {notes : Text} {E : PyError → Calls.Session _ _ _ _ → Prop}
    (hrender : ∀ a, assetId (render a) = .ok (.num a.id))
    (hdelete : ∀ s, ∀ a ∈ s.state.assets, ∃ text, env.answer s (.deleteAsset repo (.num a.id)) = .ok text)
    {todo : List Asset} (hnodup : todo.Nodup)
    (htodo : ∀ a ∈ todo, a ∈ r.assets ∧ a.name ≠ checksumName) :
    Act.Holds (fun s => s.state.notes = some notes ∧ Remaining r todo s.state.assets)
      ((todo.map render).forM fun asset => do
        let id ← Act.ofExcept (assetId asset)
        let _ ← call env.toEnvironment (.deleteAsset repo id)
        pure ())
      (fun _ s => s.state.notes = some notes ∧ Remaining r [] s.state.assets) E := by
  induction todo with
  | nil => exact .pure fun _ hs => hs
  | cons a rest ih =>
    obtain ⟨hnew, hrest⟩ := List.nodup_cons.mp hnodup
    obtain ⟨⟨hmem, hname⟩, htodo⟩ := List.forall_mem_cons.mp htodo
    refine .bind (M := fun _ s => s.state.notes = some notes ∧ Remaining r rest s.state.assets) ?_
      fun _ => ih hrest htodo
    refine .bind_ok (hrender a) (.bind (holds_answered fun s hs => ?_) fun _ => .pure fun _ hs => hs)
    obtain ⟨text, htext⟩ := hdelete s a (hs.2.mem hmem)
    have hnext := env.deletes s a.id text htext
    refine ⟨text, htext, ?_⟩
    rw [after_state, hnext]
    exact ⟨hs.1, hs.2.delete hmem hname hnew⟩

/-! ## The run -/

/-- A request that changes nothing is answered, and the release stays as it is. -/
theorem holds_asked {c : FinalizeCall} (hc : c.mutates = false) {text : Text}
    {E : PyError → Calls.Session _ _ _ _ → Prop}
    (h : ∀ s, s.state = r → env.answer s c = .ok text) :
    Act.Holds (fun s => s.state = r) (call env.toEnvironment c)
      (fun answer s => s.state = r ∧ answer = text) E :=
  holds_answered fun s hs =>
    ⟨text, h s hs, (env.next_other s c hc).trans hs, rfl⟩


/-- What the program makes of the assets. -/
theorem removable_map {render : Asset → Json}
    (hrender : ∀ a, assetName (render a) = .ok (.str a.name) ∧ assetId (render a) = .ok (.num a.id))
    {assets : List Asset} (hexpected : ∀ a ∈ assets, a.name = checksumName ∨ isTemporary tag a.name = true)
    {kept : Asset} (hunique : assets.filter (fun a => a.name == checksumName) = [kept]) :
    removableAssets tag (assets.map render) =
        .ok ((assets.filter fun a => !(a.name == checksumName)).map render) ∧
      (do onlyAsset (← checksumAssets (assets.map render))) = .ok (render kept) := by
  have hall : ∀ asset ∈ assets.map render, Expected tag asset := by
    intro asset hmem
    obtain ⟨a, ha, rfl⟩ := List.mem_map.mp hmem
    exact ⟨a.name, (hrender a).1, hexpected a ha⟩
  have hkind : isChecksumAsset ∘ render = fun a => a.name == checksumName := by
    funext a
    simp [isChecksumAsset, (hrender a).1]
  have hother : (fun asset => !isChecksumAsset asset) ∘ render = fun a => !(a.name == checksumName) :=
    congrArg (fun f a => !f a) hkind
  constructor
  · rw [removableAssets_eq_ok, List.filter_map, hother]
    exact ⟨hall, rfl⟩
  · rw [checksumAssets_eq_ok hall, Except.ok_bind, onlyAsset_eq_ok, List.filter_map, hkind, hunique]
    rfl

/-- Whether the run is completed, and what it leaves, is up to the notes. -/
theorem finalizeMain_ends (hready : ReleaseReady repo tag project r) (hresponds : Responds env project r) :
    Act.Holds (fun s => s.state = r) (finalizeMain loads env.toEnvironment repo tag project)
      (fun _ s => (∃ old, r.notes = some old ∧
        s.state.notes = some (finalNotes project tag (Words.contains prebuiltMarker old))) ∧
          Remaining r [] s.state.assets)
      (fun _ _ => r.notes = none) := by
  obtain ⟨checksum, mirrored, headers, hchecksum, hmirrored, hheaders, hvalid, hsame, hhtml⟩ :=
    hresponds.checks
  obtain ⟨kept, hkept⟩ := hready.unique
  have htag : checkFinalizeTag tag = .ok () := by simp [checkFinalizeTag, hready.tag_valid]
  refine .bind_true hready.repository_valid (.bind_ok htag (.bind_true hready.project_valid ?_))
  refine .bind (M := fun text s => s.state = r ∧
    ∃ document, loads text = .ok document ∧ Shows document r) ?_ fun text => ?_
  · refine holds_answered fun s hs => ?_
    obtain ⟨text, document, hanswer, hloads⟩ := hresponds.view s hs
    have hshows := env.truthful s text document hanswer hloads
    rw [hs] at hshows
    exact ⟨text, hanswer, (env.next_other s _ rfl).trans hs, document, hloads, hshows⟩
  refine .of_pre (fun _ hs => hs.2) ?_
  rintro ⟨document, hloads, render, hrender, hassets, hbody⟩
  obtain ⟨hremove, honly⟩ := removable_map hrender hready.expected hkept
  refine .pre (P := fun s => s.state = r) ?_ fun _ hs => hs.1
  refine .bind_ok hloads (.bind_ok (Except.bind_eq_ok.mpr ⟨_, hassets, rfl⟩) ?_)
  refine .bind_ok hremove (.bind_ok honly (.bind_ok (hrender kept).2 ?_))
  have hmem : kept ∈ r.assets.filter fun a => a.name == checksumName := by simp [hkept]
  obtain ⟨hin, hname⟩ := List.mem_filter.mp hmem
  refine .bind (holds_asked rfl fun s hs => hchecksum s hs kept hin (beq_iff_eq.mp hname)) fun text =>
    .assume_right ?_
  rintro rfl
  refine .bind_true hvalid (.bind (holds_asked rfl fun s _ => hmirrored s) fun text => .assume_right ?_)
  rintro rfl
  refine .bind_true (by simpa using hsame) ?_
  refine .bind (holds_asked rfl fun s _ => hheaders s) fun text => .assume_right ?_
  rintro rfl
  refine .bind_true hhtml ?_
  -- the marker is looked for in the notes
  cases hnotes : r.notes with
  | none =>
    rw [hnotes] at hbody
    refine .bind (M := fun _ _ => False) (.ofExcept (fun s prebuilt _ hhas => ?_) fun _ _ _ _ => rfl) ?_
    · rw [hbody] at hhas
      cases hhas
    · exact fun _ _ hfalse => hfalse.elim
  | some old =>
    rw [hnotes] at hbody
    refine .bind_ok (Except.bind_eq_ok.mpr ⟨_, hbody, rfl⟩) ?_
    let todo := r.assets.filter fun a => !(a.name == checksumName)
    let notes := finalNotes project tag (Words.contains prebuiltMarker old)
    refine .bind (M := fun _ s => s.state.notes = some notes ∧ Remaining r todo s.state.assets) ?_ fun _ => ?_
    · refine holds_answered fun s hs => ?_
      obtain ⟨text, htext⟩ := hresponds.edit s notes
      have hnext := env.edits s notes text htext
      refine ⟨text, htext, ?_⟩
      rw [after_state, hnext, hs]
      exact ⟨rfl, Remaining.start⟩
    · have hnodup : todo.Nodup := (List.Nodup.of_map _ r.ids).filter _
      have htodo : ∀ a ∈ todo, a ∈ r.assets ∧ a.name ≠ checksumName := by simp [todo]
      refine (holds_cleanup (fun a => (hrender a).2) hresponds.delete hnodup htodo).weaken (fun _ hs => hs) ?_
        fun _ _ h => h
      exact fun _ s hs => ⟨⟨old, rfl, hs.1⟩, hs.2⟩

/-! ## After an interruption -/

theorem LeftBy.refl : LeftBy tag project r r where
  assets := ⟨fun _ => false, by simp, by simp⟩
  notes := .inl rfl

/-- What is left still passes the checks. -/
theorem LeftBy.ready (h : LeftBy tag project r left) (hready : ReleaseReady repo tag project r) :
    ReleaseReady repo tag project left ∧
      left.assets.filter (fun a => a.name == checksumName) = r.assets.filter fun a => a.name == checksumName := by
  obtain ⟨deleted, hdeleted, hassets⟩ := h.assets
  have hsame : left.assets.filter (fun a => a.name == checksumName) =
      r.assets.filter fun a => a.name == checksumName := by
    rw [hassets, List.filter_filter]
    apply List.filter_congr
    intro a ha
    cases hname : a.name == checksumName with
    | false => rfl
    | true =>
      -- the checksum is never deleted
      have hkept : deleted a = false := by
        rw [Bool.eq_false_iff]
        intro hgone
        have htemporary := hdeleted a ha hgone
        rw [beq_iff_eq.mp hname, isTemporary_checksumName] at htemporary
        cases htemporary
      simp [hkept]
  refine ⟨⟨hready.repository_valid, hready.tag_valid, hready.project_valid, ?_, ?_⟩, hsame⟩
  · intro a ha
    rw [hassets] at ha
    exact hready.expected a (List.mem_filter.mp ha).1
  · rw [hsame]
    exact hready.unique

/-- One more of the temporary assets is deleted. -/
theorem LeftBy.delete (h : LeftBy tag project r left) {a : Asset} (hmem : a ∈ r.assets)
    (htemporary : isTemporary tag a.name = true) : LeftBy tag project r (left.delete a.id) where
  assets := by
    obtain ⟨deleted, hdeleted, hassets⟩ := h.assets
    refine ⟨fun b => deleted b || b.id == a.id, ?_, ?_⟩
    · intro b hb hgone
      rcases Bool.or_eq_true_iff.mp hgone with hgone | hid
      · exact hdeleted b hb hgone
      · rwa [eq_of_id hb hmem (beq_iff_eq.mp hid)]
    · change left.assets.filter _ = _
      rw [hassets, List.filter_filter]
      apply List.filter_congr
      intro b _
      cases hgone : deleted b <;> simp [hgone, beq_eq_decide]
  notes := h.notes

theorem LeftBy.edit {old : Text} (hnotes : r.notes = some old) : LeftBy tag project r
    (r.edit (finalNotes project tag (Words.contains prebuiltMarker old))) where
  assets := ⟨fun _ => false, by simp, by simp [GithubRelease.edit]⟩
  notes := .inr ⟨old, hnotes, rfl⟩

/-- Up to the edit, a run leaves the release. -/
theorem holds_unchanged {c : FinalizeCall} (hc : c.mutates = false) :
    Act.Holds (fun s => s.state = r) (call env.toEnvironment c) (fun _ s => s.state = r)
      (fun _ s => LeftBy tag project r s.state) := by
  have hafter : ∀ s, s.state = r → (env.after s c).state = r :=
    fun s hs => (env.next_other s c hc).trans hs
  refine holds_call (fun s _ hs _ => hafter s hs) fun s _ hs _ => ?_
  rw [hafter s hs]
  exact .refl

theorem holds_learned {α : Type} {result : Except PyError α} :
    Act.Holds (fun s : Calls.Session GithubRelease FinalizeCall (fun _ => Text) PyError => s.state = r)
      (Act.ofExcept result) (fun a s => s.state = r ∧ result = .ok a)
      (fun _ s => LeftBy tag project r s.state) :=
  .ofExcept (fun _ _ hs ha => ⟨hs, ha⟩) fun _ _ hs _ => hs ▸ .refl

theorem holds_passed {check : Bool} {e : PyError} :
    Act.Holds (fun s : Calls.Session GithubRelease FinalizeCall (fun _ => Text) PyError => s.state = r)
      (Act.require check e) (fun _ s => s.state = r) (fun _ s => LeftBy tag project r s.state) :=
  .require (fun _ hs _ => hs) fun _ hs _ => hs ▸ .refl

/-- Deletions that fail at some point leave a part of the temporary assets. -/
theorem holds_interrupted {render : Asset → Json} (hrender : ∀ a, assetId (render a) = .ok (.num a.id))
    {todo : List Asset} (htodo : ∀ a ∈ todo, a ∈ r.assets ∧ isTemporary tag a.name = true) :
    Act.Holds (fun s => LeftBy tag project r s.state)
      ((todo.map render).forM fun asset => do
        let id ← Act.ofExcept (assetId asset)
        let _ ← call env.toEnvironment (.deleteAsset repo id)
        pure ())
      (fun _ s => LeftBy tag project r s.state) (fun _ s => LeftBy tag project r s.state) := by
  induction todo with
  | nil => exact .pure fun _ hs => hs
  | cons a rest ih =>
    obtain ⟨⟨hmem, htemporary⟩, hrest⟩ := List.forall_mem_cons.mp htodo
    have hafter : ∀ s, LeftBy tag project r s.state →
        LeftBy tag project r (env.after s (.deleteAsset repo (.num a.id))).state := by
      intro s hs
      rw [after_state]
      obtain hgone | hkept := env.deletes_or_not s a.id
      · rw [hgone]
        exact hs.delete hmem htemporary
      · rwa [hkept]
    refine .bind (M := fun _ s => LeftBy tag project r s.state) ?_ fun _ => ih hrest
    refine .bind_ok (hrender a) (.bind (M := fun _ s => LeftBy tag project r s.state) ?_ fun _ => ?_)
    · exact holds_call (fun s _ hs _ => hafter s hs) (fun s _ hs _ => hafter s hs)
    · exact .pure fun _ hs => hs

/-- **What any run leaves**, wherever it fails. -/
theorem finalize_leaves (env : GithubEnvironment loads repo tag) (project : Text) (r : GithubRelease) :
    LeftBy tag project r (finalizeMain loads env.toEnvironment repo tag project ⟨r, []⟩).2.state := by
  suffices hrun : Act.Holds (fun s => s.state = r) (finalizeMain loads env.toEnvironment repo tag project)
      (fun _ s => LeftBy tag project r s.state) (fun _ s => LeftBy tag project r s.state) from hrun.final rfl
  refine .bind holds_passed fun _ => .bind holds_learned fun _ => .assume_right fun _ => ?_
  refine .bind holds_passed fun _ => ?_
  refine .bind (M := fun text s => s.state = r ∧
    ∀ document, loads text = .ok document → Shows document r) ?_ fun text => .assume_right fun hshows => ?_
  · apply holds_call
    · intro s text hs hanswer
      refine ⟨(env.next_other s _ rfl).trans hs, fun document hloads => ?_⟩
      rw [← hs]
      exact env.truthful s text document hanswer hloads
    · intro s _ hs _
      rw [after_state, env.next_other s _ rfl, hs]
      exact .refl
  refine .bind holds_learned fun document => .assume_right fun hloads => ?_
  obtain ⟨render, hrender, hitems, hbody⟩ := hshows document hloads
  refine .bind holds_learned fun assets => .assume_right fun hassets => ?_
  obtain rfl : assets = r.assets.map render := by
    rw [hitems] at hassets
    exact (Except.ok.inj hassets).symm
  refine .bind holds_learned fun remove => .assume_right fun hremove => ?_
  obtain ⟨hexpected, rfl⟩ := removableAssets_eq_ok.mp hremove
  refine .bind holds_learned fun _ => .assume_right fun _ => .bind holds_learned fun _ => .assume_right fun _ => ?_
  refine .bind (holds_unchanged rfl) fun _ => .bind holds_passed fun _ => ?_
  refine .bind (holds_unchanged rfl) fun _ => .bind holds_passed fun _ => ?_
  refine .bind (holds_unchanged rfl) fun _ => .bind holds_passed fun _ => ?_
  refine .bind holds_learned fun prebuilt => .assume_right fun hprebuilt => ?_
  rw [hbody] at hprebuilt
  cases hnotes : r.notes with
  | none =>
    rw [hnotes] at hprebuilt
    cases hprebuilt
  | some old =>
    rw [hnotes] at hprebuilt
    obtain rfl : Words.contains prebuiltMarker old = prebuilt := Except.ok.inj hprebuilt
    have hedited : ∀ s, s.state = r → LeftBy tag project r (env.after s (.editNotes tag repo
        (finalNotes project tag (Words.contains prebuiltMarker old)))).state := by
      intro s hs
      rw [after_state]
      obtain hdone | hkept := env.edits_or_not s (finalNotes project tag (Words.contains prebuiltMarker old))
      · rw [hdone, hs]
        exact .edit hnotes
      · rw [hkept, hs]
        exact .refl
    refine .bind (M := fun _ s => LeftBy tag project r s.state) ?_ fun _ => ?_
    · exact holds_call (fun s _ hs _ => hedited s hs) (fun s _ hs _ => hedited s hs)
    · rw [List.filter_map]
      refine holds_interrupted (fun a => (hrender a).2) fun a ha => ?_
      obtain ⟨hmem, hother⟩ := List.mem_filter.mp ha
      have hremoved : render a ∈ (r.assets.map render).filter fun asset => !isChecksumAsset asset :=
        List.mem_filter.mpr ⟨List.mem_map_of_mem hmem, hother⟩
      obtain ⟨-, name, hname, htemporary⟩ := temporary_of_removable hexpected hremoved
      rw [(hrender a).1, Except.ok.injEq, Json.str.injEq] at hname
      rw [hname]
      exact ⟨hmem, htemporary⟩

/-- **When finalizing completes.** Started on what any interrupted run has left, with all
requests answered, the program finishes with the checksum as the only asset, the link in the notes
and the marker kept, exactly when the notes of the release were not `null`. -/
theorem finalize_completes_iff (hready : ReleaseReady repo tag project r)
    (hleft : LeftBy tag project r left) (hresponds : Responds env project left) :
    (∃ s, finalizeMain loads env.toEnvironment repo tag project ⟨left, []⟩ = (.ok (), s) ∧
      Finalized tag project r s.state) ↔ r.notes ≠ none := by
  obtain ⟨hready', hkept⟩ := hleft.ready hready
  have hends := finalizeMain_ends hready' hresponds ⟨left, []⟩ rfl
  have hnotes : left.notes = none ↔ r.notes = none := by
    obtain hsame | ⟨old, hold, hnew⟩ := hleft.notes
    · rw [hsame]
    · simp [hold, hnew]
  cases hrun : finalizeMain loads env.toEnvironment repo tag project ⟨left, []⟩ with
  | mk result s =>
  rw [hrun] at hends
  cases result with
  | error e =>
    refine iff_of_false (by simp) ?_
    exact not_not.mpr (hnotes.mp hends)
  | ok u =>
    obtain ⟨⟨old, hold, hfinal⟩, hassets⟩ := hends
    have hsome : r.notes ≠ none := fun hnone => by simp [hnotes.mpr hnone] at hold
    refine iff_of_true ⟨s, rfl, ?_, ?_⟩ hsome
    · obtain ⟨kept, hunique⟩ := hready.unique
      have hmem : kept ∈ r.assets.filter fun a => a.name == checksumName := by simp [hunique]
      obtain ⟨hin, hname⟩ := List.mem_filter.mp hmem
      refine ⟨kept, hin, by simpa using hname, ?_⟩
      rw [hassets]
      simpa [hkept] using hunique
    · refine ⟨_, hfinal, contains_url_finalNotes _, ?_⟩
      rw [contains_marker_finalNotes hready.tag_valid hready.project_valid]
      obtain hsame | ⟨first, hfirst, hnew⟩ := hleft.notes
      · rw [← hsame, hold]
        simp
      · -- the notes have been edited already
        rw [hnew, Option.some.injEq] at hold
        subst hold
        rw [contains_marker_finalNotes hready.tag_valid hready.project_valid, hfirst]
        simp

/-! ## Two releases -/

/-- A document with the names and ids of the assets, and the notes. -/
def releaseDocument (r : GithubRelease) : Json :=
  .obj [("assets".toList, .arr (r.assets.map fun a =>
      .obj [("name".toList, .str a.name), ("id".toList, .num a.id)])),
    ("body".toList, r.notes.elim .null .str)]

theorem releaseDocument_shows (r : GithubRelease) : Shows (releaseDocument r) r := by
  refine ⟨fun a => .obj [("name".toList, .str a.name), ("id".toList, .num a.id)], fun a => ⟨rfl, rfl⟩, ?_, ?_⟩
  · simp only [releaseDocument, Json.item, List.lookup_cons, beq_self_eq_true]
  · have hother : ("body".toList == "assets".toList) = false := by decide
    simp only [releaseDocument, Json.getD, List.lookup_cons, hother, beq_self_eq_true, Option.getD_some]

def sampleTag : Text := "v0.0.1-alpha".toList

def sampleChecksum : Text := List.replicate 64 'a' ++ "  ".toList ++ isoName sampleTag

/-- A server with the release and its mirror, where every request for something that is there
succeeds. -/
def readyGithub (r : GithubRelease) :
    GithubEnvironment (fun _ => .ok (releaseDocument r)) "owner/repo".toList sampleTag where
  answer s
    | .viewRelease .. =>
      if s.state.assets = r.assets ∧ s.state.notes = r.notes then .ok [] else .error .subprocessError
    | .downloadAsset _ id =>
      match s.state.assets.find? fun a => (Json.num a.id).eq id with
      | some a => .ok (if a.name == checksumName then sampleChecksum else [])
      | none => .error .subprocessError
    | .deleteAsset _ id =>
      if s.state.assets.any fun a => (Json.num a.id).eq id then .ok [] else .error .subprocessError
    | .fetch _ => .ok sampleChecksum
    | .fetchHead _ => .ok "HTTP/2 200\ncontent-length: 1234\n".toList
    | .editNotes .. => .ok []
  next s
    | .editNotes _ _ notes => s.state.edit notes
    | .deleteAsset _ (.num id) => s.state.delete id
    | _ => s.state
  truthful s text document hanswer hloads := by
    obtain rfl := Except.ok.inj hloads
    simp only at hanswer
    split at hanswer
    case isFalse => cases hanswer
    case isTrue hsame =>
      obtain ⟨render, hrender, hassets, hnotes⟩ := releaseDocument_shows r
      rw [← hsame.1] at hassets
      rw [← hsame.2] at hnotes
      exact ⟨render, hrender, hassets, hnotes⟩
  edits _ _ _ _ := rfl
  edits_or_not _ _ := .inl rfl
  deletes _ _ _ _ := rfl
  deletes_or_not _ _ := .inl rfl
  next_other s c hc := by
    cases c with
    | editNotes _ _ _ | deleteAsset _ _ => cases hc
    | _ => rfl

/-- The checksum and two files for the assembly, with these notes. -/
def sampleRelease (notes : Option Text) : GithubRelease where
  assets := [⟨1, checksumName⟩, ⟨2, "SHA256SUMS".toList⟩, ⟨3, isoName sampleTag ++ ".part-000".toList⟩]
  notes := notes
  ids := by decide

theorem sampleRelease_ready (notes : Option Text) :
    ReleaseReady "owner/repo".toList sampleTag "azurefin".toList (sampleRelease notes) where
  repository_valid := by decide +kernel
  tag_valid := by decide +kernel
  project_valid := by decide +kernel
  expected := by
    have htemporary : isTemporary sampleTag "SHA256SUMS".toList = true ∧
        isTemporary sampleTag (isoName sampleTag ++ ".part-000".toList) = true := by decide +kernel
    simp only [sampleRelease, List.forall_mem_cons]
    exact ⟨.inl trivial, .inr htemporary.1, .inr htemporary.2, by simp⟩
  unique := ⟨⟨1, checksumName⟩, by
    change List.filter _ [(⟨1, checksumName⟩ : Asset), ⟨2, "SHA256SUMS".toList⟩,
      ⟨3, isoName sampleTag ++ ".part-000".toList⟩] = _
    decide +kernel⟩

theorem GithubRelease.find_asset {a : Asset} (h : a ∈ r.assets) :
    r.assets.find? (fun b => (Json.num b.id).eq (.num a.id)) = some a := by
  cases hfound : r.assets.find? fun b => (Json.num b.id).eq (.num a.id) with
  | none =>
    have hnot := List.find?_eq_none.mp hfound a h
    simp [Json.eq, Json.number?] at hnot
  | some b =>
    have hid : a.id = b.id := by simpa [Json.eq, Json.number?] using List.find?_some hfound
    rw [eq_of_id h (List.mem_of_find?_eq_some hfound) hid]

theorem readyGithub_responds (r : GithubRelease) : Responds (readyGithub r) "azurefin".toList r where
  view s hs := ⟨[], _, if_pos ⟨congrArg GithubRelease.assets hs, congrArg GithubRelease.notes hs⟩, rfl⟩
  checks := by
    refine ⟨sampleChecksum, sampleChecksum, _, fun s hs a ha hname => ?_, fun _ => rfl, fun _ => rfl,
      by decide +kernel, rfl, by decide +kernel⟩
    simp only [readyGithub, hs, find_asset ha, hname, beq_self_eq_true, if_true]
  edit _ _ := ⟨[], rfl⟩
  delete s a ha := ⟨[], if_pos (List.any_eq_true.mpr ⟨a, ha, by simp [Json.eq, Json.number?]⟩)⟩

/-- With `null` notes, a release that passes all checks is not finalized. -/
theorem finalize_null_notes : ReleaseReady "owner/repo".toList sampleTag "azurefin".toList (sampleRelease none) ∧
    Responds (readyGithub (sampleRelease none)) "azurefin".toList (sampleRelease none) ∧
    ¬ ∃ s, finalizeMain (fun _ => .ok (releaseDocument (sampleRelease none)))
      (readyGithub (sampleRelease none)).toEnvironment "owner/repo".toList sampleTag "azurefin".toList
        ⟨sampleRelease none, []⟩ = (.ok (), s) ∧
      Finalized sampleTag "azurefin".toList (sampleRelease none) s.state := by
  refine ⟨sampleRelease_ready none, readyGithub_responds _, ?_⟩
  rintro ⟨s, hrun, -⟩
  obtain ⟨⟨old, hold, -⟩, -⟩ :=
    (finalizeMain_ends (sampleRelease_ready none) (readyGithub_responds _)).ok rfl hrun
  cases hold

/-- The notes of a tested build. -/
def testedNotes : Text := "Tested.\n".toList ++ prebuiltMarker

/-- A first run has edited the notes and deleted one of the two files, and then died. -/
def interruptedRelease : GithubRelease :=
  ((sampleRelease (some testedNotes)).edit (finalNotes "azurefin".toList sampleTag
    (Words.contains prebuiltMarker testedNotes))).delete 2

theorem interruptedRelease_left :
    LeftBy sampleTag "azurefin".toList (sampleRelease (some testedNotes)) interruptedRelease :=
  LeftBy.delete (.edit rfl) (a := ⟨2, "SHA256SUMS".toList⟩) (List.mem_cons_of_mem _ List.mem_cons_self)
    (by decide +kernel)

/-- The next run completes. -/
theorem finalize_interrupted :
    (∃ s, finalizeMain (fun _ => .ok (releaseDocument interruptedRelease))
      (readyGithub interruptedRelease).toEnvironment "owner/repo".toList sampleTag "azurefin".toList
        ⟨interruptedRelease, []⟩ = (.ok (), s) ∧
      Finalized sampleTag "azurefin".toList (sampleRelease (some testedNotes)) s.state) ↔
    (sampleRelease (some testedNotes)).notes ≠ none :=
  finalize_completes_iff (sampleRelease_ready _) interruptedRelease_left (readyGithub_responds _)

end Azurefin
