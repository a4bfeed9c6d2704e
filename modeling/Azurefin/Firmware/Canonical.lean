import Azurefin.Firmware.ManifestText

/-!
# The manifest as a name

A manifest is the same for policies that list the same files, in whatever order, and for no others, and
the loader reads back from it what they list. Wherever the targets are taken to start, they lead below
it (`manifest_canonical`).
-/

namespace Azurefin

open Shell

/-- The policy lists the file. -/
def Lists (policy : Json) (r : Row) : Prop :=
  ∃ entries, policy.item "files".toList = .ok (.arr entries) ∧ ∃ e ∈ entries, Describes e r

/-- What the loop of the loader reads: the hash and the target in each line. -/
def manifestFields (contents : Bytes) : List (Text × Text) := (linesOf (decodeAscii contents)).map readFields

/-- Where a component of a path leads, in a tree without links. -/
def descend (place : List Text) (part : Text) : List Text :=
  if part = [] ∨ part = ".".toList then place
  else if part = "..".toList then place.dropLast
  else place ++ [part]

/-- A relative path in canonical form. From no place does any part of it lead elsewhere than down. -/
structure LeadsBelow (target : Text) : Prop where
  nonempty : target ≠ []
  relative : (PurePosixPath.ofText target).isAbsolute = false
  canonical : (PurePosixPath.ofText target).str = target
  parts : ∀ part ∈ target.splitOn '/', part ≠ [] ∧ part ≠ ".".toList ∧ part ≠ "..".toList
  below : ∀ root before after, before ++ after = target.splitOn '/' →
    before.foldl descend root = root ++ before
  strictly : ∀ root, root <+: (target.splitOn '/').foldl descend root ∧ (target.splitOn '/').foldl descend root ≠ root

variable {policy p q : Json} {rows : List Row} {r : Row} {target : Text} {contents : Bytes}

/-! ## Targets -/

theorem foldl_descend {parts : List Text}
    (h : ∀ part ∈ parts, part ≠ [] ∧ part ≠ ".".toList ∧ part ≠ "..".toList) (root : List Text) :
    parts.foldl descend root = root ++ parts := by
  induction parts generalizing root with
  | nil => rw [List.foldl_nil, List.append_nil]
  | cons part parts ih =>
    obtain ⟨⟨hempty, hdot, hdots⟩, hparts⟩ := List.forall_mem_cons.mp h
    have hstep : descend root part = root ++ [part] := by
      rw [descend, if_neg (not_or.mpr ⟨hempty, hdot⟩), if_neg hdots]
    rw [List.foldl_cons, hstep, ih hparts, List.append_assoc, List.singleton_append]

theorem leadsBelow_of_isCanonicalTarget (h : isCanonicalTarget target = true) : LeadsBelow target := by
  obtain ⟨htext, habs, hdots, hne, hstr⟩ := (isCanonicalTarget_iff target).mp h
  have hsplit := PurePosixPath.splitOn_eq_names habs hne hstr
  have hparts : ∀ part ∈ target.splitOn '/', part ≠ [] ∧ part ≠ ".".toList ∧ part ≠ "..".toList := by
    intro part hpart
    rw [hsplit] at hpart
    have hkept := (List.mem_filter.mp hpart).2
    simp only [Bool.and_eq_true, bne_iff_ne] at hkept
    exact ⟨hkept.1, hkept.2, fun heq => hdots (heq ▸ hpart)⟩
  refine ⟨fun heq => ?_, habs, hstr, hparts, fun root before after happend => ?_, fun root => ?_⟩
  · rw [heq] at htext
    cases htext
  · apply foldl_descend
    intro part hpart
    apply hparts
    rw [← happend]
    exact List.mem_append_left after hpart
  · rw [foldl_descend hparts]
    refine ⟨List.prefix_append _ _, fun heq => ?_⟩
    rw [List.append_right_eq_self, hsplit] at heq
    exact hne heq

/-! ## What a policy lists -/

theorem Describes.unique {e : Json} {r s : Row} (hr : Describes e r) (hs : Describes e s) : r = s := by
  obtain ⟨target, digest⟩ := r
  obtain ⟨target', digest'⟩ := s
  obtain rfl : target = target' := Json.str.inj (Except.ok.inj (hr.1.symm.trans hs.1))
  obtain rfl : digest = digest' := Json.str.inj (Except.ok.inj (hr.2.symm.trans hs.2))
  rfl

theorem exists_described {entries : List Json} (h : List.Forall₂ Describes entries rows) :
    (∀ r ∈ rows, ∃ e ∈ entries, Describes e r) ∧ ∀ e ∈ entries, ∃ r ∈ rows, Describes e r := by
  induction h with
  | nil => exact ⟨by simp, by simp⟩
  | cons hhead _ ih => exact ⟨by grind, by grind⟩

/-- A policy lists the rows of its file set. -/
theorem lists_iff (h : policyRows policy = .ok rows) : Lists policy r ↔ r ∈ rows := by
  obtain ⟨entries, hitem, hdescribed⟩ := item_files_of_policyRows h
  constructor
  · intro ⟨entries', hitem', e, he, hr⟩
    obtain rfl := Json.arr.inj (Except.ok.inj (hitem.symm.trans hitem'))
    obtain ⟨s, hs, hes⟩ := (exists_described hdescribed).2 e he
    rwa [hr.unique hes]
  · intro hr
    obtain ⟨e, he, hdescribes⟩ := (exists_described hdescribed).1 r hr
    exact ⟨entries, hitem, e, he, hdescribes⟩

theorem nodup_rows (F : FileSet) : F.rows.Nodup := F.nodup.of_map Row.target

/-- The text of a manifest does not depend on the order of the files. -/
theorem manifestText_congr {rows rows' : List Row} (h : rows.Perm rows') :
    manifestText rows = manifestText rows' := by
  have hle : ∀ l : List Text, (l.mergeSort (· ≤ ·)).Pairwise fun a b => a ≤ b := fun l =>
    (List.pairwise_mergeSort (fun a b c hab hbc => by simp_all; exact le_trans hab hbc)
      (fun a b => by simpa using le_total a b) l).imp of_decide_eq_true
  have hperm : ((rows.map Row.line).mergeSort (· ≤ ·)).Perm ((rows'.map Row.line).mergeSort (· ≤ ·)) :=
    (List.mergeSort_perm _ _).trans ((h.map Row.line).trans (List.mergeSort_perm _ _).symm)
  rw [manifestText, manifestText, hperm.eq_of_pairwise (fun a b _ _ => le_antisymm) (hle _) (hle _)]

/-- The loader reads the files of the set, each once. -/
theorem manifestFields_perm (F : FileSet) :
    (manifestFields (encodeAscii (manifestText F.rows))).Perm (F.rows.map fun r => (r.digest, r.target)) := by
  have hfields : manifestFields (encodeAscii (manifestText F.rows)) =
      F.sorted.rows.map fun r => (r.digest, r.target) := by
    rw [manifestFields, F.linesOf_manifest, List.map_map]
    exact List.map_congr_left fun r hr => r.readFields_text (F.sorted.valid r hr)
  rw [hfields]
  exact (manifestOrder_perm F.rows).map _

theorem fileSet_of_manifest (h : manifest policy = .ok contents) :
    ∃ F : FileSet, policyRows policy = .ok F.rows ∧ contents = encodeAscii (manifestText F.rows) := by
  obtain ⟨rows, hrows, rfl⟩ := manifest_eq_ok.mp h
  obtain ⟨F, rfl⟩ := policyRows_ok hrows
  exact ⟨F, hrows, rfl⟩

/-- **A manifest is a canonical name for what is listed.** -/
theorem manifest_canonical :
    (∀ p q c d, manifest p = .ok c → manifest q = .ok d → (c = d ↔ ∀ r, Lists p r ↔ Lists q r)) ∧
      ∀ p c, manifest p = .ok c →
        (∀ r, Lists p r ↔ (r.digest, r.target) ∈ manifestFields c) ∧ (manifestFields c).Nodup ∧
          ∀ r, Lists p r → LeadsBelow r.target := by
  constructor
  · intro p q c d hp hq
    obtain ⟨F, hF, rfl⟩ := fileSet_of_manifest hp
    obtain ⟨G, hG, rfl⟩ := fileSet_of_manifest hq
    simp only [lists_iff hF, lists_iff hG]
    constructor
    · intro heq r
      exact (FileSet.perm_of_manifest_eq heq).mem_iff
    · intro hsame
      have hperm := (List.perm_ext_iff_of_nodup (nodup_rows F) (nodup_rows G)).mpr hsame
      rw [manifestText_congr hperm]
  · intro p c hp
    obtain ⟨F, hF, rfl⟩ := fileSet_of_manifest hp
    have hperm := manifestFields_perm F
    have hinjective : Function.Injective fun r : Row => (r.digest, r.target) := by
      rintro ⟨target, digest⟩ ⟨target', digest'⟩ heq
      simp_all
    simp only [lists_iff hF]
    refine ⟨fun r => ?_, ?_, fun r hr => ?_⟩
    · rw [hperm.mem_iff]
      exact (List.mem_map_of_injective hinjective).symm
    · rw [hperm.nodup_iff]
      exact (nodup_rows F).map hinjective
    · exact leadsBelow_of_isCanonicalTarget (r.valid_iff.mp (F.valid r hr)).1

def pairRows : List Row :=
  [⟨"qcom/b.mbn".toList, List.replicate 64 '0'⟩, ⟨"qcom/a.mbn".toList, List.replicate 64 'f'⟩]

/-- Two files. -/
def pairFiles : FileSet where
  rows := pairRows
  valid := forall_mem_of_all (by decide +kernel)
  nodup := by decide +kernel
  length_pos := by decide
  length_le := by decide

/-- The same files in the other order. -/
def reversedFiles : FileSet where
  rows := pairRows.reverse
  valid := forall_mem_of_all (by decide +kernel)
  nodup := by decide +kernel
  length_pos := by decide
  length_le := by decide

theorem manifest_canonical_pair :
    encodeAscii (manifestText pairFiles.rows) = encodeAscii (manifestText reversedFiles.rows) ∧
      LeadsBelow "qcom/a.mbn".toList := by
  have hpair := policyRows_policyOf pairFiles
  have hreversed := policyRows_policyOf reversedFiles
  refine ⟨(manifest_canonical.1 _ _ _ _ (manifest_eq_ok.mpr ⟨_, hpair, rfl⟩)
    (manifest_eq_ok.mpr ⟨_, hreversed, rfl⟩)).mpr fun r => ?_, ?_⟩
  · rw [lists_iff hpair, lists_iff hreversed]
    exact List.mem_reverse.symm
  · refine (manifest_canonical.2 _ _ (manifest_eq_ok.mpr ⟨_, hpair, rfl⟩)).2.2
      ⟨"qcom/a.mbn".toList, List.replicate 64 'f'⟩ ?_
    rw [lists_iff hpair]
    exact List.mem_cons_of_mem _ (List.mem_cons_self ..)

end Azurefin
