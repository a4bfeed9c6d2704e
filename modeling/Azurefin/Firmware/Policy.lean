import Azurefin.Lib.Python
import Mathlib.Data.List.Sort

/-!
# Firmware policies and their manifest

`manifest` from `firmware_bundle.py`: the canonical text of a policy's files, one line for each
with its hash and its target. A policy it accepts is a `FileSet`.
-/

namespace Azurefin

/-- One file of a policy. -/
structure Row where
  target : Text
  digest : Text
  deriving DecidableEq, Repr

namespace Row

/-- `f'{digest}  {target}\n'` -/
def line (r : Row) : Text := r.digest ++ "  ".toList ++ r.target ++ "\n".toList

/-- The components of the target. -/
def path (r : Row) : List Text := (PurePosixPath.ofText r.target).names

end Row

/-- An ASCII letter or digit, underscore, dot, slash or hyphen. -/
def isTargetChar (c : Char) : Bool := c.isAlphanum || "_-./".toList.contains c

/-- At least one character, all of them target characters. -/
def isTargetText (t : Text) : Bool := !t.isEmpty && t.all isTargetChar

/-- A target that is a canonical relative path of at least one component. -/
def isCanonicalTarget (t : Text) : Bool :=
  let path := PurePosixPath.ofText t
  isTargetText t && !path.isAbsolute && !path.parts.contains "..".toList
    && path.parts != [] && path.str == t

def Row.valid (r : Row) : Bool := isCanonicalTarget r.target && isSha256Text r.digest

/-- The loop of `manifest` over the entries, with the targets seen so far. -/
def manifestRows (seen : List Text) : List Json → Except PyError (List Row)
  | [] => .ok []
  | entry :: entries => do
    let target ← entry.get "target".toList
    let digest ← entry.get "sha256".toList
    match target, digest with
    | .str target, .str digest =>
      let path := PurePosixPath.ofText target
      if !isTargetText target || path.isAbsolute || path.parts.contains "..".toList
          || path.parts == [] || path.str != target || seen.contains target
          || !isSha256Text digest then
        .error (.valueError "Unsafe or duplicate policy entry")
      else do
        let rows ← manifestRows (target :: seen) entries
        .ok (⟨target, digest⟩ :: rows)
    | _, _ => .error (.valueError "Invalid policy fields")

/-- The files of a policy, in its order. -/
def policyRows (policy : Json) : Except PyError (List Row) := do
  match ← policy.get "files".toList with
  | .arr entries =>
    if 1 ≤ entries.length ∧ entries.length ≤ 256 then manifestRows [] entries
    else .error (.valueError "Invalid firmware file list")
  | _ => .error (.valueError "Invalid firmware file list")

/-- `''.join(sorted(rows))` -/
def manifestText (rows : List Row) : Text := ((rows.map Row.line).mergeSort (· ≤ ·)).flatten

def manifest (policy : Json) : Except PyError Bytes := do
  let rows ← policyRows policy
  .ok (encodeAscii (manifestText rows))

/-! ## Accepted policies -/

/-- The files of an accepted policy: valid rows with distinct targets, 1 to 256 of them. -/
structure FileSet where
  rows : List Row
  valid : ∀ r ∈ rows, r.valid = true
  nodup : (rows.map Row.target).Nodup
  length_pos : 1 ≤ rows.length
  length_le : rows.length ≤ 256

/-- The JSON entry `e` describes the row `r`. -/
def Describes (e : Json) (r : Row) : Prop :=
  e.item "target".toList = .ok (.str r.target) ∧ e.item "sha256".toList = .ok (.str r.digest)

theorem Row.valid_iff (r : Row) : r.valid = true ↔
    isCanonicalTarget r.target = true ∧ isSha256Text r.digest = true := by
  simp [Row.valid]

theorem isCanonicalTarget_iff (t : Text) : isCanonicalTarget t = true ↔
    isTargetText t = true ∧ (PurePosixPath.ofText t).isAbsolute = false ∧
      "..".toList ∉ (PurePosixPath.ofText t).names ∧ (PurePosixPath.ofText t).names ≠ [] ∧
      (PurePosixPath.ofText t).str = t := by
  simp only [isCanonicalTarget, Bool.and_eq_true, Bool.not_eq_true', bne_iff_ne, beq_iff_eq]
  constructor
  · rintro ⟨⟨⟨⟨h1, h2⟩, h3⟩, h4⟩, h5⟩
    rw [PurePosixPath.parts_eq_names h2] at h3 h4
    exact ⟨h1, h2, by simpa using h3, h4, h5⟩
  · rintro ⟨h1, h2, h3, h4, h5⟩
    rw [PurePosixPath.parts_eq_names h2]
    exact ⟨⟨⟨⟨h1, h2⟩, by simpa using h3⟩, h4⟩, h5⟩

/-- The loop accepts entries that describe valid rows with targets it has not seen. -/
theorem manifestRows_ok {seen : List Text} {entries : List Json} {rows : List Row}
    (h : manifestRows seen entries = .ok rows) :
    List.Forall₂ Describes entries rows ∧ (∀ r ∈ rows, r.valid = true) ∧
      (rows.map Row.target).Nodup ∧ ∀ t ∈ rows.map Row.target, t ∉ seen := by
  induction entries generalizing seen rows with
  | nil =>
    simp only [manifestRows, Except.ok.injEq] at h
    subst h
    simp
  | cons entry entries ih =>
    simp only [manifestRows, Except.bind_eq_ok] at h
    obtain ⟨target, ht, digest, hd, h⟩ := h
    split at h
    case h_2 => cases h
    case h_1 target digest =>
      split at h
      case isTrue => cases h
      case isFalse hc =>
        simp only [Except.bind_eq_ok, Except.ok.injEq] at h
        obtain ⟨rest, hrest, rfl⟩ := h
        obtain ⟨hf, hv, hn, hs⟩ := ih hrest
        simp only [Bool.or_eq_true, not_or, Bool.not_eq_true, bne_eq_false_iff_eq,
          Bool.not_eq_eq_eq_not, Bool.not_true, beq_eq_false_iff_ne] at hc
        obtain ⟨⟨⟨⟨⟨⟨htext, habs⟩, hdots⟩, hparts⟩, hstr⟩, hseen⟩, hsha⟩ := hc
        refine ⟨.cons ⟨Json.item_of_get ht nofun, Json.item_of_get hd nofun⟩ hf, ?_, ?_, ?_⟩
        · intro r hr
          rcases List.mem_cons.mp hr with rfl | hr
          · simpa [Row.valid, isCanonicalTarget, htext, habs, hparts, hstr, hsha] using hdots
          · exact hv r hr
        · exact List.nodup_cons.mpr ⟨fun hm => hs _ hm (List.mem_cons_self ..), hn⟩
        · intro t hm
          rcases List.mem_cons.mp hm with rfl | hm
          · simpa using hseen
          · exact fun hts => hs t hm (List.mem_cons_of_mem _ hts)

theorem item_files_of_policyRows {policy : Json} {rows : List Row}
    (h : policyRows policy = .ok rows) :
    ∃ entries, policy.item "files".toList = .ok (.arr entries) ∧
      List.Forall₂ Describes entries rows := by
  simp only [policyRows, Except.bind_eq_ok] at h
  obtain ⟨files, hf, h⟩ := h
  split at h
  case h_2 => cases h
  case h_1 entries =>
    split at h
    case isFalse => cases h
    case isTrue => exact ⟨entries, Json.item_of_get hf nofun, (manifestRows_ok h).1⟩

/-- The rows of an accepted policy form a file set. -/
theorem policyRows_ok {policy : Json} {rows : List Row} (h : policyRows policy = .ok rows) :
    ∃ F : FileSet, F.rows = rows := by
  simp only [policyRows, Except.bind_eq_ok] at h
  obtain ⟨files, -, h⟩ := h
  split at h
  case h_2 => cases h
  case h_1 entries =>
    split at h
    case isFalse => cases h
    case isTrue hl =>
      obtain ⟨hd, hv, hn, -⟩ := manifestRows_ok h
      have hlen := hd.length_eq
      exact ⟨⟨rows, hv, hn, by omega, by omega⟩, rfl⟩

theorem manifest_eq_ok {policy : Json} {contents : Bytes} :
    manifest policy = .ok contents ↔
      ∃ rows, policyRows policy = .ok rows ∧ contents = encodeAscii (manifestText rows) := by
  rw [manifest, Except.bind_eq_ok]
  simp only [Except.ok.injEq, eq_comm (b := contents)]

/-! ## Policies from rows -/

/-- The policy that lists the given rows. -/
def policyOf (rows : List Row) : Json :=
  .obj [("files".toList, .arr (rows.map fun r =>
    .obj [("target".toList, .str r.target), ("sha256".toList, .str r.digest)]))]

theorem manifestRows_of_valid {rows : List Row} (hv : ∀ r ∈ rows, r.valid = true)
    (hn : (rows.map Row.target).Nodup) {seen : List Text} (hs : ∀ r ∈ rows, r.target ∉ seen) :
    manifestRows seen (rows.map fun r =>
      .obj [("target".toList, .str r.target), ("sha256".toList, .str r.digest)]) = .ok rows := by
  induction rows generalizing seen with
  | nil => rfl
  | cons r rows ih =>
    obtain ⟨htext, habs, hdots, hne, hstr⟩ :=
      (isCanonicalTarget_iff _).mp (r.valid_iff.mp (hv r (by simp))).1
    have hsha := (r.valid_iff.mp (hv r (by simp))).2
    obtain ⟨hr, hn⟩ := List.nodup_cons.mp hn
    have rest := @ih (fun q hq => hv q (by simp [hq])) hn (r.target :: seen) (fun q hq => by
      simp only [List.mem_cons, not_or]
      exact ⟨fun h => hr (h ▸ List.mem_map_of_mem hq), hs q (by simp [hq])⟩)
    have hget : ∀ v w : Json, (Json.obj [("target".toList, v), ("sha256".toList, w)]).get
        "target".toList = .ok v := fun v w => by simp [Json.get]
    have hget' : ∀ v w : Json, (Json.obj [("target".toList, v), ("sha256".toList, w)]).get
        "sha256".toList = .ok w := fun v w => by simp [Json.get, List.lookup_cons]
    have hbad : (!isTargetText r.target || (PurePosixPath.ofText r.target).isAbsolute
        || (PurePosixPath.ofText r.target).parts.contains "..".toList
        || (PurePosixPath.ofText r.target).parts == []
        || (PurePosixPath.ofText r.target).str != r.target || seen.contains r.target
        || !isSha256Text r.digest) = false := by
      rw [PurePosixPath.parts_eq_names habs, habs, hstr, htext, hsha]
      simpa [hne, hs r (by simp)] using hdots
    simp only [List.map_cons, manifestRows, hget, hget', Except.ok_bind, hbad, rest]
    rfl

/-- Every file set is the file set of a policy. -/
theorem policyRows_policyOf (F : FileSet) : policyRows (policyOf F.rows) = .ok F.rows := by
  have := F.length_pos
  have := F.length_le
  have hrows := @manifestRows_of_valid F.rows F.valid F.nodup [] (by simp)
  simp only [policyRows, policyOf, Json.get, List.lookup_cons, beq_self_eq_true, Option.getD_some,
    Except.ok_bind, List.length_map]
  rw [if_pos (by omega), hrows]

end Azurefin
