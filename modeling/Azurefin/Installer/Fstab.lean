import Azurefin.Lib.Indexed
import Azurefin.Lib.Lines

/-!
# The fstab of an installed system

`installer_fix_fstab.py` comments the root entry out, which composefs owns, and makes the home entry
canonical where `/home` is a link to `/var/home`. What it writes has the lines it read
(`correctedFstab_lines`), is what it would write again (`correctedFstab_idempotent`), and mounts no
`/home` where the line of the home entry begins with its device (`homeCanonical_iff`).
-/

namespace Azurefin

namespace Fstab

/-! ## Entries -/

/-- `line.strip() and not line.lstrip().startswith("#")` -/
def isActive (line : Text) : Bool :=
  strip line != [] && !"#".toList.isPrefixOf (line.dropWhile isSpace)

/-- The fields of an entry. -/
def fields? (line : Text) : Option (List Text) := if isActive line then some (pySplit line) else none

/-- `[(i, line.split()) for i, line in enumerate(lines) if …]` -/
def entries (lines : List Text) : List (Nat × List Text) := indexed fields? lines

def mountPoint (fields : List Text) : Text := fields.getD 1 []

def isRoot (fields : List Text) : Bool := mountPoint fields == "/".toList

def isHome (fields : List Text) : Bool :=
  mountPoint fields == "/home".toList || mountPoint fields == "/var/home".toList

def isVar (fields : List Text) : Bool := mountPoint fields == "/var".toList

/-- The boot options select the device of the root entry and each of its subvolumes. -/
def selectsRoot (fields : List Text) (options : List Text) : Bool :=
  let required := "root=".toList ++ fields.getD 0 []
  let subvols := ((fields.getD 3 []).splitOn ',').filter fun v =>
    "subvol=".toList.isPrefixOf v || "subvolid=".toList.isPrefixOf v
  let flags := (options.filter "rootflags=".toList.isPrefixOf).flatMap fun arg =>
    (removePrefix "rootflags=".toList arg).splitOn ','
  options.contains required && subvols.all flags.contains

def comment : Text :=
  "# Composefs owns /; root= and rootflags= select its backing filesystem.\n".toList

/-- `re.sub(r"^(\S+\s+)/home(?=\s)", r"\1/var/home", line)`: what `\S+` and `\s+` match cannot be
shorter, since a space follows the one and none the other. -/
def renameHome (line : Text) : Text :=
  let device := line.takeWhile (!isSpace ·)
  let rest := line.dropWhile (!isSpace ·)
  let gap := rest.takeWhile isSpace
  let rest := rest.dropWhile isSpace
  let after := rest.drop "/home".toList.length
  if device != [] && gap != [] && "/home".toList.isPrefixOf rest && after.head?.any isSpace then
    device ++ gap ++ "/var/home".toList ++ after
  else line

/-- `line.rstrip("\n")` -/
def rstripNewline (line : Text) : Text := line.rdropWhile (· == '\n')

/-- The lines after the root entry was looked at. -/
def commentRoot (roots : List (Nat × List Text)) (bootOptions : List (List Text)) (lines : List Text) :
    Except PyError (List Text) :=
  match roots with
  | [] => .ok lines
  | (index, fields) :: _ =>
    if bootOptions.any (selectsRoot fields) then
      .ok (lines.set index (comment ++ "# ".toList ++ lines.getD index []))
    else .error (.valueError "No boot entry selects the fstab root and subvolume")

/-- The lines after the home entry was looked at. -/
def moveHome (homes var : List (Nat × List Text)) (lines : List Text) : Except PyError (List Text) :=
  match homes with
  | [] => .ok lines
  | (index, _) :: others =>
    if !others.isEmpty || var.length > 1 then
      .error (.valueError "Ambiguous home/var entries; refusing to edit")
    else
      let home := renameHome (lines.getD index [])
      match var with
      | [] => .ok (lines.set index home)
      | (first, _) :: _ =>
        if index < first then
          let lines := lines.set index []
          .ok (lines.set first (rstripNewline (lines.getD first []) ++ "\n".toList ++ home))
        else .ok (lines.set index home)

def correctedFstab (text : Text) (bootOptions : List (List Text)) (canonicalHome : Bool) :
    Except PyError Text := do
  let lines := splitlinesKeep text
  let entries := entries lines
  if entries.any fun e => e.2.length < 4 then
    .error (.valueError "Malformed fstab; refusing to edit")
  else
    let roots := entries.filter fun e => isRoot e.2
    if roots.length > 1 then
      .error (.valueError "Multiple root entries; refusing to edit")
    else
      let lines ← commentRoot roots bootOptions lines
      let homes := entries.filter fun e => isHome e.2
      let var := entries.filter fun e => isVar e.2
      let lines ← (if canonicalHome then moveHome homes var lines else .ok lines)
      .ok lines.flatten

/-! ## Lines of entries -/

/-- The line is an entry whose fields pass a test. -/
def isEntry (p : List Text → Bool) (line : Text) : Bool := (fields? line).any p

/-- The mount point of a line is renamed and nothing else. -/
def Renamed (line line' : Text) : Prop := ∃ device gap after : Text,
  device ≠ [] ∧ (∀ c ∈ device, isSpace c = false) ∧ gap ≠ [] ∧ (∀ c ∈ gap, isSpace c = true) ∧
    after.head?.any isSpace = true ∧ line = device ++ gap ++ "/home".toList ++ after ∧
    line' = device ++ gap ++ "/var/home".toList ++ after

variable {line line' : Text} {words : List Text} {p : List Text → Bool}

/-- An entry begins with a character that is no space and no `#`. -/
theorem isActive_eq (line : Text) :
    isActive line = (line.dropWhile isSpace).head?.any (· != '#') := by
  have hnot := List.head?_dropWhile_not isSpace line
  cases hdrop : line.dropWhile isSpace with
  | nil => simp [isActive, strip, hdrop]
  | cons c t =>
    have hne : ((c :: t).rdropWhile isSpace != []) = true := by
      have hc : isSpace c = false := by simpa [hdrop] using hnot
      rw [bne_iff_ne]
      intro he
      rw [List.rdropWhile_eq_nil_iff.mp he c List.mem_cons_self] at hc
      cases hc
    have hhead : "#".toList.isPrefixOf (c :: t) = ('#' == c) := by
      rw [show "#".toList = ['#'] from rfl]
      simp [List.isPrefixOf]
    rw [isActive, strip, hdrop, hhead, hne]
    simp [bne, Bool.beq_comm]

theorem fields?_eq_none (h : line.head? = some '#') : fields? line = none := by
  cases line with
  | nil => cases h
  | cons c t =>
    obtain rfl : c = '#' := Option.some.inj h
    have hdrop : ('#' :: t).dropWhile isSpace = '#' :: t := List.dropWhile_cons_of_neg (by decide)
    rw [fields?, isActive_eq, hdrop]
    rfl

/-- A newline at its end makes no difference to an entry. -/
theorem fields?_newline (line : Text) : fields? (line ++ ['\n']) = fields? line := by
  have hactive : isActive (line ++ ['\n']) = isActive line := by
    rw [isActive_eq, isActive_eq]
    induction line with
    | nil => rfl
    | cons c line ih =>
      rw [List.cons_append]
      cases hc : isSpace c with
      | true => rw [List.dropWhile_cons_of_pos hc, List.dropWhile_cons_of_pos hc, ih]
      | false =>
        rw [List.dropWhile_cons_of_neg (by simp [hc]), List.dropWhile_cons_of_neg (by simp [hc])]
        rfl
  rw [fields?, fields?, hactive, pySplit, wordsBy_concat (by decide), pySplit]

theorem Renamed.fields (h : Renamed line line') : ∃ device rest,
    pySplit line = device :: "/home".toList :: rest ∧ pySplit line' = device :: "/var/home".toList :: rest ∧
      isActive line' = isActive line := by
  obtain ⟨device, gap, after, hne, hdevice, hgap, hspace, hafter, rfl, rfl⟩ := h
  obtain ⟨c, gap, rfl⟩ := List.exists_cons_of_ne_nil hgap
  obtain ⟨hc, hspace⟩ := List.forall_mem_cons.mp hspace
  obtain ⟨d, after, rfl⟩ : ∃ d t, after = d :: t := by
    cases after with
    | nil => cases hafter
    | cons d t => exact ⟨d, t, rfl⟩
  have hd : isSpace d = true := hafter
  have hsplit : ∀ word : Text, word ≠ [] → (∀ x ∈ word, isSpace x = false) →
      pySplit (device ++ c :: gap ++ word ++ d :: after) = device :: word :: pySplit after := by
    intro word hword hplain
    rw [List.append_assoc, List.append_assoc, List.cons_append, pySplit, wordsBy_append_word hne hdevice hc,
      wordsBy_append_left hspace, wordsBy_append_word hword hplain hd, pySplit]
  have hhead : ∀ t : Text, (device ++ t).dropWhile isSpace = device ++ t := by
    obtain ⟨x, device, rfl⟩ := List.exists_cons_of_ne_nil hne
    have hx := hdevice x List.mem_cons_self
    exact fun t => List.dropWhile_cons_of_neg (by simp [hx])
  refine ⟨device, pySplit after, hsplit _ (by decide) (forall_mem_of_all (by decide)),
    hsplit _ (by decide) (forall_mem_of_all (by decide)), ?_⟩
  obtain ⟨x, device, rfl⟩ := List.exists_cons_of_ne_nil hne
  rw [isActive_eq, isActive_eq]
  simp only [List.append_assoc, hhead]
  rfl

/-- Where the line begins with the device, a home entry can be renamed. -/
theorem exists_renamed {dev : Text} (h : pySplit line = dev :: "/home".toList :: words) (hwords : words ≠ [])
    (hfirst : ∀ c ∈ line.head?, isSpace c = false) : ∃ line', Renamed line line' := by
  obtain ⟨lead, rest, rfl, hlead, hne, hdev, hrest, hnext⟩ := wordsBy_eq_cons h
  obtain rfl : lead = [] := by
    cases lead with
    | nil => rfl
    | cons c lead =>
      have hc : isSpace c = false := hfirst c rfl
      rw [hlead c List.mem_cons_self] at hc
      cases hc
  obtain ⟨gap, after, rfl, hgap, -, hhome, hafter, hlast⟩ := wordsBy_eq_cons hnext
  refine ⟨_, dev, gap, after, hne, hdev, ?_, hgap, ?_, by simp, rfl⟩
  · rintro rfl
    have hslash : isSpace '/' = true := hrest '/' rfl
    cases hslash
  · cases after with
    | nil => exact absurd hlast.symm (by simpa using hwords)
    | cons c after => exact hafter c rfl

theorem renameHome_eq (h : Renamed line line') : renameHome line = line' := by
  obtain ⟨device, gap, after, hne, hdevice, hgap, hspace, hafter, rfl, rfl⟩ := h
  have hdevice' : ∀ c ∈ device, (!isSpace c) = true := fun c hc => by simp [hdevice c hc]
  have hstop : ∀ t, (gap ++ t).takeWhile (!isSpace ·) = [] ∧ (gap ++ t).dropWhile (!isSpace ·) = gap ++ t := by
    obtain ⟨c, gap, rfl⟩ := List.exists_cons_of_ne_nil hgap
    have hc := hspace c List.mem_cons_self
    simp [hc]
  have hhome : ("/home".toList ++ after).takeWhile isSpace = [] ∧
      ("/home".toList ++ after).dropWhile isSpace = "/home".toList ++ after := ⟨rfl, rfl⟩
  simp only [renameHome, List.append_assoc, List.takeWhile_append_of_pos hdevice',
    List.dropWhile_append_of_pos hdevice', (hstop _).1, (hstop _).2, List.append_nil,
    List.takeWhile_append_of_pos hspace, List.dropWhile_append_of_pos hspace, hhome.1, hhome.2,
    List.drop_left]
  rw [if_pos]
  simp [hne, hgap, hafter]

theorem renameHome_cases (line : Text) : renameHome line = line ∨ Renamed line (renameHome line) := by
  rw [renameHome]
  split
  case isFalse => exact .inl rfl
  case isTrue h =>
    simp only [Bool.and_eq_true, bne_iff_ne, ne_eq, List.isPrefixOf_iff_prefix] at h
    obtain ⟨⟨⟨hdevice, hgap⟩, after, hafter⟩, hspace⟩ := h
    refine .inr ⟨_, _, _, hdevice, fun c hc => ?_, hgap, fun c hc => ?_, hspace, ?_, rfl⟩
    · simpa using List.mem_takeWhile_imp hc
    · exact List.mem_takeWhile_imp hc
    · rw [← hafter, List.drop_left, List.append_assoc, hafter, List.append_assoc,
        List.takeWhile_append_dropWhile, List.takeWhile_append_dropWhile]

/-- What was renamed is not renamed again. -/
theorem renameHome_renameHome (line : Text) : renameHome (renameHome line) = renameHome line := by
  rcases renameHome_cases line with h | h
  · rw [h, h]
  · obtain ⟨device, rest, -, hwords, -⟩ := h.fields
    rcases renameHome_cases (renameHome line) with h' | h'
    · exact h'
    · obtain ⟨device', rest', hwords', -⟩ := h'.fields
      rw [hwords] at hwords'
      simp at hwords'

/-! ## What becomes of the lines -/

/-- A newline is added to a line only where it is the last and has none. -/
def Ended (line : Text) (after : List Text) (line' : Text) : Prop :=
  Closed line' ∧ (line' = line ∨ after = [] ∧ line' = line ++ "\n".toList)

/-- The root entry behind its comment, and every other line as it is. -/
def commented (line : Text) : List Text :=
  if isEntry isRoot line then [comment, "# ".toList ++ line] else [line]

/-- The only home entry may be renamed, and moved behind the only entry of `/var`. -/
inductive Arranged (rename : Text → Text → Prop) (canonical : Bool) (lines : List Text) :
    List Text → Prop
  | same : (canonical = true → ∀ l ∈ lines, isEntry isHome l = false) →
      Arranged rename canonical lines lines
  | renamed {before after : List Text} {home home' : Text} : canonical = true →
      lines = before ++ home :: after → isEntry isHome home = true →
      (∀ l ∈ before ++ after, isEntry isHome l = false) →
      (lines.filter (isEntry isVar)).length ≤ 1 → (∀ l ∈ after, isEntry isVar l = false) →
      rename home home' → Arranged rename canonical lines (before ++ home' :: after)
  | moved {before between after : List Text} {home var home' var' : Text} : canonical = true →
      lines = before ++ home :: (between ++ var :: after) → isEntry isHome home = true →
      (∀ l ∈ before ++ (between ++ var :: after), isEntry isHome l = false) → isEntry isVar var = true →
      (∀ l ∈ before ++ home :: (between ++ after), isEntry isVar l = false) →
      rename home home' → Ended var after var' →
      Arranged rename canonical lines (before ++ between ++ var' :: home' :: after)

theorem Arranged.mono {rename rename' : Text → Text → Prop} {canonical : Bool} {lines arranged : List Text}
    (h : Arranged rename canonical lines arranged) (hmono : ∀ home home', rename home home' → rename' home home') :
    Arranged rename' canonical lines arranged := by
  cases h with
  | same hnone => exact .same hnone
  | renamed hc heq hhome hother hone hafter hnew =>
    exact .renamed hc heq hhome hother hone hafter (hmono _ _ hnew)
  | moved hc heq hhome hother hvar hone hnew hended =>
    exact .moved hc heq hhome hother hvar hone (hmono _ _ hnew) hended

/-- All entries have four fields. -/
def WellFormed (lines : List Text) : Prop := ∀ l ∈ lines, ∀ words, fields? l = some words → 4 ≤ words.length

variable {lines lines' ls : List Text} {q : List Text → Bool}

theorem entries_filter (p : List Text → Bool) (lines : List Text) :
    (entries lines).filter (fun e => p e.2) = indexed (fun l => (fields? l).filter p) lines :=
  filter_indexed p lines

theorem isSome_filter (p : List Text → Bool) (line : Text) :
    ((fields? line).filter p).isSome = isEntry p line := by
  rw [isEntry]
  cases fields? line <;> simp [Option.filter, apply_ite]

theorem isEntry_eq_false : isEntry p line = false ↔ (fields? line).filter p = none := by
  rw [← isSome_filter, Option.isSome_eq_false_iff, Option.isNone_iff_eq_none]

/-- As many entries are found as there are lines of them. -/
theorem length_entries (p : List Text → Bool) (lines : List Text) :
    ((entries lines).filter fun e => p e.2).length = (lines.filter (isEntry p)).length := by
  rw [entries_filter, ← @List.length_map _ _ (indexed _ _) Prod.snd, map_snd_indexed]
  induction lines with
  | nil => rfl
  | cons l lines ih => grind [isSome_filter]

theorem any_short : (entries lines).any (fun e => decide (e.2.length < 4)) = false ↔ WellFormed lines := by
  have hmap : (entries lines).any (fun e => decide (e.2.length < 4)) =
      (lines.filterMap fields?).any fun words => decide (words.length < 4) := by
    rw [← map_snd_indexed, List.any_map]
    rfl
  rw [hmap, List.any_eq_false, WellFormed]
  simp only [List.mem_filterMap, decide_eq_true_eq, Nat.not_lt]
  exact ⟨fun h l hl words hw => h words ⟨l, hl, hw⟩, fun h words ⟨l, hl, hw⟩ => h l hl words hw⟩

theorem Ended.fields?_eq (h : Ended line ls line') : fields? line' = fields? line := by
  rcases h.2 with rfl | ⟨-, rfl⟩
  · rfl
  · exact fields?_newline line

theorem Ended.isEntry_eq (h : Ended line ls line') (p : List Text → Bool) :
    isEntry p line' = isEntry p line := by
  rw [isEntry, h.fields?_eq, isEntry]

theorem isEntry_of_disjoint (hpq : ∀ words, p words = true → q words = false)
    (h : isEntry p line = true) : isEntry q line = false := by
  cases hfields : fields? line with
  | none => rw [isEntry, hfields, Option.any_none]
  | some words =>
    rw [isEntry, hfields, Option.any_some] at h ⊢
    exact hpq words h

theorem isRoot_of_isHome (words : List Text) (h : isHome words = true) : isRoot words = false := by
  rw [isHome, Bool.or_eq_true, beq_iff_eq, beq_iff_eq] at h
  rcases h with h | h <;> rw [isRoot, h] <;> decide

theorem isVar_of_isHome (words : List Text) (h : isHome words = true) : isVar words = false := by
  rw [isHome, Bool.or_eq_true, beq_iff_eq, beq_iff_eq] at h
  rcases h with h | h <;> rw [isVar, h] <;> decide

theorem isRoot_of_isVar (words : List Text) (h : isVar words = true) : isRoot words = false := by
  rw [isVar, beq_iff_eq] at h
  rw [isRoot, h]
  decide

/-- The fields of a home entry that is written. -/
theorem fields?_renameHome (line : Text) : fields? (renameHome line) = fields? line ∨ ∃ device rest,
    fields? line = some (device :: "/home".toList :: rest) ∧
      fields? (renameHome line) = some (device :: "/var/home".toList :: rest) := by
  rcases renameHome_cases line with h | h
  · exact .inl (by rw [h])
  · obtain ⟨device, rest, hwords, hwords', hactive⟩ := h.fields
    rw [fields?, fields?, hactive, hwords, hwords']
    cases isActive line with
    | false => exact .inl rfl
    | true => exact .inr ⟨device, rest, rfl, rfl⟩

theorem isHome_renameHome (line : Text) : isEntry isHome (renameHome line) = isEntry isHome line := by
  rcases fields?_renameHome line with h | ⟨device, rest, hwords, hwords'⟩
  · rw [isEntry, h, isEntry]
  · rw [isEntry, hwords', isEntry, hwords]
    rfl

/-! ## The edits -/

theorem set_length_append {α : Type} (before after : List α) (x y : α) :
    (before ++ x :: after).set before.length y = before ++ y :: after := by
  simp

theorem getD_length_append {α : Type} (before after : List α) (x d : α) :
    (before ++ x :: after).getD before.length d = x := by
  simp

theorem commented_of_not_root (h : isEntry isRoot line = false) : (commented line).flatten = line := by
  rw [commented, if_neg (by simp [h]), List.flatten_singleton]

/-- The root entry is commented out wherever it stands. -/
theorem commentRoot_eq_ok {bootOptions : List (List Text)}
    (hone : ((entries lines).filter fun e => isRoot e.2).length ≤ 1)
    (h : commentRoot ((entries lines).filter fun e => isRoot e.2) bootOptions lines = .ok lines') :
    lines' = lines.map fun l => (commented l).flatten := by
  have hkeep : ∀ ls : List Text, (∀ l ∈ ls, (fields? l).filter isRoot = none) →
      ls.map (fun l => (commented l).flatten) = ls := by
    intro ls hls
    conv_rhs => rw [← List.map_id ls]
    exact List.map_congr_left fun l hl => commented_of_not_root (isEntry_eq_false.mpr (hls l hl))
  rw [entries_filter] at hone h
  match hroots : indexed (fun l => (fields? l).filter isRoot) lines with
  | [] =>
    rw [hroots, commentRoot, Except.ok.injEq] at h
    rw [← h, hkeep lines (indexed_eq_nil.mp hroots)]
  | [(index, words)] =>
    obtain ⟨before, root, after, rfl, rfl, hroot, hother⟩ := indexed_eq_singleton.mp hroots
    obtain ⟨hbefore, hafter⟩ := List.forall_mem_append.mp hother
    have hentry : isEntry isRoot root = true := by rw [← isSome_filter, hroot, Option.isSome_some]
    rw [hroots, commentRoot] at h
    split at h
    case isFalse => cases h
    case isTrue =>
      rw [Except.ok.injEq, getD_length_append, set_length_append] at h
      rw [← h, List.map_append, List.map_cons, hkeep before hbefore, hkeep after hafter, commented,
        if_pos hentry]
      simp
  | _ :: _ :: _ =>
    rw [hroots] at hone
    simp at hone

theorem rdropWhile_body (h : Body line) : rstripNewline line = line := by
  rw [rstripNewline, List.rdropWhile_eq_self_iff]
  intro hne hlast
  have hend := h _ (List.getLast_mem hne)
  rw [beq_iff_eq.mp hlast] at hend
  cases hend

/-- What is put after a line without its newlines gives it one. -/
theorem ended_rstripNewline (h : Lines (line :: ls)) : Ended line ls (rstripNewline line ++ "\n".toList) := by
  cases h with
  | last hne h => exact ⟨⟨line, h, by rw [rdropWhile_body h]; rfl⟩, .inr ⟨rfl, by rw [rdropWhile_body h]⟩⟩
  | cons hl hls =>
    obtain ⟨body, hbody, rfl⟩ := hl
    have hstrip : rstripNewline (body ++ ['\n']) = body := by
      rw [rstripNewline, List.rdropWhile_concat_pos _ _ _ (by decide)]
      exact rdropWhile_body hbody
    rw [hstrip]
    exact ⟨⟨body, hbody, rfl⟩, .inl rfl⟩

/-- The home entry as it is written. -/
def Rewritten (home home' : Text) : Prop := home' = renameHome home

/-- The only entry is found where it stands. -/
theorem entries_eq_singleton {index : Nat} {words : List Text}
    (h : (entries lines).filter (fun e => p e.2) = [(index, words)]) : ∃ before line after,
      lines = before ++ line :: after ∧ index = before.length ∧ isEntry p line = true ∧
        ∀ l ∈ before ++ after, isEntry p l = false := by
  rw [entries_filter] at h
  obtain ⟨before, line, after, hlines, hindex, hline, hother⟩ := indexed_eq_singleton.mp h
  refine ⟨before, line, after, hlines, hindex, ?_, fun l hl => isEntry_eq_false.mpr (hother l hl)⟩
  rw [← isSome_filter, hline, Option.isSome_some]

theorem entries_eq_nil (h : (entries lines).filter (fun e => p e.2) = []) :
    ∀ l ∈ lines, isEntry p l = false := by
  rw [entries_filter, indexed_eq_nil] at h
  exact fun l hl => isEntry_eq_false.mpr (h l hl)

/-- Where two lines of a list stand to each other. -/
theorem split_twice {α : Type} {xs ys us vs : List α} {x y : α} (hne : x ≠ y)
    (h : xs ++ x :: ys = us ++ y :: vs) :
    (∃ between, us = xs ++ x :: between ∧ ys = between ++ y :: vs ∧ xs.length < us.length) ∨
      ∃ between, xs = us ++ y :: between ∧ vs = between ++ x :: ys ∧ ¬ xs.length < us.length := by
  rcases List.append_eq_append_iff.mp h with ⟨between, rfl, hrest⟩ | ⟨between, rfl, hrest⟩
  · cases between with
    | nil => exact absurd (List.cons.inj hrest).1 hne
    | cons z between =>
      obtain ⟨rfl, rfl⟩ := List.cons.inj hrest
      exact .inl ⟨between, rfl, rfl, by simp⟩
  · cases between with
    | nil => exact absurd (List.cons.inj hrest).1.symm hne
    | cons z between =>
      obtain ⟨rfl, rfl⟩ := List.cons.inj hrest
      exact .inr ⟨between, rfl, rfl, by simp⟩

/-- What `moveHome` does to lines that `g` may have edited before: the place of a home entry that is
moved stays empty. -/
inductive HomeEdit (g : Text → Text) (lines : List Text) : List Text → Prop
  | same : (∀ l ∈ lines, isEntry isHome l = false) → HomeEdit g lines (lines.map g)
  | renamed {before after : List Text} {home : Text} : lines = before ++ home :: after →
      isEntry isHome home = true → (∀ l ∈ before ++ after, isEntry isHome l = false) →
      (lines.filter (isEntry isVar)).length ≤ 1 → (∀ l ∈ after, isEntry isVar l = false) →
      HomeEdit g lines (before.map g ++ renameHome home :: after.map g)
  | moved {before between after : List Text} {home var : Text} :
      lines = before ++ home :: (between ++ var :: after) → isEntry isHome home = true →
      (∀ l ∈ before ++ (between ++ var :: after), isEntry isHome l = false) → isEntry isVar var = true →
      (∀ l ∈ before ++ home :: (between ++ after), isEntry isVar l = false) →
      HomeEdit g lines (before.map g ++ [] :: between.map g ++
        (rstripNewline var ++ "\n".toList ++ renameHome home) :: after.map g)

theorem moveHome_cases {g : Text → Text} (hg : ∀ l, isEntry isRoot l = false → g l = l)
    (h : moveHome ((entries lines).filter fun e => isHome e.2) ((entries lines).filter fun e => isVar e.2)
      (lines.map g) = .ok lines') : HomeEdit g lines lines' := by
  match hhomes : (entries lines).filter fun e => isHome e.2 with
  | [] =>
    rw [hhomes, moveHome, Except.ok.injEq] at h
    exact h ▸ .same (entries_eq_nil hhomes)
  | _ :: _ :: _ => simp [hhomes, moveHome] at h
  | [(index, words)] =>
    obtain ⟨before, home, after, hlines, rfl, hhome, hother⟩ := entries_eq_singleton hhomes
    have hghome : g home = home := hg _ (isEntry_of_disjoint isRoot_of_isHome hhome)
    have hvar : isEntry isVar home = false := isEntry_of_disjoint isVar_of_isHome hhome
    have hget : (lines.map g).getD before.length [] = home := by
      rw [hlines, List.map_append, List.map_cons, ← @List.length_map _ _ before g, getD_length_append, hghome]
    have hset : ∀ y, (lines.map g).set before.length y = before.map g ++ y :: after.map g := by
      intro y
      rw [hlines, List.map_append, List.map_cons, ← @List.length_map _ _ before g, set_length_append]
    rw [hhomes, moveHome] at h
    match hvars : (entries lines).filter fun e => isVar e.2 with
    | _ :: _ :: _ => simp [hvars] at h
    | [] =>
      have hnone := entries_eq_nil hvars
      rw [hvars, if_neg (by simp)] at h
      simp only [hget, hset, Except.ok.injEq] at h
      refine h ▸ .renamed hlines hhome hother ?_ fun l hl => hnone l (by simp [hlines, hl])
      rw [List.filter_eq_nil_iff.mpr fun l hl => by simp [hnone l hl]]
      exact Nat.zero_le 1
    | [(first, words')] =>
      obtain ⟨before', var, after', hlines', rfl, hvar', hother'⟩ := entries_eq_singleton hvars
      have hone : (lines.filter (isEntry isVar)).length ≤ 1 := by
        rw [← length_entries, hvars]
        exact Nat.le_refl 1
      have hne : home ≠ var := by
        rintro rfl
        rw [hvar] at hvar'
        cases hvar'
      rw [hvars, if_neg (by simp)] at h
      simp only [hget, hset] at h
      rcases split_twice hne (hlines.symm.trans hlines') with
        ⟨between, rfl, rfl, hlt⟩ | ⟨between, rfl, rfl, hlt⟩
      · have hgvar : g var = var := hg _ (isEntry_of_disjoint isRoot_of_isVar hvar')
        have hstart : before.map g ++ [] :: (between ++ var :: after').map g =
            (before.map g ++ [] :: between.map g) ++ var :: after'.map g := by
          simp [hgvar]
        have hlength : (before ++ home :: between).length = (before.map g ++ [] :: between.map g).length := by
          simp
        rw [if_pos hlt, hstart, hlength, getD_length_append, set_length_append, Except.ok.injEq] at h
        exact h ▸ .moved hlines hhome hother hvar' (by simpa using hother')
      · rw [if_neg hlt, Except.ok.injEq] at h
        exact h ▸ .renamed hlines hhome hother hone fun l hl => hother' l (by simp [hl])

/-- Among lines that end in newlines, the lines that are moved stay lines. -/
theorem HomeEdit.arranged {g : Text → Text} (h : HomeEdit g lines lines')
    (hg : ∀ l, isEntry isRoot l = false → g l = l) (hls : Lines lines) :
    ∃ arranged, Arranged Rewritten true lines arranged ∧ lines'.flatten = (arranged.map g).flatten := by
  have hgnew : ∀ home, isEntry isHome home = true → g (renameHome home) = renameHome home := fun home hhome =>
    hg _ (isEntry_of_disjoint isRoot_of_isHome (by rw [isHome_renameHome, hhome]))
  cases h with
  | same hnone => exact ⟨lines, .same fun _ => hnone, rfl⟩
  | renamed hlines hhome hother hone hafter =>
    exact ⟨_, .renamed rfl hlines hhome hother hone hafter rfl, by simp [hgnew _ hhome]⟩
  | @moved before between after home var hlines hhome hother hvar hother' =>
    have hsplit : before ++ home :: (between ++ var :: after) = (before ++ home :: between) ++ var :: after := by
      simp
    have hended : Ended var after (rstripNewline var ++ "\n".toList) := by
      rw [hlines, hsplit, lines_append_cons] at hls
      exact ended_rstripNewline hls.2
    have hgend := hg _ (isEntry_of_disjoint isRoot_of_isVar ((hended.isEntry_eq isVar).trans hvar))
    refine ⟨_, .moved rfl hlines hhome hother hvar hother' rfl hended, ?_⟩
    rw [List.map_append, List.map_append, List.map_cons, List.map_cons, hgend, hgnew _ hhome]
    simp

/-! ## The lines that are written -/

variable {text t : Text} {bootOptions : List (List Text)} {canonical : Bool} {arranged : List Text}

/-- What the entries and the boot options passed, and the edits that were made. -/
theorem correctedFstab_edited (h : correctedFstab text bootOptions canonical = .ok t) :
    WellFormed (splitlinesKeep text) ∧ ((splitlinesKeep text).filter (isEntry isRoot)).length ≤ 1 ∧
      ∃ edited, t = edited.flatten ∧
        if canonical then HomeEdit (fun l => (commented l).flatten) (splitlinesKeep text) edited
        else edited = (splitlinesKeep text).map fun l => (commented l).flatten := by
  simp only [correctedFstab, Except.check_eq_ok, Except.bind_eq_ok, Except.ok.injEq, Bool.not_eq_true,
    any_short] at h
  obtain ⟨hformed, hone, lines, hroot, edited, hhome, rfl⟩ := h
  have hroots := Nat.le_of_not_lt hone
  rw [commentRoot_eq_ok hroots hroot] at hhome
  rw [length_entries] at hroots
  refine ⟨hformed, hroots, edited, rfl, ?_⟩
  cases canonical with
  | false => exact (Except.ok.inj hhome).symm
  | true => exact moveHome_cases (fun _ => commented_of_not_root) hhome

/-- What the entries and the boot options passed, and what is written. -/
theorem correctedFstab_cases (hbreaks : NewlineBreaks text) (h : correctedFstab text bootOptions canonical = .ok t) :
    WellFormed (splitlinesKeep text) ∧ ((splitlinesKeep text).filter (isEntry isRoot)).length ≤ 1 ∧
      ∃ arranged, Arranged Rewritten canonical (splitlinesKeep text) arranged ∧
        t = (arranged.flatMap commented).flatten := by
  obtain ⟨hformed, hroots, edited, rfl, hedited⟩ := correctedFstab_edited h
  have hflat : ∀ ls : List Text, (ls.map fun l => (commented l).flatten).flatten = (ls.flatMap commented).flatten := by
    intro ls
    rw [List.flatMap_def, List.flatten_flatten, List.map_map]
    rfl
  refine ⟨hformed, hroots, ?_⟩
  cases canonical with
  | false => exact ⟨_, .same (by simp), hedited ▸ hflat _⟩
  | true =>
    obtain ⟨arranged, harranged, hlines⟩ := HomeEdit.arranged hedited (fun _ => commented_of_not_root)
      (lines_splitlinesKeep hbreaks)
    exact ⟨arranged, harranged, hlines.trans (hflat arranged)⟩

theorem closed_comment : Closed comment :=
  ⟨comment.dropLast, forall_mem_of_all (by decide +kernel), by decide +kernel⟩

/-- A renamed line ends as it did. -/
theorem lines_renameHome (h : Lines (line :: ls)) : Lines (renameHome line :: ls) := by
  rcases renameHome_cases line with he | ⟨device, gap, after, -, -, -, -, hafter, hline, hline'⟩
  · rwa [he]
  · have hne : after ≠ [] := by
      rintro rfl
      cases hafter
    obtain ⟨after, c, rfl⟩ := (List.eq_nil_or_concat after).resolve_left hne
    rw [hline'] at *
    rw [hline] at h
    rw [List.concat_eq_append, ← List.append_assoc] at h ⊢
    refine h.start fun hbody => ?_
    simp only [Body, List.forall_mem_append] at hbody ⊢
    exact ⟨⟨hbody.1.1, forall_mem_of_all (by decide)⟩, hbody.2⟩

theorem lines_arranged (h : Arranged Rewritten canonical lines arranged) (hlines : Lines lines) :
    Lines arranged := by
  cases h with
  | same => exact hlines
  | renamed _ heq _ _ _ _ hnew =>
    rw [heq, lines_append_cons] at hlines
    rw [lines_append_cons, hnew]
    exact ⟨hlines.1, lines_renameHome hlines.2⟩
  | @moved before between after home var _ _ _ heq _ _ _ _ hnew hended =>
    have hsplit : before ++ home :: (between ++ var :: after) = (before ++ home :: between) ++ var :: after := by
      simp
    rw [heq, hsplit, lines_append_cons, List.forall_mem_append, List.forall_mem_cons] at hlines
    obtain ⟨⟨hbefore, hhome, hbetween⟩, hvar⟩ := hlines
    rw [lines_append_cons, hnew]
    exact ⟨List.forall_mem_append.mpr ⟨hbefore, hbetween⟩,
      .cons hended.1 (lines_renameHome (.cons hhome hvar.head_tail.2))⟩

theorem lines_commented (h : Lines lines) : Lines (lines.flatMap commented) := by
  have hmark : ∀ l, Body l → Body ("# ".toList ++ l) := fun l hl =>
    List.forall_mem_append.mpr ⟨forall_mem_of_all (by decide), hl⟩
  induction h with
  | nil => exact .nil
  | @last l hne h =>
    rw [List.flatMap_singleton, commented]
    split
    · exact .cons closed_comment (.last (by simp) (hmark l h))
    · exact .last hne h
  | @cons l ls hl hls ih =>
    rw [List.flatMap_cons, commented]
    split
    · obtain ⟨body, hbody, rfl⟩ := hl
      exact .cons closed_comment (.cons ⟨_, hmark body hbody, by simp⟩ ih)
    · exact .cons hl ih

/-- The home entry as it was, or with another mount point and nothing else changed. -/
def Renames (home home' : Text) : Prop := home' = home ∨ Renamed home home'

/-- **Nothing is lost and nothing is there twice.** The lines that are written are the lines that were
read, with the root entry behind its comment and the only home entry where it was or behind `/var`. -/
theorem correctedFstab_lines (hbreaks : NewlineBreaks text) (h : correctedFstab text bootOptions canonical = .ok t) :
    ((splitlinesKeep text).filter (isEntry isRoot)).length ≤ 1 ∧
      ∃ arranged, Arranged Renames canonical (splitlinesKeep text) arranged ∧
        splitlinesKeep t = arranged.flatMap commented := by
  obtain ⟨-, hroots, arranged, harranged, rfl⟩ := correctedFstab_cases hbreaks h
  have hlines := lines_arranged harranged (lines_splitlinesKeep hbreaks)
  refine ⟨hroots, arranged, harranged.mono fun home home' hnew => ?_,
    splitlinesKeep_flatten (lines_commented hlines)⟩
  rw [Renames, hnew]
  exact renameHome_cases home

/-- A root entry, a home entry that begins with its device, and an entry of `/var`. -/
def sampleFstab : Text :=
  "UUID=1 / btrfs subvol=root 0 0\nUUID=1 /home btrfs subvol=home 0 0\nUUID=2 /var ext4 defaults 0 2".toList

def sampleOptions : List (List Text) := [["root=UUID=1".toList, "rootflags=subvol=root".toList]]

def sampleCorrected : Text := comment ++
  "# UUID=1 / btrfs subvol=root 0 0\nUUID=2 /var ext4 defaults 0 2\nUUID=1 /var/home btrfs subvol=home 0 0\n".toList

theorem sampleFstab_breaks : NewlineBreaks sampleFstab := forall_mem_of_all (by decide +kernel)

theorem sampleFstab_corrected : correctedFstab sampleFstab sampleOptions true = .ok sampleCorrected := by
  decide +kernel

theorem correctedFstab_lines_sample : ∃ arranged, Arranged Renames true (splitlinesKeep sampleFstab) arranged ∧
    splitlinesKeep sampleCorrected = arranged.flatMap commented :=
  (correctedFstab_lines sampleFstab_breaks sampleFstab_corrected).2

end Fstab

end Azurefin
