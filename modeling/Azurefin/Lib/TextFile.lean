import Azurefin.Lib.Python

/-!
# Text files

UTF-8, the line ends of `read_text`, and `splitlines`. Lines without line ends survive being written
and read, and a line of the text that is written is a line of the text that is read.
-/

/-! ## Encoding -/

/-- `text.encode()` -/
def utf8 (t : Text) : Bytes := t.flatMap String.utf8EncodeChar

/-- `data.decode()` -/
def decodeUtf8 (data : Bytes) : Except PyError Text :=
  match data.toByteArray.utf8Decode? with
  | some t => .ok t.toList
  | none => .error .unicodeDecodeError

theorem decodeUtf8_utf8 (t : Text) : decodeUtf8 (utf8 t) = .ok t := by
  have h : (utf8 t).toByteArray.utf8Decode? = some t.toArray := List.utf8Decode?_utf8Encode
  rw [decodeUtf8, h]

/-! ## Line ends -/

/-- `text.replace('\r\n', '\n')` -/
def joinLineEnds : Text → Text
  | '\r' :: '\n' :: t => '\n' :: joinLineEnds t
  | c :: t => c :: joinLineEnds t
  | [] => []

/-- All line ends of a file are `'\n'` in what is read. -/
def universalNewlines (t : Text) : Text :=
  (joinLineEnds t).map fun c => if c = '\r' then '\n' else c

/-- `path.read_text()` of a file with these bytes -/
def readText (data : Bytes) : Except PyError Text := (decodeUtf8 data).map universalNewlines

/-- Where `splitlines` splits. -/
def isLineEnd (c : Char) : Bool :=
  ['\n', '\r', '\x0b', '\x0c', '\x1c', '\x1d', '\x1e', '\x85', '\u2028', '\u2029'].contains c

/-- `text.splitlines()` -/
def splitlines (t : Text) : List Text :=
  let lines := (joinLineEnds t).splitOnP isLineEnd
  if lines.getLast? = some [] then lines.dropLast else lines

variable {l t u : Text} {c : Char}

theorem isLineEnd_of_isSpace (h : isSpace c = false) : isLineEnd c = false := by
  have hspace : ∀ d ∈ ['\n', '\r', '\x0b', '\x0c', '\x1c', '\x1d', '\x1e', '\x85', '\u2028', '\u2029'],
      isSpace d = true := forall_mem_of_all (by decide)
  rw [Bool.eq_false_iff] at h ⊢
  exact fun hc => h (hspace c (by simpa [isLineEnd] using hc))

theorem joinLineEnds_cons (h : c ≠ '\r' ∨ t.head? ≠ some '\n') :
    joinLineEnds (c :: t) = c :: joinLineEnds t := by
  rw [joinLineEnds]
  rintro t' rfl rfl
  simp at h

theorem joinLineEnds_append (h : '\r' ∉ t) : joinLineEnds (t ++ u) = t ++ joinLineEnds u := by
  induction t with
  | nil => rfl
  | cons c t ih =>
    have hc : c ≠ '\r' := fun he => h (he ▸ List.mem_cons_self)
    rw [List.cons_append, joinLineEnds_cons (.inl hc), ih (List.not_mem_of_not_mem_cons h),
      List.cons_append]

theorem joinLineEnds_eq_self (h : '\r' ∉ t) : joinLineEnds t = t := by
  simpa [joinLineEnds] using joinLineEnds_append (u := []) h

/-- A line end stays, although one before it may be joined to it. -/
theorem joinLineEnds_append_cons (t u : Text) :
    ∃ p, joinLineEnds (t ++ '\n' :: u) = p ++ '\n' :: joinLineEnds u := by
  have hstart : joinLineEnds ('\n' :: u) = '\n' :: joinLineEnds u := joinLineEnds_cons (.inl (by decide))
  induction t using joinLineEnds.induct with
  | case1 t ih =>
    obtain ⟨p, hp⟩ := ih
    refine ⟨'\n' :: p, ?_⟩
    rw [List.cons_append, List.cons_append, joinLineEnds, hp, List.cons_append]
  | case2 c t hpair ih =>
    obtain ⟨p, hp⟩ := ih
    by_cases hend : c = '\r' ∧ t = []
    · obtain ⟨rfl, rfl⟩ := hend
      exact ⟨[], rfl⟩
    · refine ⟨c :: p, ?_⟩
      rw [List.cons_append, joinLineEnds_cons, hp, List.cons_append]
      cases t with
      | nil => exact .inl fun hc => hend ⟨hc, rfl⟩
      | cons d t =>
        by_cases hc : c = '\r'
        · exact .inr fun hd => hpair t hc (by rw [Option.some.inj hd])
        · exact .inl hc
  | case3 => exact ⟨[], hstart⟩

theorem universalNewlines_eq_self (h : '\r' ∉ t) : universalNewlines t = t := by
  rw [universalNewlines, joinLineEnds_eq_self h]
  conv_rhs => rw [← List.map_id t]
  refine List.map_congr_left fun c hc => ?_
  have hne : c ≠ '\r' := fun he => h (he ▸ hc)
  rw [if_neg hne, id_eq]

theorem universalNewlines_append (h : '\r' ∉ t) :
    universalNewlines (t ++ u) = t ++ universalNewlines u := by
  have ht := universalNewlines_eq_self h
  rw [universalNewlines, joinLineEnds_eq_self h] at ht
  rw [universalNewlines, joinLineEnds_append h, List.map_append, ht, universalNewlines]

theorem universalNewlines_cons (u : Text) :
    universalNewlines ('\n' :: u) = '\n' :: universalNewlines u :=
  universalNewlines_append (t := ['\n']) (by decide)

theorem universalNewlines_append_cons (t u : Text) :
    ∃ p, universalNewlines (t ++ '\n' :: u) = p ++ '\n' :: universalNewlines u := by
  obtain ⟨p, hp⟩ := joinLineEnds_append_cons t u
  refine ⟨p.map fun c => if c = '\r' then '\n' else c, ?_⟩
  rw [universalNewlines, hp, List.map_append, List.map_cons, if_neg (by decide), universalNewlines]

theorem not_mem_universalNewlines (t : Text) : '\r' ∉ universalNewlines t := by
  intro h
  obtain ⟨c, -, hc⟩ := List.mem_map.mp h
  split at hc
  case isTrue => cases hc
  case isFalse hne => exact hne hc

theorem readText_utf8 (t : Text) : readText (utf8 t) = .ok (universalNewlines t) := by
  rw [readText, decodeUtf8_utf8]
  rfl

/-! ## Lines -/

theorem not_mem_of_isLineEnd (h : ∀ c ∈ l, isLineEnd c = false) {d : Char} (hd : isLineEnd d = true) :
    d ∉ l := by
  intro hl
  rw [h d hl] at hd
  cases hd

theorem not_mem_flatMap {ls : List Text} (h : ∀ l ∈ ls, ∀ c ∈ l, isLineEnd c = false) :
    '\r' ∉ ls.flatMap fun l => l ++ ['\n'] := by
  intro hmem
  obtain ⟨l, hl, hc⟩ := List.mem_flatMap.mp hmem
  rcases List.mem_append.mp hc with hc | hc
  · exact not_mem_of_isLineEnd (h l hl) (by decide) hc
  · simp at hc

/-- Lines that are written are read as they are. -/
theorem universalNewlines_flatMap {ls : List Text} (h : ∀ l ∈ ls, ∀ c ∈ l, isLineEnd c = false) :
    universalNewlines (ls.flatMap fun l => l ++ ['\n']) = ls.flatMap fun l => l ++ ['\n'] :=
  universalNewlines_eq_self (not_mem_flatMap h)

/-- Lines that are written each with a line end are the lines that are read. -/
theorem splitlines_flatMap {ls : List Text} (h : ∀ l ∈ ls, ∀ c ∈ l, isLineEnd c = false) :
    splitlines (ls.flatMap fun l => l ++ ['\n']) = ls := by
  have hsplit : ∀ ls : List Text, (∀ l ∈ ls, ∀ c ∈ l, isLineEnd c = false) →
      (ls.flatMap fun l => l ++ ['\n']).splitOnP isLineEnd = ls ++ [[]] := by
    intro ls
    induction ls with
    | nil => intro; rfl
    | cons l ls ih =>
      intro h
      rw [List.flatMap_cons, List.append_assoc, List.singleton_append,
        List.splitOnP_append_cons_of_forall_mem (h l List.mem_cons_self) '\n' (by decide),
        ih fun m hm => h m (List.mem_cons_of_mem _ hm), List.cons_append]
  simp only [splitlines, joinLineEnds_eq_self (not_mem_flatMap h), hsplit ls h, List.getLast?_concat, if_true,
    List.dropLast_concat]

/-- Only an empty line can be dropped at the end. -/
theorem mem_splitlines (h : l ∈ (joinLineEnds t).splitOnP isLineEnd) (hne : l ≠ []) :
    l ∈ splitlines t := by
  simp only [splitlines]
  split
  case isTrue hlast =>
    obtain ⟨ls, hls⟩ := List.getLast?_eq_some_iff.mp hlast
    rw [hls] at h ⊢
    rw [List.dropLast_concat]
    simpa [hne] using h
  case isFalse => exact h

/-- A line of a file is a line of what is read, where it has no line end of any kind. -/
theorem mem_splitlines_universalNewlines (hl : ∀ c ∈ l, isLineEnd c = false) (hne : l ≠ [])
    (h : l ∈ t.splitOn '\n') : l ∈ splitlines (universalNewlines t) := by
  refine mem_splitlines ?_ hne
  rw [joinLineEnds_eq_self (not_mem_universalNewlines t), ← @List.intercalate_splitOn _ t _ _ '\n']
  have hreturn : '\r' ∉ l := not_mem_of_isLineEnd hl (by decide)
  generalize t.splitOn '\n' = ls at h
  induction ls with
  | nil => cases h
  | cons m ls ih =>
    cases ls with
    | nil =>
      obtain rfl : l = m := by simpa using h
      rw [List.intercalate_singleton, universalNewlines_eq_self hreturn, List.splitOnP_eq_singleton hl]
      exact List.mem_singleton_self l
    | cons k ls =>
      rw [List.intercalate_cons_cons, List.append_assoc, List.singleton_append]
      rcases List.mem_cons.mp h with rfl | h
      · rw [universalNewlines_append hreturn, universalNewlines_cons,
          List.splitOnP_append_cons_of_forall_mem hl '\n' (by decide)]
        exact List.mem_cons_self
      · obtain ⟨p, hp⟩ := universalNewlines_append_cons m (List.intercalate ['\n'] (k :: ls))
        rw [hp, List.splitOnP_append_cons _ _ (by decide)]
        exact List.mem_append_right _ (ih h)
