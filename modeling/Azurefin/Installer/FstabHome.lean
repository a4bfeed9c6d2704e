import Azurefin.Installer.FstabAgain

/-!
# The home mount

Entries are found by their fields, but the mount point of the home entry is renamed by a pattern that
begins with the device. So the home mount ends up canonical exactly where no line of an entry of
`/home` begins with a space (`homeCanonical_iff`).
-/

namespace Azurefin

namespace Fstab

variable {lines arranged : List Text} {line text t : Text} {bootOptions : List (List Text)}
  {p : List Text → Bool}

def mountsAt (path : Text) (words : List Text) : Bool := mountPoint words == path

/-- The fields of the active entries. -/
def activeEntries (text : Text) : List (List Text) := (entries (splitlinesKeep text)).map Prod.snd

/-- No entry of `/home` is left, the home entry is there with the fields it had, and no entry of `/var`
stands behind it. -/
structure HomeCanonical (text t : Text) : Prop where
  renamed : ∀ words ∈ activeEntries t, mountPoint words ≠ "/home".toList
  kept : ∀ words ∈ activeEntries text, isHome words = true →
    (activeEntries t).filter (mountsAt "/var/home".toList) = [words.set 1 "/var/home".toList]
  behind : (splitlinesKeep t).Pairwise fun l m =>
    isEntry (mountsAt "/var/home".toList) l = true → isEntry isVar m = false

theorem mem_activeEntries {words : List Text} :
    words ∈ activeEntries text ↔ ∃ l ∈ splitlinesKeep text, fields? l = some words := by
  rw [activeEntries, entries, map_snd_indexed, List.mem_filterMap]

theorem filter_activeEntries (p : List Text → Bool) (text : Text) :
    (activeEntries text).filter p = ((splitlinesKeep text).filter (isEntry p)).filterMap fields? := by
  rw [activeEntries, entries, map_snd_indexed]
  induction splitlinesKeep text with
  | nil => rfl
  | cons l lines ih => grind [isEntry]

theorem isHome_of_mountsAt (words : List Text) (h : mountsAt "/home".toList words = true) :
    isHome words = true := by
  rw [isHome, Bool.or_eq_true]
  exact .inl h

theorem isHome_of_mountsAt_var (words : List Text) (h : mountsAt "/var/home".toList words = true) :
    isHome words = true := by
  rw [isHome, Bool.or_eq_true]
  exact .inr h

variable {words : List Text}

theorem fields?_eq_some (h : fields? line = some words) : isActive line = true ∧ pySplit line = words := by
  rw [fields?] at h
  split at h
  case isTrue hactive => exact ⟨hactive, Option.some.inj h⟩
  case isFalse => cases h

/-- The fields of a home entry that the pattern matches or that is canonical already. -/
theorem fields?_canonical (hfields : fields? line = some words) (hlength : 4 ≤ words.length)
    (hhome : isHome words = true)
    (hfirst : mountsAt "/home".toList words = true → ∀ c ∈ line.head?, isSpace c = false) :
    fields? (renameHome line) = some (words.set 1 "/var/home".toList) := by
  obtain ⟨hactive, hsplit⟩ := fields?_eq_some hfields
  match words, hlength with
  | device :: path :: rest, hlength =>
    have hset : (device :: path :: rest).set 1 "/var/home".toList = device :: "/var/home".toList :: rest := rfl
    rw [isHome, Bool.or_eq_true, beq_iff_eq, beq_iff_eq] at hhome
    rcases hhome with hpath | hpath
    · obtain rfl : path = "/home".toList := hpath
      have hrest : rest ≠ [] := by
        rintro rfl
        simp at hlength
      obtain ⟨line', hrenamed⟩ := exists_renamed hsplit hrest (hfirst rfl)
      obtain ⟨device', rest', hold, hnew, hactive'⟩ := hrenamed.fields
      rw [hsplit, List.cons.injEq, List.cons.injEq] at hold
      obtain ⟨rfl, -, rfl⟩ := hold
      rw [renameHome_eq hrenamed, fields?, hactive', hactive, if_pos rfl, hnew, hset]
    · obtain rfl : path = "/var/home".toList := hpath
      rcases fields?_renameHome line with hsame | ⟨device', rest', hold, -⟩
      · rw [hsame, hfields, hset]
      · rw [hfields] at hold
        simp at hold

/-- The pattern does not match a line that begins with a space. -/
theorem renameHome_of_space {c : Char} (hc : c ∈ line.head?) (hspace : isSpace c = true) :
    renameHome line = line := by
  rcases renameHome_cases line with h | ⟨device, gap, after, hne, hdevice, -, -, -, hline, -⟩
  · exact h
  · obtain ⟨d, device, rfl⟩ := List.exists_cons_of_ne_nil hne
    obtain rfl : d = c := by simpa [hline] using hc
    rw [hdevice d List.mem_cons_self] at hspace
    cases hspace

theorem isEntry_mono {q : List Text → Bool} (hpq : ∀ words, p words = true → q words = true)
    (h : isEntry p line = true) : isEntry q line = true := by
  cases hfields : fields? line with
  | none => simp [isEntry, hfields] at h
  | some words =>
    rw [isEntry, hfields, Option.any_some] at h ⊢
    exact hpq words h

/-- Only the home entry can be mounted where home entries are. -/
theorem filter_single {before after : List Text} {home : Text} (hp : ∀ words, p words = true → isHome words = true)
    (hother : ∀ l ∈ before ++ after, isEntry isHome l = false) :
    (before ++ home :: after).filter (isEntry p) = if isEntry p home then [home] else [] := by
  have hnil : ∀ ls : List Text, (∀ l ∈ ls, isEntry isHome l = false) → ls.filter (isEntry p) = [] := by
    intro ls hls
    refine List.filter_eq_nil_iff.mpr fun l hl hentry => ?_
    have hhome := hls l hl
    rw [isEntry_mono hp hentry] at hhome
    cases hhome
  rw [List.filter_append, List.filter_cons, hnil _ (List.forall_mem_append.mp hother).1,
    hnil _ (List.forall_mem_append.mp hother).2, List.nil_append]

theorem HomeSettled.pairwise (h : HomeSettled lines) :
    lines.Pairwise fun l m => isEntry isHome l = true → isEntry isVar m = false := by
  have hnever : ∀ ls : List Text, (∀ l ∈ ls, isEntry isHome l = false) →
      ∀ l ∈ ls, ∀ m, isEntry isHome l = true → isEntry isVar m = false := by
    intro ls hls l hl m h
    rw [hls l hl] at h
    cases h
  rcases h with hnone | ⟨before, home, after, rfl, -, hother, -, hafter, -⟩
  · exact List.pairwise_of_forall_mem_list fun l hl m _ => hnever _ hnone l hl m
  · obtain ⟨hbefore, hrest⟩ := List.forall_mem_append.mp hother
    refine List.pairwise_append.mpr ⟨List.pairwise_of_forall_mem_list fun l hl m _ => hnever _ hbefore l hl m,
      List.pairwise_cons.mpr ⟨fun m hm _ => hafter m hm,
        List.pairwise_of_forall_mem_list fun l hl m _ => hnever _ hrest l hl m⟩, fun l hl m _ => hnever _ hbefore l hl m⟩

theorem isEntry_of_mem (h : words ∈ activeEntries text) (hp : p words = true) :
    ∃ l ∈ splitlinesKeep text, fields? l = some words ∧ isEntry p l = true := by
  obtain ⟨l, hl, hwords⟩ := mem_activeEntries.mp h
  exact ⟨l, hl, hwords, by rwa [isEntry, hwords, Option.any_some]⟩

theorem isHome_of_none (hnone : ∀ l ∈ splitlinesKeep text, isEntry isHome l = false) :
    ∀ words ∈ activeEntries text, isHome words = false := by
  intro words hmem
  obtain ⟨l, hl, hwords⟩ := mem_activeEntries.mp hmem
  have hentry := hnone l hl
  rwa [isEntry, hwords, Option.any_some] at hentry

/-- Only one line is a home entry. -/
theorem eq_of_isHome {home : Text} {before after : List Text} (hother : ∀ l ∈ before ++ after, isEntry isHome l = false)
    (hl : line ∈ before ++ home :: after) (hentry : isEntry isHome line = true) : line = home := by
  have hnot : line ∉ before ++ after := by
    intro hmem
    rw [hother line hmem] at hentry
    cases hentry
  simp_all

/-- The home entry is kept with its fields where no other is written. -/
theorem homeCanonical_of_single {home : Text} {before after before' after' : List Text}
    (hlines : splitlinesKeep text = before ++ home :: after) (hother : ∀ l ∈ before ++ after, isEntry isHome l = false)
    (hfields : fields? home = some words) (hlength : 4 ≤ words.length) {home' : Text}
    (hfields' : fields? home' = some (words.set 1 "/var/home".toList))
    (ht : splitlinesKeep t = (before' ++ home' :: after').flatMap commented)
    (hother' : ∀ l ∈ before' ++ after', isEntry isHome l = false) (hsettled : HomeSettled (splitlinesKeep t)) :
    HomeCanonical text t := by
  have hpath : mountPoint (words.set 1 "/var/home".toList) = "/var/home".toList := by
    have hlt : 1 < words.length := by omega
    simp [mountPoint, hlt]
  have hkept : ∀ p, (∀ words, p words = true → isHome words = true) → (activeEntries t).filter p =
      (if p (words.set 1 "/var/home".toList) then [home'] else []).filterMap fields? := by
    intro p hp
    have hentry : isEntry p home' = p (words.set 1 "/var/home".toList) := by
      rw [isEntry, hfields', Option.any_some]
    rw [filter_activeEntries, ht, filter_commented fun words h => isRoot_of_isHome words (hp words h),
      filter_single hp hother', hentry]
  refine ⟨fun words' hmem hmount => ?_, fun words' hmem hhome => ?_,
    hsettled.pairwise.imp fun h hl => h (isEntry_mono isHome_of_mountsAt_var hl)⟩
  · have hdiff : ("/var/home".toList == "/home".toList) = false := by decide
    have hempty := hkept (mountsAt "/home".toList) isHome_of_mountsAt
    rw [mountsAt, hpath, hdiff, if_neg Bool.false_ne_true, List.filterMap_nil, List.filter_eq_nil_iff] at hempty
    exact hempty words' hmem (beq_iff_eq.mpr hmount)
  · obtain ⟨l, hl, hwords, hentry⟩ := isEntry_of_mem hmem hhome
    obtain rfl := eq_of_isHome hother (hlines ▸ hl) hentry
    obtain rfl := Option.some.inj (hfields.symm.trans hwords)
    rw [hkept _ isHome_of_mountsAt_var, mountsAt, hpath, beq_self_eq_true, if_pos rfl, List.filterMap_cons,
      hfields', List.filterMap_nil]

/-- **The home mount is canonical exactly where the pattern matches.** No entry of `/home` is left, and
the home entry is kept behind the one of `/var`, where no line of an entry of `/home` begins with a
space, and nowhere else. -/
theorem homeCanonical_iff (hbreaks : NewlineBreaks text) (h : correctedFstab text bootOptions true = .ok t) :
    HomeCanonical text t ↔ ∀ l ∈ splitlinesKeep text, isEntry (mountsAt "/home".toList) l = true →
      ∀ c ∈ l.head?, isSpace c = false := by
  obtain ⟨hformed, -⟩ := correctedFstab_cases hbreaks h
  obtain ⟨arranged, harranged, ht, -, -⟩ := correctedFstab_written hbreaks h
  have hsettled : HomeSettled (splitlinesKeep t) := ht ▸ harranged.settled.commented
  rcases harranged.home_cases with ⟨rfl, hnone⟩ | ⟨before, home, after, before', after', hlines, hhome, hother, rfl,
    hother', -, -⟩
  · have hnone' : ∀ l ∈ splitlinesKeep t, isEntry isHome l = false := ht ▸ not_mem_commented isRoot_of_isHome hnone
    constructor
    · intro _ l hl hentry
      have hnot := hnone l hl
      rw [isEntry_mono isHome_of_mountsAt hentry] at hnot
      cases hnot
    · refine fun _ => ⟨fun words hmem hmount => ?_, fun words hmem hhome => ?_,
        hsettled.pairwise.imp fun h hl => h (isEntry_mono isHome_of_mountsAt_var hl)⟩
      · have hhome := isHome_of_mountsAt words (beq_iff_eq.mpr hmount)
        rw [isHome_of_none hnone' words hmem] at hhome
        cases hhome
      · rw [isHome_of_none hnone words hmem] at hhome
        cases hhome
  · obtain ⟨words, hwords⟩ := Option.isSome_iff_exists.mp ((isSome_filter isHome home).trans hhome)
    obtain ⟨hfields, hhome'⟩ := Option.filter_eq_some_iff.mp hwords
    have hmem : home ∈ splitlinesKeep text := by simp [hlines]
    have hlength := hformed home hmem words hfields
    constructor
    · intro hcanonical l hl hentry c hc
      obtain rfl := eq_of_isHome hother (hlines ▸ hl) (isEntry_mono isHome_of_mountsAt hentry)
      by_contra hspace
      have hsame := renameHome_of_space hc (by simpa using hspace)
      have hline : commented l = [l] := if_neg (by simp [isEntry_of_disjoint isRoot_of_isHome hhome])
      have hwritten : l ∈ splitlinesKeep t := by
        rw [ht, List.flatMap_append, List.flatMap_cons, hsame, hline]
        simp
      rw [isEntry, hfields, Option.any_some] at hentry
      exact hcanonical.renamed words (mem_activeEntries.mpr ⟨l, hwritten, hfields⟩) (beq_iff_eq.mp hentry)
    · intro hfirst
      refine homeCanonical_of_single hlines hother hfields hlength (fields?_canonical hfields hlength hhome' ?_) ht
        hother' hsettled
      exact fun hmount => hfirst home hmem (by rwa [isEntry, hfields, Option.any_some])

theorem homeCanonical_sample : HomeCanonical sampleFstab sampleCorrected := by
  have hfirst : (splitlinesKeep sampleFstab).all (fun l => l.head?.all fun c => !isSpace c) = true := by decide +kernel
  refine (homeCanonical_iff sampleFstab_breaks sampleFstab_corrected).mpr fun l hl _ c hc => ?_
  simpa using (Option.all_eq_true _ _).mp (List.all_eq_true.mp hfirst l hl) c hc

/-- An entry of `/home` in a line that begins with a space -/
def indentedHome : Text := " UUID=1 /home btrfs subvol=home 0 0\n".toList

/-- The home entry of an indented line is left as it is. -/
theorem indentedHome_left : NewlineBreaks indentedHome ∧
    correctedFstab indentedHome [] true = .ok indentedHome ∧ ¬ HomeCanonical indentedHome indentedHome := by
  have hactive : activeEntries indentedHome = [["UUID=1".toList, "/home".toList, "btrfs".toList,
      "subvol=home".toList, "0".toList, "0".toList]] := by decide +kernel
  refine ⟨forall_mem_of_all (by decide +kernel), by decide +kernel, fun h => ?_⟩
  exact h.renamed _ (by rw [hactive]; exact List.mem_singleton_self _) rfl

end Fstab

end Azurefin
