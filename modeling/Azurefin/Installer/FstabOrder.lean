import Azurefin.Installer.FstabHome

/-!
# The order of the mounts

The home entry is moved behind the one of `/var`, whatever stands between them. So a mount below the
home directory that stood behind the home entry can end up before it, and is hidden. This happens where
such an entry stands between the two and nowhere else (`keepsParents_iff`). The text may have line ends
of any kind.
-/

namespace Azurefin

namespace Fstab

/-! ## Parents and order -/

/-- The active entries other than the root entry, each with the number of its line. -/
def kept (text : Text) : List (Nat × List Text) := (entries (splitlinesKeep text)).filter fun e => !isRoot e.2

/-- The directory of a mount point, with `/home` taken for `/var/home`. -/
def canonicalMount (mountPoint : Text) : PurePosixPath :=
  let p := PurePosixPath.ofText mountPoint
  if p.isAbsolute && p.names.head? == some "home".toList then { p with names := "var".toList :: p.names } else p

/-- A proper ancestor directory -/
def Above (p q : PurePosixPath) : Prop :=
  p.isAbsolute = q.isAbsolute ∧ p.names <+: q.names ∧ p.names ≠ q.names

instance (p q : PurePosixPath) : Decidable (Above p q) :=
  inferInstanceAs (Decidable (p.isAbsolute = q.isAbsolute ∧ p.names <+: q.names ∧ p.names ≠ q.names))

/-- The fields of an entry in the text that is written: only the home entry gets another mount point. -/
def Written (e : Nat × List Text) (words : List Text) : Prop :=
  words = e.2 ∨ isHome e.2 = true ∧ words = e.2.set 1 "/var/home".toList

/-- The entries of `text` in the order in which they stand in `t`: no entry but the home entry was moved,
and no field was changed but its mount point. -/
structure Tracks (text t : Text) (order : List (Nat × List Text)) : Prop where
  perm : order.Perm (kept text)
  others : order.filter (fun e => !isHome e.2) = (kept text).filter fun e => !isHome e.2
  written : List.Forall₂ Written order (activeEntries t)

/-- A parent that stood before a child still does, and `/var` stands before the home entry. -/
def KeepsParents (text : Text) (order : List (Nat × List Text)) : Prop :=
  ∀ x ∈ kept text, ∀ y ∈ kept text, Above (canonicalMount (mountPoint x.2)) (canonicalMount (mountPoint y.2)) →
    x.1 < y.1 ∨ isVar x.2 = true ∧ isHome y.2 = true → [x, y].Sublist order

/-- An entry below the home directory stands between the home entry and the one of `/var`. -/
def ChildBetween (text : Text) : Prop :=
  ∃ home ∈ kept text, ∃ child ∈ kept text, ∃ var ∈ kept text, isHome home.2 = true ∧ isVar var.2 = true ∧
    home.1 < child.1 ∧ child.1 < var.1 ∧
    Above (PurePosixPath.ofText "/var/home".toList) (canonicalMount (mountPoint child.2))

/-! ## Entries of texts that are put together -/

variable {text t u line : Text} {lines edited : List Text} {bootOptions : List (List Text)}

theorem activeEntries_eq (t : Text) : activeEntries t = (splitlinesKeep t).filterMap fields? :=
  map_snd_indexed fields? (splitlinesKeep t)

/-- A newline at the end of a text makes no difference to its entries. -/
theorem activeEntries_newline (t : Text) : activeEntries (t ++ ['\n']) = activeEntries t := by
  rw [activeEntries_eq, activeEntries_eq]
  rcases splitlinesKeep_newline t with h | ⟨ls, l, h, h'⟩
  · rw [h, List.filterMap_append]
    simp [show fields? ['\n'] = none from rfl]
  · rw [h, h', List.filterMap_append, List.filterMap_append]
    simp [List.filterMap_cons, fields?_newline]

theorem activeEntries_append (ht : Terminated t) : activeEntries (t ++ u) = activeEntries t ++ activeEntries u := by
  by_cases h : t.getLast? ≠ some '\r' ∨ u.head? ≠ some '\n'
  · rw [activeEntries_eq, splitlinesKeep_append ht h, List.filterMap_append, ← activeEntries_eq, ← activeEntries_eq]
  · -- the newline joins the carriage return
    obtain ⟨-, hnewline⟩ : t.getLast? = some '\r' ∧ u.head? = some '\n' := by simpa using h
    obtain ⟨d, u, rfl⟩ : ∃ d v, u = d :: v := List.exists_cons_of_ne_nil (by rintro rfl; cases hnewline)
    obtain rfl := Option.some.inj hnewline
    have hclosed : Terminated (t ++ ['\n']) ∧ (t ++ ['\n']).getLast? ≠ some '\r' := by simp [Terminated]; decide
    have hempty : activeEntries ('\n' :: u) = activeEntries u := by
      rw [activeEntries_eq, splitlinesKeep_cons_if (.inl (by decide)), if_pos (by decide), List.filterMap_cons_none rfl,
        activeEntries_eq]
    rw [show t ++ '\n' :: u = (t ++ ['\n']) ++ u by simp, activeEntries_eq,
      splitlinesKeep_append hclosed.1 (.inl hclosed.2), List.filterMap_append, ← activeEntries_eq,
      ← activeEntries_eq, activeEntries_newline, hempty]

/-- The entries of texts that end with a line end where another follows. -/
theorem activeEntries_flatten {ts : List Text} (h : ts.Pairwise fun t _ => Terminated t) :
    activeEntries ts.flatten = ts.flatMap activeEntries := by
  induction ts with
  | nil => rfl
  | cons t ts ih =>
    obtain ⟨ht, hts⟩ := List.pairwise_cons.mp h
    cases ts with
    | nil => simp
    | cons v ts =>
      rw [List.flatten_cons, activeEntries_append (ht v List.mem_cons_self), ih hts]
      rfl

theorem activeEntries_rstripNewline (t : Text) : activeEntries (rstripNewline t) = activeEntries t := by
  induction t using List.reverseRecOn with
  | nil => rfl
  | append_singleton t c ih =>
    by_cases hc : c = '\n'
    · rw [rstripNewline, List.rdropWhile_concat_pos _ _ _ (by simpa using hc), ← rstripNewline, ih, hc,
        activeEntries_newline]
    · rw [rstripNewline, List.rdropWhile_concat_neg _ _ _ (by simpa using hc)]

theorem activeEntries_line (h : IsLine line) : activeEntries line = (fields? line).toList := by
  rw [activeEntries_eq, h]
  cases hfields : fields? line <;> simp [hfields]

/-! ## The entries that are written -/

/-- The fields of an entry other than the root entry. -/
def keptFields (line : Text) : Option (List Text) := (fields? line).filter fun words => !isRoot words

theorem kept_eq (text : Text) : kept text = indexedFrom keptFields 0 (splitlinesKeep text) :=
  entries_filter (fun words => !isRoot words) (splitlinesKeep text)

theorem keptFields_of_isEntry {p : List Text → Bool} (hp : ∀ words, p words = true → isRoot words = false)
    (h : isEntry p line = true) : ∃ words, fields? line = some words ∧ keptFields line = some words ∧ p words = true := by
  cases hfields : fields? line with
  | none => simp [isEntry, hfields] at h
  | some words =>
    rw [isEntry, hfields, Option.any_some] at h
    exact ⟨words, rfl, by simp [keptFields, hfields, Option.filter, hp words h], h⟩

theorem isLine_mark (h : IsLine line) : IsLine ("# ".toList ++ line) :=
  (isLine_append h.ne_nil (.inl (by decide))).mpr ⟨forall_mem_of_all (by decide), h⟩

/-- The root entry is behind its comment, every other entry is as it was. -/
theorem activeEntries_commented (h : IsLine line) :
    activeEntries (commented line).flatten = (keptFields line).toList := by
  cases hroot : isEntry isRoot line with
  | true =>
    have hlast : comment.getLast? = some '\n' := by decide +kernel
    have hterminated : Terminated comment := terminated_of_getLast? hlast (by decide)
    have hcomment : IsLine comment := by
      unfold IsLine
      decide +kernel
    have hnone : keptFields line = none := by
      cases hfields : fields? line <;> simp_all [keptFields, isEntry]
    rw [commented, hroot, if_pos rfl, List.flatten_cons, List.flatten_singleton, activeEntries_append hterminated,
      activeEntries_line hcomment, activeEntries_line (isLine_mark h), fields?_comment, fields?_eq_none rfl, hnone]
    rfl
  | false =>
    rw [commented_of_not_root hroot, activeEntries_line h, keptFields]
    cases hfields : fields? line <;> simp_all [isEntry, Option.filter]

theorem terminated_append (hne : u ≠ []) : Terminated (t ++ u) ↔ Terminated u := by
  obtain ⟨u, c, rfl⟩ := (List.eq_nil_or_concat u).resolve_left hne
  simp [Terminated, List.getLast?_append]

theorem terminated_commented (hne : line ≠ []) (h : Terminated line) : Terminated (commented line).flatten := by
  rw [commented]
  split
  · have hmark : "# ".toList ++ line ≠ [] := by simp
    rwa [List.flatten_cons, List.flatten_singleton, terminated_append hmark, terminated_append hne]
  · rwa [List.flatten_singleton]

/-- A renamed line is one line and ends as it did. -/
theorem isLine_renameHome (h : IsLine line) : IsLine (renameHome line) := by
  rcases renameHome_cases line with he | ⟨device, gap, after, -, -, -, -, hafter, hline, hline'⟩
  · rwa [he]
  · have hne : after ≠ [] := by
      rintro rfl
      cases hafter
    rw [hline'] at *
    rw [hline] at h
    have hold := (isLine_append hne (.inl (by simp))).mp h
    refine (isLine_append hne (.inl (by simp))).mpr ⟨?_, hold.2⟩
    exact List.forall_mem_append.mpr ⟨(List.forall_mem_append.mp hold.1).1, forall_mem_of_all (by decide)⟩

theorem terminated_renameHome (h : Terminated line) : Terminated (renameHome line) := by
  rcases renameHome_cases line with he | ⟨device, gap, after, -, -, -, -, hafter, hline, hline'⟩
  · rwa [he]
  · have hne : after ≠ [] := by
      rintro rfl
      cases hafter
    rw [hline'] at *
    rw [hline] at h
    rwa [terminated_append hne] at *

/-- The home entry is read behind the one of `/var`. -/
theorem activeEntries_moved {home var : Text} (hhome : IsLine home) (hvar : IsLine var) :
    activeEntries (rstripNewline var ++ "\n".toList ++ renameHome home) =
      (fields? var).toList ++ (fields? (renameHome home)).toList := by
  have hterminated : Terminated (rstripNewline var ++ "\n".toList) := by
    rw [terminated_append (by decide)]
    exact terminated_of_getLast? rfl (by decide)
  rw [activeEntries_append hterminated, activeEntries_line (isLine_renameHome hhome)]
  congr 1
  exact (activeEntries_newline _).trans ((activeEntries_rstripNewline var).trans (activeEntries_line hvar))

theorem flatMap_commented {ls : List Text} (h : ∀ l ∈ ls, IsLine l) :
    (ls.map fun l => (commented l).flatten).flatMap activeEntries = ls.filterMap keptFields := by
  induction ls with
  | nil => rfl
  | cons l ls ih =>
    obtain ⟨hl, hls⟩ := List.forall_mem_cons.mp h
    rw [List.map_cons, List.flatMap_cons, ih hls, activeEntries_commented hl]
    cases hfields : keptFields l <;> simp [hfields]

theorem pairwise_commented {ls : List Text} (hline : ∀ l ∈ ls, IsLine l)
    (h : ls.Pairwise fun l _ => Terminated l) :
    (ls.map fun l => (commented l).flatten).Pairwise fun l _ => Terminated l := by
  rw [List.pairwise_map]
  exact h.imp_of_mem fun hl _ hend => terminated_commented (hline _ hl).ne_nil hend

theorem forall_mem_commented {ls : List Text} (hline : ∀ l ∈ ls, IsLine l) (h : ∀ l ∈ ls, Terminated l) :
    ∀ l ∈ ls.map fun l => (commented l).flatten, Terminated l := by
  intro l hl
  obtain ⟨m, hm, rfl⟩ := List.mem_map.mp hl
  exact terminated_commented (hline m hm).ne_nil (h m hm)

theorem renameHome_ne_nil (h : IsLine line) : renameHome line ≠ [] := (isLine_renameHome h).ne_nil

/-- The edited lines can be read one by one. -/
theorem activeEntries_edited (h : HomeEdit (fun l => (commented l).flatten) (splitlinesKeep text) edited) :
    activeEntries edited.flatten = edited.flatMap activeEntries := by
  refine activeEntries_flatten ?_
  have hline := isLine_splitlinesKeep text
  have hend := terminated_splitlinesKeep text
  cases h with
  | same => exact pairwise_commented hline hend
  | renamed hlines =>
    rw [hlines] at hline hend
    simp only [List.pairwise_append, List.pairwise_cons, List.forall_mem_append, List.forall_mem_cons] at hline hend
    obtain ⟨hlbefore, -, hlafter⟩ := hline
    obtain ⟨hbefore, ⟨hhome, hafter⟩, hcross⟩ := hend
    refine List.pairwise_append.mpr ⟨pairwise_commented hlbefore hbefore,
      List.pairwise_cons.mpr ⟨fun l hl => ?_, pairwise_commented hlafter hafter⟩, fun l hl _ _ => ?_⟩
    · obtain ⟨m, hm, -⟩ := List.mem_map.mp hl
      exact terminated_renameHome (hhome m hm)
    · exact forall_mem_commented hlbefore (fun m hm => (hcross m hm).1) l hl
  | @moved before between after home var hlines =>
    rw [hlines] at hline hend
    simp only [List.pairwise_append, List.pairwise_cons, List.forall_mem_append, List.forall_mem_cons] at hline hend
    obtain ⟨hlbefore, hlhome, hlbetween, -, hlafter⟩ := hline
    obtain ⟨hbefore, ⟨hhome, hbetween, ⟨-, hafter⟩, hcross'⟩, hcross⟩ := hend
    have hterminated : Terminated (rstripNewline var ++ "\n".toList ++ renameHome home) :=
      (terminated_append (renameHome_ne_nil hlhome)).mpr (terminated_renameHome hhome.2.1)
    have hbefore' := forall_mem_commented hlbefore fun m hm => (hcross m hm).1
    have hbetween' := forall_mem_commented hlbetween fun m hm => (hcross' m hm).1
    refine List.pairwise_append.mpr ⟨List.pairwise_append.mpr ⟨pairwise_commented hlbefore hbefore,
      List.pairwise_cons.mpr ⟨fun _ _ => by simp [Terminated], pairwise_commented hlbetween hbetween⟩,
      fun l hl _ _ => hbefore' l hl⟩,
      List.pairwise_cons.mpr ⟨fun _ _ => hterminated, pairwise_commented hlafter hafter⟩, ?_⟩
    intro l hl _ _
    simp only [List.mem_append, List.mem_cons] at hl
    rcases hl with hl | rfl | hl
    · exact hbefore' l hl
    · simp [Terminated]
    · exact hbetween' l hl

/-! ## Orders -/

theorem written_map (es : List (Nat × List Text)) : List.Forall₂ Written es (es.map Prod.snd) :=
  List.forall₂_map_right_iff.mpr (List.forall₂_same.mpr fun _ _ => .inl rfl)

theorem written_renameHome {words : List Text} (h : fields? line = some words) (hhome : isHome words = true) :
    ∃ words', fields? (renameHome line) = some words' ∧ ∀ n, Written (n, words) words' := by
  rcases fields?_renameHome line with hsame | ⟨device, rest, hold, hnew⟩
  · exact ⟨words, hsame.trans h, fun _ => .inl rfl⟩
  · obtain rfl := Option.some.inj (h.symm.trans hold)
    exact ⟨_, hnew, fun _ => .inr ⟨hhome, rfl⟩⟩

theorem Written.isHome_eq {e : Nat × List Text} {words : List Text} (h : Written e words) :
    isHome words = isHome e.2 := by
  rcases h with rfl | ⟨hhome, rfl⟩
  · rfl
  · obtain ⟨n, fields⟩ := e
    match fields, hhome with
    | device :: path :: rest, hhome =>
      rw [hhome]
      rfl
    | [_], hhome => cases hhome
    | [], hhome => cases hhome

/-- A list is determined by what passes a test, what does not, and where. -/
theorem eq_of_filter_eq {α : Type} {p : α → Bool} {l m : List α} (hmask : l.map p = m.map p)
    (hpos : l.filter p = m.filter p) (hneg : l.filter (fun a => !p a) = m.filter fun a => !p a) : l = m := by
  induction l generalizing m with
  | nil => exact (List.map_eq_nil_iff.mp hmask.symm).symm
  | cons a l ih =>
    obtain ⟨b, m, rfl⟩ : ∃ b m', m = b :: m' := List.exists_cons_of_ne_nil (by rintro rfl; cases hmask)
    obtain ⟨hab, hrest⟩ := List.cons.inj hmask
    cases ha : p a with
    | false =>
      simp only [List.filter_cons, ha, ← hab, Bool.not_false, if_true, Bool.false_eq_true, if_false] at hpos hneg
      obtain ⟨rfl, hneg'⟩ := List.cons.inj hneg
      rw [ih hrest hpos hneg']
    | true =>
      simp only [List.filter_cons, ha, ← hab, Bool.not_true, if_true, Bool.false_eq_true, if_false] at hpos hneg
      obtain ⟨rfl, hpos'⟩ := List.cons.inj hpos
      rw [ih hrest hpos' hneg]

variable {order order' : List (Nat × List Text)}

theorem map_isHome_of_written {words : List (List Text)} (h : List.Forall₂ Written order words) :
    order.map (fun e => isHome e.2) = words.map isHome := by
  induction h with
  | nil => rfl
  | cons hw _ ih => rw [List.map_cons, List.map_cons, ih, hw.isHome_eq]

/-- There is only one order where there is only one home entry. -/
theorem Tracks.unique (hone : ((kept text).filter fun e => isHome e.2).length ≤ 1) (h : Tracks text t order)
    (h' : Tracks text t order') : order = order' := by
  have hmask := (map_isHome_of_written h.written).trans (map_isHome_of_written h'.written).symm
  refine eq_of_filter_eq hmask ?_ (h.others.trans h'.others.symm)
  have hperm := (h.perm.trans h'.perm.symm).filter fun e => isHome e.2
  have hlength := (h'.perm.filter fun e => isHome e.2).length_eq
  generalize order'.filter (fun e => isHome e.2) = homes at hperm hlength ⊢
  match homes, hperm with
  | [], hperm => exact List.perm_nil.mp hperm
  | [_], hperm => exact List.perm_singleton.mp hperm
  | _ :: _ :: _, _ =>
    simp at hlength
    omega

/-! ## The entries of the edited lines -/

/-- Two entries of a list in one order or the other -/
theorem pair_sublist_or {α : Type} {l : List α} {x y : α} (hx : x ∈ l) (hy : y ∈ l) (hne : x ≠ y) :
    [x, y].Sublist l ∨ [y, x].Sublist l := by
  obtain ⟨s, u, rfl⟩ := List.append_of_mem hx
  rcases List.mem_append.mp hy with hy | hy
  · exact .inr ((List.singleton_sublist.mpr hy).append (List.singleton_sublist.mpr List.mem_cons_self))
  · have hy := (List.mem_cons.mp hy).resolve_left (Ne.symm hne)
    exact .inl (((List.singleton_sublist.mpr hy).cons_cons x).trans (List.sublist_append_right s _))

/-- In the order of the lines, an earlier line is before a later one. -/
theorem pair_sublist_of_lt {es : List (Nat × List Text)} (hes : es.Pairwise fun e e' => e.1 < e'.1)
    {x y : Nat × List Text} (hx : x ∈ es) (hy : y ∈ es) (hlt : x.1 < y.1) : [x, y].Sublist es := by
  have hne : x ≠ y := by
    rintro rfl
    exact Nat.lt_irrefl _ hlt
  refine (pair_sublist_or hx hy hne).resolve_right fun h => ?_
  exact Nat.lt_asymm hlt (List.pairwise_iff_forall_sublist.mp hes h)

theorem pairwise_kept (text : Text) : (kept text).Pairwise fun e e' => e.1 < e'.1 :=
  kept_eq text ▸ pairwise_indexedFrom keptFields 0 _

theorem canonicalMount_home {words : List Text} (h : isHome words = true) :
    canonicalMount (mountPoint words) = PurePosixPath.ofText "/var/home".toList := by
  rw [isHome, Bool.or_eq_true, beq_iff_eq, beq_iff_eq] at h
  rcases h with h | h <;> rw [h] <;> decide +kernel

/-- The entry of `/var` is not below the home directory. -/
theorem not_above_var {words : List Text} (h : isVar words = true) :
    ¬ Above (PurePosixPath.ofText "/var/home".toList) (canonicalMount (mountPoint words)) := by
  rw [isVar, beq_iff_eq] at h
  rw [h]
  decide +kernel

/-- Where the home entry stays, nothing is hidden. -/
theorem keepsParents_kept (hbehind : ∀ x ∈ kept text, ∀ y ∈ kept text,
    isVar x.2 = true → isHome y.2 = true → x.1 < y.1) : KeepsParents text (kept text) ∧ ¬ ChildBetween text := by
  constructor
  · rintro x hx y hy - (hlt | ⟨hvar, hhome⟩)
    · exact pair_sublist_of_lt (pairwise_kept text) hx hy hlt
    · exact pair_sublist_of_lt (pairwise_kept text) hx hy (hbehind x hx y hy hvar hhome)
  · rintro ⟨home, hhome, child, -, var, hvar, ishome, isvar, hlt, hlt', -⟩
    have hle := hbehind var hvar home hhome isvar ishome
    omega

section Moved

variable {before between after : List (Nat × List Text)} {home var : Nat × List Text}

theorem tracks_moved (hkept : kept text = before ++ home :: (between ++ var :: after)) (hhome : isHome home.2 = true)
    (hwritten : List.Forall₂ Written (before ++ between ++ var :: home :: after) (activeEntries t)) :
    Tracks text t (before ++ between ++ var :: home :: after) := by
  refine ⟨?_, ?_, hwritten⟩
  · rw [hkept, List.append_assoc]
    refine List.Perm.append_left before ?_
    have hswap : (between ++ var :: home :: after).Perm (home :: (between ++ var :: after)) := by
      have hmiddle : (between ++ [var] ++ home :: after).Perm (home :: (between ++ [var] ++ after)) :=
        List.perm_middle
      simpa using hmiddle
    exact hswap
  · simp [hkept, List.filter_cons, hhome]

/-- Behind the entry of `/var`, the home entry is behind what stood between the two. -/
theorem keepsParents_moved (hkept : kept text = before ++ home :: (between ++ var :: after))
    (hhome : isHome home.2 = true) (hvar : isVar var.2 = true)
    (hother : ∀ e ∈ before ++ (between ++ after), isHome e.2 = false ∧ isVar e.2 = false) :
    KeepsParents text (before ++ between ++ var :: home :: after) ↔ ¬ ChildBetween text := by
  have hsorted := pairwise_kept text
  have hmem : ∀ e ∈ kept text, e ∈ before ∨ e = home ∨ e ∈ between ∨ e = var ∨ e ∈ after := by
    simp [hkept]
  have hstay : (before ++ (between ++ var :: after)).Pairwise fun e e' => e.1 < e'.1 := by
    refine hsorted.sublist ?_
    rw [hkept]
    exact (List.Sublist.refl before).append (List.sublist_cons_self home _)
  simp only [hkept, List.pairwise_append, List.pairwise_cons, List.forall_mem_append, List.forall_mem_cons] at hsorted
  obtain ⟨-, ⟨⟨hhb, hhv, hha⟩, -, ⟨hva, -⟩, hb⟩, hbefore⟩ := hsorted
  simp only [List.forall_mem_append] at hother
  obtain ⟨hobefore, hobetween, hoafter⟩ := hother
  have hvarhome : isHome var.2 = false := by
    cases h : isHome var.2 with
    | false => rfl
    | true => rw [← hvar, isVar_of_isHome _ h]
  have hhomevar := isVar_of_isHome _ hhome
  have honehome : ∀ e ∈ kept text, isHome e.2 = true → e = home := by
    intro e he h
    rcases hmem e he with he | rfl | he | rfl | he <;> grind
  have honevar : ∀ e ∈ kept text, isVar e.2 = true → e = var := by
    intro e he h
    rcases hmem e he with he | rfl | he | rfl | he <;> grind
  constructor
  · rintro hkeeps ⟨h, hh, child, hchild, v, hv, ishome, isvar, hlt, hlt', habove⟩
    obtain rfl := honehome h hh ishome
    obtain rfl := honevar v hv isvar
    rw [← canonicalMount_home hhome] at habove
    have hsub := hkeeps h hh child hchild habove (.inl hlt)
    -- only entries behind the one of /var are behind the home entry now
    have hlater : (before ++ between ++ v :: h :: after).Pairwise fun e e' => isHome e.2 = true → v.1 < e'.1 := by
      have hnever : ∀ es : List (Nat × List Text), (∀ e ∈ es, isHome e.2 = false ∧ isVar e.2 = false) →
          es.Pairwise fun e e' => isHome e.2 = true → v.1 < e'.1 := fun es hes =>
        List.pairwise_of_forall_mem_list fun e he e' _ htrue => by simp [(hes e he).1] at htrue
      simp only [List.pairwise_append, List.pairwise_cons]
      refine ⟨⟨hnever _ hobefore, hnever _ hobetween, fun e he e' _ htrue => ?_⟩,
        ⟨fun e' _ htrue => ?_, fun e' he' _ => hva e' he', hnever _ hoafter⟩, fun e he e' _ htrue => ?_⟩
      · simp [(hobefore e he).1] at htrue
      · simp [hvarhome] at htrue
      · rcases List.mem_append.mp he with he | he
        · simp [(hobefore e he).1] at htrue
        · simp [(hobetween e he).1] at htrue
    exact Nat.lt_asymm hlt' (List.pairwise_iff_forall_sublist.mp hlater hsub hhome)
  · intro hnone x hx y hy habove hor
    by_cases hxhome : x = home
    · subst hxhome
      have hlt : x.1 < y.1 := hor.resolve_right fun h => by simp [hhomevar] at h
      rw [canonicalMount_home hhome] at habove
      rcases hmem y hy with hin | rfl | hin | rfl | hin
      · exact absurd (hbefore y hin).1 (Nat.lt_asymm hlt)
      · exact absurd hlt (Nat.lt_irrefl _)
      · exact absurd ⟨x, hx, y, hy, var, by simp [hkept], hhome, hvar, hlt, (hb y hin).1, habove⟩ hnone
      · exact absurd habove (not_above_var hvar)
      · exact (((List.singleton_sublist.mpr hin).cons_cons x).cons var).trans (List.sublist_append_right _ _)
    by_cases hyhome : y = home
    · subst hyhome
      have hin : x ∈ before ++ between ++ [var] := by
        rcases hor with hlt | ⟨hxvar, -⟩
        · rcases hmem x hx with hin | rfl | hin | rfl | hin <;> grind
        · simp [honevar x hx hxvar]
      rw [show before ++ between ++ var :: y :: after = (before ++ between ++ [var]) ++ y :: after by simp]
      exact (List.singleton_sublist.mpr hin).append (List.singleton_sublist.mpr List.mem_cons_self)
    · have hlt : x.1 < y.1 := hor.resolve_right fun h => hyhome (honehome y hy h.2)
      have hin : ∀ e ∈ kept text, e ≠ home → e ∈ before ++ (between ++ var :: after) := by
        intro e he hne
        simpa [hne] using hmem e he
      refine (pair_sublist_of_lt hstay (hin x hx hxhome) (hin y hy hyhome) hlt).trans ?_
      rw [List.append_assoc]
      exact (List.Sublist.refl before).append ((List.Sublist.refl between).append
        ((List.sublist_cons_self home after).cons_cons var))

end Moved

theorem eq_false_of_mem {p : List Text → Bool} {n : Nat} {ls : List Text} (hls : ∀ l ∈ ls, isEntry p l = false) :
    ∀ e ∈ indexedFrom keptFields n ls, p e.2 = false := by
  intro e he
  obtain ⟨-, -, l, hl, hfields⟩ := exists_of_mem_indexedFrom he
  have hentry := hls l hl
  rwa [isEntry, (Option.filter_eq_some_iff.mp hfields).1, Option.any_some] at hentry

theorem map_snd_kept (n : Nat) (ls : List Text) :
    (indexedFrom keptFields n ls).map Prod.snd = ls.filterMap keptFields := map_snd_indexedFrom keptFields n ls

theorem indexedFrom_keptFields {words : List Text} (h : keptFields line = some words) (n : Nat)
    (before after : List Text) : indexedFrom keptFields n (before ++ line :: after) =
      indexedFrom keptFields n before ++ (n + before.length, words) ::
        indexedFrom keptFields (n + before.length + 1) after := by
  rw [indexedFrom_append, indexedFrom, h]

theorem filter_isHome_eq_nil {es : List (Nat × List Text)} (h : ∀ e ∈ es, isHome e.2 = false) :
    (es.filter fun e => isHome e.2) = [] :=
  List.filter_eq_nil_iff.mpr fun e he => by simp [h e he]

/-- The entries are in the text that is written in one order, which keeps parents before children where
no child stands between the home entry and the one of `/var`. -/
theorem exists_tracks (h : correctedFstab text bootOptions true = .ok t) :
    ((kept text).filter fun e => isHome e.2).length ≤ 1 ∧
      ∃ order, Tracks text t order ∧ (KeepsParents text order ↔ ¬ ChildBetween text) := by
  obtain ⟨-, -, edited, rfl, hedited⟩ := correctedFstab_edited h
  have hread := activeEntries_edited hedited
  have hline := isLine_splitlinesKeep text
  have hkept := kept_eq text
  cases hedited with
  | same hnone =>
    have hother := eq_false_of_mem (n := 0) hnone
    rw [flatMap_commented hline, ← map_snd_kept 0, ← hkept] at hread
    rw [← hkept] at hother
    have hbehind : KeepsParents text (kept text) ∧ ¬ ChildBetween text :=
      keepsParents_kept fun x _ y hy _ hhome => by simp [hother y hy] at hhome
    refine ⟨by simp [filter_isHome_eq_nil hother], kept text, ⟨.refl _, rfl, hread ▸ written_map _⟩,
      iff_of_true hbehind.1 hbehind.2⟩
  | @renamed before after home hlines hhome hnone hone hnovar =>
    obtain ⟨words, hfields, hkeptfields, hwords⟩ := keptFields_of_isEntry isRoot_of_isHome hhome
    obtain ⟨words', hnew, hwritten⟩ := written_renameHome hfields hwords
    simp only [hlines, List.forall_mem_append, List.forall_mem_cons] at hline hnone
    rw [hlines, indexedFrom_keptFields hkeptfields] at hkept
    rw [List.flatMap_append, List.flatMap_cons, flatMap_commented hline.1, flatMap_commented hline.2.2,
      activeEntries_line (isLine_renameHome hline.2.1), hnew, ← map_snd_kept 0, ← map_snd_kept (0 + before.length + 1)]
      at hread
    have hsorted := pairwise_kept text
    have hbefore := eq_false_of_mem (n := 0) hnone.1
    have hafter := eq_false_of_mem (n := 0 + before.length + 1) hnone.2
    have hvar := eq_false_of_mem (n := 0 + before.length + 1) hnovar
    generalize indexedFrom keptFields 0 before = es at hkept hread hbefore
    generalize indexedFrom keptFields (0 + before.length + 1) after = es' at hkept hread hafter hvar
    generalize 0 + before.length = n at hkept
    have hbehind : KeepsParents text (kept text) ∧ ¬ ChildBetween text :=
      keepsParents_kept fun x hx y hy hxvar hyhome => ?_
    · refine ⟨?_, kept text, ⟨.refl _, rfl, ?_⟩, iff_of_true hbehind.1 hbehind.2⟩
      · simp [hkept, filter_isHome_eq_nil hbefore, filter_isHome_eq_nil hafter, hwords]
      · rw [hread, hkept]
        exact List.rel_append (written_map _) (.cons (hwritten _) (written_map _))
    · have hxnot := isVar_of_isHome x.2
      simp only [hkept, List.mem_append, List.mem_cons, List.pairwise_append] at hx hy hsorted
      grind
  | @moved before between after home var hlines hhome hnone hvar hnone' =>
    obtain ⟨words, hfields, hkeptfields, hwords⟩ := keptFields_of_isEntry isRoot_of_isHome hhome
    obtain ⟨words', hnew, hwritten⟩ := written_renameHome hfields hwords
    obtain ⟨varwords, hvarfields, hvarkept, hvarwords⟩ := keptFields_of_isEntry isRoot_of_isVar hvar
    simp only [hlines, List.forall_mem_append, List.forall_mem_cons] at hline hnone hnone'
    obtain ⟨hlbefore, hlhome, hlbetween, hlvar, hlafter⟩ := hline
    rw [hlines, indexedFrom_keptFields hkeptfields, indexedFrom_keptFields hvarkept] at hkept
    rw [List.flatMap_append, List.flatMap_append, List.flatMap_cons, List.flatMap_cons, flatMap_commented hlbefore,
      flatMap_commented hlbetween, flatMap_commented hlafter, activeEntries_moved hlhome hlvar, hvarfields, hnew,
      ← map_snd_kept 0, ← map_snd_kept (0 + before.length + 1),
      ← map_snd_kept (0 + before.length + 1 + between.length + 1)] at hread
    have hbefore := eq_false_of_mem (n := 0) hnone.1
    have hbetween := eq_false_of_mem (n := 0 + before.length + 1) hnone.2.1
    have hafter := eq_false_of_mem (n := 0 + before.length + 1 + between.length + 1) hnone.2.2.2
    have hbefore' := eq_false_of_mem (n := 0) hnone'.1
    have hbetween' := eq_false_of_mem (n := 0 + before.length + 1) hnone'.2.2.1
    have hafter' := eq_false_of_mem (n := 0 + before.length + 1 + between.length + 1) hnone'.2.2.2
    generalize indexedFrom keptFields 0 before = es at *
    generalize indexedFrom keptFields (0 + before.length + 1) between = fs at *
    generalize indexedFrom keptFields (0 + before.length + 1 + between.length + 1) after = gs at *
    refine ⟨?_, _, tracks_moved hkept hwords ?_, keepsParents_moved hkept hwords hvarwords ?_⟩
    · have hvarhome : isHome varwords = false := by
        cases h : isHome varwords with
        | false => rfl
        | true => rw [← hvarwords, isVar_of_isHome _ h]
      simp [hkept, filter_isHome_eq_nil hbefore, filter_isHome_eq_nil hbetween, filter_isHome_eq_nil hafter,
        hwords, hvarhome]
    · rw [hread]
      exact List.rel_append (List.rel_append (written_map es) (written_map fs))
        (.cons (.inl rfl) (.cons (hwritten _) (written_map gs)))
    · simp only [List.forall_mem_append]
      exact ⟨fun e he => ⟨hbefore e he, hbefore' e he⟩, fun e he => ⟨hbetween e he, hbetween' e he⟩,
        fun e he => ⟨hafter e he, hafter' e he⟩⟩

/-- **Parents stay before children where the home entry passes no child.** The entries are in the text
that is written in one order only, and in that order every parent that stood before a child does so,
where no entry below the home directory stands between the home entry and the one of `/var`, and nowhere
else. -/
theorem keepsParents_iff (h : correctedFstab text bootOptions true = .ok t) :
    ∃ order, Tracks text t order ∧ (∀ order', Tracks text t order' → order' = order) ∧
      (KeepsParents text order ↔ ¬ ChildBetween text) := by
  obtain ⟨hone, order, htracks, hiff⟩ := exists_tracks h
  exact ⟨order, htracks, fun order' h' => h'.unique hone htracks, hiff⟩

theorem keepsParents_sample : ∃ order, Tracks sampleHomes sampleHomesCorrected order ∧
    (∀ order', Tracks sampleHomes sampleHomesCorrected order' → order' = order) ∧
      (KeepsParents sampleHomes order ↔ ¬ ChildBetween sampleHomes) :=
  keepsParents_iff (by decide +kernel : correctedFstab sampleHomes [] true = .ok sampleHomesCorrected)

/-- A mount below the home directory stands between the home entry and the one of `/var`. -/
def nestedHome : Text :=
  "UUID=1 /home btrfs subvol=home 0 0\nUUID=2 /home/alice ext4 defaults 0 2\nUUID=3 /var ext4 defaults 0 2\n".toList

def nestedHomeCorrected : Text :=
  "UUID=2 /home/alice ext4 defaults 0 2\nUUID=3 /var ext4 defaults 0 2\n".toList ++
    "UUID=1 /var/home btrfs subvol=home 0 0\n".toList

/-- The home mount hides the one that it showed. -/
theorem nestedHome_hidden : correctedFstab nestedHome [] true = .ok nestedHomeCorrected ∧
    ∀ order, Tracks nestedHome nestedHomeCorrected order → ¬ KeepsParents nestedHome order := by
  have hok : correctedFstab nestedHome [] true = .ok nestedHomeCorrected := by decide +kernel
  have hbetween : ChildBetween nestedHome := by
    have hkept : kept nestedHome = [(0, pySplit "UUID=1 /home btrfs subvol=home 0 0".toList),
        (1, pySplit "UUID=2 /home/alice ext4 defaults 0 2".toList),
        (2, pySplit "UUID=3 /var ext4 defaults 0 2".toList)] := by decide +kernel
    rw [ChildBetween, hkept]
    exact ⟨_, .head _, _, .tail _ (.head _), _, .tail _ (.tail _ (.head _)), by decide +kernel, by decide +kernel,
      by decide +kernel, by decide +kernel, by decide +kernel⟩
  obtain ⟨hone, order, htracks, hiff⟩ := exists_tracks hok
  refine ⟨hok, fun order' h' hkeeps => ?_⟩
  obtain rfl := h'.unique hone htracks
  exact hiff.mp hkeeps hbetween

end Fstab

end Azurefin
