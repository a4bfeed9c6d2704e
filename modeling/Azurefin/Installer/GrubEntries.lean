import Azurefin.Installer.GrubPatterns

/-!
# Settings and entries of a GRUB configuration

The patterns with which `release_iso_grub.py` takes a configuration apart: the settings it deletes, the
entry it starts from, and the argument that names the medium.

## Main results

* `Azurefin.Grub.delete_setting` — what is left of lines is the lines without settings and without the
  blank lines before each.
* `Azurefin.Grub.findall_entry` — one body for each line that starts an entry.
* `Azurefin.Grub.fullmatch_stage2` — the argument with a safe label.
-/

namespace Azurefin.Grub

open Regex

variable {s : Bool} {l t u v w x : Text} {gs ls ms ws : List Text} {c d : Cursor}

/-! ## Settings -/

def settingNames : List Text := ["default".toList, "timeout".toList]

/-- The line of a default entry or of a timeout -/
def isSetting (l : Text) : Bool :=
  settingNames.any fun w => ("set ".toList ++ (w ++ "=".toList)).isPrefixOf (l.dropWhile isSpace)

/-- The first line that is not blank is a setting. -/
def pending : List Text → Bool
  | [] => false
  | l :: ls => if firstWord l = [] then pending ls else isSetting l

/-- The lines without the settings and the blank lines before each -/
def dropSettings : List Text → List Text
  | [] => []
  | l :: ls => if pending (l :: ls) then dropSettings ls else l :: dropSettings ls

/-- A line is what stands before the first newline. -/
theorem append_newline_inj (hl : '\n' ∉ l) (hw : '\n' ∉ w) (h : l ++ '\n' :: t = w ++ '\n' :: u) : l = w ∧ t = u := by
  have htake : ∀ {l t : Text}, '\n' ∉ l → (l ++ '\n' :: t).takeWhile (· != '\n') = l := fun hl =>
    takeWhile_append_of_head (fun x hx => bne_iff_ne.mpr fun hn => hl (hn ▸ hx)) (by simp)
  have hline : l = w := by rw [← htake hl, h, htake hw]
  subst hline
  exact ⟨rfl, (List.cons.inj (List.append_cancel_left h)).2⟩

/-- Lines at the start of a text, among which a later line is not, are the first of the lines before it. -/
theorem prefix_of_unlines_append (hls : ∀ k ∈ ls, '\n' ∉ k) (hms : ∀ k ∈ ms, '\n' ∉ k) (hl : '\n' ∉ l) (hmem : l ∉ ls)
    (h : unlines ls ++ t = unlines ms ++ (l ++ '\n' :: u)) : ls <+: ms := by
  induction ls generalizing ms with
  | nil => exact List.nil_prefix
  | cons k ls ih =>
    obtain ⟨hk, hls⟩ := List.forall_mem_cons.mp hls
    obtain ⟨hne, hmem⟩ := List.ne_and_not_mem_of_not_mem_cons hmem
    rw [unlines_cons_append] at h
    cases ms with
    | nil => exact absurd (append_newline_inj hl hk h.symm).1 hne
    | cons k' ms =>
      obtain ⟨hk', hrest⟩ := List.forall_mem_cons.mp hms
      rw [unlines_cons_append] at h
      obtain ⟨rfl, htail⟩ := append_newline_inj hk hk' h
      exact List.cons_prefix_cons.mpr ⟨rfl, ih hls hrest hmem htail⟩

theorem mem_ends_lineAfter : d ∈ (Regex.seq (.many (· != '\n')) (.char (· == '\n'))).ends c ↔
    ∃ u v, c.rest = u ++ '\n' :: v ∧ '\n' ∉ u ∧ d = ⟨true, v, c.groups⟩ := by
  rw [mem_ends_seq]
  constructor
  · rintro ⟨b, hb, hd⟩
    obtain ⟨u, v, hrest, hu, rfl⟩ := mem_ends_many.mp hb
    obtain ⟨x, t, ht, hx, rfl⟩ := mem_ends_char.mp hd
    obtain rfl : x = '\n' := by simpa using hx
    obtain rfl : v = '\n' :: t := ht
    exact ⟨u, t, hrest, fun hn => by simpa using hu _ hn, rfl⟩
  · rintro ⟨u, v, hrest, hu, rfl⟩
    refine ⟨_, mem_ends_many.mpr ⟨u, '\n' :: v, hrest, fun x hx => ?_, rfl⟩,
      mem_ends_char.mpr ⟨'\n', v, rfl, rfl, rfl⟩⟩
    exact bne_iff_ne.mpr fun hn => hu (hn ▸ hx)

theorem mem_ends_settingLine : d ∈ settingLine.ends c ↔ ∃ w ∈ settingNames, ∃ u v,
    c.rest = "set ".toList ++ (w ++ ("=".toList ++ (u ++ '\n' :: v))) ∧ '\n' ∉ u ∧ d = ⟨true, v, c.groups⟩ := by
  have hname : Spells (.alt (literal "default".toList) (literal "timeout".toList)) settingNames :=
    (spells_literal _).alt (spells_literal _)
  constructor
  · intro hd
    obtain ⟨b, hb, hd⟩ := mem_ends_seq.mp hd
    obtain ⟨b', hb', hd⟩ := mem_ends_seq.mp hd
    obtain ⟨b'', hb'', hd⟩ := mem_ends_seq.mp hd
    obtain ⟨t, hrest, rfl⟩ := mem_ends_literal.mp hb
    obtain ⟨w, hw, t', rfl, rfl⟩ := hname.mem_ends.mp hb'
    obtain ⟨t'', rfl, rfl⟩ := mem_ends_literal.mp hb''
    obtain ⟨u, v, rfl, hu, rfl⟩ := mem_ends_lineAfter.mp hd
    exact ⟨w, hw, u, v, hrest, hu, rfl⟩
  · rintro ⟨w, hw, u, v, hrest, hu, rfl⟩
    refine mem_ends_seq.mpr ⟨_, mem_ends_literal.mpr ⟨_, hrest, rfl⟩, ?_⟩
    refine mem_ends_seq.mpr ⟨_, hname.mem_ends.mpr ⟨w, hw, _, rfl, rfl⟩, ?_⟩
    exact mem_ends_seq.mpr ⟨_, mem_ends_literal.mpr ⟨_, rfl, rfl⟩, mem_ends_lineAfter.mpr ⟨u, v, rfl, hu, rfl⟩⟩

theorem solid_settingLine : Solid settingLine := (solid_literal (by decide) "et ".toList).seq _

theorem isSetting_iff : isSetting l = true ↔ ∃ w ∈ settingNames, ∃ u,
    l.dropWhile isSpace = "set ".toList ++ (w ++ ("=".toList ++ u)) := by
  simp only [isSetting, List.any_eq_true, List.isPrefixOf_iff_prefix]
  constructor
  · rintro ⟨w, hw, u, hu⟩
    exact ⟨w, hw, u, by rw [← hu, List.append_assoc, List.append_assoc]⟩
  · rintro ⟨w, hw, u, hu⟩
    exact ⟨w, hw, u, by rw [hu, List.append_assoc, List.append_assoc]⟩

theorem firstWord_of_isSetting (h : isSetting l = true) : firstWord l ≠ [] := by
  obtain ⟨w, -, u, hu⟩ := isSetting_iff.mp h
  intro hblank
  rw [List.dropWhile_eq_nil_iff.mpr (firstWord_eq_nil.mp hblank)] at hu
  cases hu

/-- A line that is not blank is deleted where it is a setting. -/
theorem matchAt_setting_line (hl : '\n' ∉ l) (hblank : firstWord l ≠ []) (t : Text) :
    setting.matchAt true (l ++ '\n' :: t) = if isSetting l then some ([], t) else none := by
  have hne : l.dropWhile isSpace ≠ [] := fun hnil => hblank (by rw [firstWord, hnil]; rfl)
  have hdrop : (l ++ '\n' :: t).dropWhile isSpace = l.dropWhile isSpace ++ '\n' :: t := by
    rw [List.dropWhile_append]
    simp [hne]
  have hline : '\n' ∉ l.dropWhile isSpace := fun h => hl (List.dropWhile_subset _ h)
  have hname : ∀ w ∈ settingNames, '\n' ∉ w := forall_mem_of_all (by decide)
  rw [matchAt, setting, ends_indented solid_settingLine, hdrop]
  generalize startsLine true ((l ++ '\n' :: t).takeWhile isSpace) = s
  split
  case isTrue hset =>
    obtain ⟨w, hw, u, hu⟩ := isSetting_iff.mp hset
    have hu' : '\n' ∉ u := fun h => hline (by rw [hu]; simp [h])
    rw [hu, head?_ends_eq (d := ⟨true, t, []⟩) (mem_ends_settingLine.mpr ⟨w, hw, u, t, by simp, hu', rfl⟩)]
    · rfl
    intro b hb
    obtain ⟨w', hw', u', v, hrest, hnewline, rfl⟩ := mem_ends_settingLine.mp hb
    have hboth : ("set ".toList ++ (w ++ ("=".toList ++ u))) ++ '\n' :: t =
        ("set ".toList ++ (w' ++ ("=".toList ++ u'))) ++ '\n' :: v := by
      simpa using hrest
    have hleft : '\n' ∉ "set ".toList ++ (w ++ ("=".toList ++ u)) := hu ▸ hline
    have hright : '\n' ∉ "set ".toList ++ (w' ++ ("=".toList ++ u')) := by
      simp [hname w' hw', hnewline]
    rw [(append_newline_inj hleft hright hboth).2]
  case isFalse hset =>
    rw [Option.map_eq_none_iff, List.head?_eq_none_iff, List.eq_nil_iff_forall_not_mem]
    intro b hb
    obtain ⟨w, hw, u, v, hrest, hu, -⟩ := mem_ends_settingLine.mp hb
    have hboth : l.dropWhile isSpace ++ '\n' :: t = ("set ".toList ++ (w ++ ("=".toList ++ u))) ++ '\n' :: v := by
      simpa using hrest
    have hright : '\n' ∉ "set ".toList ++ (w ++ ("=".toList ++ u)) := by
      simp [hname w hw, hu]
    exact hset (isSetting_iff.mpr ⟨w, hw, u, (append_newline_inj hline hright hboth).1⟩)

/-! ## Deleting settings -/

theorem dropSettings_sublist (ls : List Text) : (dropSettings ls).Sublist ls := by
  induction ls with
  | nil => exact .slnil
  | cons l ls ih =>
    rw [dropSettings]
    split
    · exact ih.cons l
    · exact ih.cons_cons l

/-- No setting is left. -/
theorem isSetting_dropSettings (ls : List Text) : ∀ l ∈ dropSettings ls, isSetting l = false := by
  induction ls with
  | nil => exact List.forall_mem_nil _
  | cons l ls ih =>
    rw [dropSettings]
    split
    case isTrue => exact ih
    case isFalse hpending =>
      refine List.forall_mem_cons.mpr ⟨?_, ih⟩
      by_contra hset
      rw [Bool.not_eq_false] at hset
      exact hpending (by rw [pending, if_neg (firstWord_of_isSetting hset), hset])

/-- Lines without settings, of which the last is not blank, stay as they are. -/
theorem dropSettings_append (hnone : ∀ l ∈ ls, isSetting l = false) (hlast : ∀ l ∈ ls.getLast?, firstWord l ≠ [])
    (ms : List Text) : dropSettings (ls ++ ms) = ls ++ dropSettings ms := by
  induction ls with
  | nil => rfl
  | cons l ls ih =>
    have hpending : ∀ ls : List Text, (∀ l ∈ ls, isSetting l = false) → (∀ l ∈ ls.getLast?, firstWord l ≠ []) →
        ls ≠ [] → pending (ls ++ ms) = false := by
      intro ls
      induction ls with
      | nil => exact fun _ _ h => absurd rfl h
      | cons l ls ih =>
        intro hnone hlast _
        obtain ⟨hl, hnone⟩ := List.forall_mem_cons.mp hnone
        rw [List.cons_append, pending]
        split
        case isFalse => exact hl
        case isTrue hblank =>
          refine ih hnone (fun m hm => hlast m (by rw [List.getLast?_cons, Option.mem_def.mp hm]; rfl)) ?_
          rintro rfl
          exact hlast l rfl hblank
    have hl := hpending (l :: ls) hnone hlast (List.cons_ne_nil l ls)
    rw [List.cons_append] at hl
    rw [List.cons_append, dropSettings, hl, if_neg (by simp), ih (List.forall_mem_cons.mp hnone).2
      fun m hm => hlast m (by rw [List.getLast?_cons, Option.mem_def.mp hm]; rfl)]
    rfl

theorem anchored_setting : Anchored setting := anchored_indented _

theorem consumes_settingLine : Consumes settingLine := (consumes_literal (by simp)).seq_left _

/-- A match takes lines up to a setting. -/
theorem matchAt_setting_pending (hls : ∀ l ∈ ls, '\n' ∉ l) (h : pending ls = true) : ∃ before after,
    ls = before ++ after ∧ before ≠ [] ∧ setting.matchAt true (unlines ls) = some ([], unlines after) ∧
      dropSettings ls = dropSettings after := by
  induction ls with
  | nil => cases h
  | cons l ls ih =>
    obtain ⟨hl, hls⟩ := List.forall_mem_cons.mp hls
    have hdrop : dropSettings (l :: ls) = dropSettings ls := by rw [dropSettings, if_pos h]
    rw [pending] at h
    split at h
    case isTrue hblank =>
      obtain ⟨before, after, rfl, -, hm, hafter⟩ := ih hls h
      refine ⟨l :: before, after, rfl, List.cons_ne_nil l before, ?_, hdrop.trans hafter⟩
      rw [unlines_cons, setting, matchAt_indented_blank solid_settingLine (firstWord_eq_nil.mp hblank), ← setting, hm]
    case isFalse hblank =>
      refine ⟨[l], ls, rfl, List.cons_ne_nil l [], ?_, hdrop⟩
      rw [unlines_cons, matchAt_setting_line hl hblank, if_pos h]

theorem matchAt_setting_none (hls : ∀ l ∈ ls, '\n' ∉ l) (h : pending ls = false) :
    setting.matchAt true (unlines ls) = none := by
  induction ls with
  | nil => exact consumes_settingLine.indented.matchAt_nil true
  | cons l ls ih =>
    obtain ⟨hl, hls⟩ := List.forall_mem_cons.mp hls
    rw [unlines_cons]
    rw [pending] at h
    split at h
    case isTrue hblank =>
      rw [setting, matchAt_indented_blank solid_settingLine (firstWord_eq_nil.mp hblank), ← setting, ih hls h]
    case isFalse hblank => rw [matchAt_setting_line hl hblank, h, if_neg (by simp)]

theorem unlines_ne_nil (h : ls ≠ []) : unlines ls ≠ [] := by
  obtain ⟨l, ls, rfl⟩ := List.exists_cons_of_ne_nil h
  simp [unlines]

theorem startsLine_unlines (h : ls ≠ []) (s : Bool) : startsLine s (unlines ls) = true := by
  obtain ⟨ls, l, rfl⟩ := (List.eq_nil_or_concat' ls).resolve_left h
  rw [unlines_append, startsLine_append]
  simp [unlines]

/-- What is left of lines is the lines without the settings and the blank lines before each. -/
theorem delete_setting (hls : ∀ l ∈ ls, '\n' ∉ l) : setting.delete (unlines ls) = unlines (dropSettings ls) := by
  induction hn : ls.length using Nat.strong_induction_on generalizing ls with
  | _ n ih =>
    subst hn
    cases hpending : pending ls with
    | true =>
      obtain ⟨before, after, rfl, hbefore, hm, hdrop⟩ := matchAt_setting_pending hls hpending
      have hlt : after.length < (before ++ after).length := by
        have hpos := List.length_pos_iff.mpr hbefore
        simp only [List.length_append]
        omega
      rw [unlines_append] at hm
      rw [unlines_append, delete_match (unlines_ne_nil hbefore) (startsLine_unlines hbefore true) hm, hdrop,
        ih after.length hlt (fun l hl => hls l (List.mem_append_right _ hl)) rfl]
    | false =>
      cases ls with
      | nil => rfl
      | cons l ls =>
        have hm := matchAt_setting_none hls hpending
        obtain ⟨hl, hls⟩ := List.forall_mem_cons.mp hls
        rw [unlines_cons] at hm
        rw [unlines_cons, anchored_setting.delete_line hl hm, ih ls.length (by simp) hls rfl, dropSettings,
          if_neg (by simp [hpending]), unlines_cons]

/-! ## Entries -/

def entryIds : List Text := ["romulus-preload-display".toList, "azurefin-install".toList]

/-- The first line of an entry -/
def EntryLine (l : Text) : Prop := ∃ title, ∃ id ∈ entryIds, title ≠ [] ∧ '\n' ∉ title ∧
  l = "menuentry ".toList ++ (title ++ (" --id ".toList ++ (id ++ " \x7b".toList)))

/-- What stands between the first line of an entry and its brace: lines without braces -/
def EntryBody (body : Text) : Prop := body.getLast? = some '\n' ∧ ∀ x ∈ body, notBrace x = true

/-- An entry starts here, with its body and what follows its brace. -/
def EntryAt (t body after : Text) : Prop := ∃ l, EntryLine l ∧ EntryBody body ∧
  t = l ++ '\n' :: (body ++ '\x7d' :: after)

variable {body body' after after' : Text}

theorem EntryBody.ne_nil (h : EntryBody body) : body ≠ [] := by
  rintro rfl
  cases h.1

theorem EntryLine.newline_not_mem (h : EntryLine l) : '\n' ∉ l := by
  obtain ⟨title, id, hid, -, htitle, rfl⟩ := h
  have hnewline : ∀ id ∈ entryIds, '\n' ∉ id := forall_mem_of_all (by decide)
  simp [htitle, hnewline id hid]

theorem EntryLine.brace_mem (h : EntryLine l) : '\x7b' ∈ l := by
  obtain ⟨title, id, -, -, -, rfl⟩ := h
  simp

theorem mem_ends_entry : d ∈ entry.ends ⟨true, t, []⟩ ↔
    ∃ body after, EntryAt t body after ∧ d = ⟨false, after, [body]⟩ := by
  have hid : Spells entryId entryIds := (spells_literal _).alt (spells_literal _)
  have hstart : ∀ {c d : Cursor}, d ∈ Regex.lineStart.ends c ↔ c.start = true ∧ d = c := by
    intro c d
    rw [ends_lineStart]
    split <;> simp_all
  constructor
  · intro hd
    obtain ⟨b, hb, hd⟩ := mem_ends_seq.mp hd
    obtain ⟨-, rfl⟩ := hstart.mp hb
    obtain ⟨b, hb, hd⟩ := mem_ends_seq.mp hd
    obtain ⟨t₁, rfl, rfl⟩ := mem_ends_literal.mp hb
    obtain ⟨b, hb, hd⟩ := mem_ends_seq.mp hd
    obtain ⟨title, t₂, rfl, htitle, hline, rfl⟩ := mem_ends_some1.mp hb
    obtain ⟨b, hb, hd⟩ := mem_ends_seq.mp hd
    obtain ⟨t₃, rfl, rfl⟩ := mem_ends_literal.mp hb
    obtain ⟨b, hb, hd⟩ := mem_ends_seq.mp hd
    obtain ⟨id, hidmem, t₄, rfl, rfl⟩ := hid.mem_ends.mp hb
    obtain ⟨b, hb, hd⟩ := mem_ends_seq.mp hd
    obtain ⟨t₅, rfl, rfl⟩ := mem_ends_literal.mp hb
    obtain ⟨b, hb, hd⟩ := mem_ends_seq.mp hd
    obtain ⟨body, b', hb', hrest, rfl⟩ := mem_ends_group.mp hb
    obtain ⟨body', t₆, hrest', hne, hbrace, rfl⟩ := mem_ends_some1.mp hb'
    obtain rfl : body = body' := List.append_cancel_right (hrest.symm.trans hrest')
    obtain ⟨b, hb, hd⟩ := mem_ends_seq.mp hd
    obtain ⟨hend, rfl⟩ := hstart.mp hb
    obtain ⟨after, hafter, rfl⟩ := mem_ends_literal.mp hd
    obtain rfl : t₅ = body ++ t₆ := hrest
    obtain rfl : t₆ = "\x7d".toList ++ after := hafter
    refine ⟨body, after, ⟨_, ⟨title, id, hidmem, htitle, fun hn => by simpa using hline _ hn, rfl⟩,
      ⟨(startsLine_iff hne _).mp hend, hbrace⟩, ?_⟩, rfl⟩
    simp
  · rintro ⟨body, after, ⟨l, ⟨title, id, hidmem, htitle, hline, rfl⟩, ⟨hend, hbrace⟩, rfl⟩, rfl⟩
    have hne : body ≠ [] := EntryBody.ne_nil ⟨hend, hbrace⟩
    refine mem_ends_seq.mpr ⟨_, hstart.mpr ⟨rfl, rfl⟩, ?_⟩
    refine mem_ends_seq.mpr ⟨_, mem_ends_literal.mpr ⟨title ++ (" --id ".toList ++ (id ++ (" \x7b\n".toList ++
      (body ++ '\x7d' :: after)))), by simp, rfl⟩, ?_⟩
    refine mem_ends_seq.mpr ⟨_, mem_ends_some1.mpr ⟨title, _, rfl, htitle, fun x hx => ?_, rfl⟩, ?_⟩
    · exact bne_iff_ne.mpr fun hn => hline (hn ▸ hx)
    refine mem_ends_seq.mpr ⟨_, mem_ends_literal.mpr ⟨_, rfl, rfl⟩, ?_⟩
    refine mem_ends_seq.mpr ⟨_, hid.mem_ends.mpr ⟨id, hidmem, _, rfl, rfl⟩, ?_⟩
    refine mem_ends_seq.mpr ⟨_, mem_ends_literal.mpr ⟨_, rfl, rfl⟩, ?_⟩
    refine mem_ends_seq.mpr ⟨_, mem_ends_group.mpr ⟨body, _, mem_ends_some1.mpr ⟨body, _, rfl, hne, hbrace, rfl⟩,
      rfl, rfl⟩, ?_⟩
    refine mem_ends_seq.mpr ⟨_, hstart.mpr ⟨(startsLine_iff hne _).mpr hend, rfl⟩, ?_⟩
    exact mem_ends_literal.mpr ⟨after, rfl, rfl⟩

/-- An entry has one body. -/
theorem EntryAt.unique (h : EntryAt t body after) (h' : EntryAt t body' after') : body = body' ∧ after = after' := by
  obtain ⟨l, hl, ⟨-, hbrace⟩, rfl⟩ := h
  obtain ⟨l', hl', ⟨-, hbrace'⟩, heq⟩ := h'
  have hbody := (append_newline_inj hl.newline_not_mem hl'.newline_not_mem heq).2
  have htake : ∀ {body after : Text}, (∀ x ∈ body, notBrace x = true) →
      (body ++ '\x7d' :: after).takeWhile notBrace = body := fun h =>
    takeWhile_append_of_head h (by simp [notBrace])
  obtain rfl : body = body' := by rw [← htake hbrace, hbody, htake hbrace']
  exact ⟨rfl, (List.cons.inj (List.append_cancel_left hbody)).2⟩

theorem matchAt_entry : entry.matchAt true t = some (gs, after) ↔ ∃ body, EntryAt t body after ∧ gs = [body] := by
  constructor
  · intro h
    obtain ⟨d, hd, heq⟩ := matchAt_eq_some h
    obtain ⟨body, after', hentry, rfl⟩ := mem_ends_entry.mp hd
    obtain ⟨rfl, rfl⟩ := Prod.mk.inj heq
    exact ⟨body, hentry, rfl⟩
  · rintro ⟨body, hentry, rfl⟩
    rw [matchAt, head?_ends_eq (mem_ends_entry.mpr ⟨body, after, hentry, rfl⟩)]
    · rfl
    intro b hb
    obtain ⟨body', after', hentry', rfl⟩ := mem_ends_entry.mp hb
    obtain ⟨rfl, rfl⟩ := hentry.unique hentry'
    rfl

theorem anchored_entry : Anchored entry := anchored_seq _

theorem consumes_entry : Consumes entry := ((consumes_literal (by simp)).seq_left _).seq_right _

/-- Where a line is not the first of an entry, no entry starts. -/
theorem matchAt_entry_none (hl : '\n' ∉ l) (h : ¬ EntryLine l) (t : Text) :
    entry.matchAt true (l ++ '\n' :: t) = none := by
  cases hm : entry.matchAt true (l ++ '\n' :: t) with
  | none => rfl
  | some m =>
    obtain ⟨body, ⟨l', hl', -, heq⟩, -⟩ := matchAt_entry.mp hm
    exact absurd ((append_newline_inj hl hl'.newline_not_mem heq).1 ▸ hl') h

theorem exists_tail (hw : w ∈ lineTails (body ++ ['\x7d'])) :
    ∃ b, b <:+ body ∧ w = b ++ ['\x7d'] := by
  rcases List.mem_cons.mp hw with rfl | hw
  · exact ⟨body, List.suffix_rfl, rfl⟩
  · obtain ⟨u, hu⟩ := mem_tailsAfter.mp hw
    rcases w.eq_nil_or_concat' with rfl | ⟨b, x, rfl⟩
    · have hlast := (List.append_inj' hu rfl).2
      simp at hlast
    · have htext : body ++ ['\x7d'] = (u ++ '\n' :: b) ++ [x] := by simpa using hu
      obtain ⟨hbody, hx⟩ := List.append_inj' htext rfl
      exact ⟨b, ⟨u ++ ['\n'], by rw [hbody]; simp⟩, by rw [hx]⟩

/-- No entry starts inside an entry. -/
theorem separate_entry : Separate entry := by
  intro u v gs h
  obtain ⟨body, ⟨l, hl, hbody, heq⟩, -⟩ := matchAt_entry.mp h
  obtain rfl : u = l ++ '\n' :: (body ++ ['\x7d']) := by
    have htext : u ++ v = (l ++ '\n' :: (body ++ ['\x7d'])) ++ v := by simpa using heq
    exact List.append_cancel_right htext
  have hsplit : l ++ '\n' :: (body ++ ['\x7d']) = (l ++ '\n' :: body) ++ ['\x7d'] := by simp
  refine ⟨by rw [hsplit, startsLine_append]; rfl, fun w hw => ?_⟩
  rw [tailsAfter_line hl.newline_not_mem] at hw
  obtain ⟨b, hb, rfl⟩ := exists_tail hw
  cases hm : entry.matchAt true ((b ++ ['\x7d']) ++ v) with
  | none => rfl
  | some m =>
    obtain ⟨body', ⟨l', hl', -, heq'⟩, -⟩ := matchAt_entry.mp hm
    rcases b.eq_nil_or_concat' with rfl | ⟨b, x, rfl⟩
    · -- the line begins with the brace
      obtain ⟨title, id, -, -, -, rfl⟩ := hl'
      simp at heq'
    · -- the line has no brace
      have hnewline : '\n' ∈ b ++ [x] := by
        obtain ⟨a, ha⟩ := hb
        have hlast := hbody.1
        rw [← ha, ← List.append_assoc, List.getLast?_concat] at hlast
        rw [Option.some.inj hlast]
        simp
      obtain ⟨c, e, hc, hcn⟩ := List.eq_append_cons_of_mem hnewline
      have hline : c = l' := by
        refine (append_newline_inj hcn hl'.newline_not_mem ((?_ : c ++ '\n' :: (e ++ '\x7d' :: v) = _).trans heq')).1
        rw [hc]
        simp
      have hbrace := hbody.2 '\x7b' (hb.subset (by rw [hc, hline]; exact List.mem_append_left _ hl'.brace_mem))
      simp [notBrace] at hbrace

theorem findall_entry (t : Text) : entry.findall t = (lineTails t).filterMap entry.captured :=
  findall_eq_filterMap anchored_entry consumes_entry separate_entry t

theorem captured_entry : entry.captured t = some body ↔ ∃ after, EntryAt t body after := by
  rw [captured, Option.map_eq_some_iff]
  constructor
  · rintro ⟨⟨gs, after⟩, hm, rfl⟩
    obtain ⟨body, hentry, rfl⟩ := matchAt_entry.mp hm
    exact ⟨after, hentry⟩
  · rintro ⟨after, hentry⟩
    exact ⟨([body], after), matchAt_entry.mpr ⟨body, hentry, rfl⟩, rfl⟩

theorem findall_entry_skip (hls : ∀ l ∈ ls, '\n' ∉ l ∧ ¬ EntryLine l) (t : Text) :
    entry.findall (unlines ls ++ t) = entry.findall t := by
  induction ls with
  | nil => rfl
  | cons l ls ih =>
    obtain ⟨⟨hl, hline⟩, hls⟩ := List.forall_mem_cons.mp hls
    rw [unlines_cons_append, findall_eq_findFrom, anchored_entry.findFrom_line hl (matchAt_entry_none hl hline _),
      ← findall_eq_findFrom, ih hls]

theorem findall_entry_cons (h : EntryAt t body after) :
    entry.findall t = body :: entry.findFrom false after := by
  have hm := matchAt_entry.mpr ⟨body, h, rfl⟩
  obtain ⟨u, hu, rfl⟩ := consumes_entry.exists_append hm
  rw [findall_eq_findFrom, findFrom_match hu hm, (separate_entry hm).1]
  rfl

theorem menuentry_mem : "menuentry".toList ∈ menuWords := by
  simp [menuWords]

theorem EntryLine.firstWord_eq (h : EntryLine l) : firstWord l = "menuentry".toList := by
  obtain ⟨title, id, -, -, -, rfl⟩ := h
  have hsplit := word_split (u := []) (v := ' ' :: (title ++ (" --id ".toList ++ (id ++ " \x7b".toList))))
    (List.forall_mem_nil _) (words_menu _ menuentry_mem).1 (words_menu _ menuentry_mem).2 (by simp; decide)
  exact hsplit.2.1

/-- Where an entry starts, a menu entry starts. -/
theorem EntryAt.matchAt_menu (h : EntryAt t body after) : menu.matchAt true t ≠ none := by
  obtain ⟨l, hl, -, rfl⟩ := h
  have hword := hl.firstWord_eq
  have hne : firstWord l ≠ [] := by rw [hword]; simp
  obtain ⟨hfirst, hafter⟩ := word_append (u := '\n' :: (body ++ '\x7d' :: after)) hne (by simp; decide)
  rw [menu, matchAt_command spells_menu words_menu, hfirst, hword, hafter]
  exact ⟨menuentry_mem, by simp⟩

/-! ## The header -/

theorem anchored_menu : Anchored menu := anchored_command _

theorem consumes_menu : Consumes menu := (consumes_command _).indented

/-- In front of the first menu entry are lines with other words. -/
theorem before_menu (h : ∃ u ∈ lineTails t, menu.matchAt true u ≠ none) : ∃ ls v, t = unlines ls ++ v ∧
    menu.before t = unlines ls ∧ ∀ l ∈ ls, '\n' ∉ l ∧ firstWord l ∉ menuWords := by
  obtain ⟨ls, v, htext, hbefore, hls, hnone⟩ := anchored_menu.exists_before consumes_menu h
  refine ⟨ls, v, htext, hbefore, fun l hl => ⟨hls l hl, fun hword => ?_⟩⟩
  obtain ⟨a, b, rfl⟩ := List.append_of_mem hl
  have hm := hnone (l :: b) (List.suffix_append a _) (List.cons_ne_nil l b)
  obtain ⟨hfirst, hafter⟩ := word_append (u := '\n' :: (unlines b ++ v)) (words_menu _ hword).1 (by simp; decide)
  rw [unlines_cons_append] at hm
  exact (matchAt_command spells_menu words_menu).mpr ⟨by rwa [hfirst], by rw [hafter]; simp⟩ hm

theorem rdropWhile_append (p : Char → Bool) (t u : Text) : (t ++ u).rdropWhile p =
    if u.rdropWhile p = [] then t.rdropWhile p else t ++ u.rdropWhile p := by
  rw [List.rdropWhile, List.reverse_append, List.dropWhile_append, List.rdropWhile, List.rdropWhile]
  simp only [List.isEmpty_iff, List.reverse_eq_nil_iff]
  split <;> simp

/-- Lines whose spaces at the end are stripped are lines again, of which the last is not blank, or a blank
line. What holds of the lines and of their starts holds of these. -/
theorem exists_stripped {P : Text → Prop} (hP : ∀ l, P l → P (l.rdropWhile isSpace)) (hnil : P [])
    (hls : ∀ l ∈ ls, P l) : ∃ hs, (unlines ls).rdropWhile isSpace ++ ['\n'] = unlines hs ∧
      (∀ l ∈ hs, P l) ∧ (hs = [[]] ∨ ∀ l ∈ hs.getLast?, firstWord l ≠ []) := by
  induction ls using List.reverseRecOn with
  | nil => exact ⟨[[]], rfl, List.forall_mem_singleton.mpr hnil, .inl rfl⟩
  | append_singleton ls l ih =>
    obtain ⟨hls, hl⟩ := List.forall_mem_append.mp hls
    have hlast : unlines (ls ++ [l]) = (unlines ls ++ l) ++ ['\n'] := by simp [unlines]
    rw [hlast, List.rdropWhile_concat_pos _ _ _ (by decide), rdropWhile_append]
    split
    case isTrue => exact ih hls
    case isFalse hne =>
      refine ⟨ls ++ [l.rdropWhile isSpace], by simp [unlines], ?_, .inr fun m hm => ?_⟩
      · exact List.forall_mem_append.mpr ⟨hls, List.forall_mem_singleton.mpr (hP l (hl l (List.mem_singleton_self l)))⟩
      · rw [List.getLast?_concat, Option.mem_some_iff] at hm
        subst hm
        intro hblank
        have hall := firstWord_eq_nil.mp hblank
        exact List.rdropWhile_last_not _ _ hne (hall _ (List.getLast_mem hne))

/-! ## The label -/

theorem fullmatch_stage2 : fullmatch stage2 t = true ↔ ∃ x label, x ≠ '\n' ∧ label ≠ [] ∧
    (∀ y ∈ label, isLabelChar y = true) ∧ t = "inst".toList ++ x :: ("stage2=hd:LABEL=".toList ++ label) := by
  rw [fullmatch, List.any_eq_true]
  constructor
  · rintro ⟨d, hd, hrest⟩
    obtain ⟨b, hb, hd⟩ := mem_ends_seq.mp hd
    obtain ⟨t₁, rfl, rfl⟩ := mem_ends_literal.mp hb
    obtain ⟨b, hb, hd⟩ := mem_ends_seq.mp hd
    obtain ⟨x, t₂, rfl, hx, rfl⟩ := mem_ends_char.mp hb
    obtain ⟨b, hb, hd⟩ := mem_ends_seq.mp hd
    obtain ⟨t₃, rfl, rfl⟩ := mem_ends_literal.mp hb
    obtain ⟨label, t₄, rfl, hne, hlabel, rfl⟩ := mem_ends_some1.mp hd
    obtain rfl : t₄ = [] := List.isEmpty_iff.mp hrest
    exact ⟨x, label, bne_iff_ne.mp hx, hne, hlabel, by simp⟩
  · rintro ⟨x, label, hx, hne, hlabel, rfl⟩
    refine ⟨⟨_, [], []⟩, mem_ends_seq.mpr ⟨_, mem_ends_literal.mpr ⟨_, rfl, rfl⟩, mem_ends_seq.mpr ⟨_,
      mem_ends_char.mpr ⟨x, _, rfl, bne_iff_ne.mpr hx, rfl⟩, mem_ends_seq.mpr ⟨_,
        mem_ends_literal.mpr ⟨_, rfl, rfl⟩, mem_ends_some1.mpr ⟨label, [], by simp, hne, hlabel, rfl⟩⟩⟩⟩, rfl⟩

end Azurefin.Grub
