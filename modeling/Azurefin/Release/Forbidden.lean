import Azurefin.Release.Audit

/-!
# What a forbidden name is, in components

`forbidden` judges the components between slashes: `forbidden_iff`. From that, exactly when it
judges a path the same way below every prefix and in every spelling: `forbidden_location_iff`.
-/

namespace Azurefin

open Words

/-! ## Text in lower case -/

theorem lower_append (s t : Text) : lower (s ++ t) = lower s ++ lower t := List.flatMap_append

theorem toLower_eq_slash {c : Char} (h : c.toLower = '/') : c = '/' := by
  unfold Char.toLower at h
  split at h
  case isTrue hupper =>
    have hval : (c.val + 32).toNat = 47 := congrArg Char.toNat h
    have hlow : 65 ≤ c.val.toNat := UInt32.le_iff_toNat_le.mp hupper.1
    have hhigh : c.val.toNat ≤ 90 := UInt32.le_iff_toNat_le.mp hupper.2
    rw [UInt32.toNat_add] at hval
    change (c.val.toNat + 32) % 4294967296 = 47 at hval
    omega
  case isFalse => exact h

theorem slash_mem_lower {t : Text} : '/' ∈ lower t ↔ '/' ∈ t := by
  have hchar : ∀ c, '/' ∈ (asciiLowerings.lookup c).getD [c.toLower] ↔ c = '/' := by
    intro c
    by_cases hdot : c = '\u0130'
    · subst hdot
      decide
    by_cases hkelvin : c = '\u212a'
    · subst hkelvin
      decide
    rw [asciiLowerings, List.lookup_cons, beq_false_of_ne hdot, List.lookup_cons,
      beq_false_of_ne hkelvin]
    simp only [List.lookup_nil, Option.getD_none, List.mem_singleton]
    refine ⟨fun h => toLower_eq_slash h.symm, ?_⟩
    rintro rfl
    rfl
  simp only [lower, List.mem_flatMap, hchar]
  exact ⟨fun ⟨c, hc, h⟩ => h ▸ hc, fun h => ⟨_, h, rfl⟩⟩

theorem lower_intercalate (ps : List Text) :
    lower (List.intercalate ['/'] ps) = List.intercalate ['/'] (ps.map lower) := by
  induction ps with
  | nil => rfl
  | cons p ps ih =>
    cases ps with
    | nil => simp
    | cons q qs =>
      rw [List.intercalate_cons_cons, lower_append, lower_append, ih, List.map_cons, List.map_cons,
        List.map_cons, List.intercalate_cons_cons]
      rfl

/-! ## The tests on components -/

def EndsMsi (ps : List Text) : Prop := ∃ u l, ps = u ++ [l] ∧ ".msi".toList <:+ lower l

def HasMicrosoft (ps : List Text) : Prop :=
  ∃ u a b c v, ps = u ++ a :: b :: c :: v ∧ "qcom".toList <:+ lower a ∧
    lower b = "x1e80100".toList ∧ "microsoft".toList <+: lower c

def HasSecret (ps : List Text) : Prop := ".ssh".toList ∈ ps ∨ "cosign.key".toList ∈ ps

/-- The components behind the first one that ends in `etc`. -/
def behindEtc (ps : List Text) : Option (List Text) := wordsBehind "etc".toList ps

/-- Components that must not be below `etc`. -/
def PrivateEtc (rest : List Text) : Prop :=
  rest = ["romulus-bluetooth-address".toList] ∨
    (∃ a v, rest = "NetworkManager".toList :: "system-connections".toList :: a :: v) ∨
    (∃ h v, rest = "ssh".toList :: h :: v ∧ "ssh_host_".toList <+: h) ∨
    rest = ["copr".toList] ∨ rest = ["copr.conf".toList]

/-- The components are caught wherever they are. -/
def CaughtByName (ps : List Text) : Prop := EndsMsi ps ∨ HasMicrosoft ps ∨ HasSecret ps

/-- The components are caught by where they are below the first `etc`. -/
def CaughtInEtc (ps : List Text) : Prop := ∃ rest, behindEtc ps = some rest ∧ PrivateEtc rest

def Caught (ps : List Text) : Prop := CaughtByName ps ∨ CaughtInEtc ps

variable {ps qs u : List Text} {x p : Text}

theorem slash_not_mem {t : Text} : ∀ p ∈ t.splitOn '/', '/' ∉ p := fun _ => not_mem_of_mem_splitOn

theorem intercalate_splitOn (t : Text) : List.intercalate ['/'] (t.splitOn '/') = t :=
  List.intercalate_splitOn '/'

theorem splitOn_intercalate (hps : ∀ p ∈ ps, '/' ∉ p) (hne : ps ≠ []) :
    (List.intercalate ['/'] ps).splitOn '/' = ps := List.splitOn_intercalate '/' hps hne

/-! ## Each test of the code -/

theorem msi_iff (hps : ∀ p ∈ ps, '/' ∉ p) (hne : ps ≠ []) :
    ".msi".toList <:+ lower (List.intercalate ['/'] ps) ↔ EndsMsi ps := by
  obtain ⟨u, l, rfl⟩ : ∃ u l, ps = u ++ [l] := ⟨_, _, (List.dropLast_append_getLast hne).symm⟩
  have hends : EndsMsi (u ++ [l]) ↔ ".msi".toList <:+ lower l := by
    constructor
    · rintro ⟨u', l', h, hl⟩
      obtain ⟨-, h⟩ := List.append_inj' h rfl
      obtain rfl : l = l' := by simpa using h
      exact hl
    · exact fun h => ⟨u, l, rfl, h⟩
  rw [hends, lower_intercalate, List.map_append, List.map_singleton]
  exact suffix_intercalate_last (by decide)

theorem microsoft_iff (hps : ∀ p ∈ ps, '/' ∉ p) :
    "qcom/x1e80100/microsoft".toList <:+: lower (List.intercalate ['/'] ps) ↔ HasMicrosoft ps := by
  have hpattern : "qcom/x1e80100/microsoft".toList =
      "qcom".toList ++ '/' :: ("x1e80100".toList ++ '/' :: "microsoft".toList) := rfl
  rw [hpattern, lower_intercalate, infix_three_iff (by decide) (by decide) (by decide)]
  · constructor
    · rintro ⟨u, a, c, v, h, ha, hc⟩
      obtain ⟨u', t, rfl, -, h₁⟩ := List.map_eq_append_iff.mp h
      obtain ⟨a', t₁, rfl, rfl, h₂⟩ := List.map_eq_cons_iff.mp h₁
      obtain ⟨b', t₂, rfl, hb, h₃⟩ := List.map_eq_cons_iff.mp h₂
      obtain ⟨c', v', rfl, rfl, rfl⟩ := List.map_eq_cons_iff.mp h₃
      exact ⟨u', a', b', c', v', rfl, ha, hb, hc⟩
    · rintro ⟨u, a, b, c, v, rfl, ha, hb, hc⟩
      refine ⟨u.map lower, lower a, lower c, v.map lower, ?_, ha, hc⟩
      rw [List.map_append, List.map_cons, List.map_cons, List.map_cons, hb]
  · intro p hp
    obtain ⟨q, hq, rfl⟩ := List.mem_map.mp hp
    exact fun h => hps q hq (slash_mem_lower.mp h)

/-- A text without slashes is one component. -/
theorem intercalate_eq_word {w : Text} (hps : ∀ p ∈ ps, '/' ∉ p) (hne : ps ≠ []) (hw : '/' ∉ w) :
    List.intercalate ['/'] ps = w ↔ ps = [w] := by
  constructor
  · rintro rfl
    have hword : (List.intercalate ['/'] [List.intercalate ['/'] ps]).splitOn '/' =
        [List.intercalate ['/'] ps] := splitOn_intercalate (by simpa using hw) (by simp)
    rw [List.intercalate_singleton, splitOn_intercalate hps hne] at hword
    exact hword
  · rintro rfl
    exact List.intercalate_singleton

theorem etc_prefix_iff {t s : Text} : "etc".toList ++ '/' :: t <+: "etc".toList ++ '/' :: s ↔ t <+: s := by
  rw [prefix_word_iff (by decide) (by decide)]
  simp

/-- The tests of the part from the first `etc/` on. -/
theorem etcTests_iff (hps : ∀ p ∈ ps, '/' ∉ p) (hne : ps ≠ []) {etc : Text}
    (hetc : etc = "etc".toList ++ '/' :: List.intercalate ['/'] ps) :
    (etc = "etc/romulus-bluetooth-address".toList ∨
      "etc/NetworkManager/system-connections/".toList <+: etc ∨ "etc/ssh/ssh_host_".toList <+: etc ∨
        etc = "etc/copr".toList ∨ etc = "etc/copr.conf".toList) ↔ PrivateEtc ps := by
  have hexact : ∀ w : Text, '/' ∉ w → (etc = "etc".toList ++ '/' :: w ↔ ps = [w]) := by
    intro w hw
    rw [hetc, ← intercalate_eq_word hps hne hw]
    simp
  have hconnections : "etc/NetworkManager/system-connections/".toList <+: etc ↔
      ∃ a v, ps = "NetworkManager".toList :: "system-connections".toList :: a :: v := by
    rw [hetc, show "etc/NetworkManager/system-connections/".toList = "etc".toList ++ '/' ::
      ("NetworkManager".toList ++ '/' :: ("system-connections".toList ++ '/' :: [])) from rfl,
      etc_prefix_iff, prefix_intercalate_iff (by decide) hps]
    constructor
    · rintro ⟨q, qs, rfl, h⟩
      obtain ⟨a, v, h, -⟩ := (prefix_intercalate_iff (by decide)
        fun p hp => hps p (List.mem_cons_of_mem _ hp)).mp h
      exact ⟨a, v, by rw [h]⟩
    · rintro ⟨a, v, rfl⟩
      refine ⟨_, _, rfl, (prefix_intercalate_iff (by decide)
        fun p hp => hps p (List.mem_cons_of_mem _ hp)).mpr ⟨a, v, rfl, List.nil_prefix⟩⟩
  have hhost : "etc/ssh/ssh_host_".toList <+: etc ↔
      ∃ h v, ps = "ssh".toList :: h :: v ∧ "ssh_host_".toList <+: h := by
    rw [hetc, show "etc/ssh/ssh_host_".toList = "etc".toList ++ '/' ::
      ("ssh".toList ++ '/' :: "ssh_host_".toList) from rfl, etc_prefix_iff,
      prefix_intercalate_iff (by decide) hps]
    simp only [prefix_intercalate_cons (show '/' ∉ "ssh_host_".toList by decide)]
  rw [PrivateEtc, hconnections, hhost, ← hexact _ (by decide), ← hexact _ (by decide),
    ← hexact _ (by decide)]
  rfl

/-- The same tests on a name, where there may be no `etc/`. -/
theorem caughtInEtc_iff (hps : ∀ p ∈ ps, '/' ∉ p) (hne : ps ≠ []) {etc : Text}
    (hetc : etc = (suffixAt "etc/".toList (List.intercalate ['/'] ps)).getD
      (List.intercalate ['/'] ps)) :
    (etc = "etc/romulus-bluetooth-address".toList ∨
      "etc/NetworkManager/system-connections/".toList <+: etc ∨ "etc/ssh/ssh_host_".toList <+: etc ∨
        etc = "etc/copr".toList ∨ etc = "etc/copr.conf".toList) ↔ CaughtInEtc ps := by
  have hpattern : "etc/".toList = "etc".toList ++ ['/'] := rfl
  have hfirst := suffixAt_intercalate (x := "etc".toList) (by decide) hps hne
  rw [← hpattern] at hfirst
  cases hrest : wordsBehind "etc".toList ps with
  | none =>
    rw [hrest, Option.map_none] at hfirst
    rw [hfirst, Option.getD_none] at hetc
    have hno : ¬ "etc/".toList <:+: etc := by
      rw [hetc, ← contains_iff, contains, hfirst]
      decide
    refine iff_of_false ?_ ?_
    · rintro (h | h | h | h | h)
      · exact hno (h ▸ by decide)
      · exact hno ((List.IsPrefix.isInfix (by decide)).trans h.isInfix)
      · exact hno ((List.IsPrefix.isInfix (by decide)).trans h.isInfix)
      · exact hno (h ▸ by decide)
      · exact hno (h ▸ by decide)
    · rintro ⟨rest, h, -⟩
      rw [behindEtc, hrest] at h
      cases h
  | some rest =>
    rw [hrest, Option.map_some] at hfirst
    rw [hfirst, Option.getD_some] at hetc
    obtain ⟨hsuffix, hne'⟩ := wordsBehind_suffix hrest
    rw [etcTests_iff (fun p hp => hps p (hsuffix.subset hp)) hne' hetc, CaughtInEtc, behindEtc, hrest]
    simp

/-! ## Components in front -/

/-- A component that no test looks for. -/
structure Harmless (x : Text) : Prop where
  qcom : ¬ "qcom".toList <:+ lower x
  ssh : x ≠ ".ssh".toList
  key : x ≠ "cosign.key".toList
  etc : ¬ "etc".toList <:+ x

theorem endsMsi_append (hne : ps ≠ []) : EndsMsi (u ++ ps) ↔ EndsMsi ps := by
  constructor
  · rintro ⟨w, l, h, hl⟩
    refine ⟨ps.dropLast, l, ?_, hl⟩
    have hlast := congrArg List.getLast? h
    rw [List.getLast?_append_of_ne_nil _ hne, List.getLast?_concat] at hlast
    exact (List.dropLast_append_getLast? l hlast).symm
  · rintro ⟨w, l, rfl, hl⟩
    exact ⟨u ++ w, l, (List.append_assoc _ _ _).symm, hl⟩

theorem HasMicrosoft.append (h : HasMicrosoft ps) : HasMicrosoft (u ++ ps) := by
  obtain ⟨w, a, b, c, v, rfl, hm⟩ := h
  exact ⟨u ++ w, a, b, c, v, (List.append_assoc _ _ _).symm, hm⟩

/-- What is caught by its name stays caught behind other components. -/
theorem CaughtByName.append (hne : ps ≠ []) (h : CaughtByName ps) : CaughtByName (u ++ ps) := by
  rcases h with h | h | h
  · exact .inl ((endsMsi_append hne).mpr h)
  · exact .inr (.inl h.append)
  · exact .inr (.inr (h.imp (List.mem_append_right _) (List.mem_append_right _)))

theorem hasMicrosoft_cons (hx : ¬ "qcom".toList <:+ lower x) :
    HasMicrosoft (x :: ps) ↔ HasMicrosoft ps := by
  refine ⟨?_, fun h => h.append (u := [x])⟩
  rintro ⟨w, a, b, c, v, h, ha, hm⟩
  cases w with
  | nil =>
    obtain ⟨rfl, -⟩ := List.cons.inj h
    exact absurd ha hx
  | cons y w =>
    obtain ⟨-, rfl⟩ := List.cons.inj h
    exact ⟨w, a, b, c, v, rfl, ha, hm⟩

theorem behindEtc_cons (hx : ¬ "etc".toList <:+ x) : behindEtc (x :: ps) = behindEtc ps := by
  cases ps with
  | nil => rfl
  | cons p ps =>
    rw [behindEtc, wordsBehind, if_neg fun h => hx (List.isSuffixOf_iff_suffix.mp h)]
    rfl

theorem caughtByName_cons (hqcom : ¬ "qcom".toList <:+ lower x) (hssh : x ≠ ".ssh".toList)
    (hkey : x ≠ "cosign.key".toList) (hne : ps ≠ []) :
    CaughtByName (x :: ps) ↔ CaughtByName ps := by
  refine ⟨?_, fun h => h.append hne (u := [x])⟩
  rintro (h | h | h)
  · exact .inl ((endsMsi_append (u := [x]) hne).mp h)
  · exact .inr (.inl ((hasMicrosoft_cons hqcom).mp h))
  · refine .inr (.inr (h.imp ?_ ?_))
    · exact fun h => (List.mem_cons.mp h).resolve_left hssh.symm
    · exact fun h => (List.mem_cons.mp h).resolve_left hkey.symm

theorem caught_cons (hx : Harmless x) (hne : ps ≠ []) : Caught (x :: ps) ↔ Caught ps := by
  rw [Caught, Caught, caughtByName_cons hx.qcom hx.ssh hx.key hne, CaughtInEtc, CaughtInEtc, behindEtc_cons hx.etc]

theorem harmless_nil : Harmless [] := ⟨by decide, by decide, by decide, by decide⟩

theorem harmless_dot : Harmless ['.'] := ⟨by decide, by decide, by decide, by decide⟩

/-! ## Names -/

theorem splitOn_ne_nil (t : Text) : t.splitOn '/' ≠ [] := List.splitOn_ne_nil _ _

theorem splitOn_append {t : Text} (hp : '/' ∉ p) :
    (p ++ '/' :: t).splitOn '/' = p :: t.splitOn '/' := by
  have h := @splitOn_intercalate (p :: t.splitOn '/')
    (List.forall_mem_cons.mpr ⟨hp, slash_not_mem⟩) (by simp)
  rwa [List.intercalate_cons_of_ne_nil (splitOn_ne_nil t), intercalate_splitOn, List.append_assoc,
    List.singleton_append] at h

/-- The components of a path are the last ones below a prefix. -/
theorem splitOn_append_slash (q p : Text) :
    (q ++ '/' :: p).splitOn '/' = q.splitOn '/' ++ p.splitOn '/' := by
  have h := @splitOn_intercalate (q.splitOn '/' ++ p.splitOn '/') (fun x hx =>
    (List.mem_append.mp hx).elim (slash_not_mem x) (slash_not_mem x)) (by simp)
  rwa [intercalate_append (splitOn_ne_nil q) (splitOn_ne_nil p), intercalate_splitOn,
    intercalate_splitOn] at h

theorem caught_dropWhile (t : Text) :
    Caught ((t.dropWhile (· = '/')).splitOn '/') ↔ Caught (t.splitOn '/') := by
  induction t with
  | nil => rfl
  | cons c t ih =>
    rw [List.dropWhile_cons]
    split
    case isTrue hc =>
      obtain rfl : c = '/' := by simpa using hc
      rw [ih, show '/' :: t = [] ++ '/' :: t from rfl, splitOn_append (List.not_mem_nil),
        caught_cons harmless_nil (splitOn_ne_nil t)]
    case isFalse => rfl

theorem caught_stripName (t : Text) : Caught ((stripName t).splitOn '/') ↔ Caught (t.splitOn '/') := by
  rw [stripName, caught_dropWhile, removePrefix]
  split
  case isTrue h =>
    obtain ⟨s, rfl⟩ := List.isPrefixOf_iff_prefix.mp h
    rw [List.drop_left, show "./".toList ++ s = ['.'] ++ '/' :: s from rfl,
      splitOn_append (by decide), caught_cons harmless_dot (splitOn_ne_nil s)]
  case isFalse => rfl

theorem head?_stripName (t : Text) : (stripName t).head? ≠ some '/' := by
  intro h
  have := List.head?_dropWhile_not (· = '/') (removePrefix "./".toList t)
  rw [stripName] at h
  rw [h] at this
  simp at this

/-- The parts of a name that is not absolute are its components. -/
theorem mem_parts_iff {t w : Text} (ht : t.head? ≠ some '/') (hnil : w ≠ []) (hdot : w ≠ ".".toList) :
    (PurePosixPath.ofText t).parts.contains w = true ↔ w ∈ t.splitOn '/' := by
  have hno : ∀ s : Text, ('/' :: s).isPrefixOf t = false := by
    intro s
    rw [Bool.eq_false_iff]
    intro h
    obtain ⟨r, rfl⟩ := List.isPrefixOf_iff_prefix.mp h
    exact ht rfl
  have habs : (PurePosixPath.ofText t).isAbsolute = false := by
    simp only [PurePosixPath.isAbsolute, PurePosixPath.ofText]
    rw [show "//".toList.isPrefixOf t = false from hno _, show "/".toList.isPrefixOf t = false from hno _]
    rfl
  have hkept : (w != [] && w != ".".toList) = true := by
    rw [Bool.and_eq_true, bne_iff_ne, bne_iff_ne]
    exact ⟨hnil, hdot⟩
  rw [PurePosixPath.parts_eq_names habs, List.contains_iff_mem, PurePosixPath.ofText, List.mem_filter]
  exact and_iff_left hkept

/-- The tests, in the order of the source and by what they look at. -/
theorem tests_iff (msi microsoft bluetooth connections host ssh copr conf key : Prop) :
    (((((((msi ∨ microsoft) ∨ bluetooth) ∨ connections) ∨ host) ∨ ssh) ∨ copr ∨ conf) ∨ key) ↔
      (msi ∨ microsoft ∨ ssh ∨ key) ∨ bluetooth ∨ connections ∨ host ∨ copr ∨ conf := by
  tauto

/-- **What `forbidden` judges** are the components of the name. -/
theorem forbidden_iff (name : Text) : forbidden name = true ↔ Caught (name.splitOn '/') := by
  rw [← caught_stripName]
  have hps := slash_not_mem (t := stripName name)
  have hne := splitOn_ne_nil (stripName name)
  have hmsi := msi_iff hps hne
  have hmicrosoft := microsoft_iff hps
  have hetc := caughtInEtc_iff hps hne rfl
  rw [intercalate_splitOn] at hmsi hmicrosoft hetc
  have hssh := mem_parts_iff (w := ".ssh".toList) (head?_stripName name) (by decide) (by decide)
  have hkey := mem_parts_iff (w := "cosign.key".toList) (head?_stripName name) (by decide) (by decide)
  rw [Caught, CaughtByName, HasSecret, ← hetc, ← hmsi, ← hmicrosoft, ← hssh, ← hkey, ← contains_iff]
  simp only [forbidden, Bool.or_eq_true, beq_iff_eq, List.isPrefixOf_iff_prefix,
    List.isSuffixOf_iff_suffix]
  exact tests_iff _ _ _ _ _ _ _ _ _

/-! ## Spellings -/

/-- The component is neither empty nor `.`. -/
def isKept (p : Text) : Bool := p != [] && p != ".".toList

/-- The components of a path, without empty ones and `.`. -/
def pathComponents (t : Text) : List Text := (PurePosixPath.ofText t).names

theorem pathComponents_eq (t : Text) : pathComponents t = (t.splitOn '/').filter isKept := rfl

/-- The directory that is caught only with a slash behind it. -/
def connectionsDirectory : List Text := ["NetworkManager".toList, "system-connections".toList]

theorem hasSecret_filter : HasSecret (ps.filter isKept) ↔ HasSecret ps := by
  simp only [HasSecret, List.mem_filter]
  exact or_congr (and_iff_left (by decide)) (and_iff_left (by decide))

theorem EndsMsi.filter (h : EndsMsi ps) : EndsMsi (ps.filter isKept) := by
  obtain ⟨u, l, rfl, hl⟩ := h
  have hkept : isKept l = true := by
    rw [isKept, Bool.and_eq_true, bne_iff_ne, bne_iff_ne]
    constructor <;> rintro rfl <;> exact absurd hl (by decide)
  refine ⟨u.filter isKept, l, ?_, hl⟩
  rw [List.filter_append, List.filter_cons_of_pos hkept, List.filter_nil]

theorem HasMicrosoft.filter (h : HasMicrosoft ps) : HasMicrosoft (ps.filter isKept) := by
  obtain ⟨u, a, b, c, v, rfl, ha, hb, hc⟩ := h
  have hkept : isKept a = true ∧ isKept b = true ∧ isKept c = true := by
    simp only [isKept, Bool.and_eq_true, bne_iff_ne, ne_eq]
    refine ⟨⟨?_, ?_⟩, ⟨?_, ?_⟩, ?_, ?_⟩
    · rintro rfl
      exact absurd ha (by decide)
    · rintro rfl
      exact absurd ha (by decide)
    · rintro rfl
      exact absurd hb (by decide)
    · rintro rfl
      exact absurd hb (by decide)
    · rintro rfl
      exact absurd hc (by decide)
    · rintro rfl
      exact absurd hc (by decide)
  refine ⟨u.filter isKept, a, b, c, v.filter isKept, ?_, ha, hb, hc⟩
  rw [List.filter_append, List.filter_cons_of_pos hkept.1, List.filter_cons_of_pos hkept.2.1,
    List.filter_cons_of_pos hkept.2.2]

/-- The components behind the first `etc` are those of the other spelling, if there are any. -/
theorem behindEtc_filter {rest : List Text} (h : behindEtc ps = some rest)
    (hne : rest.filter isKept ≠ []) : behindEtc (ps.filter isKept) = some (rest.filter isKept) := by
  induction ps with
  | nil => cases h
  | cons p ps ih =>
    cases ps with
    | nil => cases h
    | cons q qs =>
      by_cases hetc : "etc".toList <:+ p
      case pos =>
        rw [behindEtc, wordsBehind, if_pos (List.isSuffixOf_iff_suffix.mpr hetc)] at h
        obtain rfl := Option.some.inj h
        have hkept : isKept p = true := by
          rw [isKept, Bool.and_eq_true, bne_iff_ne, bne_iff_ne]
          constructor <;> rintro rfl <;> exact absurd hetc (by decide)
        obtain ⟨r, rs, hr⟩ := List.exists_cons_of_ne_nil hne
        rw [List.filter_cons_of_pos hkept, hr, behindEtc, wordsBehind,
          if_pos (List.isSuffixOf_iff_suffix.mpr hetc)]
      case neg =>
        rw [behindEtc_cons hetc] at h
        have hrest := ih h
        rw [List.filter_cons]
        split
        · rw [behindEtc_cons hetc, hrest]
        · exact hrest

/-- A path that is caught in one spelling is caught in the shortest one, or is the one directory. -/
theorem Caught.filter (h : Caught ps) :
    Caught (ps.filter isKept) ∨ behindEtc (ps.filter isKept) = some connectionsDirectory := by
  rcases h with (h | h | h) | ⟨rest, hrest, h⟩
  · exact .inl (.inl (.inl h.filter))
  · exact .inl (.inl (.inr (.inl h.filter)))
  · exact .inl (.inl (.inr (.inr (hasSecret_filter.mpr h))))
  · rcases h with rfl | ⟨a, v, rfl⟩ | ⟨w, v, rfl, hw⟩ | rfl | rfl
    · exact .inl (.inr ⟨_, behindEtc_filter hrest (by decide), .inl (by decide)⟩)
    · have hfilter : ("NetworkManager".toList :: "system-connections".toList :: a :: v).filter isKept =
          "NetworkManager".toList :: "system-connections".toList :: (a :: v).filter isKept := rfl
      have hbehind := behindEtc_filter hrest (by rw [hfilter]; simp)
      rw [hfilter] at hbehind
      cases hv : (a :: v).filter isKept with
      | nil =>
        rw [hv] at hbehind
        exact .inr hbehind
      | cons b w => exact .inl (.inr ⟨_, hbehind, .inr (.inl ⟨b, w, by rw [hv]⟩)⟩)
    · have hkept : isKept w = true := by
        rw [isKept, Bool.and_eq_true, bne_iff_ne, bne_iff_ne]
        constructor <;> rintro rfl <;> exact absurd hw (by decide)
      have hfilter : ("ssh".toList :: w :: v).filter isKept = "ssh".toList :: w :: v.filter isKept := by
        rw [List.filter_cons_of_pos (by decide), List.filter_cons_of_pos hkept]
      have hbehind := behindEtc_filter hrest (by rw [hfilter]; simp)
      rw [hfilter] at hbehind
      exact .inl (.inr ⟨_, hbehind, .inr (.inr (.inl ⟨w, v.filter isKept, rfl, hw⟩))⟩)
    · exact .inl (.inr ⟨_, behindEtc_filter hrest (by decide), .inr (.inr (.inr (.inl (by decide))))⟩)
    · exact .inl (.inr ⟨_, behindEtc_filter hrest (by decide), .inr (.inr (.inr (.inr (by decide))))⟩)

/-- The components with an empty one behind each, and behind all. -/
def spread : List Text → List Text
  | [] => [[]]
  | c :: cs => c :: [] :: spread cs

theorem spread_ne_nil (cs : List Text) : spread cs ≠ [] := by cases cs <;> simp [spread]

theorem filter_spread {cs : List Text} (h : ∀ c ∈ cs, isKept c = true) :
    (spread cs).filter isKept = cs := by
  induction cs with
  | nil => rfl
  | cons c cs ih =>
    rw [spread, List.filter_cons_of_pos (h c List.mem_cons_self), List.filter_cons_of_neg (by decide),
      ih fun d hd => h d (List.mem_cons_of_mem _ hd)]

theorem not_endsMsi_spread (cs : List Text) : ¬ EndsMsi (spread cs) := by
  induction cs with
  | nil =>
    rintro ⟨u, l, h, hl⟩
    obtain ⟨-, h⟩ : [] = u ∧ _ := List.append_inj' h rfl
    obtain rfl : [] = l := by simpa using h
    exact absurd hl (by decide)
  | cons c cs ih =>
    exact fun h => ih ((endsMsi_append (u := [c, []]) (spread_ne_nil cs)).mp h)

theorem not_hasMicrosoft_spread (cs : List Text) : ¬ HasMicrosoft (spread cs) := by
  induction cs with
  | nil =>
    rintro ⟨u, a, b, c, v, h, -⟩
    have := congrArg List.length h
    simp [spread] at this
    omega
  | cons p cs ih =>
    rintro ⟨u, a, b, c, v, h, ha, hb, hc⟩
    match u, h with
    | [], h =>
      obtain ⟨-, h⟩ := List.cons.inj h
      obtain ⟨rfl, -⟩ := List.cons.inj h
      exact absurd hb (by decide)
    | [q], h =>
      obtain ⟨-, h⟩ := List.cons.inj h
      obtain ⟨rfl, -⟩ := List.cons.inj h
      exact absurd ha (by decide)
    | q :: r :: u, h =>
      obtain ⟨-, h⟩ := List.cons.inj h
      obtain ⟨-, h⟩ := List.cons.inj h
      exact ih ⟨u, a, b, c, v, h, ha, hb, hc⟩

theorem not_caughtInEtc_spread (cs : List Text) : ¬ CaughtInEtc (spread cs) := by
  induction cs with
  | nil =>
    rintro ⟨rest, h, -⟩
    cases h
  | cons c cs ih =>
    rintro ⟨rest, h, hp⟩
    by_cases hetc : "etc".toList <:+ c
    case pos =>
      rw [behindEtc, spread, wordsBehind, if_pos (List.isSuffixOf_iff_suffix.mpr hetc)] at h
      obtain rfl := Option.some.inj h
      rcases hp with h | ⟨a, v, h⟩ | ⟨w, v, h, -⟩ | h | h <;>
        exact absurd (List.cons.inj h).1 (by decide)
    case neg =>
      rw [spread, behindEtc_cons hetc, behindEtc_cons harmless_nil.etc] at h
      exact ih ⟨rest, h, hp⟩

/-- Doubled slashes hide everything but the secret components. -/
theorem caught_spread {cs : List Text} (h : ∀ c ∈ cs, isKept c = true) :
    Caught (spread cs) ↔ HasSecret cs := by
  constructor
  · rintro ((hc | hc | hc) | hc)
    · exact absurd hc (not_endsMsi_spread cs)
    · exact absurd hc (not_hasMicrosoft_spread cs)
    · rwa [← hasSecret_filter, filter_spread h] at hc
    · exact absurd hc (not_caughtInEtc_spread cs)
  · intro hc
    refine .inl (.inr (.inr ?_))
    rwa [← hasSecret_filter, filter_spread h]

/-- A path is written with these components, where slashes separate them. -/
theorem exists_spelling (hps : ∀ p ∈ ps, '/' ∉ p) (hne : ps ≠ []) :
    ∃ t : Text, t.splitOn '/' = ps := ⟨_, splitOn_intercalate hps hne⟩

theorem mem_pathComponents {t c : Text} (h : c ∈ pathComponents t) : '/' ∉ c ∧ isKept c = true := by
  rw [pathComponents_eq, List.mem_filter] at h
  exact ⟨slash_not_mem c h.1, h.2⟩

theorem not_caught_nil : ¬ Caught [] := by
  rintro ((⟨u, l, h, -⟩ | ⟨u, a, b, c, v, h, -⟩ | h | h) | ⟨rest, h, -⟩)
  · simp at h
  · simp at h
  · simp at h
  · simp at h
  · cases h

/-- All spellings of a path are judged the same exactly when it has a secret component, or is not
caught in the shortest spelling and is not the one directory. -/
theorem spelling_iff (p : Text) :
    (∀ s t, pathComponents s = pathComponents p → pathComponents t = pathComponents p →
      forbidden s = forbidden t) ↔
      HasSecret (pathComponents p) ∨
        ¬ Caught (pathComponents p) ∧ behindEtc (pathComponents p) ≠ some connectionsDirectory := by
  have hkept : ∀ c ∈ pathComponents p, isKept c = true := fun c hc => (mem_pathComponents hc).2
  have hslash : ∀ c ∈ pathComponents p, '/' ∉ c := fun c hc => (mem_pathComponents hc).1
  constructor
  · intro h
    by_contra hno
    obtain ⟨hsecret, hno⟩ := not_or.mp hno
    have hne : pathComponents p ≠ [] := by
      intro hnil
      rw [hnil] at hno
      exact hno ⟨not_caught_nil, by decide⟩
    -- one spelling hides what the other one shows
    obtain ⟨s, hs⟩ := @exists_spelling (spread (pathComponents p)) (fun q hq => by
      by_cases hq0 : isKept q = true
      · exact hslash q (filter_spread hkept ▸ List.mem_filter.mpr ⟨hq, hq0⟩)
      · rw [isKept, Bool.and_eq_true, bne_iff_ne, bne_iff_ne, not_and_or, not_not, not_not] at hq0
        rcases hq0 with rfl | rfl <;> decide) (spread_ne_nil _)
    have hcs : pathComponents s = pathComponents p := by rw [pathComponents_eq, hs, filter_spread hkept]
    have hfs : forbidden s = false := by
      rw [Bool.eq_false_iff, ne_eq, forbidden_iff, hs, caught_spread hkept]
      exact hsecret
    rw [not_and_or, not_not, ne_eq, not_not] at hno
    rcases hno with hcaught | hdirectory
    · obtain ⟨t, ht⟩ := exists_spelling hslash hne
      have hct : pathComponents t = pathComponents p := by
        rw [pathComponents_eq, ht]
        exact List.filter_eq_self.mpr hkept
      have hft : forbidden t = true := (forbidden_iff t).mpr (ht ▸ hcaught)
      rw [h s t hcs hct, hft] at hfs
      cases hfs
    · obtain ⟨t, ht⟩ := @exists_spelling (pathComponents p ++ [[]]) (fun q hq => by
        rcases List.mem_append.mp hq with hq | hq
        · exact hslash q hq
        · rw [List.mem_singleton.mp hq]
          decide) (by simp)
      have hct : pathComponents t = pathComponents p := by
        rw [pathComponents_eq, ht, List.filter_append, List.filter_eq_self.mpr hkept]
        exact List.append_nil _
      have hft : forbidden t = true := by
        rw [forbidden_iff, ht]
        refine .inr ⟨connectionsDirectory ++ [[]], wordsBehind_append hdirectory, ?_⟩
        exact .inr (.inl ⟨[], [], rfl⟩)
      rw [h s t hcs hct, hft] at hfs
      cases hfs
  · intro h s t hs ht
    have hsame : ∀ r, pathComponents r = pathComponents p →
        (forbidden r = true ↔ HasSecret (pathComponents p)) := by
      intro r hr
      rw [forbidden_iff]
      constructor
      · intro hc
        rcases h with h | ⟨hno, hdirectory⟩
        · exact h
        · rw [← hr, pathComponents_eq] at hno hdirectory
          rcases hc.filter with hc | hc
          · exact absurd hc hno
          · exact absurd hc hdirectory
      · intro hc
        refine .inl (.inr (.inr ?_))
        rw [← hr, pathComponents_eq] at hc
        exact hasSecret_filter.mp hc
    rw [Bool.eq_iff_iff, hsame s hs, hsame t ht]

/-! ## Locations -/

theorem behindEtc_append (hu : ∀ x ∈ u, ¬ "etc".toList <:+ x) : behindEtc (u ++ ps) = behindEtc ps := by
  induction u with
  | nil => rfl
  | cons x u ih =>
    obtain ⟨hx, hu⟩ := List.forall_mem_cons.mp hu
    rw [List.cons_append, behindEtc_cons hx, ih hu]

theorem behindEtc_append_etc (hu : ∀ y ∈ u, ¬ "etc".toList <:+ y) (hx : "etc".toList <:+ x) (hne : ps ≠ []) :
    behindEtc (u ++ x :: ps) = some ps := by
  obtain ⟨p, qs, rfl⟩ := List.exists_cons_of_ne_nil hne
  rw [behindEtc_append hu, behindEtc, wordsBehind, if_pos (List.isSuffixOf_iff_suffix.mpr hx)]

/-- Below a prefix without a component that ends in `etc`, a path is caught by the same `etc`. -/
theorem forbidden_below_iff {q : Text} (p : Text) (hq : ∀ x ∈ q.splitOn '/', ¬ "etc".toList <:+ x) :
    forbidden (q ++ '/' :: p) = true ↔
      CaughtByName (q.splitOn '/' ++ p.splitOn '/') ∨ CaughtInEtc (p.splitOn '/') := by
  rw [forbidden_iff, splitOn_append_slash, Caught, CaughtInEtc, behindEtc_append hq, CaughtInEtc]

/-- So below such a prefix everything forbidden stays so. -/
theorem forbidden_below {p q : Text} (hq : ∀ x ∈ q.splitOn '/', ¬ "etc".toList <:+ x)
    (hp : forbidden p = true) : forbidden (q ++ '/' :: p) = true := by
  rw [forbidden_below_iff p hq]
  exact ((forbidden_iff p).mp hp).imp_left fun h => h.append (splitOn_ne_nil p)

/-- Below another prefix, a path is caught by the first `etc` of the prefix. -/
theorem forbidden_below_etc_iff {q x : Text} {u v : List Text} (p : Text) (hq : q.splitOn '/' = u ++ x :: v)
    (hu : ∀ y ∈ u, ¬ "etc".toList <:+ y) (hx : "etc".toList <:+ x) :
    forbidden (q ++ '/' :: p) = true ↔
      CaughtByName (q.splitOn '/' ++ p.splitOn '/') ∨ PrivateEtc (v ++ p.splitOn '/') := by
  have hne : v ++ p.splitOn '/' ≠ [] := List.append_ne_nil_of_right_ne_nil v (splitOn_ne_nil p)
  have hbehind : behindEtc (q.splitOn '/' ++ p.splitOn '/') = some (v ++ p.splitOn '/') := by
    rw [hq, List.append_assoc, List.cons_append, behindEtc_append_etc hu hx hne]
  rw [forbidden_iff, splitOn_append_slash, Caught, CaughtInEtc, hbehind]
  simp

/-- A path stays forbidden below every prefix exactly when it is not caught only by where it is
below the first `etc`. -/
theorem prefix_iff (p : Text) :
    (∀ q, q ≠ [] → forbidden p = true → forbidden (q ++ '/' :: p) = true) ↔
      (CaughtInEtc (p.splitOn '/') → CaughtByName (p.splitOn '/')) := by
  have hne := splitOn_ne_nil p
  constructor
  · intro h hetc
    have hbelow := h "etc/x".toList (by decide) ((forbidden_iff p).mpr (.inr hetc))
    have hsplit : "etc/x".toList.splitOn '/' = [] ++ "etc".toList :: [['x']] := by decide
    rw [forbidden_below_etc_iff p hsplit (by simp) (by decide), hsplit] at hbelow
    rcases hbelow with hname | hprivate
    · rwa [List.nil_append, List.cons_append, List.cons_append, List.nil_append,
        caughtByName_cons (by decide) (by decide) (by decide) (by simp),
        caughtByName_cons (by decide) (by decide) (by decide) hne] at hname
    · rcases hprivate with h | ⟨a, v, h⟩ | ⟨w, v, h, -⟩ | h | h <;>
        exact absurd (List.cons.inj h).1 (by decide)
  · intro h q _ hp
    have hname : CaughtByName (p.splitOn '/') := ((forbidden_iff p).mp hp).elim id h
    rw [forbidden_iff, splitOn_append_slash]
    exact .inl (hname.append hne)

/-- **Where `forbidden` judges the location**: below every prefix when the path is not caught only
below the first `etc`, and in every spelling when it has a secret component, or is not caught in
the shortest spelling and is not the directory of the connections. -/
theorem forbidden_location_iff (p : Text) :
    ((∀ q, q ≠ [] → forbidden p = true → forbidden (q ++ '/' :: p) = true) ↔
      (CaughtInEtc (p.splitOn '/') → CaughtByName (p.splitOn '/'))) ∧
    ((∀ s t, pathComponents s = pathComponents p → pathComponents t = pathComponents p →
        forbidden s = forbidden t) ↔
      HasSecret (pathComponents p) ∨
        ¬ Caught (pathComponents p) ∧ behindEtc (pathComponents p) ≠ some connectionsDirectory) :=
  ⟨prefix_iff p, spelling_iff p⟩

/-- A host key is not seen in a nested root below another `etc`, or behind a doubled slash. -/
theorem forbidden_evaded :
    forbidden "etc/ssh/ssh_host_rsa_key".toList = true ∧
      forbidden ("etc/skel".toList ++ '/' :: "etc/ssh/ssh_host_rsa_key".toList) = false ∧
      pathComponents "etc//ssh/ssh_host_rsa_key".toList = pathComponents "etc/ssh/ssh_host_rsa_key".toList ∧
      forbidden "etc//ssh/ssh_host_rsa_key".toList = false := by
  decide +kernel

end Azurefin
