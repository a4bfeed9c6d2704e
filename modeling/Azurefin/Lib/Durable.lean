import Azurefin.Lib.Fs

/-!
# What survives a power failure, and what a walk finds

`Fs.Crash s v` says that `v` may be on the disk when the power fails in `s`: every entry that
was changed and not synced is lost, or has its present or one of its past values, independently
of the others, and a file that was not synced holds anything.

## Main results

* `Fs.Settled.durable` — below a settled object, nothing is lost.
* `Fs.exists_leads` — a path that no power failure takes away has been synced.
* `Fs.mem_dirsBelow` — the bottom-up walk visits every directory.
-/

namespace Fs

variable {ν β μ : Type} [DecidableEq ν] {s t : Fs ν β μ}

/-- What may be found on the disk after a power failure in `s`. -/
structure Crash (s : Fs ν β μ) (v : View ν β μ) : Prop where
  kind : v.kind = s.kind
  entry : ∀ d n, v.entry d n = s.lookup d n ∨
    s.past d n ≠ [] ∧ (v.entry d n = none ∨ v.entry d n ∈ s.past d n)
  data : ∀ i, s.synced i = true → v.data i = s.data i

namespace Crash

variable {v : View ν β μ} {d i : Nat} {n : ν}

/-- A power failure may lose nothing. -/
theorem nothing_lost (s : Fs ν β μ) : s.Crash s.view :=
  ⟨rfl, fun _ _ => .inl rfl, fun _ _ => rfl⟩

/-- An entry that has been synced is as it was. -/
theorem entry_of_synced (h : s.Crash v) (hp : s.past d n = []) : v.entry d n = s.lookup d n :=
  (h.entry d n).resolve_right fun hlost => hlost.1 hp

/-- What an entry leads to, it leads or led to. -/
theorem entry_some (h : s.Crash v) (hi : v.entry d n = some i) :
    s.lookup d n = some i ∨ some i ∈ s.past d n := by
  rcases h.entry d n with he | ⟨-, he | he⟩
  · exact .inl (he ▸ hi)
  · simp [hi] at he
  · exact .inr (hi ▸ he)

end Crash

/-- Any entry that has not been synced may be lost. -/
theorem exists_crash_without {d : Nat} {n : ν} (h : s.past d n ≠ []) :
    ∃ v, s.Crash v ∧ v.entry d n = none := by
  refine ⟨⟨s.kind, fun e m => if e = d ∧ m = n then none else s.lookup e m, s.data⟩,
    ⟨rfl, fun e m => ?_, fun _ _ => rfl⟩, by simp⟩
  by_cases he : e = d ∧ m = n
  · obtain ⟨rfl, rfl⟩ := he
    exact .inr ⟨h, .inl (by simp)⟩
  · exact .inl (by simp only [if_neg he])

/-- The path leads from `i` to `j`, and every entry on it has been synced. -/
def Leads (s : Fs ν β μ) : Nat → List ν → Nat → Prop
  | i, [], j => i = j
  | i, n :: p, j => (s.kind i).isDir = true ∧ s.past i n = [] ∧
      ∃ k, s.lookup i n = some k ∧ s.Leads k p j

theorem Leads.resolve {p : List ν} {i j : Nat} (h : s.Leads i p j) {v : View ν β μ} (hv : s.Crash v) :
    v.resolve i p = some j := by
  induction p generalizing i with
  | nil => exact congrArg some h
  | cons n p ih =>
    obtain ⟨hd, hp, k, hk, hj⟩ := h
    rw [View.resolve_cons, hv.kind, if_pos hd, hv.entry_of_synced hp, hk, Option.bind_some, ih hj]

/-- A path that no power failure takes away has been synced: an entry that has not may be lost. -/
theorem exists_leads {p : List ν} {i : Nat} (h : ∀ v, s.Crash v → ∃ j, v.resolve i p = some j) :
    ∃ j, s.Leads i p j := by
  induction p generalizing i with
  | nil => exact ⟨i, rfl⟩
  | cons n p ih =>
    have first : ∀ v, s.Crash v → (s.kind i).isDir = true ∧ ∃ k, v.entry i n = some k ∧
        ∃ j, v.resolve k p = some j := by
      intro v hv
      obtain ⟨j, hj⟩ := h v hv
      rw [View.resolve_cons, hv.kind, Option.ite_none_right_eq_some, Option.bind_eq_some_iff] at hj
      obtain ⟨hd, k, hk, hj⟩ := hj
      exact ⟨hd, k, hk, j, hj⟩
    have hp : s.past i n = [] := by
      by_contra hp
      obtain ⟨v, hv, hnone⟩ := exists_crash_without hp
      obtain ⟨-, k, hk, -⟩ := first v hv
      simp [hnone] at hk
    obtain ⟨hd, k, hk, -⟩ := first _ (.nothing_lost s)
    obtain ⟨j, hj⟩ := ih (i := k) fun v hv => by
      obtain ⟨-, k', hk', hj⟩ := first v hv
      obtain rfl : k = k' := Option.some.inj (hk.symm.trans ((hv.entry_of_synced hp).symm.trans hk'))
      exact hj
    exact ⟨j, hd, hp, k, hk, hj⟩

/-- Everything from object `i` down is synced. -/
def Settled (s : Fs ν β μ) (i : Nat) : Prop :=
  ∀ p j, s.view.resolve i p = some j →
    ((s.kind j).isDir = true → ∀ n, s.past j n = []) ∧ (s.kind j = .file → s.synced j = true)

/-- The tree below `i` is the same after every power failure. -/
def Durable (s : Fs ν β μ) (i : Nat) : Prop := ∀ v, s.Crash v → v.tree i = s.view.tree i

theorem Settled.durable {i : Nat} (h : s.Settled i) : s.Durable i := by
  intro v hc
  refine View.tree_congr (fun j => ∃ p, s.view.resolve i p = some j) ?_ ?_ ?_ ?_ ⟨[], rfl⟩
  · rintro j n k ⟨p, hp⟩ hj hn
    exact ⟨p ++ [n], View.resolve_snoc hp hj hn⟩
  · rintro j -
    rw [hc.kind, view_kind]
  · rintro j ⟨p, hp⟩ hd
    funext n
    exact hc.entry_of_synced ((h p j hp).1 hd n)
  · rintro j ⟨p, hp⟩ hj
    exact hc.data j ((h p j hp).2 hj)

/-! ## Walks -/

/-- The directories below `d` and `d` itself, bottom-up, to the given depth. -/
def dirsBelow (s : Fs ν β μ) : Nat → Nat → List Nat
  | 0, d => [d]
  | depth + 1, d =>
    (s.entries d).flatMap (fun e => if (s.kind e.2).isDir then s.dirsBelow depth e.2 else []) ++ [d]

/-- The entries below `d`, bottom-up, to the given depth. -/
def linksBelow (s : Fs ν β μ) : Nat → Nat → List (Nat × ν)
  | 0, _ => []
  | depth + 1, d => (s.entries d).flatMap fun e => s.linksBelow depth e.2 ++ [(d, e.1)]

theorem mem_dirsBelow {p : List ν} {depth d j : Nat} (hp : p.length ≤ depth)
    (hj : s.view.resolve d p = some j) (hk : (s.kind j).isDir = true) :
    j ∈ s.dirsBelow depth d := by
  induction p generalizing d depth with
  | nil =>
    obtain rfl : d = j := by simpa using hj
    cases depth <;> simp [dirsBelow]
  | cons n p ih =>
    obtain _ | depth := depth
    · simp at hp
    simp only [View.resolve_cons, view_entry] at hj
    split at hj
    case isFalse => cases hj
    case isTrue hd =>
      obtain ⟨k, hk', hj⟩ := Option.bind_eq_some_iff.mp hj
      have hkd : (s.kind k).isDir = true := by
        obtain _ | ⟨m, q⟩ := p
        · obtain rfl : k = j := by simpa using hj
          exact hk
        · simp only [View.resolve_cons] at hj
          split at hj
          · assumption
          · cases hj
      simp only [dirsBelow, List.mem_append, List.mem_flatMap]
      refine .inl ⟨(n, k), mem_entries hk', ?_⟩
      simpa [hkd] using ih (by simpa using hp) hj

omit [DecidableEq ν] in
theorem le_of_mem_dirsBelow {depth d j : Nat} (h : j ∈ s.dirsBelow depth d) : d ≤ j := by
  induction depth generalizing d with
  | zero => simp_all [dirsBelow]
  | succ depth ih =>
    simp only [dirsBelow, List.mem_append, List.mem_flatMap, List.mem_singleton] at h
    rcases h with ⟨⟨n, i⟩, hi, h⟩ | rfl
    · have := s.entry_lt d n i hi
      split at h
      · have := ih h
        omega
      · simp at h
    · exact Nat.le_refl _

omit [DecidableEq ν] in
theorem le_of_mem_linksBelow {depth d j : Nat} {n : ν} (h : (j, n) ∈ s.linksBelow depth d) :
    d ≤ j := by
  induction depth generalizing d with
  | zero => simp [linksBelow] at h
  | succ depth ih =>
    simp only [linksBelow, List.mem_flatMap, List.mem_append, List.mem_singleton,
      Prod.mk.injEq] at h
    obtain ⟨⟨m, i⟩, hi, h | ⟨rfl, -⟩⟩ := h
    · have := s.entry_lt d m i hi
      have := ih h
      omega
    · exact Nat.le_refl _

end Fs
