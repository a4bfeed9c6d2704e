import Azurefin.Lib.Fs
import Mathlib.Data.List.Induction

/-!
# Trees under change

What creating an object and writing a file do to the tree below a directory. A directory is
found under one path only (`Fs.resolve_dir_unique`), so a new object appears at one path.
-/

variable {ν β μ : Type}

/-- A new object of the given kind: a new file is empty. -/
def Kind.fresh : Kind μ → Obj β μ
  | .file => .file []
  | .dir a => .dir a
  | .symlink => .symlink
  | .special => .special

namespace View

theorem resolve_concat (v : View ν β μ) (i : Nat) (p : List ν) (n : ν) :
    v.resolve i (p ++ [n]) =
      (v.resolve i p).bind fun j => if (v.kind j).isDir then v.entry j n else none := by
  rw [resolve_append]
  congr 1
  funext j
  simp [resolve_cons]

theorem tree_append {v : View ν β μ} {i j : Nat} {p : List ν} (h : v.resolve i p = some j)
    (q : List ν) : v.tree i (p ++ q) = v.tree j q := by
  simp [tree, resolve_append, h]

theorem tree_eq_dir {v : View ν β μ} {i : Nat} {p : List ν} {a : μ} :
    v.tree i p = some (.dir a) ↔ ∃ j, v.resolve i p = some j ∧ v.kind j = .dir a := by
  simp only [tree, Option.map_eq_some_iff, obj]
  refine exists_congr fun j => and_congr_right fun _ => ?_
  cases v.kind j <;> simp

theorem tree_eq_file {v : View ν β μ} {i : Nat} {p : List ν} {l : List β} :
    v.tree i p = some (.file l) ↔
      ∃ j, v.resolve i p = some j ∧ v.kind j = .file ∧ v.data j = l := by
  simp only [tree, Option.map_eq_some_iff, obj]
  refine exists_congr fun j => and_congr_right fun _ => ?_
  cases v.kind j <;> simp

theorem tree_eq_none {v : View ν β μ} {i : Nat} {p : List ν} :
    v.tree i p = none ↔ v.resolve i p = none := by
  simp [tree]

/-- What a path leads through are directories. -/
theorem resolve_prefix {v : View ν β μ} {i j : Nat} {p q : List ν}
    (h : v.resolve i (p ++ q) = some j) (hq : q ≠ []) :
    ∃ k, v.resolve i p = some k ∧ (v.kind k).isDir = true := by
  rw [resolve_append] at h
  obtain ⟨k, hk, hj⟩ := Option.bind_eq_some_iff.mp h
  obtain ⟨n, q, rfl⟩ := List.exists_cons_of_ne_nil hq
  rw [resolve_cons] at hj
  split at hj
  · exact ⟨k, hk, ‹_›⟩
  · cases hj

end View

namespace Fs

variable [DecidableEq ν] {s t : Fs ν β μ} {i d : Nat} {n : ν} {k : Kind μ} {q : List ν}

theorem resolve_concat (s : Fs ν β μ) (i : Nat) (p : List ν) (n : ν) :
    s.view.resolve i (p ++ [n]) =
      (s.view.resolve i p).bind fun j => if (s.kind j).isDir then s.lookup j n else none :=
  View.resolve_concat s.view i p n

theorem tree_child_of_absent {s : Fs ν β μ} {d : Nat} {n : ν} (h : s.lookup d n = none) :
    s.view.tree d [n] = none := by
  simp [View.tree, View.resolve_cons, h]

/-- A directory has one path. -/
theorem resolve_dir_unique {p q : List ν} {j : Nat} (hp : s.view.resolve i p = some j)
    (hq : s.view.resolve i q = some j) (hj : (s.kind j).isDir = true) : p = q := by
  induction p using List.reverseRecOn generalizing q j with
  | nil =>
    obtain rfl : i = j := by simpa using hp
    have := resolve_le hq
    exact (List.length_eq_zero_iff.mp (by omega)).symm
  | append_singleton p m ih =>
    induction q using List.reverseRecOn with
    | nil =>
      obtain rfl : i = j := by simpa using hq
      have := resolve_le hp
      simp only [List.length_append, List.length_singleton] at this
      omega
    | append_singleton q m' _ =>
      simp only [resolve_concat, Option.bind_eq_some_iff, Option.ite_none_right_eq_some] at hp hq
      obtain ⟨e, he, hed, hp⟩ := hp
      obtain ⟨e', he', -, hq⟩ := hq
      obtain ⟨rfl, rfl⟩ := s.dir_unique e m e' m' j (mem_entries hp) (mem_entries hq) hj
      rw [ih he he' hed]

/-- A new object appears under its own path, and no other path changes. -/
theorem Created.resolve (h : Created s d n k t) (hi : i < s.next)
    (hq : s.view.resolve i q = some d) (p : List ν) :
    t.view.resolve i p = if p = q ++ [n] then some s.next else s.view.resolve i p := by
  induction p using List.reverseRecOn with
  | nil => simp
  | append_singleton p m ih =>
    simp only [resolve_concat, ih]
    by_cases hp : p = q ++ [n]
    · -- the new object has no entries yet
      simp [hp, resolve_concat, hq, h.absent, h.lookup_next, h.parent_dir]
    · rw [if_neg hp]
      rcases hr : s.view.resolve i p with _ | j
      · have hpq : p ≠ q := by
          rintro rfl
          simp [hr] at hq
        simp [hpq]
      · have hj := resolve_lt_next hi hr
        have hkind : t.kind j = s.kind j := by rw [h.kind, Function.update_of_ne (by omega)]
        simp only [Option.bind_some, hkind, h.lookup]
        by_cases hjd : j = d ∧ m = n
        · obtain ⟨rfl, rfl⟩ := hjd
          rw [resolve_dir_unique hr hq h.parent_dir]
          simp [h.parent_dir]
        · have hpq : ¬ (p = q ∧ m = n) := by
            rintro ⟨rfl, rfl⟩
            exact hjd ⟨Option.some.inj (hr.symm.trans hq), rfl⟩
          simp [hjd, hpq]

theorem Created.tree (h : Created s d n k t) (hi : i < s.next)
    (hq : s.view.resolve i q = some d) :
    t.view.tree i = Function.update (s.view.tree i) (q ++ [n]) (some k.fresh) := by
  funext p
  rw [View.tree, h.resolve hi hq]
  by_cases hp : p = q ++ [n]
  · subst hp
    simp only [if_true, Function.update_self, Option.map_some, View.obj, view_kind, view_data,
      h.kind, h.data]
    cases k <;> rfl
  · rw [if_neg hp, Function.update_of_ne hp, View.tree]
    rcases hr : s.view.resolve i p with _ | j
    · rfl
    · have hj := resolve_lt_next hi hr
      simp only [Option.map_some, View.obj, view_kind, view_data, h.kind, h.data]
      rw [Function.update_of_ne (by omega), Function.update_of_ne (by omega)]

/-- Below the new object there is nothing. -/
theorem Created.tree_next (h : Created s d n k t) (p : List ν) :
    t.view.tree s.next p = if p = [] then some k.fresh else none := by
  cases p with
  | nil =>
    rw [if_pos rfl, View.tree, View.resolve_nil, Option.map_some, View.obj]
    simp only [view_kind, view_data, h.kind, h.data, Function.update_self]
    cases k <;> rfl
  | cons m p => simp [View.tree, View.resolve_cons, h.lookup_next]

/-- Writing a file changes what is read at the paths that lead to it. -/
theorem write_tree {j : Nat} (hj : s.kind j = .file) (l : List β) (p : List ν) :
    (s.write j l).view.tree i p =
      if s.view.resolve i p = some j then some (.file l) else s.view.tree i p := by
  have hr : (s.write j l).view.resolve i p = s.view.resolve i p :=
    (View.resolve_congr (v := s.view) (w := (s.write j l).view) (fun _ => True)
      (fun _ _ _ _ _ _ => trivial) (fun _ _ => rfl) (fun _ _ _ => rfl) trivial p).1
  rw [View.tree, View.tree, hr]
  rcases s.view.resolve i p with _ | m
  · simp
  · by_cases hm : m = j
    · subst hm
      simp [View.obj, hj]
    · simp [View.obj, hm]

end Fs
