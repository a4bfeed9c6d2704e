import Mathlib.Algebra.Ring.Int.Defs
import Mathlib.Algebra.Ring.Nat
import Mathlib.Data.List.Lookmap
import Mathlib.Data.List.Nodup
import Mathlib.Logic.Function.Basic
import Mathlib.Tactic.Common

/-!
# A file system under change

Objects are numbered in the order a directory tree is laid out: a directory before everything
it holds. A directory lists names; a file holds a sequence of `β`. `View` is what can be read
of a file system, and `Fs` is one that programs write to. An `Fs` remembers which changes were
not synced: `past d n` are the values entry `n` of directory `d` had since `d` was last synced,
and `synced i` says that the data of file `i` has been synced since its last change.

Every operation comes with a structure of what it does (`Fs.Created`, `Fs.Renamed`) or with
simp lemmas for the fields it keeps; later proofs do not unfold it.
-/

/-- What an object is. A directory has attributes `μ` (owner and mode bits). -/
inductive Kind (μ : Type) where
  | file
  | dir (attr : μ)
  | symlink
  | special
  deriving DecidableEq, Repr

def Kind.isDir {μ : Type} : Kind μ → Bool
  | .dir _ => true
  | _ => false

/-- An object with what a reader can see of it. -/
inductive Obj (β μ : Type) where
  | file (data : List β)
  | dir (attr : μ)
  | symlink
  | special
  deriving DecidableEq, Repr

/-- Why an operation on files fails. -/
inductive Errno where
  | noent | notdir | isdir | exist | notempty | loop | io
  deriving DecidableEq, Repr

/-- What can be read of a file system. -/
structure View (ν β μ : Type) where
  kind : Nat → Kind μ
  entry : Nat → ν → Option Nat
  data : Nat → List β

namespace View

variable {ν β μ : Type}

def obj (v : View ν β μ) (i : Nat) : Obj β μ :=
  match v.kind i with
  | .file => .file (v.data i)
  | .dir a => .dir a
  | .symlink => .symlink
  | .special => .special

/-- The object at a path below `i`, going through directories only: no symlink is followed. -/
def resolve (v : View ν β μ) : Nat → List ν → Option Nat
  | i, [] => some i
  | i, n :: p => if (v.kind i).isDir then (v.entry i n).bind fun j => v.resolve j p else none

/-- The tree below `i`, as a map from paths to what is there. -/
def tree (v : View ν β μ) (i : Nat) (p : List ν) : Option (Obj β μ) :=
  (v.resolve i p).map v.obj

@[simp] theorem resolve_nil (v : View ν β μ) (i : Nat) : v.resolve i [] = some i := rfl

theorem resolve_cons (v : View ν β μ) (i : Nat) (n : ν) (p : List ν) :
    v.resolve i (n :: p) =
      if (v.kind i).isDir then (v.entry i n).bind fun j => v.resolve j p else none := rfl

theorem resolve_append (v : View ν β μ) (i : Nat) (p q : List ν) :
    v.resolve i (p ++ q) = (v.resolve i p).bind fun j => v.resolve j q := by
  induction p generalizing i with
  | nil => rfl
  | cons n p ih =>
    simp only [List.cons_append, resolve_cons]
    split
    · cases v.entry i n <;> simp [ih]
    · rfl

theorem resolve_snoc {v : View ν β μ} {i j k : Nat} {p : List ν} {n : ν}
    (hp : v.resolve i p = some j) (hj : (v.kind j).isDir = true) (hn : v.entry j n = some k) :
    v.resolve i (p ++ [n]) = some k := by
  simp [resolve_append, hp, resolve_cons, hj, hn]

/-- Where a path leads only depends on the directories that can be reached. -/
theorem resolve_congr {v w : View ν β μ} (reach : Nat → Prop)
    (closed : ∀ i n j, reach i → (v.kind i).isDir = true → v.entry i n = some j → reach j)
    (kind : ∀ i, reach i → w.kind i = v.kind i)
    (entry : ∀ i, reach i → (v.kind i).isDir = true → w.entry i = v.entry i) {i : Nat}
    (hi : reach i) (p : List ν) :
    w.resolve i p = v.resolve i p ∧ ∀ j, v.resolve i p = some j → reach j := by
  induction p generalizing i with
  | nil => exact ⟨rfl, fun j hj => by simpa [← Option.some.inj hj] using hi⟩
  | cons n p ih =>
    simp only [resolve_cons, kind i hi]
    split
    case isTrue hd =>
      rw [entry i hi hd]
      rcases he : v.entry i n with _ | j
      · simp
      · exact ih (closed i n j hi hd he)
    case isFalse => simp

/-- The tree below an object only depends on what can be reached from it. -/
theorem tree_congr {v w : View ν β μ} (reach : Nat → Prop)
    (closed : ∀ i n j, reach i → (v.kind i).isDir = true → v.entry i n = some j → reach j)
    (kind : ∀ i, reach i → w.kind i = v.kind i)
    (entry : ∀ i, reach i → (v.kind i).isDir = true → w.entry i = v.entry i)
    (data : ∀ i, reach i → v.kind i = .file → w.data i = v.data i) {i : Nat} (hi : reach i) :
    w.tree i = v.tree i := by
  funext p
  unfold tree
  have hr := resolve_congr reach closed kind entry hi p
  rw [hr.1]
  rcases hj : v.resolve i p with _ | j
  · rfl
  · have hreach := hr.2 j hj
    simp only [Option.map_some, obj, kind j hreach, Option.some.injEq]
    cases hk : v.kind j <;> simp [data j hreach, hk]

end View

/-- A file system under change. The fields `entry_lt` to `names_nodup` hold of every file
system: objects are numbered from a directory to what it holds, only directories hold
anything, no directory has two entries, and none lists a name twice. -/
structure Fs (ν β μ : Type) where
  next : Nat
  kind : Nat → Kind μ
  entries : Nat → List (ν × Nat)
  data : Nat → List β
  past : Nat → ν → List (Option Nat)
  synced : Nat → Bool
  entry_lt : ∀ d n i, (n, i) ∈ entries d → d < i ∧ i < next
  entry_dir : ∀ d n i, (n, i) ∈ entries d → (kind d).isDir = true
  dir_unique : ∀ d n d' n' i, (n, i) ∈ entries d → (n', i) ∈ entries d' →
    (kind i).isDir = true → d = d' ∧ n = n'
  names_nodup : ∀ d, ((entries d).map Prod.fst).Nodup

namespace Fs

variable {ν β μ : Type} [DecidableEq ν]

omit [DecidableEq ν] in
/-- A file system with one object, an empty directory. -/
def empty (attr : μ) : Fs ν β μ where
  next := 1
  kind _ := .dir attr
  entries _ := []
  data _ := []
  past _ _ := []
  synced _ := true
  entry_lt _ _ _ h := by cases h
  entry_dir _ _ _ h := by cases h
  dir_unique _ _ _ _ _ h := by cases h
  names_nodup _ := List.nodup_nil

def lookup (s : Fs ν β μ) (d : Nat) (n : ν) : Option Nat := (s.entries d).lookup n

def view (s : Fs ν β μ) : View ν β μ := ⟨s.kind, s.lookup, s.data⟩

@[simp] theorem view_kind (s : Fs ν β μ) : s.view.kind = s.kind := rfl
@[simp] theorem view_entry (s : Fs ν β μ) : s.view.entry = s.lookup := rfl
@[simp] theorem view_data (s : Fs ν β μ) : s.view.data = s.data := rfl

theorem mem_of_lookup {l : List (ν × Nat)} {n : ν} {i : Nat} (h : l.lookup n = some i) :
    (n, i) ∈ l := by
  rw [List.lookup_eq_some_iff] at h
  obtain ⟨l₁, l₂, rfl, _⟩ := h
  simp

theorem mem_entries {s : Fs ν β μ} {d i : Nat} {n : ν} (h : s.lookup d n = some i) :
    (n, i) ∈ s.entries d := mem_of_lookup h

theorem lookup_lt {s : Fs ν β μ} {d i : Nat} {n : ν} (h : s.lookup d n = some i) :
    d < i ∧ i < s.next := s.entry_lt d n i (mem_entries h)

/-- A path leads to a later object, by at least one number for each name. -/
theorem resolve_le {s : Fs ν β μ} {p : List ν} {i j : Nat} (h : s.view.resolve i p = some j) :
    i + p.length ≤ j := by
  induction p generalizing i with
  | nil => simp_all
  | cons n p ih =>
    simp only [View.resolve_cons, view_entry] at h
    split at h
    · obtain ⟨k, hk, hj⟩ := Option.bind_eq_some_iff.mp h
      have := lookup_lt hk
      have := ih hj
      simp only [List.length_cons]
      omega
    · cases h

theorem resolve_lt_next {s : Fs ν β μ} {p : List ν} {i j : Nat} (hi : i < s.next)
    (h : s.view.resolve i p = some j) : j < s.next := by
  induction p generalizing i with
  | nil => simp_all
  | cons n p ih =>
    simp only [View.resolve_cons, view_entry] at h
    split at h
    · obtain ⟨k, hk, hj⟩ := Option.bind_eq_some_iff.mp h
      exact ih (lookup_lt hk).2 hj
    · cases h

omit [DecidableEq ν] in
theorem entries_of_le {s : Fs ν β μ} {d : Nat} (h : s.next ≤ d) : s.entries d = [] := by
  refine List.eq_nil_iff_forall_not_mem.mpr fun ⟨n, i⟩ hi => ?_
  have := s.entry_lt d n i hi
  omega

/-! ## Changing a directory -/

/-- A listing without the name `n`. -/
def without (n : ν) (l : List (ν × Nat)) : List (ν × Nat) := l.filter fun e => decide (e.1 ≠ n)

@[simp] theorem mem_without {n m : ν} {i : Nat} {l : List (ν × Nat)} :
    (m, i) ∈ without n l ↔ (m, i) ∈ l ∧ m ≠ n := by
  simp [without]

theorem nodup_without {n : ν} {l : List (ν × Nat)} (h : (l.map Prod.fst).Nodup) :
    ((without n l).map Prod.fst).Nodup :=
  h.sublist (List.filter_sublist.map _)

theorem lookup_without (n m : ν) (l : List (ν × Nat)) :
    (without n l).lookup m = if m = n then none else l.lookup m := by
  induction l with
  | nil => simp [without]
  | cons e l ih =>
    obtain ⟨k, i⟩ := e
    by_cases hk : k = n <;> by_cases hm : m = k <;>
      simp_all [without, List.lookup_cons]
    all_goals grind

theorem lookup_eq_none {l : List (ν × Nat)} {n : ν} (h : l.lookup n = none) (i : Nat) :
    (n, i) ∉ l := by
  rw [List.lookup_eq_none_iff] at h
  exact fun hi => by simpa using h _ hi

/-- Make a new object under the free name `n` of directory `d`. -/
def create (s : Fs ν β μ) (d : Nat) (n : ν) (k : Kind μ) : Except Errno (Nat × Fs ν β μ) :=
  if hd : d < s.next ∧ (s.kind d).isDir = true then
    if hn : s.lookup d n = none then
      .ok (s.next,
        { next := s.next + 1
          kind := Function.update s.kind s.next k
          entries := Function.update s.entries d ((n, s.next) :: s.entries d)
          data := Function.update s.data s.next []
          past := Function.update (Function.update s.past s.next fun _ => []) d
            (Function.update (s.past d) n (none :: s.past d n))
          synced := Function.update s.synced s.next false
          entry_lt := by
            intro e m i hi
            by_cases he : e = d
            · subst he
              simp only [Function.update_self, List.mem_cons, Prod.mk.injEq] at hi
              rcases hi with ⟨-, rfl⟩ | hi
              · exact ⟨hd.1, by omega⟩
              · have := s.entry_lt e m i hi
                omega
            · rw [Function.update_of_ne he] at hi
              have := s.entry_lt e m i hi
              omega
          entry_dir := by
            intro e m i hi
            have hlt : e < s.next := by
              by_cases he : e = d
              · exact he ▸ hd.1
              · rw [Function.update_of_ne he] at hi
                have := s.entry_lt e m i hi
                omega
            rw [Function.update_of_ne (by omega)]
            by_cases he : e = d
            · exact he ▸ hd.2
            · rw [Function.update_of_ne he] at hi
              exact s.entry_dir e m i hi
          dir_unique := by
            intro e m e' m' i hi hi' hk
            -- the new object has the new entry only, an old one its old entries
            have old : ∀ {f l}, (l, i) ∈ Function.update s.entries d ((n, s.next) :: s.entries d) f →
                (f = d ∧ l = n ∧ i = s.next) ∨ (l, i) ∈ s.entries f := by
              intro f l h
              by_cases hf : f = d
              · subst hf
                simp only [Function.update_self, List.mem_cons, Prod.mk.injEq] at h
                grind
              · rw [Function.update_of_ne hf] at h
                exact .inr h
            rcases old hi with ⟨rfl, rfl, rfl⟩ | h <;> rcases old hi' with ⟨rfl, rfl, h'⟩ | h'
            · exact ⟨rfl, rfl⟩
            · have := s.entry_lt _ _ _ h'
              omega
            · have := s.entry_lt _ _ _ h
              omega
            · have hne : i ≠ s.next := by
                have := s.entry_lt _ _ _ h
                omega
              rw [Function.update_of_ne hne] at hk
              exact s.dir_unique _ _ _ _ _ h h' hk
          names_nodup := by
            intro e
            by_cases he : e = d
            · subst he
              simp only [Function.update_self, List.map_cons, List.nodup_cons]
              refine ⟨?_, s.names_nodup e⟩
              rintro h
              obtain ⟨⟨m, i⟩, hi, rfl⟩ := List.mem_map.mp h
              exact lookup_eq_none hn i hi
            · rw [Function.update_of_ne he]
              exact s.names_nodup e })
    else .error .exist
  else .error .notdir

/-- What making a new object does. -/
structure Created (s : Fs ν β μ) (d : Nat) (n : ν) (k : Kind μ) (t : Fs ν β μ) : Prop where
  parent_lt : d < s.next
  parent_dir : (s.kind d).isDir = true
  absent : s.lookup d n = none
  next : t.next = s.next + 1
  kind : t.kind = Function.update s.kind s.next k
  lookup : ∀ e m, t.lookup e m = if e = d ∧ m = n then some s.next else s.lookup e m
  data : t.data = Function.update s.data s.next []
  past : ∀ e m, t.past e m = if e = d ∧ m = n then none :: s.past d n
    else if e = s.next then [] else s.past e m
  synced : t.synced = Function.update s.synced s.next false

theorem create_ok {s t : Fs ν β μ} {d i : Nat} {n : ν} {k : Kind μ}
    (h : s.create d n k = .ok (i, t)) : i = s.next ∧ Created s d n k t := by
  unfold create at h
  split at h
  case isFalse => cases h
  case isTrue hd =>
    split at h
    case isFalse => cases h
    case isTrue hn =>
      cases h
      refine ⟨rfl, hd.1, hd.2, hn, rfl, rfl, ?_, rfl, ?_, rfl⟩
      · intro e m
        by_cases he : e = d
        · subst he
          simp [lookup, List.lookup_cons]
          grind
        · simp [lookup, he]
      · intro e m
        have hne : d ≠ s.next := by omega
        by_cases he : e = d <;> by_cases hm : m = n <;> by_cases hx : e = s.next <;>
          simp_all

/-- A new object has no entries. -/
theorem Created.lookup_next {s t : Fs ν β μ} {d : Nat} {n : ν} {k : Kind μ}
    (h : Created s d n k t) (m : ν) : t.lookup s.next m = none := by
  have := h.parent_lt
  rw [h.lookup, if_neg (by omega), Fs.lookup, entries_of_le (Nat.le_refl _)]
  rfl

theorem create_of_absent {s : Fs ν β μ} {d : Nat} {n : ν} (k : Kind μ) (hd : d < s.next)
    (hk : (s.kind d).isDir = true) (hn : s.lookup d n = none) :
    ∃ t, s.create d n k = .ok (s.next, t) := by
  simp [create, hd, hk, hn]

theorem create_of_present {s : Fs ν β μ} {d i : Nat} {n : ν} (k : Kind μ) (hd : d < s.next)
    (hk : (s.kind d).isDir = true) (hn : s.lookup d n = some i) : s.create d n k = .error .exist := by
  simp [create, hd, hk, hn]

/-- Give directory `d` a new listing of objects it lists already. -/
def relist (s : Fs ν β μ) (d : Nat) (l : List (ν × Nat)) (past : ν → List (Option Nat))
    (hmem : ∀ n i, (n, i) ∈ l → ∃ m, (m, i) ∈ s.entries d)
    (huniq : ∀ n n' i, (n, i) ∈ l → (n', i) ∈ l → (s.kind i).isDir = true → n = n')
    (hnodup : (l.map Prod.fst).Nodup) : Fs ν β μ where
  next := s.next
  kind := s.kind
  entries := Function.update s.entries d l
  data := s.data
  past := Function.update s.past d past
  synced := s.synced
  entry_lt := by
    intro e n i hi
    by_cases he : e = d
    · subst he
      rw [Function.update_self] at hi
      obtain ⟨m, hm⟩ := hmem n i hi
      exact s.entry_lt e m i hm
    · rw [Function.update_of_ne he] at hi
      exact s.entry_lt e n i hi
  entry_dir := by
    intro e n i hi
    by_cases he : e = d
    · subst he
      rw [Function.update_self] at hi
      obtain ⟨m, hm⟩ := hmem n i hi
      exact s.entry_dir e m i hm
    · rw [Function.update_of_ne he] at hi
      exact s.entry_dir e n i hi
  dir_unique := by
    intro e n e' n' i hi hi' hk
    have old : ∀ f m, (m, i) ∈ Function.update s.entries d l f → ∃ m', (m', i) ∈ s.entries f := by
      intro f m h
      by_cases hf : f = d
      · subst hf
        rw [Function.update_self] at h
        exact hmem m i h
      · rw [Function.update_of_ne hf] at h
        exact ⟨m, h⟩
    obtain ⟨m, hm⟩ := old e n hi
    obtain ⟨m', hm'⟩ := old e' n' hi'
    obtain ⟨rfl, -⟩ := s.dir_unique e m e' m' i hm hm' hk
    refine ⟨rfl, ?_⟩
    by_cases he : e = d
    · subst he
      rw [Function.update_self] at hi hi'
      exact huniq n n' i hi hi' hk
    · rw [Function.update_of_ne he] at hi hi'
      exact (s.dir_unique e n e n' i hi hi' hk).2
  names_nodup := by
    intro e
    by_cases he : e = d
    · subst he
      rwa [Function.update_self]
    · rw [Function.update_of_ne he]
      exact s.names_nodup e

/-- Take the name `n` out of directory `d`. -/
def unlink (s : Fs ν β μ) (d : Nat) (n : ν) : Fs ν β μ :=
  s.relist d (without n (s.entries d)) (Function.update (s.past d) n (s.lookup d n :: s.past d n))
    (fun m _ h => ⟨m, (mem_without.mp h).1⟩)
    (fun m m' i h h' hk => (s.dir_unique d m d m' i (mem_without.mp h).1 (mem_without.mp h').1 hk).2)
    (nodup_without (s.names_nodup d))

/-- Give entry `n` of directory `d`, the object `i`, the name `n'`, in place of what had it. -/
def move (s : Fs ν β μ) (d : Nat) (n n' : ν) (i : Nat) (hi : s.lookup d n = some i) : Fs ν β μ :=
  s.relist d ((n', i) :: without n' (without n (s.entries d)))
    (Function.update (Function.update (s.past d) n (some i :: s.past d n)) n'
      (s.lookup d n' :: s.past d n'))
    (by
      intro m j h
      simp only [List.mem_cons, Prod.mk.injEq, mem_without] at h
      rcases h with ⟨-, rfl⟩ | h
      · exact ⟨n, mem_entries hi⟩
      · exact ⟨m, h.1.1⟩)
    (by
      intro m m' j h h' hk
      simp only [List.mem_cons, Prod.mk.injEq, mem_without] at h h'
      -- an old entry of the moved directory would be `n` itself
      have old : ∀ l, (l, i) ∈ s.entries d → (s.kind i).isDir = true → l = n :=
        fun l hl hd => (s.dir_unique d l d n i hl (mem_entries hi) hd).2
      rcases h with ⟨rfl, rfl⟩ | h <;> rcases h' with ⟨rfl, h'⟩ | h'
      · rfl
      · exact absurd (old m' h'.1.1 hk) h'.1.2
      · subst h'
        exact absurd (old m h.1.1 hk) h.1.2
      · exact (s.dir_unique d m d m' j h.1.1 h'.1.1 hk).2)
    (by
      simp only [List.map_cons, List.nodup_cons]
      refine ⟨?_, nodup_without (nodup_without (s.names_nodup d))⟩
      intro h
      obtain ⟨⟨m, j⟩, hj, rfl⟩ := List.mem_map.mp h
      exact (mem_without.mp hj).2 rfl)

/-- `rename(2)` within directory `d`. An empty directory under the new name is replaced by a
directory, and a file by a file. -/
def rename (s : Fs ν β μ) (d : Nat) (n n' : ν) : Except Errno (Fs ν β μ) :=
  match hi : s.lookup d n with
  | none => .error .noent
  | some i =>
    if n = n' then .ok s
    else
      match s.lookup d n' with
      | none => .ok (s.move d n n' i hi)
      | some j =>
        match (s.kind i).isDir, (s.kind j).isDir with
        | true, true => if s.entries j = [] then .ok (s.move d n n' i hi) else .error .notempty
        | true, false => .error .notdir
        | false, true => .error .isdir
        | false, false => .ok (s.move d n n' i hi)

/-- What a rename within a directory does, when the two names differ. -/
structure Renamed (s : Fs ν β μ) (d : Nat) (n n' : ν) (i : Nat) (t : Fs ν β μ) : Prop where
  present : s.lookup d n = some i
  next : t.next = s.next
  kind : t.kind = s.kind
  data : t.data = s.data
  synced : t.synced = s.synced
  lookup : ∀ e m, t.lookup e m = if e = d then
      (if m = n' then some i else if m = n then none else s.lookup d m) else s.lookup e m
  past : ∀ e m, t.past e m = if e = d then
      (if m = n' then s.lookup d n' :: s.past d n'
        else if m = n then some i :: s.past d n else s.past d m) else s.past e m

theorem move_renamed (s : Fs ν β μ) (d : Nat) (n n' : ν) (i : Nat) (hi : s.lookup d n = some i) :
    Renamed s d n n' i (s.move d n n' i hi) := by
  refine ⟨hi, rfl, rfl, rfl, rfl, ?_, ?_⟩
  · intro e m
    by_cases he : e = d
    · subst he
      simp only [move, relist, lookup, Function.update_self, List.lookup_cons, lookup_without]
      grind
    · simp [move, relist, he, lookup]
  · intro e m
    by_cases he : e = d <;> by_cases hm : m = n' <;> by_cases hm' : m = n <;>
      simp_all [move, relist]

theorem rename_ok {s t : Fs ν β μ} {d : Nat} {n n' : ν} (hne : n ≠ n')
    (h : s.rename d n n' = .ok t) : ∃ i, Renamed s d n n' i t := by
  unfold rename at h
  split at h
  case h_1 => cases h
  case h_2 i hi =>
    have done : s.move d n n' i hi = t → ∃ i, Renamed s d n n' i t :=
      fun ht => ⟨i, ht ▸ move_renamed s d n n' i hi⟩
    rw [if_neg hne] at h
    split at h
    case h_1 => exact done (Except.ok.inj h)
    case h_2 j hj =>
      split at h
      case h_1 =>
        split at h
        case isTrue => exact done (Except.ok.inj h)
        case isFalse => cases h
      case h_4 => exact done (Except.ok.inj h)
      all_goals cases h

theorem rename_of_absent {s : Fs ν β μ} {d i : Nat} {n n' : ν} (hi : s.lookup d n = some i)
    (hn' : s.lookup d n' = none) :
    ∃ t, s.rename d n n' = .ok t ∧ Renamed s d n n' i t := by
  have hne : n ≠ n' := by
    rintro rfl
    simp [hi] at hn'
  refine ⟨s.move d n n' i hi, ?_, move_renamed s d n n' i hi⟩
  unfold rename
  split
  case h_1 h => simp [hi] at h
  case h_2 j hj =>
    obtain rfl : i = j := Option.some.inj (hi.symm.trans hj)
    simp [hne, hn']

@[simp] theorem unlink_kind (s : Fs ν β μ) (d : Nat) (n : ν) : (s.unlink d n).kind = s.kind := rfl
@[simp] theorem unlink_data (s : Fs ν β μ) (d : Nat) (n : ν) : (s.unlink d n).data = s.data := rfl
@[simp] theorem unlink_next (s : Fs ν β μ) (d : Nat) (n : ν) : (s.unlink d n).next = s.next := rfl
@[simp] theorem unlink_synced (s : Fs ν β μ) (d : Nat) (n : ν) :
    (s.unlink d n).synced = s.synced := rfl

theorem unlink_lookup (s : Fs ν β μ) (d : Nat) (n : ν) (e : Nat) (m : ν) :
    (s.unlink d n).lookup e m = if e = d ∧ m = n then none else s.lookup e m := by
  by_cases he : e = d
  · subst he
    simp [unlink, relist, lookup, lookup_without]
  · simp [unlink, relist, lookup, he]

theorem unlink_past (s : Fs ν β μ) (d : Nat) (n : ν) (e : Nat) (m : ν) :
    (s.unlink d n).past e m = if e = d ∧ m = n then s.lookup d n :: s.past d n else s.past e m := by
  by_cases he : e = d <;> by_cases hm : m = n <;> simp_all [unlink, relist]

/-! ## Data and syncing -/

/-- Change the data of a file; the change is not synced. -/
def write (s : Fs ν β μ) (i : Nat) (data : List β) : Fs ν β μ :=
  { s with
    data := Function.update s.data i data
    synced := Function.update s.synced i false }

def append (s : Fs ν β μ) (i : Nat) (chunk : List β) : Fs ν β μ := s.write i (s.data i ++ chunk)

/-- `fsync(2)` on a file. -/
def syncFile (s : Fs ν β μ) (i : Nat) : Fs ν β μ :=
  { s with synced := Function.update s.synced i true }

/-- `fsync(2)` on a directory: its entries are as they are now. -/
def syncDir (s : Fs ν β μ) (d : Nat) : Fs ν β μ :=
  { s with past := Function.update s.past d fun _ => [] }

section
omit [DecidableEq ν]
variable (s : Fs ν β μ) (i : Nat) (l : List β)

@[simp] theorem write_kind : (s.write i l).kind = s.kind := rfl
@[simp] theorem write_next : (s.write i l).next = s.next := rfl
@[simp] theorem write_past : (s.write i l).past = s.past := rfl
@[simp] theorem write_data : (s.write i l).data = Function.update s.data i l := rfl
@[simp] theorem write_synced : (s.write i l).synced = Function.update s.synced i false := rfl
@[simp] theorem syncFile_kind : (s.syncFile i).kind = s.kind := rfl
@[simp] theorem syncFile_next : (s.syncFile i).next = s.next := rfl
@[simp] theorem syncFile_past : (s.syncFile i).past = s.past := rfl
@[simp] theorem syncFile_data : (s.syncFile i).data = s.data := rfl
@[simp] theorem syncFile_synced :
    (s.syncFile i).synced = Function.update s.synced i true := rfl
@[simp] theorem syncDir_kind : (s.syncDir i).kind = s.kind := rfl
@[simp] theorem syncDir_next : (s.syncDir i).next = s.next := rfl
@[simp] theorem syncDir_data : (s.syncDir i).data = s.data := rfl
@[simp] theorem syncDir_synced : (s.syncDir i).synced = s.synced := rfl
@[simp] theorem syncDir_past :
    (s.syncDir i).past = Function.update s.past i fun _ => [] := rfl

end

@[simp] theorem write_lookup (s : Fs ν β μ) (i : Nat) (l : List β) :
    (s.write i l).lookup = s.lookup := rfl
@[simp] theorem syncFile_lookup (s : Fs ν β μ) (i : Nat) : (s.syncFile i).lookup = s.lookup := rfl
@[simp] theorem syncDir_lookup (s : Fs ν β μ) (i : Nat) : (s.syncDir i).lookup = s.lookup := rfl

end Fs
