import Azurefin.Lib.FsTree
import Azurefin.Lib.Syscall

/-!
# Growing trees and paths of directories

`Grows may tree tree'` relates a tree to a later one that has more. `Fs.mkdirParents` makes a
path of directories where it is missing, from the top.

## Main results

* `Prog.Ensures.mkdirParents` — the rule for an invariant kept by each directory made.
* `Prog.Goes.mkdirParents` — it goes through when no other kind of object is in the way.
-/

variable {ν β μ ε : Type}

/-! ## Trees -/

/-- The path leads to a directory of the tree. -/
def IsDirectory (tree : List ν → Option (Obj β μ)) (p : List ν) : Prop :=
  ∃ a, tree p = some (.dir a)

/-- The tree `tree'` has all of `tree`, and besides it only what `may` allows. -/
def Grows (may : List ν → Obj β μ → Prop) (tree tree' : List ν → Option (Obj β μ)) : Prop :=
  (∀ p o, tree p = some o → tree' p = some o) ∧
    ∀ p o, tree' p = some o → tree p = some o ∨ may p o

/-- A directory on the way to `path`. -/
def OnTheWay (path p : List ν) (o : Obj β μ) : Prop := p <+: path ∧ ∃ a, o = .dir a

namespace Grows

variable {may may' : List ν → Obj β μ → Prop} {tree tree' tree'' : List ν → Option (Obj β μ)}
  {p : List ν} {o : Obj β μ}

theorem refl (may : List ν → Obj β μ → Prop) (tree : List ν → Option (Obj β μ)) :
    Grows may tree tree := ⟨fun _ _ h => h, fun _ _ h => .inl h⟩

theorem trans (h : Grows may tree tree') (h' : Grows may tree' tree'') :
    Grows may tree tree'' := by
  refine ⟨fun p o hp => h'.1 p o (h.1 p o hp), fun p o hp => ?_⟩
  rcases h'.2 p o hp with hp | hp
  · exact h.2 p o hp
  · exact .inr hp

theorem mono (h : Grows may tree tree') (hm : ∀ p o, may p o → may' p o) :
    Grows may' tree tree' := ⟨h.1, fun p o hp => (h.2 p o hp).imp id (hm p o)⟩

theorem isDirectory (h : Grows may tree tree') (hp : IsDirectory tree p) :
    IsDirectory tree' p := hp.imp fun _ ha => h.1 p _ ha

theorem update [DecidableEq ν] (hp : tree p = none) (hm : may p o) :
    Grows may tree (Function.update tree p (some o)) := by
  constructor
  · intro q x hq
    have hne : q ≠ p := by
      rintro rfl
      simp [hp] at hq
    rwa [Function.update_of_ne hne]
  · intro q x hq
    by_cases hne : q = p
    · subst hne
      obtain rfl : o = x := by simpa using hq
      exact .inr hm
    · rw [Function.update_of_ne hne] at hq
      exact .inl hq

end Grows

namespace Fs

variable [DecidableEq ν] {s t : Fs ν β μ} {i d : Nat} {q : List ν}

theorem isDir_of_isDirectory {j : Nat} {p : List ν} (h : IsDirectory (s.view.tree i) p)
    (hj : s.view.resolve i p = some j) : (s.kind j).isDir = true := by
  obtain ⟨a, ha⟩ := h
  obtain ⟨k, hk, hd⟩ := View.tree_eq_dir.mp ha
  obtain rfl : j = k := Option.some.inj (hj.symm.trans hk)
  simp only [view_kind] at hd
  rw [hd]
  rfl

/-- The path `q` leads from the object `i` to the directory `d`. -/
structure FoundDir (s : Fs ν β μ) (i : Nat) (q : List ν) (d : Nat) : Prop where
  lt : i < s.next
  resolve : s.view.resolve i q = some d
  dir : (s.kind d).isDir = true

theorem FoundDir.lt_next (h : FoundDir s i q d) : d < s.next := resolve_lt_next h.lt h.resolve

/-- The directory just made is found. -/
theorem Created.found {n : ν} {a : μ} (hc : Created s d n (.dir a) t) (h : FoundDir s i q d) :
    FoundDir t i (q ++ [n]) s.next := by
  refine ⟨?_, by rw [hc.resolve h.lt h.resolve, if_pos rfl], ?_⟩
  · have := hc.next
    have := h.lt
    omega
  · rw [hc.kind, Function.update_self]
    rfl

/-- `mkdir(2)` for the components of a path below the directory `d`, where they are missing. -/
def mkdirParents (os : Errno → ε) (a : μ) (d : Nat) : List ν → Prog (Fs ν β μ) ε Nat
  | [] => pure d
  | part :: parts => do
    let found ← Prog.look (os .io) fun s =>
      match s.lookup d part with
      | none => .ok none
      | some child =>
        if (s.kind child).isDir then .ok (some child)
        else .error (os (if parts.isEmpty then .exist else .notdir))
    match found with
    | some child => mkdirParents os a child parts
    | none => do
      let child ← createCall os d part (.dir a)
      mkdirParents os a child parts

end Fs

namespace Prog

open Fs

variable [DecidableEq ν] {os : Errno → ε} {a : μ} {i d : Nat} {q : List ν}

/-- A directory is only made below one that was found on the way. -/
theorem Ensures.mkdirParents {I : Fs ν β μ → Prop} (parts : List ν)
    (hI : ∀ s t e x part, I s → FoundDir s i (q ++ x) e → x ++ [part] <+: parts →
      Created s e part (.dir a) t → I t) :
    Ensures (fun s => I s ∧ FoundDir s i q d) (mkdirParents os a d parts)
      (fun d' s => I s ∧ FoundDir s i (q ++ parts) d') (fun _ => I) I := by
  induction parts generalizing d q with
  | nil => exact .pure fun s hs => by simpa using hs
  | cons part parts ih =>
    have rest : ∀ child, Ensures (fun s => I s ∧ FoundDir s i (q ++ [part]) child)
        (Fs.mkdirParents os a child parts)
        (fun d' s => I s ∧ FoundDir s i (q ++ part :: parts) d') (fun _ => I) I := by
      intro child
      have h := @ih child (q ++ [part]) fun s t e x m hs hf hx hc =>
        hI s t e (part :: x) m hs (by simpa using hf) (by simpa using hx) hc
      simpa using h
    refine .bind (M := fun found s => (I s ∧ FoundDir s i q d) ∧
      ∀ child, found = some child → FoundDir s i (q ++ [part]) child)
      (.look (fun s hs => hs.1) (fun s found hs hf => ⟨hs, ?_⟩) fun _ s hs => hs.1) ?_
    · rintro child rfl
      split at hf
      · cases hf
      case h_2 j hj =>
        split at hf <;> cases hf
        exact ⟨hs.2.lt, View.resolve_snoc hs.2.resolve hs.2.dir hj, ‹_›⟩
    rintro (_ | child)
    · refine .bind (M := fun child s => I s ∧ FoundDir s i (q ++ [part]) child)
        (.createCall (fun s hs => hs.1.1) (fun s t hs hc => ⟨?_, hc.found hs.1.2⟩)
          fun _ s hs => hs.1.1) rest
      exact hI s t d [] part hs.1.1 (by simpa using hs.1.2) (by simp) hc
    · exact (rest child).weaken (fun s hs => ⟨hs.1.1, hs.2 child rfl⟩) (fun _ _ hs => hs)
        (fun _ _ hs => hs) fun _ hs => hs

theorem Goes.mkdirParents {s : Fs ν β μ} (parts : List ν) (hd : FoundDir s i q d)
    (hfree : ∀ x, x <+: parts → s.view.tree i (q ++ x) = none ∨
      IsDirectory (s.view.tree i) (q ++ x)) :
    ∃ d' t, Goes (mkdirParents os a d parts) s d' t ∧ FoundDir t i (q ++ parts) d' ∧
      Grows (OnTheWay (q ++ parts)) (s.view.tree i) (t.view.tree i) ∧
      ∀ x, x <+: parts → IsDirectory (t.view.tree i) (q ++ x) := by
  have hroot : IsDirectory (s.view.tree i) q := by
    rcases hfree [] List.nil_prefix with h | h
    · rw [List.append_nil, View.tree_eq_none, hd.resolve] at h
      cases h
    · simpa using h
  induction parts generalizing s d q with
  | nil =>
    refine ⟨d, s, .pure _ _, by simpa using hd, .refl _ _, fun x hx => ?_⟩
    obtain rfl := List.prefix_nil.mp hx
    simpa using hroot
  | cons part parts ih =>
    have hnext : ∀ x, x <+: parts → q ++ [part] ++ x = q ++ part :: x := fun x _ => by simp
    have whole : q ++ [part] ++ parts = q ++ part :: parts := by simp
    rcases hl : s.lookup d part with _ | child
    · -- the directory is made
      obtain ⟨s', hc'⟩ := create_of_absent (.dir a) hd.lt_next hd.dir hl
      obtain ⟨-, hc⟩ := create_ok hc'
      have htree : s'.view.tree i =
          Function.update (s.view.tree i) (q ++ [part]) (some (.dir a)) :=
        hc.tree hd.lt hd.resolve
      have hres : s.view.resolve i (q ++ [part]) = none := by
        simp [resolve_concat, hd.resolve, hd.dir, hl]
      have hgrow : Grows (OnTheWay (q ++ part :: parts)) (s.view.tree i) (s'.view.tree i) := by
        rw [htree]
        exact .update (by simp [View.tree, hres]) ⟨⟨parts, whole⟩, _, rfl⟩
      have hfree' : ∀ x, x <+: parts → s'.view.tree i (q ++ [part] ++ x) = none ∨
          IsDirectory (s'.view.tree i) (q ++ [part] ++ x) := by
        intro x _
        by_cases hx : x = []
        · subst hx
          exact .inr ⟨_, by rw [List.append_nil, htree, Function.update_self]⟩
        · refine .inl ?_
          rw [htree, Function.update_of_ne (by simpa using hx), View.tree, View.resolve_append,
            hres]
          rfl
      obtain ⟨d', t, hgo, hf, hg, hdirs⟩ := ih (hc.found hd) hfree'
        ⟨_, by rw [htree, Function.update_self]⟩
      refine ⟨d', t, ?_, whole ▸ hf, hgrow.trans (whole ▸ hg), fun x hx => ?_⟩
      · refine .bind (.look (a := none) (by simp [hl])) ?_
        exact .bind (.call hc') hgo
      · rcases List.prefix_cons_iff.mp hx with rfl | ⟨y, rfl, hy⟩
        · simpa using hg.isDirectory (hgrow.isDirectory hroot)
        · exact hnext y hy ▸ hdirs y hy
    · -- the directory is there
      have hr : s.view.resolve i (q ++ [part]) = some child :=
        View.resolve_snoc hd.resolve hd.dir hl
      have hdir : IsDirectory (s.view.tree i) (q ++ [part]) := by
        rcases hfree [part] (by simp) with h | h
        · rw [View.tree_eq_none, hr] at h
          cases h
        · exact h
      have hchild := isDir_of_isDirectory hdir hr
      obtain ⟨d', t, hgo, hf, hg, hdirs⟩ := ih ⟨hd.lt, hr, hchild⟩ (fun x hx => by
        rw [hnext x hx]
        exact hfree (part :: x) (List.cons_prefix_cons.mpr ⟨rfl, hx⟩)) hdir
      refine ⟨d', t, ?_, whole ▸ hf, whole ▸ hg, fun x hx => ?_⟩
      · exact .bind (.look (a := some child) (by simp [hl, hchild])) hgo
      · rcases List.prefix_cons_iff.mp hx with rfl | ⟨y, rfl, hy⟩
        · simpa using hg.isDirectory hroot
        · exact hnext y hy ▸ hdirs y hy

end Prog
