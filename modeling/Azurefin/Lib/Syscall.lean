import Azurefin.Lib.Durable
import Azurefin.Lib.Prog

/-!
# System calls on a file system

The operations of `Fs` as operations of a program that may fail. `os` turns an error number
into an error of the program. A call that fails leaves the file system as it was, but for a
write, which may have written a part.

`Fs.SameOn` is the frame: objects a program does not touch stay what they were.
-/

namespace Fs

variable {ν β μ ε α : Type} [DecidableEq ν]

/-! ## Frames -/

/-- The objects in `P` are the same, with what waits to be synced, in `s` and `t`. -/
structure SameOn (P : Nat → Prop) (s t : Fs ν β μ) : Prop where
  kind : ∀ i, P i → t.kind i = s.kind i
  lookup : ∀ i, P i → t.lookup i = s.lookup i
  data : ∀ i, P i → t.data i = s.data i
  past : ∀ i, P i → t.past i = s.past i
  synced : ∀ i, P i → t.synced i = s.synced i

namespace SameOn

variable {P : Nat → Prop} {s t u : Fs ν β μ}

theorem refl (P : Nat → Prop) (s : Fs ν β μ) : SameOn P s s :=
  ⟨fun _ _ => rfl, fun _ _ => rfl, fun _ _ => rfl, fun _ _ => rfl, fun _ _ => rfl⟩

theorem trans (h : SameOn P s t) (h' : SameOn P t u) : SameOn P s u where
  kind i hi := (h'.kind i hi).trans (h.kind i hi)
  lookup i hi := (h'.lookup i hi).trans (h.lookup i hi)
  data i hi := (h'.data i hi).trans (h.data i hi)
  past i hi := (h'.past i hi).trans (h.past i hi)
  synced i hi := (h'.synced i hi).trans (h.synced i hi)

theorem mono {Q : Nat → Prop} (h : SameOn P s t) (hQ : ∀ i, Q i → P i) : SameOn Q s t where
  kind i hi := h.kind i (hQ i hi)
  lookup i hi := h.lookup i (hQ i hi)
  data i hi := h.data i (hQ i hi)
  past i hi := h.past i (hQ i hi)
  synced i hi := h.synced i (hQ i hi)

theorem created {d : Nat} {n : ν} {k : Kind μ} (h : Created s d n k t) (hd : ¬ P d)
    (hn : ¬ P s.next) : SameOn P s t := by
  have ne : ∀ {i}, P i → i ≠ d ∧ i ≠ s.next :=
    fun hi => ⟨fun he => hd (he ▸ hi), fun he => hn (he ▸ hi)⟩
  refine ⟨fun i hi => ?_, fun i hi => funext fun m => ?_, fun i hi => ?_,
    fun i hi => funext fun m => ?_, fun i hi => ?_⟩
  · rw [h.kind, Function.update_of_ne (ne hi).2]
  · simp [h.lookup, (ne hi).1]
  · rw [h.data, Function.update_of_ne (ne hi).2]
  · simp [h.past, ne hi]
  · rw [h.synced, Function.update_of_ne (ne hi).2]

theorem renamed {d i : Nat} {n n' : ν} (h : Renamed s d n n' i t) (hd : ¬ P d) :
    SameOn P s t := by
  have ne : ∀ {j}, P j → j ≠ d := fun hj he => hd (he ▸ hj)
  refine ⟨fun j _ => by rw [h.kind], fun j hj => funext fun m => ?_, fun j _ => by rw [h.data],
    fun j hj => funext fun m => ?_, fun j _ => by rw [h.synced]⟩
  · simp [h.lookup, ne hj]
  · simp [h.past, ne hj]

theorem unlink {d : Nat} (n : ν) (hd : ¬ P d) : SameOn P s (s.unlink d n) := by
  have ne : ∀ {j}, P j → j ≠ d := fun hj he => hd (he ▸ hj)
  refine ⟨fun _ _ => rfl, fun j hj => funext fun m => ?_, fun _ _ => rfl,
    fun j hj => funext fun m => ?_, fun _ _ => rfl⟩
  · simp [unlink_lookup, ne hj]
  · simp [unlink_past, ne hj]

theorem write {i : Nat} (l : List β) (hi : ¬ P i) : SameOn P s (s.write i l) := by
  have ne : ∀ {j}, P j → j ≠ i := fun hj he => hi (he ▸ hj)
  refine ⟨fun _ _ => rfl, fun _ _ => rfl, fun j hj => ?_, fun _ _ => rfl, fun j hj => ?_⟩
  · rw [write_data, Function.update_of_ne (ne hj)]
  · rw [write_synced, Function.update_of_ne (ne hj)]

theorem syncFile {i : Nat} (hi : ¬ P i) : SameOn P s (s.syncFile i) := by
  refine ⟨fun _ _ => rfl, fun _ _ => rfl, fun _ _ => rfl, fun _ _ => rfl, fun j hj => ?_⟩
  have ne : j ≠ i := fun he => hi (he ▸ hj)
  rw [syncFile_synced, Function.update_of_ne ne]

theorem syncDir {d : Nat} (hd : ¬ P d) : SameOn P s (s.syncDir d) := by
  refine ⟨fun _ _ => rfl, fun _ _ => rfl, fun _ _ => rfl, fun j hj => ?_, fun _ _ => rfl⟩
  have ne : j ≠ d := fun he => hd (he ▸ hj)
  rw [syncDir_past, Function.update_of_ne ne]

/-- A tree all of whose objects are kept is kept. -/
theorem tree (h : SameOn P s t) {i : Nat} (hi : P i)
    (closed : ∀ i n j, P i → s.lookup i n = some j → P j) : t.view.tree i = s.view.tree i :=
  View.tree_congr P (fun i n j hp _ hn => closed i n j hp hn) h.kind
    (fun i hp _ => h.lookup i hp) (fun i hp _ => h.data i hp) hi

theorem settled (h : SameOn P s t) {i : Nat} (hi : P i)
    (closed : ∀ i n j, P i → s.lookup i n = some j → P j) (hs : s.Settled i) : t.Settled i := by
  intro p j hj
  obtain ⟨he, hr⟩ := View.resolve_congr (v := s.view) (w := t.view) P (fun i n j hp _ hn => closed i n j hp hn)
    h.kind (fun i hp _ => h.lookup i hp) hi p
  have hj' : s.view.resolve i p = some j := he ▸ hj
  rw [h.kind j (hr j hj'), h.past j (hr j hj'), h.synced j (hr j hj')]
  exact hs p j hj'

end SameOn

/-! ## Calls -/

/-- A call that carries out `f`, or fails and changes nothing. -/
def call (os : Errno → ε) (f : Fs ν β μ → Except Errno (α × Fs ν β μ)) :
    Prog (Fs ν β μ) ε α :=
  Prog.step fun
    | .go, s =>
      match f s with
      | .ok (a, t) => (.ok a, t)
      | .error e => (.error (os e), s)
    | .fail _, s => (.error (os .io), s)

/-- `mkdir(2)` and `open(2)` with `O_CREAT | O_EXCL`: the number of the new object. -/
def createCall (os : Errno → ε) (d : Nat) (n : ν) (k : Kind μ) : Prog (Fs ν β μ) ε Nat :=
  call os fun s => s.create d n k

def renameCall (os : Errno → ε) (d : Nat) (n n' : ν) : Prog (Fs ν β μ) ε Unit :=
  call os fun s => (s.rename d n n').map fun t => ((), t)

/-- `fsync(2)` on a file. -/
def fsyncCall (os : Errno → ε) (i : Nat) : Prog (Fs ν β μ) ε Unit :=
  call os fun s => .ok ((), s.syncFile i)

/-- `fsync(2)` on a directory. -/
def fsyncDirCall (os : Errno → ε) (d : Nat) : Prog (Fs ν β μ) ε Unit :=
  call os fun s => .ok ((), s.syncDir d)

/-- `write(2)` at the end of a file. When it fails, a part may have been written. -/
def appendCall (os : Errno → ε) (i : Nat) (chunk : List β) : Prog (Fs ν β μ) ε Unit :=
  Prog.step fun
    | .go, s => (.ok (), s.append i chunk)
    | .fail progress, s => (.error (os .io), s.append i (chunk.take progress))

/-- `mkdtemp(3)`: make a directory under the first of the names that is free. -/
def makeTemporary (os : Errno → ε) (a : μ) (d : Nat) : List ν → Prog (Fs ν β μ) ε (ν × Nat)
  | [] => Prog.raise (os .exist)
  | n :: names => do
    let made ← call os fun s =>
      match s.create d n (.dir a) with
      | .ok (i, t) => .ok (some i, t)
      | .error .exist => .ok (none, s)
      | .error e => .error e
    match made with
    | some i => pure (n, i)
    | none => makeTemporary os a d names

end Fs

namespace Prog.Ensures

variable {ν β μ ε α : Type} {os : Errno → ε} {P : Fs ν β μ → Prop} {R : ε → Fs ν β μ → Prop} {K : Fs ν β μ → Prop}

theorem call {f : Fs ν β μ → Except Errno (α × Fs ν β μ)} {Q : α → Fs ν β μ → Prop}
    (hK : ∀ s, P s → K s) (hok : ∀ s a t, P s → f s = .ok (a, t) → Q a t)
    (herr : ∀ e s, P s → R e s) : Ensures P (Fs.call os f) Q R K := by
  refine step hK fun c s hs => ?_
  rcases c with _ | k
  · rcases hf : f s with e | ⟨a, t⟩
    · simpa [hf] using herr (os e) s hs
    · simpa [hf] using hok s a t hs hf
  · exact herr _ s hs

theorem createCall [DecidableEq ν] {d : Nat} {n : ν} {k : Kind μ} {Q : Nat → Fs ν β μ → Prop}
    (hK : ∀ s, P s → K s) (hok : ∀ s t, P s → Fs.Created s d n k t → Q s.next t)
    (herr : ∀ e s, P s → R e s) : Ensures P (Fs.createCall os d n k) Q R K := by
  refine call hK (fun s i t hs h => ?_) herr
  obtain ⟨rfl, hc⟩ := Fs.create_ok h
  exact hok s t hs hc

theorem renameCall [DecidableEq ν] {d : Nat} {n n' : ν} {Q : Unit → Fs ν β μ → Prop} (hne : n ≠ n')
    (hK : ∀ s, P s → K s) (hok : ∀ s i t, P s → Fs.Renamed s d n n' i t → Q () t)
    (herr : ∀ e s, P s → R e s) : Ensures P (Fs.renameCall os d n n') Q R K := by
  refine call hK (fun s _ t hs hr => ?_) herr
  rcases hr' : s.rename d n n' with e | u
  · simp [hr', Except.map] at hr
  · obtain ⟨-, rfl⟩ : () = () ∧ u = t := by simpa [hr', Except.map] using hr
    obtain ⟨i, hi⟩ := Fs.rename_ok hne hr'
    exact hok s i u hs hi

theorem fsyncCall {i : Nat} {Q : Unit → Fs ν β μ → Prop} (hK : ∀ s, P s → K s)
    (hok : ∀ s, P s → Q () (s.syncFile i)) (herr : ∀ e s, P s → R e s) :
    Ensures P (Fs.fsyncCall os i) Q R K := by
  refine call hK (fun s _ t hs h => ?_) herr
  cases h
  exact hok s hs

theorem fsyncDirCall {d : Nat} {Q : Unit → Fs ν β μ → Prop} (hK : ∀ s, P s → K s)
    (hok : ∀ s, P s → Q () (s.syncDir d)) (herr : ∀ e s, P s → R e s) :
    Ensures P (Fs.fsyncDirCall os d) Q R K := by
  refine call hK (fun s _ t hs h => ?_) herr
  cases h
  exact hok s hs

theorem appendCall {i : Nat} {chunk : List β} {Q : Unit → Fs ν β μ → Prop} (hK : ∀ s, P s → K s)
    (hok : ∀ s, P s → Q () (s.append i chunk))
    (herr : ∀ e s l, P s → R e (s.append i l)) : Ensures P (Fs.appendCall os i chunk) Q R K := by
  refine step hK fun c s hs => ?_
  rcases c with _ | k
  · exact hok s hs
  · exact herr _ s _ hs

theorem makeTemporary [DecidableEq ν] {a : μ} {d : Nat} {names : List ν}
    {Q : ν × Nat → Fs ν β μ → Prop} (hK : ∀ s, P s → K s)
    (hok : ∀ s t n, P s → n ∈ names → Fs.Created s d n (.dir a) t → Q (n, s.next) t)
    (herr : ∀ e s, P s → R e s) : Ensures P (Fs.makeTemporary os a d names) Q R K := by
  induction names with
  | nil => exact .raise fun s hs => herr _ s hs
  | cons n names ih =>
    refine .bind (M := fun made t => match made with
      | some i => Q (n, i) t
      | none => P t) (call hK (fun s made t hs h => ?_) herr) ?_
    · split at h
      case h_1 i u hi =>
        cases h
        obtain ⟨rfl, hc⟩ := Fs.create_ok hi
        exact hok s _ n hs (by simp) hc
      case h_2 =>
        cases h
        exact hs
      case h_3 => cases h
    · rintro (_ | i)
      · exact ih fun s t m hs hm hc => hok s t m hs (by simp [hm]) hc
      · exact .pure fun _ hs => hs

end Prog.Ensures

namespace Prog.Goes

variable {ν β μ ε α : Type} {os : Errno → ε} {s t : Fs ν β μ}

theorem call {f : Fs ν β μ → Except Errno (α × Fs ν β μ)} {a : α} (h : f s = .ok (a, t)) :
    Goes (Fs.call os f) s a t := step (by simp [h])

theorem fsyncCall (i : Nat) : Goes (Fs.fsyncCall os i) s () (s.syncFile i) := call rfl

theorem fsyncDirCall (d : Nat) : Goes (Fs.fsyncDirCall os d) s () (s.syncDir d) := call rfl

theorem appendCall (i : Nat) (chunk : List β) :
    Goes (Fs.appendCall os i chunk) s () (s.append i chunk) := step rfl

theorem makeTemporary [DecidableEq ν] {a : μ} {d i : Nat} {n : ν} {names : List ν}
    (h : s.create d n (.dir a) = .ok (i, t)) :
    Goes (Fs.makeTemporary os a d (n :: names)) s (n, i) t := by
  refine .bind (t := t) (a := some i) (call ?_) (.pure _ t)
  simp [h]

end Prog.Goes
