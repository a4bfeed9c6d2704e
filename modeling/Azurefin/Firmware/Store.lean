import Azurefin.Firmware.Publication

/-!
# The firmware store over whole runs

Any number of calls of `provision`, one after the other, with any policies and sources and
with any failures: every entry of the store that is named by a digest is a complete bundle.

A call is killed when its schedule of fates is used up, so the calls with every schedule reach
every intermediate state.
-/

namespace Azurefin

open Prog Fs

/-- A call of `provision`, with what befalls its operations. -/
structure Call where
  caller : Caller
  source : Tree
  policy : Json
  fates : List Fate

/-- How the call ends, and the disk it leaves. -/
def Call.run (call : Call) (store : Nat) (s : Disk) : Except (Stop PyError) Text × Disk :=
  let (r, w) := provision call.caller call.source (some store) call.policy ⟨call.fates, s⟩
  (r, w.state)

/-- The disks that calls lead to. -/
inductive Reaches (store : Nat) : Disk → Disk → Prop where
  | refl (s : Disk) : Reaches store s s
  | call {s t : Disk} (h : Reaches store s t) (call : Call) :
      Reaches store s (call.run store t).2

/-- Object `i` is a bundle for a policy whose manifest has the digest `name`. -/
def IsBundle (s : Disk) (policy : Json) (name : Text) (i : Nat) : Prop :=
  (s.kind i).isDir = true ∧ (∃ contents, manifest policy = .ok contents ∧ name = sha256 contents) ∧
    ∃ out, inventory (treeAt s i) policy = .ok out

/-- Every entry of the store that is named by a digest is a complete bundle. -/
def BundlesComplete (store : Nat) (s : Disk) : Prop :=
  ∀ name i, isSha256Text name = true → s.lookup store name = some i →
    ∃ policy, IsBundle s policy name i

/-- What a call on the disk `t` does to the store. -/
structure CallSpec (store : Nat) (t : Disk) (call : Call) : Prop where
  kept : ∀ name i, t.lookup store name = some i →
    (call.run store t).2.lookup store name = some i ∧
      treeAt (call.run store t).2 i = treeAt t i
  returned : ∀ d, (call.run store t).1 = .ok d →
    ∃ i, (call.run store t).2.lookup store d = some i ∧
      IsBundle (call.run store t).2 call.policy d i
  raised : ∀ e, (call.run store t).1 = .error (.raised e) →
    (∀ name, (call.run store t).2.lookup store name = t.lookup store name) ∨
      ∃ d i, t.lookup store d = none ∧ IsBundle (call.run store t).2 call.policy d i ∧
        ∀ name, (call.run store t).2.lookup store name =
          if name = d then some i else t.lookup store name

variable {s₀ s t : Disk} {store : Nat} {policy : Json} {attr : Attr} {d : Text}

/-- What is in the store is still in it, in every phase of a call. -/
structure StoreKept (store : Nat) (s₀ s : Disk) : Prop where
  frame : SameOn (Elsewhere s₀ store) s₀ s
  lookup : ∀ n i, s₀.lookup store n = some i → s.lookup store n = some i

/-- An entry that a call finds is an object of the disk it started on. -/
theorem StoreKept.kind (h : StoreKept store s₀ s) {n : Text} {i : Nat}
    (hi : s₀.lookup store n = some i) : s.kind i = s₀.kind i := by
  have := lookup_lt hi
  exact h.frame.kind i ⟨this.2, by omega⟩

theorem StoreKept.treeAt (h : StoreKept store s₀ s) {n : Text} {i : Nat}
    (hi : s₀.lookup store n = some i) : treeAt s i = treeAt s₀ i := treeAt_of_frame h.frame hi

theorem StoreKept.isBundle (h : StoreKept store s₀ s) {n : Text} {i : Nat}
    (hi : s₀.lookup store n = some i) (hb : IsBundle s₀ policy n i) : IsBundle s policy n i := by
  rwa [IsBundle, h.kind hi, h.treeAt hi]

theorem Unchanged.kept (h : Unchanged s₀ store s) : StoreKept store s₀ s :=
  ⟨h.frame, fun n i hi => by rw [h.lookup, hi]⟩

theorem Preparing.kept {name : Text} {temporary : Nat}
    (h : Preparing s₀ store name attr temporary s) : StoreKept store s₀ s := by
  refine ⟨h.frame, fun n i hi => ?_⟩
  have hn : n ≠ name := by
    rintro rfl
    simp [h.absent] at hi
  rw [h.lookup, if_neg hn, hi]

theorem Published.kept {temporary : Nat} (h : Published s₀ store d policy attr temporary s) :
    StoreKept store s₀ s := by
  refine ⟨h.frame, fun n i hi => ?_⟩
  have hn : n ≠ d := by
    rintro rfl
    simp [h.absent] at hi
  rw [h.lookup, if_neg hn, hi]

theorem Added.isBundle (h : Added s₀ store policy attr d s) :
    ∃ i, s₀.lookup store d = none ∧ IsBundle s policy d i ∧
      ∀ n, s.lookup store n = if n = d then some i else s₀.lookup store n := by
  obtain ⟨hd, i, hp⟩ := h
  exact ⟨i, hp.absent, ⟨by rw [hp.dir]; rfl, hd, hp.complete⟩, hp.lookup⟩

/-- When the store is kept and at most one bundle is added, it stays complete. -/
theorem BundlesComplete.step (h : BundlesComplete store s₀) (hk : StoreKept store s₀ s)
    (hl : ∀ n i, isSha256Text n = true → s.lookup store n = some i →
      s₀.lookup store n = some i ∨ ∃ policy, IsBundle s policy n i) : BundlesComplete store s := by
  intro n i hn hi
  rcases hl n i hn hi with ho | hb
  · obtain ⟨policy, hb⟩ := h n i hn ho
    exact ⟨policy, hk.isBundle ho hb⟩
  · exact hb

theorem Unchanged.complete (h : Unchanged s₀ store s) (h₀ : BundlesComplete store s₀) :
    BundlesComplete store s :=
  h₀.step h.kept fun n i _ hi => .inl (by rwa [h.lookup] at hi)

theorem Preparing.complete {name : Text} {temporary : Nat}
    (h : Preparing s₀ store name attr temporary s) (h₀ : BundlesComplete store s₀) :
    BundlesComplete store s := by
  refine h₀.step h.kept fun n i hn hi => .inl ?_
  have hne : n ≠ name := by
    rintro rfl
    simp [h.hidden] at hn
  rwa [h.lookup, if_neg hne] at hi

theorem Added.complete (h : Added s₀ store policy attr d s) (h₀ : BundlesComplete store s₀) :
    BundlesComplete store s := by
  obtain ⟨-, temporary, hp⟩ := id h
  obtain ⟨j, -, hb, hl⟩ := h.isBundle
  refine h₀.step hp.kept fun n i _ hi => ?_
  rw [hl] at hi
  split at hi
  · cases hi
    subst_vars
    exact .inr ⟨policy, hb⟩
  · exact .inl hi

/-- The step lemma: however a call ends, it keeps the store and leaves it complete. -/
theorem Call.run_complete (call : Call) (h : BundlesComplete store t) :
    BundlesComplete store (call.run store t).2 ∧ CallSpec store t call := by
  have spec := provision_ensures call.caller call.source t store call.policy
  rcases hr : provision call.caller call.source (some store) call.policy ⟨call.fates, t⟩
    with ⟨(e | _) | d, w⟩
  · have hrun : call.run store t = (.error (.raised e), w.state) := by simp [Call.run, hr]
    have hs := spec.raised rfl hr
    rw [hrun]
    refine ⟨hs.elim (·.complete h) fun ⟨_, ha⟩ => ha.complete h, ⟨?_, ?_, ?_⟩⟩ <;>
      simp only [hrun, reduceCtorEq, false_implies, implies_true]
    · have hk : StoreKept store t w.state :=
        hs.elim (·.kept) fun ⟨_, _, _, hp⟩ => hp.kept
      exact fun n i hi => ⟨hk.lookup n i hi, hk.treeAt hi⟩
    · rintro - -
      rcases hs with hu | ⟨d, ha⟩
      · exact .inl hu.lookup
      · obtain ⟨i, ha⟩ := ha.isBundle
        exact .inr ⟨d, i, ha⟩
  · have hrun : call.run store t = (.error .killed, w.state) := by simp [Call.run, hr]
    have hs := spec.killed rfl hr
    rw [hrun]
    refine ⟨?_, ⟨?_, ?_, ?_⟩⟩ <;>
      simp only [hrun, reduceCtorEq, false_implies, implies_true, Except.error.injEq]
    · rcases hs with hu | ⟨_, _, hp⟩ | ⟨_, ha⟩
      · exact hu.complete h
      · exact hp.complete h
      · exact ha.complete h
    · have hk : StoreKept store t w.state := by
        rcases hs with hu | ⟨_, _, hp⟩ | ⟨_, _, _, hp⟩
        · exact hu.kept
        · exact hp.kept
        · exact hp.kept
      exact fun n i hi => ⟨hk.lookup n i hi, hk.treeAt hi⟩
  · have hrun : call.run store t = (.ok d, w.state) := by simp [Call.run, hr]
    obtain ⟨hd, hs⟩ := spec.returned rfl hr
    rw [hrun]
    refine ⟨?_, ⟨?_, ?_, ?_⟩⟩ <;>
      simp only [hrun, reduceCtorEq, false_implies, implies_true, Except.ok.injEq, forall_eq']
    · rcases hs with ⟨hs, -⟩ | ⟨ha, -⟩
      · rwa [hs]
      · exact ha.complete h
    · have hk : StoreKept store t w.state := by
        rcases hs with ⟨hs, -⟩ | ⟨⟨_, _, hp⟩, -⟩
        · exact hs ▸ (Unchanged.refl t store).kept
        · exact hp.kept
      exact fun n i hi => ⟨hk.lookup n i hi, hk.treeAt hi⟩
    · rcases hs with ⟨hs, i, hi, hk, hc⟩ | ⟨ha, -⟩
      · exact ⟨i, hs ▸ hi, hs ▸ ⟨hk, hd, hc⟩⟩
      · obtain ⟨i, -, hb, hl⟩ := ha.isBundle
        exact ⟨i, by rw [hl, if_pos rfl], hb⟩

/-- **The store invariant over whole runs.** From a store whose digest-named entries are
complete bundles, every run of calls keeps them so, and every call keeps what it finds, returns
a complete bundle for its policy, and when it raises adds this bundle or nothing. -/
theorem store_invariant (h : BundlesComplete store s₀) (hr : Reaches store s₀ t) :
    BundlesComplete store t ∧ ∀ call, CallSpec store t call := by
  have complete : BundlesComplete store t := by
    induction hr with
    | refl => exact h
    | call _ call ih => exact (call.run_complete ih).1
  exact ⟨complete, fun call => (call.run_complete complete).2⟩

/-- One file under `qcom`, as a source tree and as a policy. -/
def sampleData : Bytes := encodeAscii "firmware".toList

def sampleRow : Row := ⟨"qcom/fw".toList, sha256 sampleData⟩

theorem sampleRow_valid : sampleRow.valid = true :=
  sampleRow.valid_iff.mpr ⟨by decide +kernel, isSha256Text_sha256 _⟩

def sampleFiles : FileSet where
  rows := [sampleRow]
  valid := by simpa using sampleRow_valid
  nodup := by simp
  length_pos := by simp
  length_le := by simp

def sampleSource : Tree := fun p =>
  if p = [] ∨ p = ["qcom".toList] then some (.dir ⟨0, 0o755⟩)
  else if p = ["qcom".toList, "fw".toList] then some (.file sampleData)
  else none

theorem sampleRow_path : sampleRow.path = ["qcom".toList, "fw".toList] := by
  decide +kernel

theorem sampleSource_complete : Complete sampleSource sampleFiles.rows := by
  have hfile : sampleSource sampleRow.path = some (.file sampleData) := by
    rw [sampleRow_path]
    rfl
  have hholds : Holds sampleSource sampleRow sampleData := by
    refine ⟨fun q hne hq => ⟨⟨0, 0o755⟩, ?_⟩, hfile, by decide +kernel, by decide +kernel, rfl⟩
    rw [sampleRow_path] at hq
    rcases List.prefix_cons_iff.mp hq with rfl | ⟨x, rfl, hx⟩
    · exact absurd rfl hne
    · obtain rfl := List.prefix_nil.mp hx
      rfl
  refine ⟨⟨_, rfl⟩, fun r hr => ?_, ?_⟩
  · obtain rfl : r = sampleRow := by simpa [sampleFiles] using hr
    exact ⟨sampleData, hholds⟩
  · simp only [sampleFiles, totalSize, List.map_cons, List.map_nil, List.sum_singleton,
      hholds.sizeAt_eq]
    decide +kernel

def sampleCall (draw : Text) (fates : List Fate) : Call :=
  ⟨⟨0, 0o077, [draw]⟩, sampleSource, policyOf sampleFiles.rows, fates⟩

/-- The store after a call that was killed over its file. -/
def killedStore : Disk :=
  ((sampleCall "x".toList (List.replicate 12 .go)).run 0 (Fs.empty ⟨0, 0o700⟩)).2

/-- The call is made again, and nothing befalls it. -/
def secondCall : Call := sampleCall "y".toList (List.replicate 30 .go)

theorem secondCall_returns : (secondCall.run 0 killedStore).1.isOk = true := by decide +kernel

theorem store_invariant_killed : (secondCall.run 0 killedStore).1.isOk = true ∧
    BundlesComplete 0 (secondCall.run 0 killedStore).2 ∧
      ∀ call, CallSpec 0 (secondCall.run 0 killedStore).2 call :=
  ⟨secondCall_returns, @store_invariant (Fs.empty ⟨0, 0o700⟩) _ 0
    (fun name i _ hi => by simp [Fs.lookup, Fs.empty] at hi) (.call (.call (.refl _) _) _)⟩

end Azurefin
