import Azurefin.Firmware.Store

/-!
# A published bundle survives a power failure

The power may fail at any moment of a call of `provision`. An entry that the disk then holds
under the name of the bundle was there before, or it is the whole new bundle.
-/

namespace Azurefin

open Prog Fs

variable {s₀ s : Disk} {store i : Nat} {policy : Json} {attr : Attr} {d n : Text}

/-- The entry may be on the disk after a power failure in `s`. -/
def MayHold (s : Disk) (store : Nat) (n : Text) (i : Nat) : Prop :=
  ∃ v, s.Crash v ∧ v.entry store n = some i

theorem mayHold_iff : MayHold s store n i ↔
    s.lookup store n = some i ∨ some i ∈ s.past store n := by
  constructor
  · rintro ⟨v, hv, hi⟩
    exact hv.entry_some hi
  · intro h
    refine ⟨⟨s.kind, fun e m => if e = store ∧ m = n then some i else s.lookup e m, s.data⟩,
      ⟨rfl, fun e m => ?_, fun _ _ => rfl⟩, by simp⟩
    by_cases he : e = store ∧ m = n
    · obtain ⟨rfl, rfl⟩ := he
      simp only [and_self, if_true]
      exact h.imp Eq.symm fun hp => ⟨List.ne_nil_of_mem hp, .inr hp⟩
    · exact .inl (by simp [he])

/-- A power failure in `s` leaves under the name `n` of the store what may have been there
before, or a bundle that nothing is lost of. -/
def CrashSafe (s₀ : Disk) (store : Nat) (policy : Json) (n : Text) (s : Disk) : Prop :=
  ∀ v, s.Crash v → ∀ i, v.entry store n = some i → MayHold s₀ store n i ∨
    s.Durable i ∧ ∃ out, inventory (v.tree i) policy = .ok out

theorem crashSafe_of_same (hl : s.lookup store n = s₀.lookup store n)
    (hp : s.past store n = s₀.past store n) : CrashSafe s₀ store policy n s := by
  intro v hv i hi
  have h := mayHold_iff.mp ⟨v, hv, hi⟩
  rw [hl, hp] at h
  exact .inl (mayHold_iff.mpr h)

theorem Unchanged.crashSafe (h : Unchanged s₀ store s) (hn : isSha256Text n = true) :
    CrashSafe s₀ store policy n s := crashSafe_of_same (h.lookup n) (h.past n hn)

theorem Preparing.crashSafe {name : Text} {temporary : Nat}
    (h : Preparing s₀ store name attr temporary s) (hn : isSha256Text n = true) :
    CrashSafe s₀ store policy n s := by
  have hne : n ≠ name := by
    rintro rfl
    simp [h.hidden] at hn
  exact crashSafe_of_same (by rw [h.lookup, if_neg hne]) (h.past n hne)

/-- Below the published directory everything is synced, so that no crash loses any of it. -/
theorem Published.crashSafe {temporary : Nat}
    (h : Published s₀ store d policy attr temporary s) (hd : isSha256Text d = true) :
    CrashSafe s₀ store policy d s := by
  intro v hv i hi
  rcases hv.entry_some hi with he | he
  · rw [h.lookup, if_pos rfl] at he
    obtain rfl : temporary = i := Option.some.inj he
    refine .inr ⟨h.settled.durable, ?_⟩
    rw [h.settled.durable v hv]
    exact h.complete
  · rcases h.past d hd _ he with ho | ho
    · cases ho
    · exact .inl (mayHold_iff.mpr (.inr ho))

/-- **Publication is crash-safe.** Whenever the power fails in a call of `provision`, an entry
the store then holds under the digest of the manifest was there before the call, or its tree
is durable and complete. -/
theorem provision_crash_safe (call : Call) (s₀ : Disk) (store : Nat) {contents : Bytes}
    (hm : manifest call.policy = .ok contents) :
    CrashSafe s₀ store call.policy (sha256 contents) (call.run store s₀).2 := by
  have hn := isSha256Text_sha256 contents
  have spec := provision_ensures call.caller call.source s₀ store call.policy
  have unchanged : ∀ s, Unchanged s₀ store s →
      CrashSafe s₀ store call.policy (sha256 contents) s := fun s hs => hs.crashSafe hn
  have added : ∀ d s, Added s₀ store call.policy (call.caller.attr 0o700) d s →
      CrashSafe s₀ store call.policy (sha256 contents) s := by
    rintro d s ⟨⟨contents', hm', rfl⟩, temporary, hp⟩
    obtain rfl : contents' = contents := Except.ok.inj (hm'.symm.trans hm)
    exact hp.crashSafe hn
  refine (spec.weaken (fun s hs => hs) (fun d s hs => ?_) (fun e s hs => ?_) fun s hs => ?_).invariant
    (w := ⟨call.fates, s₀⟩) rfl rfl
  · rcases hs.2 with ⟨rfl, -⟩ | ⟨ha, -⟩
    · exact unchanged _ (.refl _ _)
    · exact added _ _ ha
  · rcases hs with hu | ⟨d, ha⟩
    · exact unchanged _ hu
    · exact added _ _ ha
  · rcases hs with hu | ⟨_, _, hp⟩ | ⟨d, ha⟩
    · exact unchanged _ hu
    · exact hp.crashSafe hn
    · exact added _ _ ha

/-- A call that succeeds, after one that was killed. -/
theorem provision_crash_safe_killed : (secondCall.run 0 killedStore).1.isOk = true ∧
    CrashSafe killedStore 0 (policyOf sampleFiles.rows)
      (sha256 (encodeAscii (manifestText sampleFiles.rows))) (secondCall.run 0 killedStore).2 :=
  ⟨secondCall_returns, provision_crash_safe secondCall killedStore 0
    (manifest_eq_ok.mpr ⟨_, policyRows_policyOf sampleFiles, rfl⟩)⟩

end Azurefin
