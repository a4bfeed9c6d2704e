import Azurefin.Parking.Restored

/-!
# The minimum of online CPUs

The module compares `min_online` with a count that may be out of date by the time it takes a CPU
offline. Only others can have made it too large: as long as nobody else takes a parkable CPU
offline, the minimum is kept, `minOnline_le_onlineParkable`.
-/

namespace Azurefin

open BitMask

variable {cpus : Cpus} {s t : Parking} {a : ParkingAction}

/-- Two predicates that differ at one element count as many elements, or one more. -/
theorem countP_le_succ {α : Type*} {l : List α} (hl : l.Nodup) {p q : α → Bool} {x : α}
    (h : ∀ y ∈ l, y ≠ x → p y → q y) : l.countP p ≤ l.countP q + 1 := by
  induction l with
  | nil => simp
  | cons y l ih =>
    obtain ⟨hy, hl⟩ := List.nodup_cons.mp hl
    simp only [List.countP_cons]
    by_cases hyx : y = x
    · have hrest : l.countP p ≤ l.countP q := by
        apply List.countP_mono_left
        intro z hz
        exact h z (List.mem_cons_of_mem _ hz) (by grind)
      split <;> split <;> omega
    · have hhead := h y List.mem_cons_self hyx
      have hrest := ih hl fun z hz => h z (List.mem_cons_of_mem _ hz)
      grind

/-- A CPU that the module may park. -/
def ParkingParams.Parkable (p : ParkingParams) (cpu : Nat) : Bool :=
  decide (cpu < maxCpus) && test p.parkableCpus cpu

/-- How many parkable CPUs are online. -/
def Parking.onlineParkable (cpus : Cpus) (s : Parking) : Nat :=
  cpus.possible.countP fun cpu => s.online cpu && s.params.Parkable cpu

theorem Cpus.nodup (cpus : Cpus) : cpus.possible.Nodup := cpus.sorted.imp Nat.ne_of_lt

/-- The sample counts no CPU that is offline or not parkable. -/
theorem sample_onlineParkable_le (cpus : Cpus) (s : Parking) (r : Nat → IdleTime) :
    (s.sample cpus r).onlineParkable.toNat ≤ s.onlineParkable cpus := by
  rw [(sample_spec cpus s r).2.2, Parking.onlineCpus, List.countP_filter]
  apply List.countP_mono_left
  intro cpu hcpu
  unfold Counted ParkingParams.Parkable
  grind

theorem onlineParkable_mono (hparams : t.params = s.params)
    (h : ∀ cpu, s.online cpu → s.params.Parkable cpu → t.online cpu) :
    s.onlineParkable cpus ≤ t.onlineParkable cpus := by
  apply List.countP_mono_left
  intro cpu hcpu
  rw [hparams]
  grind

theorem onlineParkable_le_succ {cpu : Nat} (hparams : t.params = s.params)
    (h : ∀ k, k ≠ cpu → s.online k → t.online k) :
    s.onlineParkable cpus ≤ t.onlineParkable cpus + 1 := by
  apply countP_le_succ cpus.nodup (x := cpu)
  intro k hk hne
  rw [hparams]
  grind

theorem unparkCpu_params (s : Parking) (cpu : Nat) (added : Bool) (r : IdleTime) :
    (s.unparkCpu cpu added r).params = s.params := by
  obtain ⟨online, mask, idle, wall, heq⟩ := unparkCpu_frame s cpu added r
  rw [heq]

theorem unparkCpu_online {cpu k : Nat} {added : Bool} {r : IdleTime} (h : s.online k) :
    (s.unparkCpu cpu added r).online k := by
  obtain ⟨heq, -⟩ | ⟨-, -, idle, wall, heq⟩ := unparkCpu_cases s cpu added r <;> rw [heq]
  · exact h
  · grind [Function.update_apply]

theorem unparkAllCpu_online {cpu k : Nat} {added : Bool} {r : IdleTime} (h : s.online k) :
    (s.unparkAllCpu cpu added r).online k := by
  unfold Parking.unparkAllCpu
  split
  · exact unparkCpu_online h
  · exact h

/-- A move of somebody else that takes a parkable CPU offline, or writes the parameters. -/
def Intrusive (p : ParkingParams) : ParkingAction → Bool
  | .unplug cpu => p.Parkable cpu
  | .setParams _ => true
  | _ => false

/-- At least `m` parkable CPUs are online, and so it stays after the next `adjust`. -/
structure Parking.Keeps (cpus : Cpus) (p : ParkingParams) (m : Nat) (s : Parking) : Prop where
  params : s.params = p
  le_minOnline : m ≤ p.minOnline.toNat
  le : m ≤ s.onlineParkable cpus
  sampled : ∀ k, s.worker = .sampled k → k.toNat ≤ s.onlineParkable cpus

/-- The work takes one CPU offline, and then one more than the minimum was online. -/
theorem adjust_keeps {p : ParkingParams} {m : Nat} (h : s.Keeps cpus p m) {k : BitVec 32}
    (hk : s.worker = .sampled k) (ok : Bool) (r : IdleTime) :
    m ≤ (s.adjust k ok r).onlineParkable cpus := by
  obtain heq | ⟨cpu, -, -, heq⟩ | ⟨cpu, -, hmin, -, -, heq⟩ := adjust_cases s k ok r <;> rw [heq]
  · exact h.le
  · exact Nat.le_trans h.le (onlineParkable_mono (unparkCpu_params s cpu ok r)
      fun _ hon _ => unparkCpu_online hon)
  · have hsucc : s.onlineParkable cpus ≤ Parking.onlineParkable cpus { s with
        online := Function.update s.online cpu false
        parkedMask := set s.parkedMask cpu } + 1 :=
      onlineParkable_le_succ rfl fun k hne hon => (Function.update_of_ne hne _ _).trans hon
    have hsampled := h.sampled k hk
    have hm := h.le_minOnline
    rw [h.params, BitVec.lt_def] at hmin
    omega

theorem keeps_step {p : ParkingParams} {m : Nat} (h : s.Keeps cpus p m)
    (ha : Intrusive p a = false) (hstep : s.step cpus a = some t) : t.Keeps cpus p m := by
  have hmono (hparams : t.params = s.params)
      (hon : ∀ cpu, s.online cpu → s.params.Parkable cpu → t.online cpu)
      (hsampled : ∀ k, t.worker = .sampled k → s.worker = .sampled k) : t.Keeps cpus p m := by
    have hle : s.onlineParkable cpus ≤ t.onlineParkable cpus := onlineParkable_mono hparams hon
    exact ⟨hparams.trans h.params, h.le_minOnline, Nat.le_trans h.le hle,
      fun k hk => Nat.le_trans (h.sampled k (hsampled k hk)) hle⟩
  cases move_of_step hstep with
  | restoreAll r hpending hidle hdisabled => exact hmono rfl (fun _ hon _ => hon) nofun
  | sample r hpending hidle henabled idle wall avg worker hsampled =>
    refine ⟨h.params, h.le_minOnline, h.le, ?_⟩
    obtain ⟨rfl, -⟩ | ⟨rfl, -⟩ := hsampled
    · nofun
    · rintro _ ⟨⟩
      exact sample_onlineParkable_le cpus s r
  | adjust k ok r hsampled =>
    obtain ⟨online, mask, idle, wall, heq⟩ := adjust_frame s k ok r
    have hle := adjust_keeps h hsampled ok r
    rw [heq] at hle ⊢
    exact ⟨h.params, h.le_minOnline, hle, nofun⟩
  | resched hdone => exact hmono rfl (fun _ hon _ => hon) nofun
  | restore cpu rest added r hrestoring =>
    apply hmono _ (fun _ hon _ => unparkAllCpu_online hon) nofun
    obtain ⟨online, mask, idle, wall, heq⟩ := unparkAllCpu_frame s cpu added r
    rw [heq]
  | restored added r hrestoring => exact hmono rfl (fun _ hon _ => hon) nofun
  | setEnabled value hfree => exact hmono rfl (fun _ hon _ => hon) fun _ => id
  | rearm r henabling idle wall => exact hmono rfl (fun _ hon _ => hon) fun _ => id
  | setParams params => simp [Intrusive] at ha
  | plug cpu hmem hoff =>
    exact hmono rfl (fun _ hon _ => by grind [Function.update_apply]) fun _ => id
  | unplug cpu hon =>
    apply hmono rfl _ fun _ => id
    intro k hk hparkable
    have hne : k ≠ cpu := by
      rintro rfl
      rw [h.params] at hparkable
      exact absurd hparkable (by simpa [Intrusive] using ha)
    simpa [hne] using hk
  | exit hidle => exact hmono rfl (fun _ hon _ => hon) fun _ => id
  | exitRestore cpu rest added r hexiting =>
    obtain ⟨online, mask, idle, wall, heq⟩ := unparkAllCpu_frame s cpu added r
    apply hmono _ (fun _ hon _ => unparkAllCpu_online hon)
    · intro k hk
      rw [heq] at hk
      exact hk
    · rw [heq]
  | exited added r hexiting => exact hmono rfl (fun _ hon _ => hon) fun _ => id

/-- From where no sample is under way, the module never takes the number of parkable CPUs that
are online below the minimum, or further below than it was. -/
theorem minOnline_le_onlineParkable (cpus : Cpus) (s t : Parking) (l : List ParkingAction)
    (hstart : ∀ k, s.worker ≠ .sampled k) (hl : ∀ a ∈ l, Intrusive s.params a = false)
    (h : Trace.run (Parking.step cpus) l s = some t) :
    min s.params.minOnline.toNat (s.onlineParkable cpus) ≤ t.onlineParkable cpus := by
  have hs : s.Keeps cpus s.params (min s.params.minOnline.toNat (s.onlineParkable cpus)) :=
    ⟨rfl, Nat.min_le_left _ _, Nat.min_le_right _ _, fun k hk => absurd hk (hstart k)⟩
  exact (Trace.run_invariant (fun a ha u v hu => keeps_step hu (hl a ha)) hs h).le

/-- Two runs of the work, up to the second operation. -/
def twoRuns : List ParkingAction :=
  [.work still, .adjust true ⟨0, 0⟩, .resched, .work still, .adjust true ⟨0, 0⟩]

/-- With a minimum of one, the second of two CPUs stays. -/
theorem minOnline_le_onlineParkable_threeCpus :
    ∃ t, Trace.run (Parking.step threeCpus) twoRuns
      (.init threeCpus { ParkingParams.default with minOnline := 1 } true still) = some t ∧
      1 ≤ t.onlineParkable threeCpus :=
  ⟨_, rfl, minOnline_le_onlineParkable threeCpus
    (.init threeCpus { ParkingParams.default with minOnline := 1 } true still) _ twoRuns nofun
    (by simp [twoRuns, Intrusive]) rfl⟩

end Azurefin
