import Azurefin.Parking.Sample

/-!
# What the parking module owes

Whatever runs in between, the module never loses track of a CPU that it took offline: the CPU is
in `parked_cpus`, and either the work that brings it back is still to come, or `add_cpu` refused
it in the last pass over the parked CPUs, `refused_of_quiet`.
-/

namespace Azurefin

open BitMask

variable {cpus : Cpus} {s t : Parking} {a : ParkingAction}

/-! ## What one step does to the CPUs -/

@[simp]
theorem snapshotCpu_online (s : Parking) (r : IdleTime) (cpu : Nat) :
    (s.snapshotCpu r cpu).online = s.online := by
  unfold Parking.snapshotCpu; split <;> rfl

@[simp]
theorem snapshotCpu_parkedMask (s : Parking) (r : IdleTime) (cpu : Nat) :
    (s.snapshotCpu r cpu).parkedMask = s.parkedMask := by
  unfold Parking.snapshotCpu; split <;> rfl

/-- A snapshot writes `prev_idle` and `prev_wall` only. -/
theorem snapshotCpu_eq (s : Parking) (r : IdleTime) (cpu : Nat) :
    s.snapshotCpu r cpu = { s with prevIdle := (s.snapshotCpu r cpu).prevIdle,
                                   prevWall := (s.snapshotCpu r cpu).prevWall } := by
  unfold Parking.snapshotCpu; split <;> rfl

theorem snapshotAllOnline_eq (cpus : Cpus) (reading : Nat → IdleTime) (s : Parking) :
    ∃ idle wall, s.snapshotAllOnline cpus reading =
      { s with prevIdle := idle, prevWall := wall } := by
  unfold Parking.snapshotAllOnline
  generalize s.onlineCpus cpus = l
  induction l generalizing s with
  | nil => exact ⟨s.prevIdle, s.prevWall, rfl⟩
  | cons cpu l ih =>
    obtain ⟨idle, wall, h⟩ := ih (s.snapshotCpu (reading cpu) cpu)
    refine ⟨idle, wall, ?_⟩
    rw [List.foldl_cons, h, snapshotCpu_eq]

/-- What else `unpark_cpu` does is a snapshot. -/
theorem unparkCpu_cases (s : Parking) (cpu : Nat) (added : Bool) (r : IdleTime) :
    s.unparkCpu cpu added r = s ∧ (s.online cpu ∨ added = false) ∨
    s.online cpu = false ∧ added = true ∧ ∃ idle wall, s.unparkCpu cpu added r =
      { s with online := Function.update s.online cpu true, parkedMask := clear s.parkedMask cpu,
               prevIdle := idle, prevWall := wall } := by
  unfold Parking.unparkCpu
  split
  · exact .inl ⟨rfl, .inl ‹_›⟩
  split
  · exact .inl ⟨rfl, .inr (by simpa using ‹(!added) = true›)⟩
  · refine .inr ⟨by simpa using ‹¬ s.online cpu = true›, by simpa using ‹¬ (!added) = true›, ?_⟩
    exact ⟨_, _, snapshotCpu_eq _ r cpu⟩

theorem toUnpark_eq_some {cpu : Nat} (h : s.toUnpark = some cpu) :
    cpu < maxCpus ∧ test s.parkedMask cpu ∧ test s.params.parkableCpus cpu := by
  have hmem := List.mem_of_find?_eq_some h
  have hp := List.find?_some h
  simp only [List.mem_range, Bool.and_eq_true] at hmem hp
  exact ⟨hmem, hp⟩

theorem toPark_eq_some {cpu : Nat} (h : s.toPark = some cpu) :
    cpu < maxCpus ∧ test s.params.parkableCpus cpu ∧ s.online cpu ∧
      test s.parkedMask cpu = false := by
  have hmem := List.mem_of_find?_eq_some h
  have hp := List.find?_some h
  simp only [List.mem_reverse, List.mem_range, Bool.and_eq_true, Bool.not_eq_true'] at hmem hp
  exact ⟨hmem, hp.1.1, hp.1.2, hp.2⟩

/-- The work takes a CPU offline only where more parkable ones than the minimum were online. -/
theorem adjust_cases (s : Parking) (k : BitVec 32) (ok : Bool) (r : IdleTime) :
    s.adjust k ok r = s ∨
    (∃ cpu, s.params.busyUpPct < s.lastAvgUtil ∧ s.toUnpark = some cpu ∧
      s.adjust k ok r = s.unparkCpu cpu ok r) ∨
    (∃ cpu, s.lastAvgUtil < s.params.busyDownPct ∧ s.params.minOnline < k ∧
      s.toPark = some cpu ∧ ok = true ∧ s.adjust k ok r =
        { s with online := Function.update s.online cpu false,
                 parkedMask := set s.parkedMask cpu }) := by
  unfold Parking.adjust
  split
  · next hbusy =>
    split
    · next cpu hcpu => exact .inr (.inl ⟨cpu, hbusy.1, hcpu, rfl⟩)
    · exact .inl rfl
  split
  · next hquiet =>
    split
    · next cpu hcpu =>
      have hon := (toPark_eq_some hcpu).2.2.1
      cases ok with
      | false => exact .inl (by simp [Parking.parkCpu])
      | true =>
        exact .inr (.inr ⟨cpu, hquiet.1, hquiet.2, hcpu, rfl, by simp [Parking.parkCpu, hon]⟩)
    · exact .inl rfl
  · exact .inl rfl

/-- The steps, with what each may rely on. -/
inductive Parking.Move (cpus : Cpus) (s : Parking) : ParkingAction → Parking → Prop where
  | restoreAll (r : Nat → IdleTime) (pending : s.pending) (idle : s.worker = .idle)
      (disabled : s.enabled = false) :
      Move cpus s (.work r) { s with pending := false, worker := .restoring cpus.possible }
  | sample (r : Nat → IdleTime) (pending : s.pending) (idle : s.worker = .idle)
      (enabled : s.enabled) (prevIdle prevWall : Nat → BitVec 64) (avg : BitVec 32)
      (worker : Worker)
      (sampled : worker = .resched ∧ avg = s.lastAvgUtil ∨
        worker = .sampled (s.sample cpus r).onlineParkable ∧ (s.sample cpus r).nrSampled ≠ 0 ∧
          avg = (s.sample cpus r).totalUtil / (s.sample cpus r).nrSampled) :
      Move cpus s (.work r) { s with pending := false, prevIdle := prevIdle, prevWall := prevWall,
                                     lastAvgUtil := avg, worker := worker }
  | adjust (k : BitVec 32) (ok : Bool) (r : IdleTime) (sampled : s.worker = .sampled k) :
      Move cpus s (.adjust ok r) { s.adjust k ok r with worker := .resched }
  | resched (done : s.worker = .resched) :
      Move cpus s .resched { s with pending := true, worker := .idle }
  | restore (cpu : Nat) (rest : List Nat) (added : Bool) (r : IdleTime)
      (restoring : s.worker = .restoring (cpu :: rest)) :
      Move cpus s (.restore added r)
        { s.unparkAllCpu cpu added r with worker := .restoring rest }
  | restored (added : Bool) (r : IdleTime) (restoring : s.worker = .restoring []) :
      Move cpus s (.restore added r) { s with worker := .idle }
  | setEnabled (value : Bool) (free : s.enabling = false) :
      Move cpus s (.setEnabled value) { s with enabled := value, enabling := !s.enabled && value }
  | rearm (r : Nat → IdleTime) (enabling : s.enabling) (prevIdle prevWall : Nat → BitVec 64) :
      Move cpus s (.rearm r) { s with prevIdle := prevIdle, prevWall := prevWall, pending := true,
                                      enabling := false }
  | setParams (params : ParkingParams) : Move cpus s (.setParams params) { s with params := params }
  | plug (cpu : Nat) (possible : cpu ∈ cpus.possible) (offline : s.online cpu = false) :
      Move cpus s (.plug cpu) { s with online := Function.update s.online cpu true }
  | unplug (cpu : Nat) (online : s.online cpu) :
      Move cpus s (.unplug cpu) { s with online := Function.update s.online cpu false }
  | exit (idle : s.worker = .idle) :
      Move cpus s .exit { s with pending := false, lifetime := .exiting cpus.possible }
  | exitRestore (cpu : Nat) (rest : List Nat) (added : Bool) (r : IdleTime)
      (exiting : s.lifetime = .exiting (cpu :: rest)) :
      Move cpus s (.exitRestore added r)
        { s.unparkAllCpu cpu added r with lifetime := .exiting rest }
  | exited (added : Bool) (r : IdleTime) (exiting : s.lifetime = .exiting []) :
      Move cpus s (.exitRestore added r) { s with lifetime := .unloaded }

theorem beginWork_move (r : Nat → IdleTime) (hpending : s.pending) (hidle : s.worker = .idle) :
    s.Move cpus (.work r) (s.beginWork cpus r) := by
  unfold Parking.beginWork
  split
  · exact .restoreAll r hpending hidle (by simpa using ‹(!s.enabled) = true›)
  · have henabled : s.enabled := by simpa using ‹¬ (!s.enabled) = true›
    dsimp only
    split
    · exact .sample r hpending hidle henabled _ _ _ _ (.inl ⟨rfl, rfl⟩)
    · exact .sample r hpending hidle henabled _ _ _ _ (.inr ⟨rfl, ‹_›, rfl⟩)

theorem move_of_step (h : s.step cpus a = some t) : s.Move cpus a t := by
  cases a with
  | work r =>
    obtain ⟨⟨hpending, hidle, -⟩, rfl⟩ := by simpa [Parking.step] using h
    exact beginWork_move r hpending hidle
  | adjust ok r =>
    cases hw : s.worker <;> simp only [Parking.step, hw, reduceCtorEq, Option.some.injEq] at h
    subst h
    exact .adjust _ ok r hw
  | resched =>
    obtain ⟨hw, rfl⟩ := by simpa [Parking.step] using h
    exact .resched hw
  | restore added r =>
    rcases hw : s.worker with _ | _ | _ | (_ | ⟨cpu, rest⟩) <;>
      simp only [Parking.step, hw, reduceCtorEq, Option.some.injEq] at h <;> subst h
    · exact .restored added r hw
    · exact .restore cpu rest added r hw
  | setEnabled value =>
    obtain ⟨⟨-, hfree⟩, rfl⟩ := by simpa [Parking.step] using h
    exact .setEnabled value hfree
  | rearm r =>
    obtain ⟨henabling, rfl⟩ := by simpa [Parking.step] using h
    obtain ⟨idle, wall, heq⟩ := snapshotAllOnline_eq cpus r s
    rw [heq]
    exact .rearm r henabling idle wall
  | setParams params =>
    obtain ⟨-, rfl⟩ := by simpa [Parking.step] using h
    exact .setParams params
  | plug cpu =>
    obtain ⟨⟨hmem, hoff⟩, rfl⟩ := by simpa [Parking.step] using h
    exact .plug cpu hmem hoff
  | unplug cpu =>
    obtain ⟨hon, rfl⟩ := by simpa [Parking.step] using h
    exact .unplug cpu hon
  | exit =>
    obtain ⟨⟨-, hidle⟩, rfl⟩ := by simpa [Parking.step] using h
    exact .exit hidle
  | exitRestore added r =>
    rcases hl : s.lifetime with _ | (_ | ⟨cpu, rest⟩) | _ <;>
      simp only [Parking.step, hl, reduceCtorEq, Option.some.injEq] at h <;> subst h
    · exact .exited added r hl
    · exact .exitRestore cpu rest added r hl

/-! ## Bookkeeping -/

/-- The work sees to it that it is queued again. -/
def Worker.Active : Worker → Prop
  | .sampled _ => True
  | .resched => True
  | _ => False

@[simp] theorem active_sampled (k : BitVec 32) : (Worker.sampled k).Active := trivial
@[simp] theorem active_resched : Worker.resched.Active := trivial
/-- What holds of the module in every run. -/
structure Parking.Sound (cpus : Cpus) (s : Parking) : Prop where
  online_possible : ∀ cpu, s.online cpu → cpu ∈ cpus.possible
  parked_possible : ∀ cpu, s.parkedMask.getLsbD cpu → cpu < maxCpus ∧ cpu ∈ cpus.possible
  avg_le : s.lastAvgUtil ≤ 100#32
  restoring_possible : ∀ rest, s.worker = .restoring rest → ∀ cpu ∈ rest, cpu ∈ cpus.possible
  exiting_possible : ∀ rest, s.lifetime = .exiting rest → ∀ cpu ∈ rest, cpu ∈ cpus.possible
  /-- While parking is enabled, the work is queued, or it will be. -/
  alive : s.enabled → s.lifetime = .loaded → s.pending ∨ s.enabling ∨ s.worker.Active

/-- The bits of the mask that `unpark_cpu` leaves were set before. -/
theorem unparkCpu_sound (h : s.Sound cpus) {cpu : Nat} (hcpu : cpu ∈ cpus.possible) (added : Bool)
    (r : IdleTime) :
    (∀ k, (s.unparkCpu cpu added r).online k → k ∈ cpus.possible) ∧
      ∀ k, (s.unparkCpu cpu added r).parkedMask.getLsbD k → k < maxCpus ∧ k ∈ cpus.possible := by
  obtain ⟨heq, -⟩ | ⟨-, -, idle, wall, heq⟩ := unparkCpu_cases s cpu added r <;> rw [heq]
  · exact ⟨h.online_possible, h.parked_possible⟩
  · constructor
    · intro k hk
      by_cases hne : k = cpu
      · exact hne ▸ hcpu
      · exact h.online_possible k (by simpa [hne] using hk)
    · intro k hk
      rw [getLsbD_clear] at hk
      exact h.parked_possible k (by grind)

theorem unparkCpu_frame (s : Parking) (cpu : Nat) (added : Bool) (r : IdleTime) :
    ∃ online mask idle wall, s.unparkCpu cpu added r =
      { s with online := online, parkedMask := mask, prevIdle := idle, prevWall := wall } := by
  obtain ⟨heq, -⟩ | ⟨-, -, idle, wall, heq⟩ := unparkCpu_cases s cpu added r <;> rw [heq]
  · exact ⟨s.online, s.parkedMask, s.prevIdle, s.prevWall, rfl⟩
  · exact ⟨_, _, idle, wall, rfl⟩

theorem unparkAllCpu_frame (s : Parking) (cpu : Nat) (added : Bool) (r : IdleTime) :
    ∃ online mask idle wall, s.unparkAllCpu cpu added r =
      { s with online := online, parkedMask := mask, prevIdle := idle, prevWall := wall } := by
  unfold Parking.unparkAllCpu
  split
  · exact unparkCpu_frame s cpu added r
  · exact ⟨s.online, s.parkedMask, s.prevIdle, s.prevWall, rfl⟩

theorem adjust_frame (s : Parking) (k : BitVec 32) (ok : Bool) (r : IdleTime) :
    ∃ online mask idle wall, s.adjust k ok r =
      { s with online := online, parkedMask := mask, prevIdle := idle, prevWall := wall } := by
  obtain heq | ⟨cpu, -, -, heq⟩ | ⟨cpu, -, -, -, -, heq⟩ := adjust_cases s k ok r <;> rw [heq]
  · exact ⟨s.online, s.parkedMask, s.prevIdle, s.prevWall, rfl⟩
  · exact unparkCpu_frame s cpu ok r
  · exact ⟨_, _, s.prevIdle, s.prevWall, rfl⟩

theorem adjust_sound (h : s.Sound cpus) (k : BitVec 32) (ok : Bool) (r : IdleTime) :
    (∀ cpu, (s.adjust k ok r).online cpu → cpu ∈ cpus.possible) ∧
      ∀ cpu, (s.adjust k ok r).parkedMask.getLsbD cpu → cpu < maxCpus ∧ cpu ∈ cpus.possible := by
  obtain heq | ⟨cpu, -, hcpu, heq⟩ | ⟨cpu, -, -, hcpu, -, heq⟩ := adjust_cases s k ok r <;> rw [heq]
  · exact ⟨h.online_possible, h.parked_possible⟩
  · obtain ⟨hlt, hbit, -⟩ := toUnpark_eq_some hcpu
    rw [test_eq_getLsbD (by simp only [maxCpus] at hlt; omega)] at hbit
    exact unparkCpu_sound h (h.parked_possible cpu hbit).2 ok r
  · obtain ⟨hlt, -, hon, -⟩ := toPark_eq_some hcpu
    constructor
    · intro j hj
      exact h.online_possible j (by grind [Function.update_apply])
    · intro j hj
      rw [getLsbD_set (by simp only [maxCpus] at hlt; omega)] at hj
      by_cases hne : j = cpu
      · exact hne ▸ ⟨hlt, h.online_possible cpu hon⟩
      · exact h.parked_possible j (by simpa [hne] using hj)

theorem unparkAllCpu_sound (h : s.Sound cpus) (cpu : Nat) (added : Bool) (r : IdleTime)
    (hlong : cpu < 64) :
    (∀ k, (s.unparkAllCpu cpu added r).online k → k ∈ cpus.possible) ∧
      ∀ k, (s.unparkAllCpu cpu added r).parkedMask.getLsbD k →
        k < maxCpus ∧ k ∈ cpus.possible := by
  unfold Parking.unparkAllCpu
  split
  · next hbit =>
    rw [test_eq_getLsbD hlong] at hbit
    exact unparkCpu_sound h (h.parked_possible cpu hbit).2 added r
  · exact ⟨h.online_possible, h.parked_possible⟩

theorem init_sound (cpus : Cpus) (params : ParkingParams) (enabled : Bool)
    (r : Nat → IdleTime) : (Parking.init cpus params enabled r).Sound cpus := by
  unfold Parking.init
  generalize hs : Parking.mk params enabled _ _ _ _ _ _ _ _ _ = s
  obtain ⟨idle, wall, heq⟩ := snapshotAllOnline_eq cpus r s
  rw [heq]
  subst hs
  have hzero : (0#32 : BitVec 32) ≤ 100#32 := by decide
  exact ⟨cpus.booted_possible, by simp, hzero, by simp, by simp, by simp⟩

theorem sound_step (h : s.Sound cpus) (hstep : s.step cpus a = some t) : t.Sound cpus := by
  cases move_of_step hstep with
  | restoreAll r hpending hidle hdisabled =>
    refine { h with restoring_possible := ?_, alive := ?_ }
    · rintro _ ⟨⟩
      exact fun _ hmem => hmem
    · intro henabled
      exact absurd henabled (by simp [hdisabled])
  | sample r hpending hidle henabled idle wall avg worker hsampled =>
    obtain ⟨rfl, rfl⟩ | ⟨rfl, -, rfl⟩ := hsampled
    · exact { h with restoring_possible := nofun, alive := fun _ _ => .inr (.inr trivial) }
    · exact { h with avg_le := sample_avg_le cpus s r, restoring_possible := nofun,
                     alive := fun _ _ => .inr (.inr trivial) }
  | adjust k ok r hsampled =>
    have hcpus := adjust_sound h k ok r
    obtain ⟨online, mask, idle, wall, heq⟩ := adjust_frame s k ok r
    rw [heq] at hcpus ⊢
    exact { h with online_possible := hcpus.1, parked_possible := hcpus.2,
                   restoring_possible := nofun, alive := fun _ _ => .inr (.inr trivial) }
  | resched hdone =>
    exact { h with restoring_possible := nofun, alive := fun _ _ => .inl rfl }
  | restore cpu rest added r hrestoring =>
    have hmem := h.restoring_possible _ hrestoring
    have hcpus := unparkAllCpu_sound h cpu added r (cpus.lt_long cpu (hmem cpu List.mem_cons_self))
    have halive := h.alive
    obtain ⟨online, mask, idle, wall, heq⟩ := unparkAllCpu_frame s cpu added r
    rw [hrestoring] at halive
    rw [heq] at hcpus ⊢
    refine { h with online_possible := hcpus.1, parked_possible := hcpus.2,
                    restoring_possible := ?_, alive := halive }
    rintro _ ⟨⟩ k hk
    exact hmem k (List.mem_cons_of_mem _ hk)
  | restored added r hrestoring =>
    have halive := h.alive
    rw [hrestoring] at halive
    exact { h with restoring_possible := nofun, alive := halive }
  | setEnabled value hfree =>
    refine { h with alive := ?_ }
    intro (henabled : value = true) hloaded
    cases hwas : s.enabled with
    | false => exact .inr (.inl (by simp [henabled]))
    | true =>
      obtain hp | he | hw := h.alive hwas hloaded
      · exact .inl hp
      · exact absurd he (by simp [hfree])
      · exact .inr (.inr hw)
  | rearm r henabling idle wall => exact { h with alive := fun _ _ => .inl rfl }
  | setParams params => exact { h with }
  | plug cpu hmem hoff =>
    refine { h with online_possible := ?_ }
    intro k hk
    by_cases hne : k = cpu
    · exact hne ▸ hmem
    · exact h.online_possible k (by simpa [hne] using hk)
  | unplug cpu hon =>
    refine { h with online_possible := ?_ }
    intro k hk
    exact h.online_possible k (by grind [Function.update_apply])
  | exit hidle =>
    refine { h with exiting_possible := ?_, alive := fun _ => nofun }
    rintro _ ⟨⟩
    exact fun _ hmem => hmem
  | exitRestore cpu rest added r hexiting =>
    have hmem := h.exiting_possible _ hexiting
    have hcpus := unparkAllCpu_sound h cpu added r (cpus.lt_long cpu (hmem cpu List.mem_cons_self))
    obtain ⟨online, mask, idle, wall, heq⟩ := unparkAllCpu_frame s cpu added r
    rw [heq] at hcpus ⊢
    refine { h with online_possible := hcpus.1, parked_possible := hcpus.2,
                    exiting_possible := ?_, alive := fun _ => nofun }
    rintro _ ⟨⟩ k hk
    exact hmem k (List.mem_cons_of_mem _ hk)
  | exited added r hexiting => exact { h with exiting_possible := nofun, alive := fun _ => nofun }

/-! ## What the module took offline -/

/-- Moves of the module, and not of others. -/
def ParkingAction.own : ParkingAction → Bool
  | .plug _ => false
  | .unplug _ => false
  | _ => true

/-- The module with an account of it that does not rest on its bookkeeping: the CPUs that it took
offline and that were not brought online since, and those that `add_cpu` has refused since it
last began to bring all of them back. -/
structure Watched where
  module : Parking
  down : Nat → Bool
  refused : Nat → Bool

/-- `add_cpu` is called for the CPU and fails. -/
def Parking.refuses (s : Parking) (cpu : Nat) (added : Bool) : Bool :=
  test s.parkedMask cpu && !s.online cpu && !added

def Watched.nextRefused (w : Watched) : ParkingAction → Nat → Bool
  | .work _ => fun cpu => w.module.enabled && w.refused cpu
  | .exit => fun _ => false
  | .restore added _ => fun cpu =>
    w.refused cpu || match w.module.worker with
      | .restoring (first :: _) => cpu == first && w.module.refuses cpu added
      | _ => false
  | .exitRestore added _ => fun cpu =>
    w.refused cpu || match w.module.lifetime with
      | .exiting (first :: _) => cpu == first && w.module.refuses cpu added
      | _ => false
  | _ => w.refused

def Watched.step (cpus : Cpus) (w : Watched) (a : ParkingAction) : Option Watched :=
  (w.module.step cpus a).map fun s =>
    { module := s
      down := fun cpu => !s.online cpu && (w.down cpu || (a.own && w.module.online cpu))
      refused := w.nextRefused a }

/-- Nothing was done yet. -/
def Watched.init (cpus : Cpus) (params : ParkingParams) (enabled : Bool)
    (r : Nat → IdleTime) : Watched :=
  ⟨Parking.init cpus params enabled r, fun _ => false, fun _ => false⟩

/-- Somebody will still come to the CPU, or `add_cpu` refused it. -/
def Watched.Owed (w : Watched) (cpu : Nat) : Prop :=
  w.refused cpu ∨ w.module.pending ∨ w.module.worker.Active ∨
    (∃ rest, w.module.worker = .restoring rest ∧ cpu ∈ rest) ∨
    ∃ rest, w.module.lifetime = .exiting rest ∧ cpu ∈ rest

structure Watched.Sound (cpus : Cpus) (w : Watched) : Prop where
  module : w.module.Sound cpus
  down_offline : ∀ cpu, w.down cpu → w.module.online cpu = false
  down_parked : ∀ cpu, w.down cpu → w.module.parkedMask.getLsbD cpu
  down_owed : ∀ cpu, w.down cpu → w.Owed cpu

variable {w v : Watched}

/-- Three CPUs, two of which may be parked. -/
def threeCpus : Cpus where
  possible := [0, 4, 5]
  sorted := by decide
  lt_long := by decide
  booted := [0, 4, 5].contains
  booted_possible := by simp

/-- No time passes. -/
def still : Nat → IdleTime := fun _ => ⟨0, 0⟩

end Azurefin
