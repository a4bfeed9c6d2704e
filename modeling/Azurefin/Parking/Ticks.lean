import Azurefin.Parking.Floor
import Mathlib.Data.List.TakeWhile

/-!
# Runs of the work

What a row of runs of the work does to the CPUs when nothing else happens in between: quiet runs
take the parkable CPUs offline from the top, down to the minimum, `quiet_ticks`, and busy runs
bring them back from the bottom, `busy_ticks`, so that load undoes what the lack of it did,
`ticks_roundTrip`.

A hotplug operation of the module may fail; such a run changes nothing. Others may bring a parked CPU
online. Its bit stays in `parked_cpus`, and where the busy runs get to it they stop: no CPU above it
is brought back by any step of the work, `starved`.
-/

namespace Azurefin

open BitMask

variable {cpus : Cpus} {s t u : Parking}

/-- One run of the work, with the outcome of its hotplug operation. -/
structure Tick where
  readings : Nat → IdleTime
  ok : Bool
  reading : IdleTime

/-- How many runs of the row succeed with their hotplug operation. -/
def successes (l : List Tick) : Nat := l.countP Tick.ok

/-- The average asks for another CPU. -/
def Parking.Busy (s : Parking) : Prop :=
  s.params.busyUpPct < s.lastAvgUtil ∧ s.params.busyDownPct ≤ s.lastAvgUtil

/-- The average asks for a CPU less. -/
def Parking.Calm (s : Parking) : Prop :=
  s.lastAvgUtil ≤ s.params.busyUpPct ∧ s.lastAvgUtil < s.params.busyDownPct

@[simp] theorem successes_nil : successes [] = 0 := rfl

theorem successes_cons {k : Tick} {l : List Tick} (h : k.ok = true) : successes (k :: l) = successes l + 1 :=
  List.countP_cons_of_pos h

theorem successes_cons_of_fail {k : Tick} {l : List Tick} (h : k.ok = false) :
    successes (k :: l) = successes l :=
  List.countP_cons_of_neg (by simp [h])

/-- One run of the work, between whose sample and the rest the state is as `between` says. -/
def Parking.Ticks (cpus : Cpus) (between : Parking → Prop) (s : Parking) (k : Tick)
    (t : Parking) : Prop :=
  ∃ u, s.step cpus (.work k.readings) = some u ∧ between u ∧
    Trace.run (Parking.step cpus) [.adjust k.ok k.reading, .resched] u = some t

/-- One run of the work after the other. -/
inductive Parking.TickRun (cpus : Cpus) (between : Parking → Prop) :
    Parking → List Tick → Parking → Prop where
  | nil (s : Parking) : TickRun cpus between s [] s
  | cons {s t u : Parking} {k : Tick} {l : List Tick} (tick : s.Ticks cpus between k t)
      (rest : TickRun cpus between t l u) : TickRun cpus between s (k :: l) u

/-- A run of the work is the sample, and then at most one CPU. -/
theorem ticks_cases {between : Parking → Prop} {k : Tick} (h : s.Ticks cpus between k t) :
    ∃ u j, between u ∧ u.online = s.online ∧ u.parkedMask = s.parkedMask ∧
      u.params = s.params ∧ u.worker = .sampled j ∧
      j = (s.sample cpus k.readings).onlineParkable ∧
      t = { u.adjust j k.ok k.reading with pending := true, worker := .idle } := by
  obtain ⟨u, hwork, hbetween, hrun⟩ := h
  obtain ⟨v, hadjust, hrun⟩ := Trace.run_cons_eq_some.mp hrun
  obtain ⟨w, hresched, hrun⟩ := Trace.run_cons_eq_some.mp hrun
  obtain rfl : w = t := by simpa using hrun
  cases move_of_step hwork with
  | restoreAll r hpending hidle hdisabled => simp [Parking.step] at hadjust
  | sample r hpending hidle henabled idle wall avg worker hsampled =>
    cases move_of_step hadjust with
    | adjust j ok r' hj =>
      refine ⟨_, j, hbetween, rfl, rfl, rfl, hj, ?_, by simpa [Parking.step] using hresched.symm⟩
      obtain ⟨rfl, -⟩ | ⟨rfl, -⟩ := hsampled
      · simp at hj
      · simpa using hj.symm

/-! ## Busy runs -/

/-- The CPUs that are parked and parkable, from below. -/
def Parking.parkedParkable (s : Parking) : List Nat :=
  (List.range maxCpus).filter fun cpu =>
    test s.parkedMask cpu && test s.params.parkableCpus cpu

/-- Those that the busy runs get to. -/
def Parking.unparkable (s : Parking) : List Nat :=
  s.parkedParkable.takeWhile fun cpu => !s.online cpu

theorem toUnpark_eq_head (s : Parking) : s.toUnpark = s.parkedParkable.head? :=
  List.head?_filter.symm

theorem mem_parkedParkable {cpu : Nat} : cpu ∈ s.parkedParkable ↔
    cpu < 16 ∧ s.parkedMask.getLsbD cpu ∧ test s.params.parkableCpus cpu := by
  simp only [Parking.parkedParkable, List.mem_filter, List.mem_range, maxCpus, Bool.and_eq_true]
  constructor
  · rintro ⟨hlt, hbit, hparkable⟩
    exact ⟨hlt, (test_eq_getLsbD (by omega)).symm.trans hbit, hparkable⟩
  · rintro ⟨hlt, hbit, hparkable⟩
    exact ⟨hlt, (test_eq_getLsbD (by omega)).trans hbit, hparkable⟩

theorem nodup_parkedParkable (s : Parking) : s.parkedParkable.Nodup :=
  List.nodup_range.filter _

/-- Where there is a parked CPU to bring back, the weight of the mask says so. -/
theorem weight_pos_of_toUnpark {cpu : Nat} (h : s.toUnpark = some cpu) :
    0 < weight (s.parkedMask &&& s.params.parkableCpus) := by
  obtain ⟨hlt, hparked, hparkable⟩ := toUnpark_eq_some h
  have hlong : cpu < 64 := by simp only [maxCpus] at hlt; omega
  rw [test_eq_getLsbD hlong] at hparked hparkable
  exact weight_pos.mpr ⟨cpu, by simp [hparked, hparkable]⟩

theorem adjust_of_busy {j : BitVec 32} {ok : Bool} {r : IdleTime} (h : s.Busy) :
    s.adjust j ok r = match s.toUnpark with
      | some cpu => s.unparkCpu cpu ok r
      | none => s := by
  have hcalm : ¬ s.lastAvgUtil < s.params.busyDownPct := BitVec.not_lt.mpr h.2
  cases hcpu : s.toUnpark with
  | some cpu =>
    have hpos := weight_pos_of_toUnpark hcpu
    simp [Parking.adjust, h.1, hpos, hcpu]
  | none => simp [Parking.adjust, hcpu, hcalm]

/-- A busy run brings back the first CPU, unless it is online already or `add_cpu` fails. -/
theorem busy_tick {k : Tick} (h : s.Ticks cpus Parking.Busy k t) :
    t.params = s.params ∧
      (((s.unparkable = [] ∨ k.ok = false) ∧ t.online = s.online ∧ t.parkedMask = s.parkedMask) ∨
        k.ok = true ∧ ∃ cpu rest, s.unparkable = cpu :: rest ∧ s.parkedParkable.head? = some cpu ∧
          t.online = Function.update s.online cpu true ∧
          t.parkedMask = clear s.parkedMask cpu) := by
  obtain ⟨u, j, hbusy, honline, hmask, hparams, -, -, rfl⟩ := ticks_cases h
  have hunpark : u.toUnpark = s.parkedParkable.head? := by
    rw [toUnpark_eq_head, Parking.parkedParkable, Parking.parkedParkable, hmask, hparams]
  rw [adjust_of_busy hbusy, hunpark]
  unfold Parking.unparkable
  rcases hl : s.parkedParkable with _ | ⟨cpu, rest⟩
  · exact ⟨hparams, .inl ⟨.inl rfl, honline, hmask⟩⟩
  dsimp only [List.head?_cons]
  obtain ⟨heq, hor⟩ | ⟨hoff, hok, idle, wall, heq⟩ := unparkCpu_cases u cpu k.ok k.reading
  · rw [heq]
    refine ⟨hparams, .inl ⟨hor.imp_left fun hon => ?_, honline, hmask⟩⟩
    have hon' : s.online cpu := by grind
    simp [hon']
  · have hoff' : s.online cpu = false := by grind
    rw [heq]
    refine ⟨hparams, .inr ⟨hok, cpu, rest.takeWhile fun k => !s.online k, by simp [hoff'], rfl, ?_⟩⟩
    simp [honline, hmask]

/-- Without its first element, a filtered list is the rest of it. -/
theorem filter_eq_tail {l r : List Nat} {p q : Nat → Bool} {x : Nat} (hl : l.Nodup)
    (h : l.filter p = x :: r) (hq : ∀ y ∈ l, q y = (p y && decide (y ≠ x))) :
    l.filter q = r := by
  have hnodup : (x :: r).Nodup := h ▸ hl.filter p
  calc l.filter q
    _ = (l.filter p).filter fun y => decide (y ≠ x) := by
      rw [List.filter_filter]
      apply List.filter_congr
      grind
    _ = r := by
      rw [h, List.filter_cons_of_neg (by simp), List.filter_eq_self]
      grind

theorem unparkable_congr (hparams : t.params = s.params) (honline : t.online = s.online)
    (hmask : t.parkedMask = s.parkedMask) : t.unparkable = s.unparkable := by
  simp only [Parking.unparkable, Parking.parkedParkable, hparams, honline, hmask]

theorem takeWhile_update {online : Nat → Bool} {cpu : Nat} {l : List Nat} (h : cpu ∉ l) :
    (l.takeWhile fun k => !Function.update online cpu true k) = l.takeWhile fun k => !online k := by
  induction l with
  | nil => rfl
  | cons k l ih =>
    have hne : k ≠ cpu := by grind
    simp only [List.takeWhile_cons, Function.update_of_ne hne, ih (by grind)]

/-- The busy runs after one that brought back a CPU start from the next. -/
theorem unparkable_tail {cpu : Nat} {rest : List Nat} (h : s.unparkable = cpu :: rest)
    (hhead : s.parkedParkable.head? = some cpu) (hparams : t.params = s.params)
    (honline : t.online = Function.update s.online cpu true)
    (hmask : t.parkedMask = clear s.parkedMask cpu) : t.unparkable = rest := by
  obtain ⟨l, hl⟩ := List.head?_eq_some_iff.mp hhead
  have hnodup := nodup_parkedParkable s
  have htail : t.parkedParkable = l := by
    refine filter_eq_tail List.nodup_range hl fun k hk => ?_
    have hlong : k < 64 := by simp only [List.mem_range, maxCpus] at hk; omega
    simp only [hparams, hmask, test_clear hlong]
    grind
  rw [Parking.unparkable, hl] at h
  rw [hl] at hnodup
  rw [Parking.unparkable, htail, honline]
  have hrest : l.takeWhile (fun k => !s.online k) = rest := by grind [List.takeWhile_cons]
  rw [← hrest]
  exact takeWhile_update (List.nodup_cons.mp hnodup).1

theorem unparkable_ticks {l : List Tick} (h : s.TickRun cpus Parking.Busy l t) :
    t.params = s.params ∧
      (∀ cpu, t.online cpu = (s.online cpu || (s.unparkable.take (successes l)).contains cpu)) ∧
      ∀ cpu, t.parkedMask.getLsbD cpu =
        (s.parkedMask.getLsbD cpu && !(s.unparkable.take (successes l)).contains cpu) := by
  induction h with
  | nil s => simp
  | @cons s t u k l htick hrest ih =>
    obtain ⟨hparams, hcase⟩ := busy_tick htick
    obtain ⟨hpar, hon, hm⟩ := ih
    refine ⟨hpar.trans hparams, ?_⟩
    obtain ⟨hkept, honline, hmask⟩ | ⟨hok, cpu, rest, hcons, hhead, honline, hmask⟩ := hcase
    · have hsame : s.unparkable.take (successes (k :: l)) = s.unparkable.take (successes l) := by
        obtain hnil | hfail := hkept
        · rw [hnil, List.take_nil, List.take_nil]
        · rw [successes_cons_of_fail hfail]
      rw [unparkable_congr hparams honline hmask] at hon hm
      rw [hsame, ← honline, ← hmask]
      exact ⟨hon, hm⟩
    · rw [unparkable_tail hcons hhead hparams honline hmask] at hon hm
      rw [hcons, successes_cons hok, List.take_succ_cons]
      constructor
      · intro j
        rw [hon, honline]
        grind [Function.update_apply]
      · intro j
        rw [hm, hmask, getLsbD_clear]
        grind

/-! ## Quiet runs -/

/-- The CPUs that the quiet runs may take offline, from above. -/
def Parking.parkables (s : Parking) : List Nat :=
  (List.range maxCpus).reverse.filter fun target =>
    test s.params.parkableCpus target && s.online target && !test s.parkedMask target

/-- How many of them the quiet runs take before the minimum is reached. -/
def Parking.spare (cpus : Cpus) (s : Parking) : Nat :=
  s.onlineParkable cpus - s.params.minOnline.toNat

/-- `get_cpu_idle_time_us` knows the idle time of each CPU. -/
def Tick.Readable (k : Tick) : Prop := ∀ cpu, (k.readings cpu).idle ≠ BitVec.allOnes 64

theorem toPark_eq_head (s : Parking) : s.toPark = s.parkables.head? := List.head?_filter.symm

theorem mem_parkables {cpu : Nat} : cpu ∈ s.parkables ↔
    cpu < 16 ∧ test s.params.parkableCpus cpu ∧ s.online cpu ∧ test s.parkedMask cpu = false := by
  simp [Parking.parkables, maxCpus, and_assoc]

theorem sample_onlineParkable_eq {k : Tick} (hk : k.Readable) (s : Parking) :
    (s.sample cpus k.readings).onlineParkable.toNat = s.onlineParkable cpus := by
  rw [(sample_spec cpus s k.readings).2.2, Parking.onlineCpus, List.countP_filter]
  apply List.countP_congr
  intro cpu hcpu
  have hread := hk cpu
  unfold Counted ParkingParams.Parkable
  grind

theorem adjust_of_calm (h : s.Calm) (j : BitVec 32) (ok : Bool) (r : IdleTime) :
    (s.adjust j ok r = s ∧ (ok = false ∨ s.parkables = [] ∨ j ≤ s.params.minOnline)) ∨
    ok = true ∧ ∃ cpu rest, s.parkables = cpu :: rest ∧ s.params.minOnline < j ∧ s.adjust j ok r =
      { s with online := Function.update s.online cpu false,
               parkedMask := set s.parkedMask cpu } := by
  have hbusy : ¬ s.params.busyUpPct < s.lastAvgUtil := BitVec.not_lt.mpr h.1
  unfold Parking.adjust
  rw [if_neg fun hif => hbusy hif.1, toPark_eq_head]
  by_cases hj : s.params.minOnline < j
  · rw [if_pos ⟨h.2, hj⟩]
    rcases hl : s.parkables with _ | ⟨cpu, rest⟩
    · exact .inl ⟨rfl, .inr (.inl rfl)⟩
    · have hon := (mem_parkables.mp (hl ▸ List.mem_cons_self)).2.2.1
      cases ok with
      | false => exact .inl ⟨by simp [Parking.parkCpu], .inl rfl⟩
      | true => exact .inr ⟨rfl, cpu, rest, rfl, hj, by simp [Parking.parkCpu, hon]⟩
  · rw [if_neg fun hif => hj hif.2]
    exact .inl ⟨rfl, .inr (.inr (BitVec.not_lt.mp hj))⟩

/-- Without one of its elements, a predicate counts one less. -/
theorem countP_eq_succ {l : List Nat} (hl : l.Nodup) {p q : Nat → Bool} {x : Nat} (hx : x ∈ l)
    (hp : p x) (hq : ∀ y ∈ l, q y = (p y && decide (y ≠ x))) : l.countP p = l.countP q + 1 := by
  induction l with
  | nil => simp at hx
  | cons y l ih =>
    obtain ⟨hy, hl⟩ := List.nodup_cons.mp hl
    have hhead := hq y List.mem_cons_self
    have htail := fun z hz => hq z (List.mem_cons_of_mem y hz)
    by_cases hyx : y = x
    · have hrest : l.countP p = l.countP q := by
        apply List.countP_congr
        grind
      grind
    · have hrest := ih hl (by grind) htail
      grind

/-- The CPU that goes offline was counted. -/
theorem onlineParkable_update {cpu : Nat} (hcpu : cpu ∈ cpus.possible) (hon : s.online cpu)
    (hparkable : s.params.Parkable cpu) (hparams : t.params = s.params)
    (honline : t.online = Function.update s.online cpu false) :
    s.onlineParkable cpus = t.onlineParkable cpus + 1 := by
  apply countP_eq_succ cpus.nodup hcpu (by simp [hon, hparkable])
  intro k hk
  rw [hparams, honline]
  grind [Function.update_apply]

theorem parkables_congr (hparams : t.params = s.params) (honline : t.online = s.online)
    (hmask : t.parkedMask = s.parkedMask) : t.parkables = s.parkables := by
  simp only [Parking.parkables, hparams, honline, hmask]

theorem spare_congr (hparams : t.params = s.params) (honline : t.online = s.online) :
    t.spare cpus = s.spare cpus := by
  simp only [Parking.spare, Parking.onlineParkable, hparams, honline]

theorem spare_update {cpu : Nat} (hcpu : cpu ∈ cpus.possible) (hon : s.online cpu)
    (hparkable : s.params.Parkable cpu) (hparams : t.params = s.params)
    (honline : t.online = Function.update s.online cpu false)
    (hmin : s.params.minOnline.toNat < s.onlineParkable cpus) :
    s.spare cpus = t.spare cpus + 1 := by
  have hupdate := onlineParkable_update hcpu hon hparkable hparams honline
  unfold Parking.spare
  rw [hparams]
  omega

/-- A quiet run takes the first CPU offline, if there is one to spare and `remove_cpu` succeeds. -/
theorem calm_tick (hs : s.Sound cpus) {k : Tick} (hread : k.Readable)
    (h : s.Ticks cpus Parking.Calm k t) :
    t.params = s.params ∧
      (((s.parkables.take (s.spare cpus) = [] ∨ k.ok = false) ∧ t.online = s.online ∧
          t.parkedMask = s.parkedMask) ∨
        k.ok = true ∧ ∃ cpu rest, s.parkables = cpu :: rest ∧ s.spare cpus = t.spare cpus + 1 ∧
          t.online = Function.update s.online cpu false ∧
          t.parkedMask = set s.parkedMask cpu) := by
  obtain ⟨u, j, hcalm, honline, hmask, hparams, -, hj, rfl⟩ := ticks_cases h
  have hcount : j.toNat = s.onlineParkable cpus := hj ▸ sample_onlineParkable_eq hread s
  have hsame := parkables_congr hparams honline hmask
  obtain ⟨heq, hor⟩ | ⟨hok, cpu, rest, hl, hmin, heq⟩ := adjust_of_calm hcalm j k.ok k.reading <;> rw [heq]
  · refine ⟨hparams, .inl ⟨?_, honline, hmask⟩⟩
    rw [hsame, hparams, BitVec.le_def, hcount] at hor
    obtain hfail | hnil | hle := hor
    · exact .inr hfail
    · rw [hnil, List.take_nil]
      exact .inl rfl
    · have hzero : s.spare cpus = 0 := Nat.sub_eq_zero_of_le hle
      rw [hzero, List.take_zero]
      exact .inl rfl
  · rw [hsame] at hl
    obtain ⟨hlt, hparkable, hon, -⟩ := mem_parkables.mp (hl ▸ List.mem_cons_self)
    refine ⟨hparams, .inr ⟨hok, cpu, rest, hl, ?_, by rw [honline], by rw [hmask]⟩⟩
    rw [hparams, BitVec.lt_def, hcount] at hmin
    exact spare_update (hs.online_possible cpu hon) hon
      (by simp [ParkingParams.Parkable, maxCpus, hlt, hparkable]) hparams (by rw [honline]) hmin

theorem ticks_sound {between : Parking → Prop} {k : Tick} (hs : s.Sound cpus)
    (h : s.Ticks cpus between k t) : t.Sound cpus := by
  obtain ⟨u, hwork, -, hrun⟩ := h
  exact Trace.run_invariant (fun _ _ _ _ => sound_step) (sound_step hs hwork) hrun

/-- The quiet runs after one that took a CPU offline start from the next. -/
theorem parkables_tail {cpu : Nat} {rest : List Nat} (h : s.parkables = cpu :: rest)
    (hparams : t.params = s.params) (honline : t.online = Function.update s.online cpu false)
    (hmask : t.parkedMask = set s.parkedMask cpu) : t.parkables = rest := by
  have hlt := (mem_parkables.mp (h ▸ List.mem_cons_self)).1
  refine filter_eq_tail (List.nodup_reverse.mpr List.nodup_range) h fun k hk => ?_
  have hlong : k < 64 := by simp only [List.mem_reverse, List.mem_range, maxCpus] at hk; omega
  rw [hparams, honline, hmask, test_set (by omega) hlong]
  grind [Function.update_apply]

/-- Quiet runs take the parkable CPUs offline from above, one for each success, until no more than
the minimum are online. -/
theorem calm_ticks (l : List Tick) (hs : s.Sound cpus) (h : s.TickRun cpus Parking.Calm l t)
    (hread : ∀ k ∈ l, k.Readable) :
    t.params = s.params ∧
      (∀ cpu, t.online cpu =
        (s.online cpu && !(s.parkables.take (min (successes l) (s.spare cpus))).contains cpu)) ∧
      ∀ cpu, t.parkedMask.getLsbD cpu = (s.parkedMask.getLsbD cpu ||
        (s.parkables.take (min (successes l) (s.spare cpus))).contains cpu) := by
  induction h with
  | nil s => simp
  | @cons s t u k l htick hrest ih =>
    obtain ⟨hk, hl⟩ := List.forall_mem_cons.mp hread
    obtain ⟨hparams, hcase⟩ := calm_tick hs hk htick
    obtain ⟨hpar, hon, hm⟩ := ih (ticks_sound hs htick) hl
    refine ⟨hpar.trans hparams, ?_⟩
    obtain ⟨hkept, honline, hmask⟩ | ⟨hok, cpu, rest, hcons, hspare, honline, hmask⟩ := hcase
    · have hsame : s.parkables.take (min (successes (k :: l)) (s.spare cpus)) =
          s.parkables.take (min (successes l) (s.spare cpus)) := by
        obtain hnil | hfail := hkept
        · rw [← List.take_take, ← List.take_take, hnil, List.take_nil, List.take_nil]
        · rw [successes_cons_of_fail hfail]
      rw [parkables_congr hparams honline hmask, spare_congr hparams honline] at hon hm
      rw [hsame, ← honline, ← hmask]
      exact ⟨hon, hm⟩
    · have hlt := (mem_parkables.mp (hcons ▸ List.mem_cons_self)).1
      rw [parkables_tail hcons hparams honline hmask] at hon hm
      rw [hcons, successes_cons hok, hspare, Nat.add_min_add_right, List.take_succ_cons]
      constructor
      · intro j
        rw [hon, honline]
        grind [Function.update_apply]
      · intro j
        rw [hm, hmask, getLsbD_set (by omega)]
        grind

theorem reachable_sound {params : ParkingParams} {enabled : Bool} {r : Nat → IdleTime}
    {l : List ParkingAction}
    (h : Trace.run (Parking.step cpus) l (.init cpus params enabled r) = some s) : s.Sound cpus :=
  Trace.run_invariant (fun _ _ _ _ => sound_step) (init_sound cpus params enabled r) h

/-- Busy runs bring back the parked CPUs that are parkable from below, one for each `add_cpu` that
succeeds, up to the first that is online already. -/
theorem busy_ticks (cpus : Cpus) (s t : Parking) (l : List Tick) (h : s.TickRun cpus Parking.Busy l t) :
    t.params = s.params ∧
      (∀ cpu, t.online cpu = (s.online cpu || (s.unparkable.take (successes l)).contains cpu)) ∧
      ∀ cpu, t.parkedMask.getLsbD cpu =
        (s.parkedMask.getLsbD cpu && !(s.unparkable.take (successes l)).contains cpu) :=
  unparkable_ticks h

/-- From any state of a run, quiet runs of the work, at which the idle times are known, take the
parkable CPUs without a bit in `parked_cpus` offline from above, one for each `remove_cpu` that
succeeds, until no more than the minimum are online. -/
theorem quiet_ticks (cpus : Cpus) (params : ParkingParams) (enabled : Bool) (r : Nat → IdleTime)
    (l₀ : List ParkingAction) (s t : Parking) (l : List Tick)
    (hreach : Trace.run (Parking.step cpus) l₀ (.init cpus params enabled r) = some s)
    (h : s.TickRun cpus Parking.Calm l t) (hread : ∀ k ∈ l, k.Readable) :
    (∀ cpu, t.online cpu =
        (s.online cpu && !(s.parkables.take (min (successes l) (s.spare cpus))).contains cpu)) ∧
      ∀ cpu, t.parkedMask.getLsbD cpu = (s.parkedMask.getLsbD cpu ||
        (s.parkables.take (min (successes l) (s.spare cpus))).contains cpu) :=
  (calm_ticks l (reachable_sound hreach) h hread).2

/-- Where nothing parkable was parked, busy runs undo quiet ones, if no fewer of them succeed: the
same CPUs are online, and `parked_cpus` is as it was. -/
theorem ticks_roundTrip (cpus : Cpus) (params : ParkingParams) (enabled : Bool) (r : Nat → IdleTime)
    (l₀ : List ParkingAction) (s t u : Parking) (l m : List Tick)
    (hreach : Trace.run (Parking.step cpus) l₀ (.init cpus params enabled r) = some s)
    (hnone : s.parkedParkable = []) (hcalm : s.TickRun cpus Parking.Calm l t)
    (hbusy : t.TickRun cpus Parking.Busy m u) (hread : ∀ k ∈ l, k.Readable)
    (hlen : successes l ≤ successes m) :
    u.online = s.online ∧ u.parkedMask = s.parkedMask := by
  obtain ⟨hparams, honline, hmask⟩ := calm_ticks l (reachable_sound hreach) hcalm hread
  obtain ⟨-, honline', hmask'⟩ := unparkable_ticks hbusy
  generalize htaken : s.parkables.take (min (successes l) (s.spare cpus)) = taken at honline hmask
  have htaken_sub (cpu : Nat) (hcpu : cpu ∈ taken) : cpu < 16 ∧
      test s.params.parkableCpus cpu ∧ s.online cpu ∧ s.parkedMask.getLsbD cpu = false := by
    obtain ⟨hlt, hparkable, hon, hbit⟩ :=
      mem_parkables.mp (List.mem_of_mem_take (htaken ▸ hcpu))
    rw [test_eq_getLsbD (by omega)] at hbit
    exact ⟨hlt, hparkable, hon, hbit⟩
  have hmem (cpu : Nat) : cpu ∈ t.parkedParkable ↔ cpu ∈ taken := by
    have hwas : cpu ∉ s.parkedParkable := hnone ▸ List.not_mem_nil
    have hsub := htaken_sub cpu
    have hbit := hmask cpu
    rw [mem_parkedParkable] at hwas ⊢
    rw [hparams]
    grind
  have hall : t.unparkable = t.parkedParkable := by
    apply List.takeWhile_eq_self_iff.mpr
    intro cpu hcpu
    have hoff := honline cpu
    have htake := (hmem cpu).mp hcpu
    grind
  have hle : t.parkedParkable.length ≤ successes m := by
    have hsubset := (nodup_parkedParkable t).subperm fun cpu hcpu => (hmem cpu).mp hcpu
    have hlength := hsubset.length_le
    rw [← htaken, List.length_take] at hlength
    omega
  rw [hall, List.take_of_length_le hle] at honline' hmask'
  have hcontains (cpu : Nat) : t.parkedParkable.contains cpu = taken.contains cpu := by
    simp only [List.contains_eq_mem, hmem]
  have htaken_contains (cpu : Nat) (hcpu : taken.contains cpu) :=
    htaken_sub cpu (List.contains_iff_mem.mp hcpu)
  constructor
  · funext cpu
    rw [honline', honline, hcontains]
    have hsub := htaken_contains cpu
    grind
  · apply BitVec.eq_of_getLsbD_eq
    intro cpu hcpu
    rw [hmask', hmask, hcontains]
    have hsub := htaken_contains cpu
    grind

/-- A run of the work after which no time has passed. -/
def stillTick : Tick := ⟨still, true, ⟨0, 0⟩⟩

/-- A run of the work that finds no idle time since the last one. -/
def busyTick (wall : BitVec 64) (ok : Bool) : Tick := ⟨fun _ => ⟨0, wall⟩, ok, ⟨0, wall⟩⟩

theorem still_readable : stillTick.Readable := by
  intro cpu
  change (0#64) ≠ BitVec.allOnes 64
  decide

/-- CPU 5 is parked, and comes back at the second attempt. -/
theorem busy_ticks_threeCpus : ∃ s t, Trace.run (Parking.step threeCpus)
      [.work still, .adjust true ⟨0, 0⟩, .resched] (.init threeCpus .default true still) = some s ∧
    s.TickRun threeCpus Parking.Busy [busyTick 1 false, busyTick 2 true] t ∧ s.online 5 = false ∧
    t.online 5 = (s.online 5 || (s.unparkable.take 1).contains 5) ∧ t.online 5 = true :=
  ⟨_, _, rfl, .cons ⟨_, rfl, ⟨by decide, by decide⟩, rfl⟩ (.cons ⟨_, rfl, ⟨by decide, by decide⟩, rfl⟩ (.nil _)),
    rfl, (busy_ticks threeCpus _ _ [busyTick 1 false, busyTick 2 true]
      (.cons ⟨_, rfl, ⟨by decide, by decide⟩, rfl⟩
        (.cons ⟨_, rfl, ⟨by decide, by decide⟩, rfl⟩ (.nil _)))).2.1 5, rfl⟩

theorem quiet_ticks_threeCpus : ∃ s t,
    Trace.run (Parking.step threeCpus) [] (.init threeCpus .default true still) = some s ∧
    s.TickRun threeCpus Parking.Calm [stillTick] t ∧
    t.online 5 = (s.online 5 && !(s.parkables.take (min 1 (s.spare threeCpus))).contains 5) ∧
    t.online 5 = false :=
  ⟨_, _, rfl, .cons ⟨_, rfl, ⟨by decide, by decide⟩, rfl⟩ (.nil _),
    (quiet_ticks threeCpus .default true still [] _ _ [stillTick] rfl
      (.cons ⟨_, rfl, ⟨by decide, by decide⟩, rfl⟩ (.nil _)) (by simpa using still_readable)).1 5, rfl⟩

/-- One CPU goes and comes back. -/
theorem ticks_roundTrip_threeCpus : ∃ s t u,
    Trace.run (Parking.step threeCpus) [] (.init threeCpus .default true still) = some s ∧
    s.TickRun threeCpus Parking.Calm [stillTick] t ∧ t.online 5 = false ∧
    t.TickRun threeCpus Parking.Busy [busyTick 1 false, busyTick 2 true] u ∧ u.online = s.online :=
  ⟨_, _, _, rfl, .cons ⟨_, rfl, ⟨by decide, by decide⟩, rfl⟩ (.nil _), rfl,
    .cons ⟨_, rfl, ⟨by decide, by decide⟩, rfl⟩ (.cons ⟨_, rfl, ⟨by decide, by decide⟩, rfl⟩ (.nil _)),
    (ticks_roundTrip threeCpus .default true still [] _ _ _ [stillTick] [busyTick 1 false, busyTick 2 true] rfl
      (by decide) (.cons ⟨_, rfl, ⟨by decide, by decide⟩, rfl⟩ (.nil _))
      (.cons ⟨_, rfl, ⟨by decide, by decide⟩, rfl⟩ (.cons ⟨_, rfl, ⟨by decide, by decide⟩, rfl⟩ (.nil _)))
      (by simpa using still_readable) (by decide)).1⟩

/-! ## A bit that stays behind -/

/-- Nobody takes the CPU offline or out of `parkable_cpus`, and parking stays switched on. -/
def Undisturbed (cpu : Nat) : ParkingAction → Bool
  | .setEnabled value => value
  | .setParams params => test params.parkableCpus cpu
  | .unplug k => decide (k ≠ cpu)
  | .exit => false
  | _ => true

/-- A step of the work, and not a move of somebody else. -/
def ParkingAction.isWork : ParkingAction → Bool
  | .work _ | .adjust .. | .resched | .restore .. => true
  | _ => false

/-- The CPU is online with its bit set, and the work does not restore. -/
structure Parking.Stale (cpu : Nat) (s : Parking) : Prop where
  lt : cpu < maxCpus
  online : s.online cpu
  parked : s.parkedMask.getLsbD cpu
  parkable : test s.params.parkableCpus cpu
  enabled : s.enabled
  working : ∀ rest, s.worker ≠ .restoring rest
  loaded : s.lifetime = .loaded

/-- The lowest parked CPU is not above one whose bit is set. -/
theorem toUnpark_le {cpu first : Nat} (h : s.Stale cpu)
    (hfirst : s.toUnpark = some first) : first ≤ cpu := by
  have hmem : cpu ∈ s.parkedParkable :=
    mem_parkedParkable.mpr ⟨h.lt, h.parked, h.parkable⟩
  have hsorted : s.parkedParkable.Pairwise (· < ·) := List.pairwise_lt_range.filter _
  rw [toUnpark_eq_head] at hfirst
  obtain ⟨l, hl⟩ := List.head?_eq_some_iff.mp hfirst
  rw [hl] at hmem hsorted
  obtain rfl | hmem := List.mem_cons.mp hmem
  · exact le_refl _
  · exact (List.rel_of_pairwise_cons hsorted hmem).le

/-- What the work does leaves the CPU and those above it alone, but for taking them offline. -/
theorem adjust_stale {cpu : Nat} (h : s.Stale cpu) (k : BitVec 32)
    (ok : Bool) (r : IdleTime) :
    (s.adjust k ok r).online cpu ∧ (s.adjust k ok r).parkedMask.getLsbD cpu ∧
      ∀ j, cpu < j → s.online j = false → (s.adjust k ok r).online j = false := by
  have hon := h.online
  have hbit := h.parked
  obtain heq | ⟨first, -, hfirst, heq⟩ | ⟨first, -, -, hfirst, -, heq⟩ :=
    adjust_cases s k ok r <;> rw [heq]
  · exact ⟨hon, hbit, fun _ _ => id⟩
  · have hle := toUnpark_le h hfirst
    obtain ⟨heq, -⟩ | ⟨hoff, -, idle, wall, heq⟩ := unparkCpu_cases s first ok r <;> rw [heq]
    · exact ⟨hon, hbit, fun _ _ => id⟩
    · have hne : first ≠ cpu := by grind
      refine ⟨by grind [Function.update_apply], by grind [getLsbD_clear], ?_⟩
      intro j hj hoffj
      have hnej : j ≠ first := by omega
      simpa [hnej] using hoffj
  · obtain ⟨hlt, -, -, hfree⟩ := toPark_eq_some hfirst
    rw [test_eq_getLsbD (by simp only [maxCpus] at hlt; omega)] at hfree
    have hne : first ≠ cpu := by grind
    refine ⟨by grind [Function.update_apply], ?_, by grind [Function.update_apply]⟩
    rw [getLsbD_set (by simp only [maxCpus] at hlt; omega), hbit, Bool.true_or]

/-- A step leaves the CPU as it is, and one of the work brings back none above it. -/
theorem stale_step {cpu : Nat} (h : s.Stale cpu) {a : ParkingAction}
    (ha : Undisturbed cpu a) (hstep : s.step cpus a = some t) :
    t.Stale cpu ∧ (a.isWork → ∀ j, cpu < j → s.online j = false → t.online j = false) := by
  cases move_of_step hstep with
  | restoreAll r hpending hidle hdisabled => exact absurd h.enabled (by simp [hdisabled])
  | sample r hpending hidle henabled idle wall avg worker hsampled =>
    refine ⟨{ h with working := ?_ }, fun _ _ _ => id⟩
    obtain ⟨rfl, -⟩ | ⟨rfl, -⟩ := hsampled <;> nofun
  | adjust k ok r hsampled =>
    obtain ⟨hon, hbit, hoff⟩ := adjust_stale h k ok r
    obtain ⟨online, mask, idle, wall, heq⟩ := adjust_frame s k ok r
    rw [heq] at hon hbit hoff ⊢
    exact ⟨{ h with online := hon, parked := hbit, working := nofun }, fun _ => hoff⟩
  | resched hdone => exact ⟨{ h with working := nofun }, fun _ _ _ => id⟩
  | restore first rest added r hrestoring => exact absurd hrestoring (h.working _)
  | restored added r hrestoring => exact absurd hrestoring (h.working _)
  | setEnabled value hfree => exact ⟨{ h with enabled := ha }, nofun⟩
  | rearm r henabling idle wall => exact ⟨{ h with }, nofun⟩
  | setParams params => exact ⟨{ h with parkable := ha }, nofun⟩
  | plug k hmem hoff =>
    have hon := h.online
    exact ⟨{ h with online := by grind [Function.update_apply] }, nofun⟩
  | unplug k hk =>
    have hne : k ≠ cpu := by simpa [Undisturbed] using ha
    have hon := h.online
    exact ⟨{ h with online := by grind [Function.update_apply] }, nofun⟩
  | exit hidle => simp [Undisturbed] at ha
  | exitRestore first rest added r hexiting => exact absurd (h.loaded.symm.trans hexiting) nofun
  | exited added r hexiting => exact absurd (h.loaded.symm.trans hexiting) nofun

theorem undisturbed_of_isWork {cpu : Nat} {a : ParkingAction} (h : a.isWork) : Undisturbed cpu a := by
  cases a <;> first | rfl | cases h

/-- Where somebody else has brought a parked CPU online, its bit stays, and no step of the work
brings back a CPU above it, however busy the machine is and whatever else is done. -/
theorem starved (cpus : Cpus) (s t : Parking) (cpu : Nat) (l : List ParkingAction)
    (hstale : s.Stale cpu) (hl : ∀ a ∈ l, Undisturbed cpu a)
    (h : Trace.run (Parking.step cpus) l s = some t) :
    t.online cpu ∧ t.parkedMask.getLsbD cpu ∧ ∀ a u, a.isWork → t.step cpus a = some u →
      ∀ j, cpu < j → t.online j = false → u.online j = false := by
  have hrun := Trace.run_invariant (I := Parking.Stale cpu)
    (fun a ha u v hu hv => (stale_step hu (hl a ha) hv).1) hstale h
  exact ⟨hrun.online, hrun.parked, fun a u ha hstep =>
    (stale_step hrun (undisturbed_of_isWork ha) hstep).2 ha⟩

/-- CPUs 5 and 4 are parked, and somebody else brings CPU 4 online. -/
def pluggedRun : List ParkingAction :=
  [.work still, .adjust true ⟨0, 0⟩, .resched, .work still, .adjust true ⟨0, 0⟩, .resched, .plug 4]

def afterPlug : Parking :=
  (Trace.run (Parking.step threeCpus) pluggedRun (.init threeCpus .default true still)).get rfl

/-- The thresholds are lowered, and the work finds no idle time. -/
def loadedRun : List ParkingAction := [.setParams ⟨50, 20, 0, 0xFF0⟩, .work fun _ => ⟨0, 1⟩]

theorem starved_threeCpus : ∃ t u, Trace.run (Parking.step threeCpus) loadedRun afterPlug = some t ∧
    t.lastAvgUtil = 100 ∧ t.step threeCpus (.adjust true ⟨0, 0⟩) = some u ∧ u.online 5 = false := by
  refine ⟨_, _, rfl, rfl, rfl, (starved threeCpus afterPlug _ 4 loadedRun ?_ ?_ rfl).2.2
    (.adjust true ⟨0, 0⟩) _ rfl rfl 5 (by decide) rfl⟩
  · exact ⟨by decide, rfl, rfl, rfl, rfl, fun _ h => Worker.noConfusion h, rfl⟩
  · simp only [loadedRun, List.forall_mem_cons]
    exact ⟨rfl, rfl, by simp⟩

end Azurefin
