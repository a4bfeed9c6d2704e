import Azurefin.Lib.BitMask
import Azurefin.Lib.Trace
import Mathlib.Logic.Function.Basic

/-!
# The CPU parking module

`cpu_parking.c` beside everything that runs at the same time: the work on its queue, writes to
its parameters, hotplug by others, and unloading. A step of the model is one hotplug operation of
the module, one pass over the CPUs that only reads, or one move of somebody else.

What the kernel decides is input: which `remove_cpu` and `add_cpu` succeed, and what
`get_cpu_idle_time_us` reports. `cancel_delayed_work_sync` waits for the work to end, so unloading
starts where no work runs.
-/

namespace Azurefin

open BitMask

/-- `MAX_CPUS`. -/
def maxCpus : Nat := 16

/-- The CPUs of a machine, for each of which `BIT` is defined, and those online at boot. -/
structure Cpus where
  possible : List Nat
  sorted : possible.Pairwise (· < ·)
  lt_long : ∀ cpu ∈ possible, cpu < 64
  booted : Nat → Bool
  booted_possible : ∀ cpu, booted cpu → cpu ∈ possible

/-- What `get_cpu_idle_time_us` reports of a CPU. -/
structure IdleTime where
  idle : BitVec 64
  wall : BitVec 64

structure ParkingParams where
  busyUpPct : BitVec 32
  busyDownPct : BitVec 32
  minOnline : BitVec 32
  parkableCpus : BitVec 32

/-- `sample_interval_ms` is the delay of the work and nothing else. -/
def ParkingParams.default : ParkingParams := ⟨75, 30, 0, 0xFF0⟩

/-- How far a run of `parking_work_fn` is. -/
inductive Worker where
  | idle
  | sampled (onlineParkable : BitVec 32)
  | resched
  | restoring (rest : List Nat)
  deriving DecidableEq

/-- How far `cpu_parking_exit` is. -/
inductive Lifetime where
  | loaded
  | exiting (rest : List Nat)
  | unloaded
  deriving DecidableEq

structure Parking where
  params : ParkingParams
  enabled : Bool
  parkedMask : BitVec 32
  lastAvgUtil : BitVec 32
  prevIdle : Nat → BitVec 64
  prevWall : Nat → BitVec 64
  /-- `cpu_online_mask`. -/
  online : Nat → Bool
  /-- `parking_work` is queued. -/
  pending : Bool
  /-- `set_enabled` has written the parameter and has not queued the work yet. -/
  enabling : Bool
  worker : Worker
  lifetime : Lifetime

/-! ## Hotplug -/

def Parking.snapshotCpu (s : Parking) (reading : IdleTime) (cpu : Nat) : Parking :=
  if maxCpus ≤ cpu then s
  else { s with prevIdle := Function.update s.prevIdle cpu reading.idle,
                prevWall := Function.update s.prevWall cpu reading.wall }

/-- `for_each_online_cpu`. -/
def Parking.onlineCpus (cpus : Cpus) (s : Parking) : List Nat := cpus.possible.filter s.online

def Parking.snapshotAllOnline (cpus : Cpus) (reading : Nat → IdleTime) (s : Parking) : Parking :=
  (s.onlineCpus cpus).foldl (fun s cpu => s.snapshotCpu (reading cpu) cpu) s

/-- `removed` says whether `remove_cpu` succeeds. -/
def Parking.parkCpu (s : Parking) (cpu : Nat) (removed : Bool) : Parking :=
  if !s.online cpu then s
  else if !removed then s
  else { s with online := Function.update s.online cpu false,
                parkedMask := set s.parkedMask cpu }

/-- `added` says whether `add_cpu` succeeds. -/
def Parking.unparkCpu (s : Parking) (cpu : Nat) (added : Bool) (reading : IdleTime) : Parking :=
  if s.online cpu then s
  else if !added then s
  else { s with online := Function.update s.online cpu true,
                parkedMask := clear s.parkedMask cpu }.snapshotCpu reading cpu

/-- One turn of the loop of `unpark_all`. -/
def Parking.unparkAllCpu (s : Parking) (cpu : Nat) (added : Bool) (reading : IdleTime) : Parking :=
  if test s.parkedMask cpu then s.unparkCpu cpu added reading else s

/-! ## `parking_work_fn` -/

/-- What the loop over the online CPUs keeps. -/
structure Sample where
  prevIdle : Nat → BitVec 64
  prevWall : Nat → BitVec 64
  totalUtil : BitVec 32
  nrSampled : BitVec 32
  onlineParkable : BitVec 32

/-- `(unsigned int)((d_wall - d_idle) * 100 / d_wall)`. -/
def utilPct (dIdle dWall : BitVec 64) : BitVec 32 := ((dWall - dIdle) * 100#64 / dWall).setWidth 32

def Sample.addCpu (parkable : BitVec 32) (reading : Nat → IdleTime) (a : Sample) (cpu : Nat) :
    Sample :=
  if maxCpus ≤ cpu then a
  else if (reading cpu).idle = BitVec.allOnes 64 then a
  else
    let dIdle := (reading cpu).idle - a.prevIdle cpu
    let dWall := (reading cpu).wall - a.prevWall cpu
    { prevIdle := Function.update a.prevIdle cpu (reading cpu).idle
      prevWall := Function.update a.prevWall cpu (reading cpu).wall
      totalUtil :=
        if 0#64 < dWall ∧ dIdle ≤ dWall then a.totalUtil + utilPct dIdle dWall else a.totalUtil
      nrSampled := a.nrSampled + 1
      onlineParkable :=
        if test parkable cpu then a.onlineParkable + 1 else a.onlineParkable }

def Parking.sample (cpus : Cpus) (reading : Nat → IdleTime) (s : Parking) : Sample :=
  (s.onlineCpus cpus).foldl (Sample.addCpu s.params.parkableCpus reading)
    ⟨s.prevIdle, s.prevWall, 0#32, 0#32, 0#32⟩

/-- From the start of the work to the comparisons of `last_avg_util`. -/
def Parking.beginWork (cpus : Cpus) (reading : Nat → IdleTime) (s : Parking) : Parking :=
  if !s.enabled then { s with pending := false, worker := .restoring cpus.possible }
  else
    let a := s.sample cpus reading
    let t := { s with pending := false, prevIdle := a.prevIdle, prevWall := a.prevWall }
    if a.nrSampled = 0 then { t with worker := .resched }
    else { t with lastAvgUtil := a.totalUtil / a.nrSampled, worker := .sampled a.onlineParkable }

/-- The lowest CPU that is parked and parkable. -/
def Parking.toUnpark (s : Parking) : Option Nat :=
  (List.range maxCpus).find? fun cpu =>
    test s.parkedMask cpu && test s.params.parkableCpus cpu

/-- The highest CPU that is parkable, online and not parked. -/
def Parking.toPark (s : Parking) : Option Nat :=
  (List.range maxCpus).reverse.find? fun target =>
    test s.params.parkableCpus target && s.online target && !test s.parkedMask target

/-- The work after the sample; `ok` says whether its hotplug operation succeeds. -/
def Parking.adjust (s : Parking) (onlineParkable : BitVec 32) (ok : Bool) (reading : IdleTime) :
    Parking :=
  if s.params.busyUpPct < s.lastAvgUtil ∧
      0 < weight (s.parkedMask &&& s.params.parkableCpus) then
    match s.toUnpark with
    | some cpu => s.unparkCpu cpu ok reading
    | none => s
  else if s.lastAvgUtil < s.params.busyDownPct ∧ s.params.minOnline < onlineParkable then
    match s.toPark with
    | some target => s.parkCpu target ok
    | none => s
  else s

/-! ## Steps -/

inductive ParkingAction where
  /-- The queued work starts. -/
  | work (reading : Nat → IdleTime)
  | adjust (ok : Bool) (reading : IdleTime)
  | resched
  /-- The next CPU of `unpark_all`, or its end. -/
  | restore (added : Bool) (reading : IdleTime)
  /-- A write to `enabled`, and what `set_enabled` does after it. -/
  | setEnabled (value : Bool)
  | rearm (reading : Nat → IdleTime)
  /-- Writes to the other parameters. -/
  | setParams (params : ParkingParams)
  /-- Somebody else brings a CPU online, or takes it offline. -/
  | plug (cpu : Nat)
  | unplug (cpu : Nat)
  /-- `cancel_delayed_work_sync`, and then the next CPU of `unpark_all`. -/
  | exit
  | exitRestore (added : Bool) (reading : IdleTime)

def Parking.step (cpus : Cpus) (s : Parking) : ParkingAction → Option Parking
  | .work reading =>
    if s.pending ∧ s.worker = .idle ∧ s.lifetime ≠ .unloaded then some (s.beginWork cpus reading)
    else none
  | .adjust ok reading =>
    match s.worker with
    | .sampled onlineParkable =>
      some { s.adjust onlineParkable ok reading with worker := .resched }
    | _ => none
  | .resched =>
    if s.worker = .resched then some { s with pending := true, worker := .idle } else none
  | .restore added reading =>
    match s.worker with
    | .restoring (cpu :: rest) =>
      some { s.unparkAllCpu cpu added reading with worker := .restoring rest }
    | .restoring [] => some { s with worker := .idle }
    | _ => none
  -- the file is gone with the module, and one write waits for the other
  | .setEnabled value =>
    if s.lifetime ≠ .unloaded ∧ s.enabling = false then
      some { s with enabled := value, enabling := !s.enabled && value }
    else none
  | .rearm reading =>
    if s.enabling then
      some { s.snapshotAllOnline cpus reading with pending := true, enabling := false }
    else none
  | .setParams params => if s.lifetime ≠ .unloaded then some { s with params := params } else none
  | .plug cpu =>
    if cpu ∈ cpus.possible ∧ s.online cpu = false then
      some { s with online := Function.update s.online cpu true }
    else none
  | .unplug cpu =>
    if s.online cpu then some { s with online := Function.update s.online cpu false } else none
  | .exit =>
    if s.lifetime = .loaded ∧ s.worker = .idle then
      some { s with pending := false, lifetime := .exiting cpus.possible }
    else none
  | .exitRestore added reading =>
    match s.lifetime with
    | .exiting (cpu :: rest) =>
      some { s.unparkAllCpu cpu added reading with lifetime := .exiting rest }
    | .exiting [] => some { s with lifetime := .unloaded }
    | _ => none

/-- After `cpu_parking_init`. At load `parked_cpus` and `last_avg_util` can be given too, though they
are read-only afterwards; the module is taken as loaded without them, as `modules-load.d` does. -/
def Parking.init (cpus : Cpus) (params : ParkingParams) (enabled : Bool)
    (reading : Nat → IdleTime) : Parking :=
  { Parking.snapshotAllOnline cpus reading
      { params := params, enabled := enabled, parkedMask := 0, lastAvgUtil := 0,
        prevIdle := fun _ => 0, prevWall := fun _ => 0, online := cpus.booted, pending := false,
        enabling := false, worker := .idle, lifetime := .loaded } with pending := true }

end Azurefin
