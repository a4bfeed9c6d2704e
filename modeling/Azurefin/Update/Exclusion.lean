import Azurefin.Lib.Flock
import Azurefin.Update.Deployments

/-!
# Setup beside the update commands

One run of `azurefin-setup-firmware` beside any number of runs of the commands that stage a
deployment, step by step. `ujust update` and `uupd.service` take the lock of setup, and
`azurefin-update` takes another one: nothing gets staged while setup relies on its check of the
host exactly when no run of `azurefin-update --stage` gets to `bootc switch` in that time,
`unstaged_iff`.

`flock` is given up when the process ends, and whatever a process does besides is left out.
-/

namespace Azurefin

/-- `/var/lib/azurefin/firmware-store.lock` and `/var/lib/azurefin/provisioning/setup.lock`. -/
inductive LockFile where
  | firmwareStore
  | provisioning
  deriving DecidableEq

/-- A command that stages: `ujust update` and `uupd.service`, or `azurefin-update`, with or
without `--stage`. -/
inductive Entry where
  | channel
  | release (stage : Bool)
  deriving DecidableEq

def Entry.lockFile : Entry → LockFile
  | channel => .firmwareStore
  | release _ => .provisioning

/-- Setup, or the run of a command. -/
inductive Process where
  | setup
  | update (n : Nat)
  deriving DecidableEq

inductive SetupPhase where
  | idle
  | locked
  | validated (uuid : Text)
  | optedIn
  | ended
  deriving DecidableEq

inductive UpdatePhase where
  | idle
  | locked
  | ready
  | staged
  | ended
  deriving DecidableEq

/-- What `bootc status` reports, the kernel argument, the locks, and how far each process is. -/
structure Site where
  status : Json
  bootUuid : Option Text
  locks : Flock LockFile Process
  setup : SetupPhase
  update : Nat → UpdatePhase

/-- The report names a staged deployment. -/
def stagedIn (status : Json) : Bool :=
  match (status.getD "status".toList (.obj []) >>= fun host => host.get "staged".toList) with
  | .ok staged => staged.truthy
  | .error _ => false

inductive SetupStep where
  | lock
  | validate (mounts : Json) (cmdline : Text)
  | setKargs
  | finish

inductive UpdateStep where
  | lock
  | preflight (files : ImageFiles) (boot : Tree) (inputs : PreflightInputs)
  | prepare (free : Int) (payload : Except PyError Text)
  | stage (status : Json)
  | finish

inductive Move where
  | setup (a : SetupStep)
  | update (n : Nat) (a : UpdateStep)

/-- `shutil.disk_usage(RUNS).free < 60 * 1024**3` is an error. -/
def minPrepareFree : Int := 60 * 1024 ^ 3

def Site.stepSetup (s : Site) : SetupStep → Option Site
  | .lock =>
    if s.setup = .idle then
      (s.locks.lock .firmwareStore .setup).map fun l => { s with locks := l, setup := .locked }
    else none
  | .validate mounts cmdline =>
    match s.setup, validateHost mounts cmdline s.status with
    | .locked, .ok uuid => some { s with setup := .validated uuid }
    | _, _ => none
  | .setKargs =>
    match s.setup with
    | .validated uuid => some { s with setup := .optedIn, bootUuid := some uuid }
    | _ => none
  | .finish => some { s with setup := .ended, locks := s.locks.unlock .firmwareStore .setup }

/-- A step of a run of the command `entry`. -/
def Site.stepUpdate (entry : Entry) (s : Site) (n : Nat) : UpdateStep → Option Site
  | .lock =>
    if s.update n = .idle then
      (s.locks.lock entry.lockFile (.update n)).map fun l =>
        { s with locks := l, update := Function.update s.update n .locked }
    else none
  | .preflight files boot inputs =>
    match entry, s.update n, updatePreflight files boot { inputs with status := .ok s.status } with
    | .channel, .locked, .ok () => some { s with update := Function.update s.update n .ready }
    | _, _, _ => none
  | .prepare free payload =>
    match entry, s.update n, payload with
    | .release true, .locked, .ok _ =>
      if free < minPrepareFree then none
      else some { s with update := Function.update s.update n .ready }
    | _, _, _ => none
  -- `bootc upgrade` or `bootc switch`
  | .stage status =>
    if s.update n = .ready ∧ stagedIn status then
      some { s with status := status, update := Function.update s.update n .staged }
    else none
  | .finish => some { s with update := Function.update s.update n .ended,
                             locks := s.locks.unlock entry.lockFile (.update n) }

def Site.step (entry : Nat → Entry) (s : Site) : Move → Option Site
  | .setup a => s.stepSetup a
  | .update n a => s.stepUpdate (entry n) n a

/-- Nothing runs. -/
def Site.start (status : Json) (bootUuid : Option Text) : Site :=
  ⟨status, bootUuid, .free, .idle, fun _ => .idle⟩

/-- Setup has seen a host without a staged deployment, and `set-kargs` has not ended. -/
def Site.Relying (s : Site) : Prop := ∃ uuid, s.setup = .validated uuid

variable {entry : Nat → Entry} {s t : Site}

/-! ## Steps -/

/-- What a step of setup does. -/
theorem stepSetup_cases {a : SetupStep} (h : s.stepSetup a = some t) :
    (∃ l, s.locks.lock .firmwareStore .setup = some l ∧
      t = { s with locks := l, setup := .locked }) ∨
    (∃ mounts cmdline uuid, validateHost mounts cmdline s.status = .ok uuid ∧
      s.setup = .locked ∧ t = { s with setup := .validated uuid }) ∨
    (∃ uuid, s.setup = .validated uuid ∧
      t = { s with setup := .optedIn, bootUuid := some uuid }) ∨
    t = { s with setup := .ended, locks := s.locks.unlock .firmwareStore .setup } := by
  cases a with
  | lock =>
    simp only [Site.stepSetup, Option.ite_none_right_eq_some, Option.map_eq_some_iff] at h
    obtain ⟨-, l, hl, rfl⟩ := h
    exact .inl ⟨l, hl, rfl⟩
  | validate mounts cmdline =>
    simp only [Site.stepSetup] at h
    split at h
    case h_1 hlocked hvalid => exact .inr (.inl ⟨_, _, _, hvalid, hlocked, (Option.some.inj h).symm⟩)
    case h_2 => cases h
  | setKargs =>
    simp only [Site.stepSetup] at h
    split at h
    case h_1 hvalidated => exact .inr (.inr (.inl ⟨_, hvalidated, (Option.some.inj h).symm⟩))
    case h_2 => cases h
  | finish => exact .inr (.inr (.inr (Option.some.inj h).symm))

/-- What a step of an update command does. -/
theorem stepUpdate_cases {e : Entry} {n : Nat} {a : UpdateStep} (h : s.stepUpdate e n a = some t) :
    (∃ l, s.locks.lock e.lockFile (.update n) = some l ∧
      t = { s with locks := l, update := Function.update s.update n .locked }) ∨
    (s.update n = .locked ∧ t = { s with update := Function.update s.update n .ready }) ∨
    (∃ status, a = .stage status ∧ stagedIn status = true ∧ s.update n = .ready ∧
      t = { s with status := status, update := Function.update s.update n .staged }) ∨
    t = { s with update := Function.update s.update n .ended,
                 locks := s.locks.unlock e.lockFile (.update n) } := by
  cases a with
  | lock =>
    simp only [Site.stepUpdate, Option.ite_none_right_eq_some, Option.map_eq_some_iff] at h
    obtain ⟨-, l, hl, rfl⟩ := h
    exact .inl ⟨l, hl, rfl⟩
  | preflight files boot inputs =>
    simp only [Site.stepUpdate] at h
    split at h
    case h_1 hlocked _ => exact .inr (.inl ⟨hlocked, (Option.some.inj h).symm⟩)
    case h_2 => cases h
  | prepare free payload =>
    simp only [Site.stepUpdate] at h
    split at h
    case h_1 hlocked =>
      simp only [Option.ite_none_left_eq_some] at h
      exact .inr (.inl ⟨hlocked, (Option.some.inj h.2).symm⟩)
    case h_2 => cases h
  | stage status =>
    simp only [Site.stepUpdate, Option.ite_none_right_eq_some, Option.some.injEq] at h
    obtain ⟨⟨hready, hstaged⟩, rfl⟩ := h
    exact .inr (.inr (.inl ⟨status, rfl, hstaged, hready, rfl⟩))
  | finish => exact .inr (.inr (.inr (Option.some.inj h).symm))

/-! ## The locks -/

def SetupPhase.critical : SetupPhase → Bool
  | locked | validated _ | optedIn => true
  | _ => false

def UpdatePhase.critical : UpdatePhase → Bool
  | locked | ready | staged => true
  | _ => false

/-- The sections between taking a lock and giving it up. -/
def Site.Critical (entry : Nat → Entry) (s : Site) : Process → LockFile → Prop
  | .setup, k => k = .firmwareStore ∧ s.setup.critical = true
  | .update n, k => k = (entry n).lockFile ∧ (s.update n).critical = true

/-- Every process in its section holds its lock. -/
def Site.Guarded (entry : Nat → Entry) (s : Site) : Prop := s.locks.Guarded (s.Critical entry)

/-- One run of a command moves on: the sections of the others are as they were. -/
theorem Site.critical_update {n : Nat} {phase : UpdatePhase} {status : Json}
    {locks : Flock LockFile Process} {q : Process} {j : LockFile}
    (h : Site.Critical entry { s with status := status, locks := locks,
                                      update := Function.update s.update n phase } q j) :
    s.Critical entry q j ∧ q ≠ .update n ∨
      q = .update n ∧ j = (entry n).lockFile ∧ phase.critical = true := by
  cases q with
  | setup => exact .inl ⟨h, nofun⟩
  | update m =>
    by_cases hm : m = n
    · subst hm
      refine .inr ⟨rfl, h.1, ?_⟩
      simpa using h.2
    · refine .inl ⟨⟨h.1, ?_⟩, by simpa using hm⟩
      have h2 := h.2
      simp only [Function.update_of_ne hm] at h2
      exact h2

/-- Setup moves on. -/
theorem Site.critical_setup {phase : SetupPhase} {uuid : Option Text}
    {locks : Flock LockFile Process} {q : Process} {j : LockFile}
    (h : Site.Critical entry { s with setup := phase, bootUuid := uuid, locks := locks } q j) :
    s.Critical entry q j ∧ q ≠ .setup ∨
      q = .setup ∧ j = .firmwareStore ∧ phase.critical = true := by
  cases q with
  | setup => exact .inr ⟨rfl, h⟩
  | update m => exact .inl ⟨h, nofun⟩

/-- The step lemma: every step keeps the locks guarding. -/
theorem Site.Guarded.step {m : Move} (hg : s.Guarded entry) (h : s.step entry m = some t) :
    t.Guarded entry := by
  cases m with
  | setup a =>
    rcases stepSetup_cases h with ⟨l, hl, rfl⟩ | ⟨_, _, uuid, -, hphase, rfl⟩ | ⟨uuid, hphase, rfl⟩ |
      rfl
    · refine Flock.Guarded.lock hg hl fun q j hq => ?_
      exact (critical_setup hq).imp And.left fun hq => ⟨hq.1, hq.2.1⟩
    · refine Flock.Guarded.mono hg fun q j hq => ?_
      rcases critical_setup hq with hq | ⟨rfl, rfl, -⟩
      · exact hq.1
      · exact ⟨rfl, by rw [hphase]; rfl⟩
    · refine Flock.Guarded.mono hg fun q j hq => ?_
      rcases critical_setup hq with hq | ⟨rfl, rfl, -⟩
      · exact hq.1
      · exact ⟨rfl, by rw [hphase]; rfl⟩
    · refine Flock.Guarded.unlock hg fun q j hq => ?_
      exact (critical_setup hq).resolve_right fun hq => by cases hq.2.2
  | update n a =>
    rcases stepUpdate_cases h with ⟨l, hl, rfl⟩ | ⟨hphase, rfl⟩ | ⟨_, -, -, hphase, rfl⟩ | rfl
    · refine Flock.Guarded.lock hg hl fun q j hq => ?_
      exact (critical_update hq).imp And.left fun hq => ⟨hq.1, hq.2.1⟩
    · refine Flock.Guarded.mono hg fun q j hq => ?_
      rcases critical_update hq with hq | ⟨rfl, rfl, -⟩
      · exact hq.1
      · exact ⟨rfl, by rw [hphase]; rfl⟩
    · refine Flock.Guarded.mono hg fun q j hq => ?_
      rcases critical_update hq with hq | ⟨rfl, rfl, -⟩
      · exact hq.1
      · exact ⟨rfl, by rw [hphase]; rfl⟩
    · refine Flock.Guarded.unlock hg fun q j hq => ?_
      exact (critical_update hq).resolve_right fun hq => by cases hq.2.2

theorem Site.guarded_start (status : Json) (bootUuid : Option Text) :
    (Site.start status bootUuid).Guarded entry := by
  rintro (_ | n) k ⟨-, hc⟩ <;> cases hc

/-- Nothing that takes the lock of setup stages while setup relies on its check. -/
theorem Site.Guarded.not_channel {n : Nat} (hg : s.Guarded entry) (hr : s.Relying)
    (hready : s.update n = .ready) : entry n ≠ .channel := by
  intro hchannel
  obtain ⟨uuid, huuid⟩ := hr
  have hsetup : s.Critical entry .setup .firmwareStore := ⟨rfl, by rw [huuid]; rfl⟩
  have hupdate : s.Critical entry (.update n) .firmwareStore :=
    ⟨by rw [hchannel]; rfl, by rw [hready]; rfl⟩
  cases Flock.Guarded.exclusive hg hsetup hupdate

/-! ## Runs -/

open Trace

/-- In no state of the run is a deployment staged while setup relies on its check. -/
def Unstaged (entry : Nat → Entry) (start : Site) (l : List Move) : Prop :=
  ∀ l₁ l₂ s, l = l₁ ++ l₂ → run (Site.step entry) l₁ start = some s → s.Relying →
    stagedIn s.status = false

/-- No run of `azurefin-update --stage` gets to `bootc switch` while setup relies on its check. -/
def NoSwitch (entry : Nat → Entry) (start : Site) (l : List Move) : Prop :=
  ∀ l₁ n status l₂ s, l = l₁ ++ .update n (.stage status) :: l₂ →
    run (Site.step entry) l₁ start = some s → s.Relying → entry n = .channel

theorem NoSwitch.of_append {start : Site} {l m : List Move} (h : NoSwitch entry start (l ++ m)) :
    NoSwitch entry start l := by
  intro l₁ n status l₂ s hl
  apply h l₁ n status (l₂ ++ m) s
  rw [hl]
  simp

/-- Setup only relies on a host without a staged deployment. -/
theorem stagedIn_of_validateHost {mounts status : Json} {cmdline uuid : Text}
    (h : validateHost mounts cmdline status = .ok uuid) : stagedIn status = false := by
  simp only [validateHost, Except.bind_eq_ok] at h
  obtain ⟨host, hhost, booted, -, staged, hstaged, queued, -, overlay, -, h⟩ := h
  split at h
  case isTrue => cases h
  case isFalse hc =>
    simp only [Bool.or_eq_true, not_or, Bool.not_eq_true] at hc
    simp only [stagedIn, hhost, Except.ok_bind, hstaged, hc.1.1.2]

/-- The step lemma: nothing gets staged, as long as nothing is switched. -/
theorem unstaged_step {m : Move} (hg : s.Guarded entry)
    (hs : s.Relying → stagedIn s.status = false) (h : s.step entry m = some t)
    (hswitch : ∀ n status, m = .update n (.stage status) → s.Relying → entry n = .channel) :
    t.Relying → stagedIn t.status = false := by
  rintro ⟨uuid, hr⟩
  cases m with
  | setup a =>
    rcases stepSetup_cases h with ⟨l, -, rfl⟩ | ⟨_, _, _, hvalid, -, rfl⟩ | ⟨_, -, rfl⟩ | rfl
    · cases hr
    · exact stagedIn_of_validateHost hvalid
    · cases hr
    · cases hr
  | update n a =>
    rcases stepUpdate_cases h with ⟨l, -, rfl⟩ | ⟨-, rfl⟩ | ⟨status, rfl, -, hready, rfl⟩ | rfl
    · exact hs ⟨uuid, hr⟩
    · exact hs ⟨uuid, hr⟩
    · exact absurd (hswitch n status rfl ⟨uuid, hr⟩) (hg.not_channel ⟨uuid, hr⟩ hready)
    · exact hs ⟨uuid, hr⟩

/-- **When provisioning and staging exclude each other**: in every run, nothing is staged while
setup relies on its check exactly when `azurefin-update --stage` does not switch in that time. -/
theorem unstaged_iff {l : List Move} {status : Json} {bootUuid : Option Text}
    (h : run (Site.step entry) l (.start status bootUuid) = some t) :
    Unstaged entry (.start status bootUuid) l ↔ NoSwitch entry (.start status bootUuid) l := by
  constructor
  · intro hunstaged l₁ n report l₂ s hl hs hr
    subst hl
    obtain ⟨s', hs', hrest⟩ := run_append_eq_some.mp h
    obtain rfl : s' = s := Option.some.inj (hs'.symm.trans hs)
    obtain ⟨u, hu, -⟩ := run_cons_eq_some.mp hrest
    have hafter := hunstaged (l₁ ++ [.update n (.stage report)]) l₂ u (by simp)
      (run_append_eq_some.mpr ⟨s', hs, run_cons_eq_some.mpr ⟨u, hu, rfl⟩⟩)
    simp only [Site.step, Site.stepUpdate, Option.ite_none_right_eq_some, Option.some.injEq] at hu
    obtain ⟨⟨-, hstaged⟩, rfl⟩ := hu
    rw [hafter hr] at hstaged
    cases hstaged
  · intro hswitch l₁ l₂ s hl hs
    subst hl
    have hinv := run_induction (I := fun l s => NoSwitch entry (.start status bootUuid) l →
        s.Guarded entry ∧ (s.Relying → stagedIn s.status = false))
      (fun _ => ⟨Site.guarded_start status bootUuid, fun ⟨_, hr⟩ => by cases hr⟩) ?_ hs
    · exact (hinv hswitch.of_append).2
    · intro l m u v hu ih hv hl
      obtain ⟨hg, hs⟩ := ih hl.of_append
      refine ⟨hg.step hv, unstaged_step hg hs hv fun n report hm hr => ?_⟩
      subst hm
      exact hl l n report [] u rfl hu hr

/-! ## A switch during setup -/

def sampleStagedStatus : Json := .obj [("status".toList, .obj [
  ("booted".toList, .obj [("image".toList, .obj [("version".toList, .str "v1.2.0".toList)])]),
  ("staged".toList, .obj [("image".toList, .obj [("version".toList, .str "v1.3.0".toList)])])])]

/-- `azurefin-update --stage` prepares an image, setup checks the host, and the switch follows. -/
def sampleMoves : List Move :=
  [.update 0 .lock, .update 0 (.prepare (2 ^ 40) (.ok "payload".toList)), .setup .lock,
    .setup (.validate sampleMounts "quiet".toList), .update 0 (.stage sampleStagedStatus)]

def sampleSite : Site where
  status := sampleStagedStatus
  bootUuid := none
  locks := ⟨Function.update (Function.update (fun _ => none) .provisioning (some (.update 0)))
    .firmwareStore (some .setup)⟩
  setup := .validated "11111111-2222-3333-4444-555555555555".toList
  update := Function.update (Function.update (Function.update (fun _ => .idle) 0 .locked) 0 .ready)
    0 .staged

theorem sampleMoves_run : run (Site.step fun _ => .release true) sampleMoves
    (.start sampleStatus none) = some sampleSite := by
  have hvalid : validateHost sampleMounts "quiet".toList sampleStatus =
      .ok "11111111-2222-3333-4444-555555555555".toList := by decide +kernel
  have hstaged : stagedIn sampleStagedStatus = true := by decide +kernel
  have hfree : ¬ (2 : Int) ^ 40 < minPrepareFree := by decide
  simp only [sampleMoves, run, Site.step, Site.stepUpdate, Site.stepSetup, Site.start, Flock.lock,
    Flock.free, Entry.lockFile, Option.map_some, if_true, Function.update_self, hstaged, and_true,
    Option.bind_some, hfree, if_false, ne_eq, reduceCtorEq, not_false_eq_true,
    Function.update_of_ne, hvalid]
  rfl

theorem unstaged_sample :
    Unstaged (fun _ => .release true) (.start sampleStatus none) sampleMoves ↔
      NoSwitch (fun _ => .release true) (.start sampleStatus none) sampleMoves :=
  unstaged_iff sampleMoves_run

/-- A deployment gets staged after setup has checked the host and before it sets the argument. -/
theorem staged_while_relying :
    ∃ s, run (Site.step fun _ => .release true) sampleMoves (.start sampleStatus none) = some s ∧
      s.Relying ∧ stagedIn s.status = true :=
  ⟨sampleSite, sampleMoves_run, ⟨_, rfl⟩, by decide +kernel⟩

end Azurefin
