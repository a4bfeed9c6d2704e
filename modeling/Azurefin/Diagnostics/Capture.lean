import Azurefin.Bluetooth.Address
import Azurefin.Lib.Trace
import Azurefin.Update.Promotion

/-!
# The capture of boot logs

`romulus-capture.sh`, one command at a time, with what it attaches and mounts. A loop device that
is detached while its file system is mounted goes with the unmount, not before. A signal may come
between any two commands: bash then goes to the trap for the end of the script, and a second one
ends the trap. What is put into the snapshots is any text.

## Main definitions

* `Azurefin.Capture.State` — the variables of the script and the machine around it.
* `Azurefin.Capture.next` — one command, or a signal.
-/

namespace Azurefin.Capture

/-! ## The state -/

inductive Kind where
  | kernel
  | journal
  | state
  deriving DecidableEq

/-- `tail -c` -/
def Kind.limit : Kind → Nat
  | kernel | journal => 262144
  | state => 65536

/-- `^[A-F0-9]{4}-[A-F0-9]{4}$` -/
def isFatUuid (t : Text) : Bool :=
  t.length == 9 && (t.take 4).all isUpperHex && t[4]? == some '-' && (t.drop 5).all isUpperHex

/-- `^[a-f0-9-]{36}$` -/
def isToken (t : Text) : Bool :=
  t.length == 36 && t.all fun c => Digest.isHexDigit c || c == '-'

/-- `/dev/sd[a-z][0-9]*` -/
def isCandidate (t : Text) : Bool :=
  "/dev/sd".toList.isPrefixOf t && (t[7]?.any Char.isLower) && (t[8]?.any Char.isDigit) &&
    !(t.drop 9).contains '/'

/-- What is written on the media that are looked for. -/
structure Marker where
  uuid : Text
  token : Text

def Marker.wellFormed (m : Marker) : Bool := isFatUuid m.uuid && isToken m.token

/-- What is mounted at the target. -/
structure Media where
  device : Text
  candidate : Text
  writable : Bool

/-- The next command; `todo` are the candidates that are left. -/
inductive Step where
  /-- the snapshots in memory, and `/dev/sd[a-z][0-9]*` -/
  | sampling
  /-- `[[ -b $candidate ]]` -/
  | probing (candidate : Text) (todo : List Text)
  /-- `blkid` -/
  | identifying (candidate : Text) (todo : List Text)
  /-- `losetup --find --show` -/
  | attaching (candidate : Text) (todo : List Text)
  /-- `mount -o ro` -/
  | mounting (candidate device : Text) (todo : List Text)
  /-- the token on the media -/
  | reading (todo : List Text)
  /-- `mount -o remount,rw` -/
  | remounting (todo : List Text)
  /-- `mounted=true` -/
  | marking
  /-- `umount` of media that are not marked -/
  | refusing (todo : List Text)
  /-- `losetup -d` behind a candidate -/
  | detaching (todo : List Text)
  | making
  | copying (kinds : List Kind)
  | sleeping
  /-- `umount` in `finish` -/
  | unmounting
  /-- `losetup -d` in `finish` -/
  | releasing
  | ended
  deriving DecidableEq

structure State where
  step : Step
  sample : Nat
  /-- The snapshots in memory -/
  ram : Kind → Bytes
  mounted : Bool
  /-- `loop_device`, unless it is empty -/
  loopDevice : Option Text
  /-- The loop devices that the script attached and that are still there -/
  attached : List Text
  /-- Those that `losetup -d` was called for with their file system mounted -/
  clearing : List Text
  media : Option Media
  /-- The snapshots on the media, with their slots -/
  logs : Kind × Nat → Option Bytes

inductive Action where
  | sampled (texts : Kind → Bytes) (devices : List Text)
  | block (isBlock : Bool)
  /-- The output of `blkid`, which is empty when it fails -/
  | uuid (output : Text)
  | attach (device : Option Text)
  | mount (ok : Bool)
  | token (output : Text)
  | remount (ok : Bool)
  | mark
  | unmount (ok : Bool)
  | detach (ok : Bool)
  | make (ok : Bool)
  | copied
  /-- `cp` fails, and leaves the file as it is or with a part of the new one. -/
  | copyFailed (written : Option Nat)
  | slept
  /-- `TERM` or `INT` -/
  | signal
  | killed

/-! ## The script -/

/-- `tail -c n` -/
def tail (n : Nat) (data : Bytes) : Bytes := data.drop (data.length - n)

def samples : Nat := 120

/-- The next candidate; without one the sample is over. -/
def search : List Text → Step
  | [] => .sleeping
  | candidate :: todo => .probing candidate todo

/-- `finish` -/
def State.finish (s : State) : State := { s with
  step := if s.mounted then .unmounting else if s.loopDevice.isSome then .releasing else .ended }

def kinds : List Kind := [.kernel, .journal, .state]

/-- The end of a sample -/
def State.slept (s : State) : State :=
  if s.sample + 1 < samples then { s with sample := s.sample + 1, step := .sampling }
  else { s with sample := s.sample + 1 }.finish

/-- Behind a copy -/
def copyNext : List Kind → Step
  | [] => .sleeping
  | rest => .copying rest

/-- The media are mounted from this device. -/
def State.backs (s : State) (device : Text) : Bool := s.media.any (·.device == device)

/-- `umount`; the kernel now drops a loop device that was to be cleared. -/
def State.unmounted (s : State) : State := { s with
  media := none
  attached := s.attached.filter fun d => !(s.backs d && s.clearing.contains d)
  clearing := s.clearing.filter fun d => !s.backs d }

/-- `losetup -d "$loop_device"`; the kernel keeps a device whose file system is mounted until then. -/
def State.detached (s : State) : State :=
  if s.loopDevice.any s.backs then { s with clearing := s.loopDevice.toList ++ s.clearing }
  else { s with attached := s.attached.filter fun d => some d != s.loopDevice }

/-- `losetup -d`, and the variable is cleared or the script ends. -/
def State.detach (s : State) (ok : Bool) (todo : List Text) : State :=
  if ok then { s.detached with loopDevice := none, step := search todo }
  else s.finish

def Step.finishing : Step → Bool
  | .unmounting | .releasing | .ended => true
  | _ => false

def next (m : Marker) (s : State) : Action → Option State
  | .sampled texts devices =>
    match s.step with
    | .sampling =>
      if devices.all isCandidate then some { s with
        ram := fun kind => tail kind.limit (texts kind)
        step := if s.mounted then .copying kinds else search devices }
      else none
    | _ => none
  | .block isBlock =>
    match s.step with
    | .probing candidate todo => some { s with
        step := if isBlock then .identifying candidate todo else search todo }
    | _ => none
  | .uuid output =>
    match s.step with
    | .identifying candidate todo => some { s with
        step := if stripNewlines output = m.uuid then .attaching candidate todo else search todo }
    | _ => none
  | .attach device =>
    match s.step with
    | .attaching candidate todo =>
      match device with
      | none => some { s with loopDevice := none, step := search todo }
      | some device => some { s with
          loopDevice := some device
          attached := device :: s.attached
          step := .mounting candidate device todo }
    | _ => none
  | .mount ok =>
    match s.step with
    | .mounting candidate device todo =>
      if ok then some { s with media := some ⟨device, candidate, false⟩, step := .reading todo }
      else some { s with step := .detaching todo }
    | _ => none
  | .token output =>
    match s.step with
    | .reading todo => some { s with
        step := if stripNewlines output = m.token then .remounting todo else .refusing todo }
    | _ => none
  | .remount ok =>
    match s.step with
    | .remounting todo =>
      if ok then some { s with
        media := s.media.map fun media => { media with writable := true }
        step := .marking }
      else some { s with step := .refusing todo }
    | _ => none
  | .mark =>
    match s.step with
    | .marking => some { s with mounted := true, step := .making }
    | _ => none
  | .unmount ok =>
    match s.step with
    | .refusing todo =>
      if ok then some { s.unmounted with step := .detaching todo }
      else some s.finish
    | .unmounting => some { if ok then s.unmounted else s with
        step := if s.loopDevice.isSome then .releasing else .ended }
    | _ => none
  | .detach ok =>
    match s.step with
    | .detaching todo => some (s.detach ok todo)
    | .releasing => some { if ok then s.detached else s with step := .ended }
    | _ => none
  | .make ok =>
    match s.step with
    | .making => if ok then some { s with step := .copying kinds } else some s.finish
    | _ => none
  | .copied =>
    match s.step with
    | .copying (kind :: rest) => some { s with
        logs := Function.update s.logs (kind, s.sample % 2) (some (s.ram kind))
        step := copyNext rest }
    | _ => none
  | .copyFailed written =>
    match s.step with
    | .copying (kind :: _) =>
      match written with
      | none => some s.finish
      | some n => some { s with
          logs := Function.update s.logs (kind, s.sample % 2) (some ((s.ram kind).take n)) }.finish
    | _ => none
  | .slept =>
    match s.step with
    | .sleeping => some s.slept
    | _ => none
  | .signal =>
    match s.step with
    | .ended => none
    | .unmounting | .releasing => some { s with step := .ended }
    | _ => some s.finish
  | .killed =>
    match s.step with
    | .ended => none
    | _ => some { s with step := .ended }

/-- The start of the loop, with a well-formed marker -/
def start (m : Marker) : Option State :=
  if m.wellFormed then
    some ⟨.sampling, 0, fun _ => [], false, none, [], [], none, fun _ => none⟩
  else none

end Azurefin.Capture
