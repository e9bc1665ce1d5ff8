import Polywan.Discover

/-!
# Health checkpoints

What the state directory keeps of the health of the paths, and what a restart resumes from
it.

## Main definitions

* `Checkpoint`, `Checkpoint.valid` — a checkpoint, and whether a restart may use it.
* `Checkpoint.warm` — the state a path resumes.
-/

namespace Polywan

/-- A path in a checkpoint: its identity, its state and its counters. -/
structure PathCheckpoint where
  uplink : UplinkId
  family : Family
  ifindex : Option ℕ
  source : Option IpAddr
  gateway : Option IpAddr
  up : Bool
  passes : ℕ
  failures : ℕ
deriving DecidableEq

structure Checkpoint where
  bootId : String
  /-- Time since boot, in milliseconds, when written. -/
  boottimeMs : ℕ
  structural : Structural
  paths : List PathCheckpoint
  activeV4 : List UplinkId
  activeV6 : List UplinkId
deriving DecidableEq

/-- Maximum age of a usable checkpoint. -/
def checkpointMaxAgeMs : ℕ := 10 * 60 * 1000

namespace Checkpoint

/-- Valid: same boot, younger than 10 minutes, same structural settings. -/
def valid (c : Checkpoint) (bootId : String) (nowMs : ℕ) (structural : Structural) : Bool :=
  c.bootId = bootId && c.boottimeMs ≤ nowMs && nowMs - c.boottimeMs < checkpointMaxAgeMs
    && c.structural = structural

/-- What a path resumes from a checkpoint, when its identity is unchanged. -/
def warm (c : Checkpoint) (k : PathKey) (d : Discovered) : Option Health.Snapshot :=
  (c.paths.find? fun p => p.uplink = k.uplink && p.family = k.family).bind fun p =>
    let ready := d.ready.toOption
    if p.ifindex = d.ifindex ∧ p.source = ready.map ReadyPath.source
        ∧ p.gateway = ready.bind ReadyPath.gateway then
      some { state := if p.up then .up else .down, passes := p.passes, failures := p.failures }
    else none

end Checkpoint

/-- The machine of a path at startup, from the checkpoint found. -/
def loadCheckpoint (file : Option Checkpoint) (bootId : String) (nowMs : ℕ)
    (structural : Structural) (k : PathKey) (d : Discovered) : Health.Machine :=
  let warm := (file.filter fun c => c.valid bootId nowMs structural).bind fun c => c.warm k d
  match d.ready with
  | .ok _ => .new true .startup warm
  | .error reason => .new false reason warm

end Polywan
