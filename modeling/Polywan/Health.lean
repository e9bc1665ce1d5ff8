import Mathlib.Data.Nat.Notation

/-!
# The health of a path

The state machine of a path: readiness changes act at once, completed probe rounds
through hysteresis.  The counters saturate at 255, as the source's bytes do.

## Main definitions

* `Health.Machine` — the machine; one that is not ready is down, by construction.
* `Health.Machine.setReady`, `Health.Machine.round` — its two inputs.
-/

namespace Polywan

namespace Health

inductive State where
  | down
  | up
deriving DecidableEq

/-- Reason of a transition. -/
inductive Reason where
  | probeFailed
  | degraded
  | carrierLost
  | interfaceRemoved
  | addressLost
  | addressConflict
  | gatewayLost
  | routeInstallFailed
  | probesRecovered
  | startup
deriving DecidableEq

/-- Outcome of a completed probe round. -/
inductive Round where
  | passed
  | failed
  /-- Passed reachability but violated a quality gate. -/
  | degraded
deriving DecidableEq

structure Transition where
  before : State
  after : State
  reason : Reason
deriving DecidableEq

/-- Hysteresis settings. -/
structure Hysteresis where
  fall : ℕ
  rise : ℕ
deriving DecidableEq

/-- Checkpointed part of the machine. -/
structure Snapshot where
  state : State
  passes : ℕ
  failures : ℕ
deriving DecidableEq

structure Machine where
  state : State
  reason : Reason
  passes : ℕ
  failures : ℕ
  /-- Cold start: the first completed round sets the state directly. -/
  optimistic : Bool
  ready : Bool
  down_of_not_ready : ready = false → state = .down
deriving DecidableEq

/-- One more in a byte. -/
def saturatingSucc (n : ℕ) : ℕ := min (n + 1) 255

/-- The reason of a round that did not pass. -/
def failureReason : Round → Reason
  | .degraded => .degraded
  | _ => .probeFailed

namespace Machine

/-- A path that is not ready starts down, one with a checkpoint resumes it, any other
is up until its first round. -/
def new (ready : Bool) (notReadyReason : Reason) (warm : Option Snapshot) : Machine :=
  match ready, warm with
  | false, _ =>
    { state := .down, reason := notReadyReason, passes := 0, failures := 0, optimistic := false
      ready := false, down_of_not_ready := fun _ => rfl }
  | true, some s =>
    { state := s.state, reason := .startup, passes := s.passes, failures := s.failures
      optimistic := false, ready := true, down_of_not_ready := nofun }
  | true, none =>
    { state := .up, reason := .startup, passes := 0, failures := 0, optimistic := true
      ready := true, down_of_not_ready := nofun }

def isUp (m : Machine) : Bool := m.state = .up

def snapshot (m : Machine) : Snapshot where
  state := m.state
  passes := m.passes
  failures := m.failures

/-- What going to a state reports. -/
def transition (m : Machine) (target : State) (reason : Reason) : Option Transition :=
  if m.state = target then none else some ⟨m.state, target, reason⟩

/-- The machine of a ready path in another state. -/
def go (m : Machine) (h : m.ready = true) (target : State) (reason : Reason) :
    Machine × Option Transition :=
  ({ m with state := target, reason := reason, down_of_not_ready := by simp [h] },
    m.transition target reason)

/-- Readiness change: losing readiness is immediate; a path that becomes ready again
starts down and needs `rise` passed rounds. -/
def setReady (m : Machine) (ready : Bool) (reason : Reason) : Machine × Option Transition :=
  if ready = m.ready then (m, none)
  else match ready with
    | true =>
      ({ m with ready := true, passes := 0, failures := 0, optimistic := false
                down_of_not_ready := nofun }, none)
    | false =>
      ({ m with ready := false, passes := 0, failures := 0, optimistic := false
                state := .down, reason, down_of_not_ready := fun _ => rfl },
        m.transition .down reason)

/-- A completed round; rounds of a path that is not ready are ignored. -/
def round (m : Machine) (r : Round) (h : Hysteresis) : Machine × Option Transition :=
  if hr : m.ready = true then
    if m.optimistic then
      match r with
      | .passed => ({ m with optimistic := false, passes := 1 }, none)
      | r => go { m with optimistic := false, failures := 1 } hr .down (failureReason r)
    else
      match r with
      | .passed =>
        let m' : Machine := { m with failures := 0, passes := saturatingSucc m.passes }
        if m'.state = .down ∧ h.rise ≤ m'.passes then go m' hr .up .probesRecovered
        else (m', none)
      | r =>
        let m' : Machine := { m with passes := 0, failures := saturatingSucc m.failures }
        if m'.state = .up ∧ h.fall ≤ m'.failures then go m' hr .down (failureReason r)
        else (m', none)
  else (m, none)

/-- Nothing changes while the readiness stays. -/
theorem setReady_self (m : Machine) (reason : Reason) : m.setReady m.ready reason = (m, none) :=
  if_pos rfl

@[simp] theorem ready_setReady (m : Machine) (ready : Bool) (reason : Reason) :
    (m.setReady ready reason).1.ready = ready := by
  unfold setReady
  by_cases h : ready = m.ready
  · rw [if_pos h]
    exact h.symm
  · rw [if_neg h]
    cases ready <;> rfl

/-- Rounds never change the readiness. -/
@[simp] theorem ready_round (m : Machine) (r : Round) (h : Hysteresis) :
    (m.round r h).1.ready = m.ready := by
  unfold round go
  split
  · split
    · cases r <;> rfl
    · cases r <;> simp only <;> split <;> rfl
  · rfl

end Machine

end Health

end Polywan
