import Polywan.Health

/-!
# Hysteresis on histories

What the machine of a path decides round by round, said on the whole history of its
inputs: which readiness was told last, which rounds completed since it changed, and how
many of them in a row, up to the latest, did or did not pass.  A warm start counts on
from the counters of its checkpoint until a round breaks them.

## Main definitions

* `Health.Start`, `Health.Start.run` — a start of the machine, and the machine after a
  history.
* `Health.Start.passedInRow`, `Health.Start.failedInRow` — the rounds in a row.
* `Health.Start.Determined` — what the history determines.

## Main results

* `Health.Start.determined` — every history determines the machine so.
-/

namespace Polywan

namespace Health

/-- How a machine starts: cold, warm, or not ready. -/
structure Start where
  ready : Bool
  notReadyReason : Reason
  warm : Option Snapshot

/-- An input of the machine. -/
inductive Input where
  | setReady (ready : Bool) (reason : Reason)
  | round (r : Round) (h : Hysteresis)

/-- The machine after an input, and the transition it reports. -/
def Machine.step (m : Machine) : Input → Machine × Option Transition
  | .setReady ready reason => m.setReady ready reason
  | .round r h => m.round r h

/-- The rounds that count towards `rise`. -/
def Round.pass : Round → Bool
  | .passed => true
  | .failed | .degraded => false

@[simp] theorem Round.pass_iff (r : Round) : r.pass = true ↔ r = .passed := by
  cases r <;> simp [pass]

@[simp] theorem Round.not_pass_iff (r : Round) : r.pass = false ↔ r ≠ .passed := by
  cases r <;> simp [pass]

/-- The latest rounds of a kind in a row (latest first), counted on from `warm` when no
other round came before them. -/
def streak (kind : Round → Bool) (warm : ℕ) : List Round → ℕ
  | [] => warm
  | r :: earlier => if kind r then streak kind warm earlier + 1 else 0

namespace Start

/-- The machine after a history, which lists its inputs latest first. -/
def run (s : Start) : List Input → Machine
  | [] => Machine.new s.ready s.notReadyReason s.warm
  | i :: earlier => ((s.run earlier).step i).1

/-- The readiness told last. -/
def readyAfter (s : Start) : List Input → Bool
  | [] => s.ready
  | .setReady ready _ :: _ => ready
  | .round _ _ :: earlier => s.readyAfter earlier

/-- The rounds since the readiness changed or the machine started, latest first. -/
def rounds (s : Start) : List Input → List Round
  | [] => []
  | .setReady ready _ :: earlier => if ready = s.readyAfter earlier then s.rounds earlier else []
  | .round r _ :: earlier => r :: s.rounds earlier

/-- The readiness has never changed. -/
def steady (s : Start) : List Input → Bool
  | [] => true
  | .setReady ready _ :: earlier => ready = s.readyAfter earlier && s.steady earlier
  | .round _ _ :: earlier => s.steady earlier

/-- A counter of the checkpoint, while the readiness has never changed. -/
def carried (s : Start) (counter : Snapshot → ℕ) (inputs : List Input) : ℕ :=
  bif s.steady inputs then (s.warm.map counter).getD 0 else 0

/-- The rounds in a row that passed, in a byte. -/
def passedInRow (s : Start) (inputs : List Input) : ℕ :=
  min 255 (streak Round.pass (s.carried Snapshot.passes inputs) (s.rounds inputs))

/-- The rounds in a row that did not pass, in a byte. -/
def failedInRow (s : Start) (inputs : List Input) : ℕ :=
  min 255 (streak (fun r => !r.pass) (s.carried Snapshot.failures inputs) (s.rounds inputs))

/-- The next round is the first of a cold start. -/
def AwaitsFirst (s : Start) (inputs : List Input) : Prop :=
  s.ready = true ∧ s.warm = none ∧ s.steady inputs = true ∧ s.rounds inputs = []

/-- What a history determines of the machine, and what the next input does. -/
structure Determined (s : Start) (inputs : List Input) : Prop where
  initial : (s.run []).state =
    if s.ready then (s.warm.map Snapshot.state).getD .up else .down
  ready : (s.run inputs).ready = s.readyAfter inputs
  down : s.readyAfter inputs = false → (s.run inputs).state = .down
  /-- Rounds while not ready change nothing. -/
  ignored : ∀ r h, s.readyAfter inputs = false → s.run (.round r h :: inputs) = s.run inputs
  rises : ∀ r h, s.readyAfter inputs = true → (s.run inputs).state = .down →
    ((s.run (.round r h :: inputs)).state = .up ↔
      r = .passed ∧ h.rise ≤ s.passedInRow (.round r h :: inputs))
  falls : ∀ r h, s.readyAfter inputs = true → (s.run inputs).state = .up →
    ((s.run (.round r h :: inputs)).state = .down ↔
      r ≠ .passed ∧ (h.fall ≤ s.failedInRow (.round r h :: inputs) ∨ s.AwaitsFirst inputs))
  /-- The readiness told again changes nothing. -/
  same : ∀ reason, s.run (.setReady (s.readyAfter inputs) reason :: inputs) = s.run inputs
  /-- A path that becomes ready again is down. -/
  again : ∀ reason, s.readyAfter inputs = false →
    (s.run (.setReady true reason :: inputs)).state = .down
  /-- Only a cold start that awaits its first round is optimistic. -/
  optimistic : (s.run inputs).optimistic = true → s.AwaitsFirst inputs
  /-- Exactly the changes of state are reported. -/
  transition : ∀ i, ((s.run inputs).step i).2 =
    if (s.run inputs).state = (s.run (i :: inputs)).state then none
    else some ⟨(s.run inputs).state, (s.run (i :: inputs)).state, (s.run (i :: inputs)).reason⟩

end Start

/-! ## One input -/

namespace Machine

/-- Optimistic machines are up, with nothing counted. -/
def Unprobed (m : Machine) : Prop :=
  m.optimistic = true → m.state = .up ∧ m.passes = 0 ∧ m.failures = 0

/-- What every input reports is the change of state it makes. -/
theorem step_transition (m : Machine) (i : Input) :
    (m.step i).2 = if m.state = (m.step i).1.state then none
      else some ⟨m.state, (m.step i).1.state, (m.step i).1.reason⟩ := by
  cases i with
  | setReady ready reason =>
    by_cases hsame : ready = m.ready
    · simp [step, setReady, hsame]
    · cases ready <;> simp [step, setReady, hsame, transition]
  | round r h =>
    by_cases hready : m.ready = true
    · by_cases hopt : m.optimistic = true
      · cases r <;> simp [step, round, go, hready, hopt, transition]
      · cases r <;> simp only [step, round, hready, hopt, dite_true] <;>
          simp only [Bool.false_eq_true, if_false] <;> split <;> simp [go, transition]
    · simp [step, round, hready]

/-- A round reports something exactly when it changes the state. -/
theorem isSome_round_iff (m : Machine) (r : Round) (h : Hysteresis) :
    (m.round r h).2.isSome = true ↔ m.state ≠ (m.round r h).1.state := by
  have htransition := m.step_transition (.round r h)
  by_cases hsame : m.state = (m.step (.round r h)).1.state
  · rw [if_pos hsame] at htransition
    simpa [step, show (m.round r h).2 = none from htransition] using hsame
  · rw [if_neg hsame] at htransition
    simpa [step, show (m.round r h).2 = some _ from htransition] using hsame

/-- A passed round of a ready path. -/
theorem round_passed {m : Machine} (h : Hysteresis) (hready : m.ready = true)
    (hm : m.Unprobed) :
    (m.round .passed h).1.passes = saturatingSucc m.passes ∧
    (m.round .passed h).1.failures = 0 ∧ (m.round .passed h).1.optimistic = false ∧
    ((m.round .passed h).1.state = .up ↔
      m.state = .up ∨ h.rise ≤ saturatingSucc m.passes) := by
  by_cases hopt : m.optimistic = true
  · obtain ⟨hup, hpasses, hfailures⟩ := hm hopt
    simp [round, hready, hopt, hup, hpasses, hfailures, saturatingSucc]
  · by_cases hrise : h.rise ≤ saturatingSucc m.passes
    · cases hstate : m.state <;> simp [round, go, hready, hopt, hrise, hstate]
    · simp [round, hready, hopt, hrise]

/-- A round of a ready path that did not pass. -/
theorem round_failed {m : Machine} {r : Round} (h : Hysteresis) (hr : r ≠ .passed)
    (hready : m.ready = true) (hm : m.Unprobed) :
    (m.round r h).1.passes = 0 ∧
    (m.round r h).1.failures = saturatingSucc m.failures ∧ (m.round r h).1.optimistic = false ∧
    ((m.round r h).1.state = .down ↔
      m.state = .down ∨ h.fall ≤ saturatingSucc m.failures ∨ m.optimistic = true) := by
  by_cases hopt : m.optimistic = true
  · obtain ⟨hup, hpasses, hfailures⟩ := hm hopt
    cases r with
    | passed => exact absurd rfl hr
    | failed => simp [round, go, hready, hopt, hup, hpasses, hfailures, saturatingSucc]
    | degraded => simp [round, go, hready, hopt, hup, hpasses, hfailures, saturatingSucc]
  · by_cases hfall : m.state = .up ∧ h.fall ≤ saturatingSucc m.failures
    · cases r <;> simp_all [round, go]
    · have hstate : m.state = .down ↔ m.state = .down ∨ h.fall ≤ saturatingSucc m.failures := by
        cases hm : m.state <;> simp_all
      cases r with
      | passed => exact absurd rfl hr
      | failed => simpa [round, hready, hopt, hfall] using hstate
      | degraded => simpa [round, hready, hopt, hfall] using hstate

end Machine

/-! ## Histories -/

namespace Start

/-- The machine holds what the history counts. -/
structure Counted (s : Start) (inputs : List Input) : Prop where
  ready : (s.run inputs).ready = s.readyAfter inputs
  passes : s.readyAfter inputs = true →
    min 255 (s.run inputs).passes = s.passedInRow inputs
  failures : s.readyAfter inputs = true →
    min 255 (s.run inputs).failures = s.failedInRow inputs
  optimistic : s.readyAfter inputs = true →
    ((s.run inputs).optimistic = true ↔ s.AwaitsFirst inputs)
  unready : s.readyAfter inputs = false → (s.run inputs).optimistic = false
  up : (s.run inputs).optimistic = true → (s.run inputs).state = .up

variable {s : Start} {inputs : List Input}

theorem counted_nil (s : Start) : s.Counted [] := by
  obtain ⟨_ | _, reason, _ | w⟩ := s <;>
    constructor <;>
      simp [run, readyAfter, Machine.new, passedInRow, failedInRow, carried, steady, rounds,
        streak, AwaitsFirst]

theorem Counted.unprobed (hs : s.Counted inputs) : (s.run inputs).Unprobed := by
  intro hopt
  have hready : s.readyAfter inputs = true := by
    cases hready : s.readyAfter inputs with
    | true => rfl
    | false => simp [hs.unready hready] at hopt
  obtain ⟨-, hwarm, -, hrounds⟩ := (hs.optimistic hready).1 hopt
  have hpasses := hs.passes hready
  have hfailures := hs.failures hready
  simp only [passedInRow, failedInRow, carried, hwarm, hrounds, streak, Option.map_none,
    Option.getD_none, Bool.cond_self] at hpasses hfailures
  exact ⟨hs.up hopt, by omega, by omega⟩

/-- The rounds in a row after another round, before the cap. -/
theorem streak_round (kind : Round → Bool) (warm : ℕ) (r : Round) (h : Hysteresis) :
    streak kind warm (s.rounds (.round r h :: inputs)) =
      if kind r then streak kind warm (s.rounds inputs) + 1 else 0 :=
  rfl

/-- One more round that passed, in a byte. -/
theorem Counted.passedInRow_round (hs : s.Counted inputs) (hready : s.readyAfter inputs = true)
    (h : Hysteresis) :
    s.passedInRow (.round .passed h :: inputs) = saturatingSucc (s.run inputs).passes := by
  have hpasses := hs.passes hready
  simp only [passedInRow, carried, streak_round, steady, Round.pass, if_true,
    saturatingSucc] at hpasses ⊢
  omega

/-- One more round that did not pass, in a byte. -/
theorem Counted.failedInRow_round (hs : s.Counted inputs) (hready : s.readyAfter inputs = true)
    {r : Round} (hr : r ≠ .passed) (h : Hysteresis) :
    s.failedInRow (.round r h :: inputs) = saturatingSucc (s.run inputs).failures := by
  have hfailures := hs.failures hready
  have hkind : r.pass = false := by simpa using hr
  simp only [failedInRow, carried, streak_round, steady, hkind, Bool.not_false, if_true,
    saturatingSucc] at hfailures ⊢
  omega

/-- A round is counted. -/
theorem Counted.round (hs : s.Counted inputs) (r : Round) (h : Hysteresis) :
    s.Counted (.round r h :: inputs) := by
  cases hready : s.readyAfter inputs with
  | false =>
    have hsame : s.run (.round r h :: inputs) = s.run inputs := by
      simp [run, Machine.step, Machine.round, hs.ready, hready]
    constructor <;> simp [readyAfter, hready, hsame, hs.ready, hs.unready hready]
  | true =>
    have hm : (s.run inputs).ready = true := hs.ready.trans hready
    have hnot : ¬ s.AwaitsFirst (.round r h :: inputs) := by
      simp [AwaitsFirst, rounds]
    by_cases hr : r = .passed
    · subst hr
      obtain ⟨hpasses, hfailures, hopt, -⟩ := Machine.round_passed h hm hs.unprobed
      have hcount := hs.passedInRow_round hready h
      constructor
      · simp [run, Machine.step, readyAfter, hs.ready]
      · intro _
        simp only [run, Machine.step, hpasses, hcount, saturatingSucc]
        omega
      · intro _
        simp [run, Machine.step, hfailures, failedInRow, streak_round, Round.pass]
      · intro _
        simp [run, Machine.step, hopt, hnot]
      · intro _
        exact hopt
      · intro hopt'
        simp [run, Machine.step, hopt] at hopt'
    · obtain ⟨hpasses, hfailures, hopt, -⟩ := Machine.round_failed h hr hm hs.unprobed
      have hcount := hs.failedInRow_round hready hr h
      constructor
      · simp [run, Machine.step, readyAfter, hs.ready]
      · intro _
        simp [run, Machine.step, hpasses, passedInRow, streak_round, hr]
      · intro _
        simp only [run, Machine.step, hfailures, hcount, saturatingSucc]
        omega
      · intro _
        simp [run, Machine.step, hopt, hnot]
      · intro _
        exact hopt
      · intro hopt'
        simp [run, Machine.step, hopt] at hopt'

/-- A readiness is counted: told again it changes nothing, changed it starts anew. -/
theorem Counted.setReady (hs : s.Counted inputs) (ready : Bool) (reason : Reason) :
    s.Counted (.setReady ready reason :: inputs) := by
  by_cases hsame : ready = s.readyAfter inputs
  · subst hsame
    have hrun : s.run (.setReady (s.readyAfter inputs) reason :: inputs) = s.run inputs := by
      simp [run, Machine.step, Machine.setReady, hs.ready]
    have hready : s.readyAfter (.setReady (s.readyAfter inputs) reason :: inputs) =
        s.readyAfter inputs := rfl
    have hrounds : s.rounds (.setReady (s.readyAfter inputs) reason :: inputs) =
        s.rounds inputs := by
      simp [rounds]
    have hsteady : s.steady (.setReady (s.readyAfter inputs) reason :: inputs) =
        s.steady inputs := by
      simp [steady]
    constructor
    · simp [hrun, readyAfter, hs.ready]
    · simpa [hrun, hready, passedInRow, carried, hrounds, hsteady] using hs.passes
    · simpa [hrun, hready, failedInRow, carried, hrounds, hsteady] using hs.failures
    · simpa [hrun, hready, AwaitsFirst, hrounds, hsteady] using hs.optimistic
    · simpa [hrun, hready] using hs.unready
    · simpa [hrun] using hs.up
  · have hne : ready ≠ (s.run inputs).ready := by
      rwa [hs.ready]
    cases ready <;> constructor <;>
      simp [run, Machine.step, Machine.setReady, hne, readyAfter, passedInRow, failedInRow,
        carried, rounds, steady, hsame, streak, AwaitsFirst]

/-- The machine counts along every history. -/
theorem counted (s : Start) (inputs : List Input) : s.Counted inputs := by
  induction inputs with
  | nil => exact counted_nil s
  | cons i inputs ih =>
    cases i with
    | setReady ready reason => exact ih.setReady ready reason
    | round r h => exact ih.round r h

/-- **Hysteresis.**  Every history determines the machine: the readiness told last, and the
rounds in a row since it changed against the thresholds of the latest round. -/
theorem determined (s : Start) (inputs : List Input) : s.Determined inputs where
  initial := by
    obtain ⟨_ | _, reason, _ | w⟩ := s <;> rfl
  ready := (counted s inputs).ready
  down := by
    intro hready
    exact (s.run inputs).down_of_not_ready ((counted s inputs).ready.trans hready)
  ignored := by
    intro r h hready
    simp [run, Machine.step, Machine.round, (counted s inputs).ready, hready]
  rises := by
    intro r h hready hdown
    have hs := counted s inputs
    have hm : (s.run inputs).ready = true := hs.ready.trans hready
    by_cases hr : r = .passed
    · subst hr
      obtain ⟨-, -, -, hstate⟩ := Machine.round_passed h hm hs.unprobed
      simp [run, Machine.step, hstate, hdown, hs.passedInRow_round hready h]
    · obtain ⟨-, -, -, hstate⟩ := Machine.round_failed h hr hm hs.unprobed
      have hafter : (s.run (.round r h :: inputs)).state = .down := hstate.2 (Or.inl hdown)
      simp [hafter, hr]
  falls := by
    intro r h hready hup
    have hs := counted s inputs
    have hm : (s.run inputs).ready = true := hs.ready.trans hready
    by_cases hr : r = .passed
    · subst hr
      obtain ⟨-, -, -, hstate⟩ := Machine.round_passed h hm hs.unprobed
      have hafter : (s.run (.round .passed h :: inputs)).state = .up := hstate.2 (Or.inl hup)
      simp [hafter]
    · obtain ⟨-, -, -, hstate⟩ := Machine.round_failed h hr hm hs.unprobed
      simp [run, Machine.step, hstate, hup, hr, hs.failedInRow_round hready hr h,
        hs.optimistic hready]
  same := by
    intro reason
    simp [run, Machine.step, Machine.setReady, (counted s inputs).ready]
  again := by
    intro reason hready
    have hm : (s.run inputs).ready = false := (counted s inputs).ready.trans hready
    simp [run, Machine.step, Machine.setReady, hm, (s.run inputs).down_of_not_ready hm]
  optimistic := by
    intro hopt
    have hs := counted s inputs
    cases hready : s.readyAfter inputs with
    | true => exact (hs.optimistic hready).1 hopt
    | false => simp [hs.unready hready] at hopt
  transition := Machine.step_transition (s.run inputs)

end Start

end Health

end Polywan
