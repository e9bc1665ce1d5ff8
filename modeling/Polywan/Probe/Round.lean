import Mathlib.Algebra.Order.BigOperators.Group.Finset
import Polywan.Lib.Sum
import Polywan.Probe

/-!
# One round of a prober

All targets of a round are probed concurrently, each with attempts in sequence until one
gets a reply.  The round ends when every target finished or, without quality gates, as soon
as its outcome is certain; the attempts still open then are cancelled.  The targets proceed
in any order, one step at a time.

## Main definitions

* `Probe.Phase`, `Probe.Round`, `Probe.Round.step` — the attempts of a target, the round and
  the next step of a target in it.
* `Probe.Spec.reached`, `Probe.Spec.samplesOf` — what the outcomes of the attempts give.
* `Probe.Round.Sound` — what holds at every point of a round.

## Main results

* `Probe.Round.Sound.step` — every step keeps it.
* `Probe.round_outcome` — ending early changes no verdict.
-/

namespace Polywan.Probe

/-- Where the attempts of a target are. -/
inductive Phase where
  /-- `lost` attempts got no reply, and the next one did not start. -/
  | waiting (lost : ℕ)
  /-- The attempt after `lost` ones is open. -/
  | trying (lost : ℕ)
  | finished (replied : Bool)
deriving DecidableEq

/-- The attempts of a round: the round-trip time of every attempt of every target, if it
gets a reply. -/
abbrev Outcomes (spec : Spec) : Type := Fin spec.targets.length → ℕ → Option ℕ

/-- A round in progress. -/
structure Round (spec : Spec) where
  phases : Fin spec.targets.length → Phase := fun _ => .waiting 0
  samples : List Sample := []
  started : ℕ := 0
  reachable : ℕ := 0
  done : ℕ := 0
  /-- The outcome was certain before all targets finished. -/
  stopped : Bool := false

/-- What a round reports, with its counts. -/
structure RoundResult extends RoundReport where
  reachable : ℕ
  /-- Attempts stopped by the early end of the round. -/
  canceled : ℕ
deriving DecidableEq

namespace Round

variable {spec : Spec} (r : Round spec)

/-- A target finished. -/
def finish (i : Fin spec.targets.length) (ok : Bool) : Round spec :=
  let done := r.done + 1
  let reachable := r.reachable + ok.toNat
  let certain := spec.requiredReachable ≤ reachable ||
    reachable + (spec.targets.length - done) < spec.requiredReachable
  { r with
    phases := Function.update r.phases i (.finished ok)
    done
    reachable
    stopped := certain && !spec.runToCompletion }

/-- The next step of a target: it starts an attempt, or the open one ends. -/
def step (outcome : Outcomes spec) (i : Fin spec.targets.length) : Round spec :=
  if r.stopped then r
  else match r.phases i with
    | .waiting lost =>
      if lost < spec.attempts then
        { r with
          phases := Function.update r.phases i (.trying lost)
          started := r.started + 1 }
      else r.finish i false
    | .trying lost =>
      let rtt := outcome i lost
      let r := { r with samples := r.samples ++ [(⟨spec.targets[i], rtt⟩ : Sample)] }
      if rtt.isSome then r.finish i true
      else { r with phases := Function.update r.phases i (.waiting (lost + 1)) }
    | .finished _ => r

/-- A round over some steps of its targets. -/
def run (outcome : Outcomes spec) (steps : List (Fin spec.targets.length)) : Round spec :=
  steps.foldl (fun r i => r.step outcome i) {}

/-- The round is over. -/
def Ended : Prop := r.stopped = true ∨ ∀ i, ∃ ok, r.phases i = .finished ok

def result : RoundResult where
  path := spec.path
  generation := spec.generation
  passed := spec.requiredReachable ≤ r.reachable
  samples := r.samples
  reachable := r.reachable
  canceled := r.started - r.samples.length

end Round

/-! ## What the outcomes give -/

namespace Spec

variable (spec : Spec) (outcome : Outcomes spec)

/-- Some attempt of the target gets a reply. -/
def replies (i : Fin spec.targets.length) : Bool :=
  (List.range spec.attempts).any fun k => (outcome i k).isSome

/-- The targets with a replied attempt. -/
def reached : Finset (Fin spec.targets.length) :=
  Finset.univ.filter fun i => spec.replies outcome i = true

/-- The attempts of a target: up to the first that gets a reply. -/
def tries (i : Fin spec.targets.length) : ℕ :=
  min ((List.range spec.attempts).findIdx (fun k => (outcome i k).isSome) + 1) spec.attempts

/-- The samples of the first attempts of a target. -/
def samplesUpTo (i : Fin spec.targets.length) (k : ℕ) : List Sample :=
  (List.range k).map fun j => ⟨spec.targets[i], outcome i j⟩

def samplesOf (i : Fin spec.targets.length) : List Sample :=
  spec.samplesUpTo outcome i (spec.tries outcome i)

/-- The samples of a target so far. -/
def samplesIn (i : Fin spec.targets.length) : Phase → List Sample
  | .waiting lost | .trying lost => spec.samplesUpTo outcome i lost
  | .finished _ => spec.samplesOf outcome i

/-- A phase that the outcomes lead to. -/
def Reaches (i : Fin spec.targets.length) : Phase → Prop
  | .waiting lost => lost ≤ spec.attempts ∧ ∀ k < lost, outcome i k = none
  | .trying lost => lost < spec.attempts ∧ ∀ k < lost, outcome i k = none
  | .finished ok => ok = spec.replies outcome i

variable {spec outcome} {i : Fin spec.targets.length} {k : ℕ}

theorem samplesUpTo_succ :
    spec.samplesUpTo outcome i (k + 1) =
      spec.samplesUpTo outcome i k ++ [⟨spec.targets[i], outcome i k⟩] := by
  rw [samplesUpTo, samplesUpTo, List.range_succ, List.map_append]
  rfl

theorem replies_of_reply (hk : k < spec.attempts) (hreply : (outcome i k).isSome = true) :
    spec.replies outcome i = true :=
  List.any_eq_true.mpr ⟨k, List.mem_range.mpr hk, hreply⟩

theorem replies_of_none (hnone : ∀ k < spec.attempts, outcome i k = none) :
    spec.replies outcome i = false := by
  refine List.any_eq_false.mpr fun k hk => ?_
  rw [hnone k (List.mem_range.mp hk)]
  simp

/-- The attempts stop at the first reply. -/
theorem tries_of_reply (hk : k < spec.attempts) (hnone : ∀ j < k, outcome i j = none)
    (hreply : (outcome i k).isSome = true) : spec.tries outcome i = k + 1 := by
  have hfind : (List.range spec.attempts).findIdx (fun j => (outcome i j).isSome) = k := by
    rw [List.findIdx_eq (by simpa using hk)]
    simp only [List.getElem_range]
    exact ⟨hreply, fun j hj => by simp [hnone j hj]⟩
  rw [tries, hfind]
  omega

theorem tries_of_none (hnone : ∀ k < spec.attempts, outcome i k = none) :
    spec.tries outcome i = spec.attempts := by
  have hfind : (List.range spec.attempts).findIdx (fun j => (outcome i j).isSome) =
      (List.range spec.attempts).length := by
    refine List.findIdx_eq_length.mpr fun k hk => ?_
    rw [hnone k (List.mem_range.mp hk)]
    rfl
  rw [tries, hfind, List.length_range]
  omega

theorem length_samplesOf : (spec.samplesOf outcome i).length = spec.tries outcome i := by
  simp [samplesOf, samplesUpTo]

theorem tries_le : spec.tries outcome i ≤ spec.attempts := Nat.min_le_right _ _

theorem tries_pos (h : 0 < spec.attempts) : 0 < spec.tries outcome i :=
  Nat.lt_min.mpr ⟨Nat.succ_pos _, h⟩

theorem card_reached :
    (spec.reached outcome).card = ∑ i, (spec.replies outcome i).toNat := by
  rw [reached, Finset.card_filter]
  refine Finset.sum_congr rfl fun i _ => ?_
  cases spec.replies outcome i <;> rfl

end Spec

/-! ## The round -/

namespace Phase

def isOpen : Phase → Bool
  | .trying _ => true
  | _ => false

def isFinished : Phase → Bool
  | .finished _ => true
  | _ => false

/-- Finished with a reply. -/
def replied : Phase → Bool
  | .finished ok => ok
  | _ => false

end Phase

namespace Round

variable {spec : Spec} {outcome : Outcomes spec} {r : Round spec} {i : Fin spec.targets.length}

/-- The targets with an open attempt. -/
def openAttempts (r : Round spec) : Finset (Fin spec.targets.length) :=
  Finset.univ.filter fun i => (r.phases i).isOpen = true

/-- The outcome no longer depends on the targets that did not finish. -/
def Certain (r : Round spec) : Prop :=
  spec.requiredReachable ≤ r.reachable ∨
    r.reachable + (spec.targets.length - r.done) < spec.requiredReachable

/-- What holds at every point of a round. -/
structure Sound (outcome : Outcomes spec) (r : Round spec) : Prop where
  phase : ∀ i, spec.Reaches outcome i (r.phases i)
  samples : (r.samples : Multiset Sample) =
    ∑ i, (spec.samplesIn outcome i (r.phases i) : Multiset Sample)
  started : r.started = r.samples.length + ∑ i, (r.phases i).isOpen.toNat
  done : r.done = ∑ i, (r.phases i).isFinished.toNat
  reachable : r.reachable = ∑ i, (r.phases i).replied.toNat
  stopped : r.stopped = true → spec.runToCompletion = false ∧ r.Certain

theorem Sound.start (outcome : Outcomes spec) : Sound outcome ({} : Round spec) where
  phase i := ⟨Nat.zero_le _, nofun⟩
  samples := (Finset.sum_eq_zero fun i _ => rfl).symm
  started := by simp [Phase.isOpen]
  done := by simp [Phase.isFinished]
  reachable := by simp [Phase.replied]
  stopped := nofun

/-- A target moves to another phase, with the samples that this adds. -/
theorem Sound.move (h : Sound outcome r) {r' : Round spec} {x y : Phase} {new : List Sample}
    (hp : r.phases i = y) (hphases : r'.phases = Function.update r.phases i x)
    (hreach : spec.Reaches outcome i x) (hsamples : r'.samples = r.samples ++ new)
    (hnew : spec.samplesIn outcome i x = spec.samplesIn outcome i y ++ new)
    (hstarted : r'.started + y.isOpen.toNat = r.started + new.length + x.isOpen.toNat)
    (hdone : r'.done + y.isFinished.toNat = r.done + x.isFinished.toNat)
    (hreachable : r'.reachable + y.replied.toNat = r.reachable + x.replied.toNat)
    (hstopped : r'.stopped = true → spec.runToCompletion = false ∧ r'.Certain) :
    Sound outcome r' where
  phase j := by
    rw [hphases]
    by_cases hj : j = i
    · subst hj
      rwa [Function.update_self]
    · rw [Function.update_of_ne hj]
      exact h.phase j
  samples := by
    have hsum := Lib.sum_update_add
      (fun j y => (spec.samplesIn outcome j y : Multiset Sample)) r.phases i x
    rw [hp, hnew, ← Multiset.coe_add, add_left_comm, ← h.samples, add_comm] at hsum
    rw [hphases, hsamples, ← Multiset.coe_add, add_left_cancel hsum]
  started := by
    have hsum := Lib.sum_update_add (fun _ (y : Phase) => y.isOpen.toNat) r.phases i x
    have hbefore := h.started
    rw [hp] at hsum
    rw [hphases, hsamples, List.length_append]
    omega
  done := by
    have hsum := Lib.sum_update_add (fun _ (y : Phase) => y.isFinished.toNat) r.phases i x
    have hbefore := h.done
    rw [hp] at hsum
    rw [hphases]
    omega
  reachable := by
    have hsum := Lib.sum_update_add (fun _ (y : Phase) => y.replied.toNat) r.phases i x
    have hbefore := h.reachable
    rw [hp] at hsum
    rw [hphases]
    omega
  stopped := hstopped

theorem stopped_finish (r : Round spec) (i : Fin spec.targets.length) (ok : Bool)
    (h : (r.finish i ok).stopped = true) :
    spec.runToCompletion = false ∧ (r.finish i ok).Certain := by
  simpa [finish, Certain, and_comm] using h

/-- **Every step of a target keeps a round sound.** -/
theorem Sound.step (h : Sound outcome r) (i : Fin spec.targets.length) :
    Sound outcome (r.step outcome i) := by
  have hphase := h.phase i
  rw [Round.step]
  by_cases hstopped : r.stopped = true
  · rw [if_pos hstopped]
    exact h
  · rw [if_neg hstopped]
    cases hp : r.phases i with
    | waiting lost =>
      rw [hp] at hphase
      obtain ⟨hle, hnone⟩ := hphase
      by_cases hlt : lost < spec.attempts
      · simp only [hlt, if_true]
        exact h.move hp rfl ⟨hlt, hnone⟩ (List.append_nil _).symm (List.append_nil _).symm
          rfl rfl rfl h.stopped
      · simp only [hlt, if_false]
        obtain rfl : lost = spec.attempts := by omega
        have hall : spec.samplesOf outcome i = spec.samplesUpTo outcome i spec.attempts := by
          rw [Spec.samplesOf, Spec.tries_of_none hnone]
        exact h.move hp rfl (Spec.replies_of_none hnone).symm (List.append_nil _).symm
          (hall.trans (List.append_nil _).symm) rfl rfl rfl (r.stopped_finish i false)
    | trying lost =>
      rw [hp] at hphase
      obtain ⟨hlt, hnone⟩ := hphase
      by_cases hreply : (outcome i lost).isSome = true
      · simp only [hreply, if_true]
        have hall : spec.samplesOf outcome i = spec.samplesUpTo outcome i lost
            ++ [⟨spec.targets[i], outcome i lost⟩] := by
          rw [Spec.samplesOf, Spec.tries_of_reply hlt hnone hreply, Spec.samplesUpTo_succ]
        exact h.move hp rfl (Spec.replies_of_reply hlt hreply).symm rfl hall rfl rfl rfl
          (stopped_finish _ i true)
      · simp only [hreply]
        have hlost : ∀ k < lost + 1, outcome i k = none := by
          intro k hk
          rcases Nat.lt_succ_iff_lt_or_eq.mp hk with hk | rfl
          · exact hnone k hk
          · simpa using hreply
        exact h.move hp rfl ⟨hlt, hlost⟩ rfl Spec.samplesUpTo_succ rfl rfl rfl h.stopped
    | finished ok => exact h

theorem sound_run (outcome : Outcomes spec) (steps : List (Fin spec.targets.length)) :
    Sound outcome (run outcome steps) := by
  have hrun : ∀ (r : Round spec), Sound outcome r →
      Sound outcome (steps.foldl (fun r i => r.step outcome i) r) := by
    induction steps with
    | nil => exact fun r h => h
    | cons i steps ih => exact fun r h => ih _ (h.step i)
  exact hrun _ (Sound.start outcome)

/-! ### The end -/

section End

variable (h : Sound outcome r)
include h

theorem Sound.card_openAttempts : r.result.canceled = r.openAttempts.card := by
  have hcard : r.openAttempts.card = ∑ i, (r.phases i).isOpen.toNat := by
    rw [openAttempts, Finset.card_filter]
    refine Finset.sum_congr rfl fun i _ => ?_
    cases (r.phases i).isOpen <;> rfl
  rw [hcard, result, h.started]
  simp

/-- The targets that finished with a reply are among those reached. -/
theorem Sound.reachable_le : r.reachable ≤ (spec.reached outcome).card := by
  rw [h.reachable, Spec.card_reached]
  refine Finset.sum_le_sum fun i _ => ?_
  have hphase := h.phase i
  cases hp : r.phases i with
  | finished ok =>
    rw [hp] at hphase
    exact (congrArg Bool.toNat hphase).le
  | _ => exact Nat.zero_le _

/-- The targets reached finished with a reply, or did not finish yet. -/
theorem Sound.le_reachable_add :
    (spec.reached outcome).card ≤ r.reachable + (spec.targets.length - r.done) := by
  have hsplit : ∑ i, ((spec.replies outcome i).toNat + (r.phases i).isFinished.toNat) ≤
      ∑ i, ((r.phases i).replied.toNat + 1) := by
    refine Finset.sum_le_sum fun i _ => ?_
    have hphase := h.phase i
    cases hp : r.phases i with
    | finished ok =>
      rw [hp] at hphase
      rw [← hphase]
      exact le_rfl
    | _ => exact Bool.toNat_le _
  rw [Finset.sum_add_distrib, Finset.sum_add_distrib, ← Spec.card_reached, ← h.done,
    ← h.reachable, Finset.sum_const, Finset.card_univ, Fintype.card_fin, smul_eq_mul,
    mul_one] at hsplit
  omega

/-- When all targets finished, those reached are known. -/
theorem Sound.reachable_of_finished (hall : ∀ i, ∃ ok, r.phases i = .finished ok) :
    r.reachable = (spec.reached outcome).card := by
  rw [h.reachable, Spec.card_reached]
  refine Finset.sum_congr rfl fun i _ => ?_
  obtain ⟨ok, hp⟩ := hall i
  have hphase := h.phase i
  rw [hp] at hphase ⊢
  exact congrArg Bool.toNat hphase

/-- **A round that ended has the verdict of the outcomes**, however early it ended. -/
theorem Sound.passed_of_ended (hended : r.Ended) :
    r.result.passed = decide (spec.requiredReachable ≤ (spec.reached outcome).card) := by
  rw [result]
  refine decide_eq_decide.mpr ?_
  rcases hended with hstopped | hall
  · have hle := h.reachable_le
    have hge := h.le_reachable_add
    rcases (h.stopped hstopped).2 with hcertain | hcertain
    · exact iff_of_true hcertain (hcertain.trans hle)
    · exact iff_of_false (by omega) (by omega)
  · rw [h.reachable_of_finished hall]

/-- A round that runs to its end counts every target and has every sample. -/
theorem Sound.complete (hcomplete : spec.runToCompletion = true) (hended : r.Ended) :
    r.reachable = (spec.reached outcome).card ∧
      (r.samples : Multiset Sample) = ∑ i, (spec.samplesOf outcome i : Multiset Sample) := by
  have hall : ∀ i, ∃ ok, r.phases i = .finished ok := by
    rcases hended with hstopped | hall
    · rw [(h.stopped hstopped).1] at hcomplete
      cases hcomplete
    · exact hall
  refine ⟨h.reachable_of_finished hall, h.samples.trans ?_⟩
  refine Finset.sum_congr rfl fun i _ => ?_
  obtain ⟨ok, hp⟩ := hall i
  rw [hp]
  rfl

end End

/-! ### Rounds end -/

/-- The steps that a target has left. -/
def left (spec : Spec) : Phase → ℕ
  | .waiting lost => 2 * (spec.attempts - lost) + 1
  | .trying lost => 2 * (spec.attempts - lost)
  | .finished _ => 0

theorem left_step (h : Sound outcome r) (hrun : (r.step outcome i).stopped = false)
    (j : Fin spec.targets.length) :
    left spec ((r.step outcome i).phases j) ≤
      left spec (r.phases j) - if j = i then 1 else 0 := by
  have hphase := h.phase i
  have hstopped : r.stopped = false := by
    by_contra hstopped
    rw [Round.step, if_pos (eq_true_of_ne_false hstopped)] at hrun
    exact hstopped hrun
  by_cases hj : j = i
  · subst hj
    rw [if_pos rfl, Round.step, if_neg (by simp [hstopped])]
    cases hp : r.phases j with
    | waiting lost =>
      dsimp only
      split
      · simp only [Function.update_self, left]
        omega
      · simp only [finish, Function.update_self, left]
        omega
    | trying lost =>
      rw [hp] at hphase
      have hlt := hphase.1
      dsimp only
      split
      · simp only [finish, Function.update_self, left]
        omega
      · simp only [Function.update_self, left]
        omega
    | finished ok => simp [hp, left]
  · rw [if_neg hj, Nat.sub_zero, Round.step, if_neg (by simp [hstopped])]
    refine le_of_eq (congrArg (left spec) ?_)
    cases hp : r.phases i with
    | waiting lost =>
      dsimp only
      split
      · exact Function.update_of_ne hj _ _
      · exact Function.update_of_ne hj _ _
    | trying lost =>
      dsimp only
      split
      · exact Function.update_of_ne hj _ _
      · exact Function.update_of_ne hj _ _
    | finished ok => rfl

/-- **A round ends** once every target took the steps that its attempts need. -/
theorem ended_run (outcome : Outcomes spec) (steps : List (Fin spec.targets.length))
    (hsteps : ∀ i, 2 * spec.attempts + 1 ≤ steps.count i) : (run outcome steps).Ended := by
  have hleft : (run outcome steps).stopped = true ∨
      ∀ i, left spec ((run outcome steps).phases i) ≤ 2 * spec.attempts + 1 - steps.count i := by
    clear hsteps
    induction steps using List.reverseRecOn with
    | nil => exact .inr fun i => le_rfl
    | append_singleton steps i ih =>
      have hrun : run outcome (steps ++ [i]) = (run outcome steps).step outcome i :=
        List.foldl_concat ..
      rw [hrun]
      by_cases hstopped : ((run outcome steps).step outcome i).stopped = true
      · exact .inl hstopped
      · rw [Bool.not_eq_true] at hstopped
        refine .inr fun j => ?_
        have hstep := left_step (sound_run outcome steps) hstopped j
        have hbefore := ih.resolve_left fun hs => by
          rw [Round.step, if_pos hs, hs] at hstopped
          cases hstopped
        have hj := hbefore j
        rw [List.count_append, List.count_singleton]
        simp only [beq_iff_eq, eq_comm (a := i)] at *
        omega
  refine hleft.imp_right fun hle i => ?_
  have hzero := hle i
  have hcount := hsteps i
  cases hp : (run outcome steps).phases i with
  | finished ok => exact ⟨ok, rfl⟩
  | waiting lost =>
    rw [hp, left] at hzero
    omega
  | trying lost =>
    have hphase := (sound_run outcome steps).phase i
    rw [hp] at hphase hzero
    have hlt := hphase.1
    rw [left] at hzero
    omega

end Round

/-- The prober with every attempt run to its end. -/
def Spec.completing (spec : Spec) : Spec := { spec with runToCompletion := true }

/-- **Ending a round early changes no verdict**: whatever the order of its targets, a round
passes exactly when enough targets have a replied attempt, as the same round run to
completion does.  A complete round has all samples, and what is cancelled are the attempts
without one. -/
theorem round_outcome (spec : Spec) (outcome : Outcomes spec)
    (steps : List (Fin spec.targets.length)) (hended : (Round.run outcome steps).Ended) :
    let r := Round.run outcome steps
    r.result.passed = decide (spec.requiredReachable ≤ (spec.reached outcome).card) ∧
      (∀ full : List (Fin spec.completing.targets.length),
        let r' : Round spec.completing := Round.run outcome full
        ((∀ i, 2 * spec.attempts + 1 ≤ full.count i) → r'.Ended) ∧
        (r'.Ended → r'.result.passed = r.result.passed)) ∧
      (spec.runToCompletion = true →
        r.result.reachable = (spec.reached outcome).card ∧
        (r.result.samples : Multiset Sample) =
          ∑ i, (spec.samplesOf outcome i : Multiset Sample)) ∧
      r.result.canceled = r.openAttempts.card := by
  have hsound := Round.sound_run outcome steps
  have hpassed := hsound.passed_of_ended hended
  refine ⟨hpassed, fun full => ⟨?_, ?_⟩, fun hcomplete => hsound.complete hcomplete hended,
    hsound.card_openAttempts⟩
  · exact @Round.ended_run spec.completing outcome full
  · intro hfull
    have hsound' : @Round.Sound spec.completing outcome (Round.run outcome full) :=
      Round.sound_run _ full
    exact (hsound'.passed_of_ended hfull).trans hpassed.symm

/-- A round of three targets that need two replies, of which the first two reply. -/
def sampleSpec : Spec where
  path := ⟨Polywan.Sample.id1, .v4⟩
  generation := 1
  interface := "wan1"
  ifindex := 2
  source := .v4 0xc0000201
  mark := 0
  targets := [.icmp (.v4 0x01010101), .icmp (.v4 0x08080808), .icmp (.v4 0x09090909)]
  interval := 5000000000
  timeout := 1000000000
  attempts := 2
  requiredReachable := 2
  runToCompletion := false

/-- The second target loses its first attempt, the third target both. -/
def sampleOutcomes : Outcomes sampleSpec := fun i k =>
  if i.val = 0 then some 10 else if i.val = 1 ∧ k = 1 then some 20 else none

/-- The order in which the targets proceed. -/
def sampleSteps : List (Fin sampleSpec.targets.length) :=
  ([0, 1, 2, 0, 1, 1, 1] : List (Fin 3))

/-- The round ends with the second reply, and cancels the open attempt. -/
theorem round_outcome_early :
    let r := Round.run sampleOutcomes sampleSteps
    r.stopped = true ∧ r.result.canceled = 1 ∧
      r.result.passed = decide (2 ≤ (sampleSpec.reached sampleOutcomes).card) := by
  intro r
  have hstopped : r.stopped = true := by decide +kernel
  exact ⟨hstopped, by decide +kernel, (round_outcome _ _ _ (.inl hstopped)).1⟩

end Polywan.Probe
