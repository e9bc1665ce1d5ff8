import Mathlib.Data.List.Nodup
import Polywan.Persist.Lane

/-!
# The order of the persistence lane

The lane sorts what is in its channel: administrative jobs wait in a queue, and of the health
checkpoints only the latest is kept, to run when the queue is empty.  Jobs arrive between any two
of its steps.  A job that panics leaves the manifest as it was.

## Main definitions

* `PersistLane`, `PersistLane.step` — the channel and the lane's loop, with what was submitted
  and what ran.
* `PersistLane.trail` — every job on its way, in the order in which it is run.
* `PersistLane.Sound` — the invariant.

## Main results

* `PersistLane.ordered_run` — the order of the jobs in any interleaving.
-/

namespace Polywan

def PersistJob.isCheckpoint : PersistJob → Bool
  | .checkpoint _ => true
  | _ => false

/-- A job of the administrator or of a reload. -/
def PersistJob.isAdministrative : PersistJob → Bool
  | .checkpoint _ => false
  | .gatewayWarning _ _ _ => false
  | _ => true

/-- A job with the number of its submission. -/
abbrev Submission : Type := ℕ × PersistJob

namespace Submission

def isCheckpoint (j : Submission) : Bool := j.2.isCheckpoint

def isAdministrative (j : Submission) : Bool := j.2.isAdministrative

/-- What waits in the queue. -/
def isQueued (j : Submission) : Bool := !j.isCheckpoint

end Submission

/-- Where the lane is in its loop. -/
inductive LanePhase
  /-- Reads what is in the channel. -/
  | sorting
  /-- Has found the channel empty. -/
  | choosing
  /-- Waits for a job. -/
  | waiting
  | running (job : Submission)
  | ended

/-- A job that ran: the manifest it was given, and the one it left unless it panicked. -/
structure LaneRun where
  job : Submission
  manifest : Manifest
  left : Option Manifest

/-- The channel and the persistence lane; `submitted` and `log` record what happened. -/
structure PersistLane where
  channel : List Submission := []
  closed : Bool := false
  queue : List Submission := []
  checkpoint : Option Submission := none
  phase : LanePhase := .sorting
  manifest : Manifest
  submitted : List Submission := []
  log : List LaneRun := []

namespace PersistLane

/-- What happens: a job is submitted, the channel is closed, or the lane goes on; a job that it
runs has the outcomes of its calls and the files, or panics. -/
inductive Event
  | submit (job : PersistJob)
  | close
  | lane (outcome : Option (Persist.Outcomes × Persist.World))

/-- The lane goes on. -/
def proceed (outcome : Option (Persist.Outcomes × Persist.World)) (s : PersistLane) : PersistLane :=
  match s.phase with
  | .sorting => match s.channel with
    | [] => { s with phase := .choosing }
    | j :: rest =>
      if j.isCheckpoint then { s with channel := rest, checkpoint := some j }
      else { s with channel := rest, queue := s.queue ++ [j] }
  | .choosing => match s.queue, s.checkpoint with
    | j :: rest, _ => { s with queue := rest, phase := .running j }
    | [], some c => { s with checkpoint := none, phase := .running c }
    | [], none => { s with phase := .waiting }
  | .waiting => match s.channel with
    | j :: rest => { s with channel := rest, phase := .running j }
    | [] => if s.closed then { s with phase := .ended } else s
  | .running j =>
    let left := outcome.map fun r => (r.1.run (Persist.persist j.2 s.manifest) r.2).1.2
    { s with
      phase := .sorting
      manifest := left.getD s.manifest
      log := s.log ++ [{ job := j, manifest := s.manifest, left }] }
  | .ended => s

def step (s : PersistLane) : Event → PersistLane
  | .submit job =>
    if s.closed then s
    else
      { s with
        channel := s.channel ++ [(s.submitted.length, job)]
        submitted := s.submitted ++ [(s.submitted.length, job)] }
  | .close => { s with closed := true }
  | .lane outcome => s.proceed outcome

def run (s : PersistLane) (events : List Event) : PersistLane := events.foldl step s

def start (m : Manifest) : PersistLane where
  manifest := m

/-! ## The invariant -/

variable {s : PersistLane} {m : Manifest}

def ran (s : PersistLane) : List Submission := s.log.map LaneRun.job

def current (s : PersistLane) : List Submission :=
  match s.phase with
  | .running j => [j]
  | _ => []

/-- Every job that ran, runs or is on its way. -/
def trail (s : PersistLane) : List Submission :=
  s.ran ++ s.current ++ s.queue ++ s.checkpoint.toList ++ s.channel

/-- The manifest that administrative jobs left which did not panic. -/
def leftBy (m : Manifest) (log : List LaneRun) : Manifest :=
  log.foldl (fun m r => if r.job.isAdministrative then r.left.getD m else m) m

/-- The jobs are on their way in order; a checkpoint is dropped for a later one. -/
structure Ordered (s : PersistLane) : Prop where
  numbered : s.submitted.Pairwise (·.1 < ·.1)
  below : ∀ j ∈ s.submitted, j.1 < s.submitted.length
  inOrder : s.trail.filter Submission.isQueued = s.submitted.filter Submission.isQueued
  checkpoints : (s.trail.filter Submission.isCheckpoint).Sublist s.submitted
  skipped : ∀ c ∈ s.submitted, c.isCheckpoint = true → c ∈ s.trail ∨
    ∃ c' ∈ s.submitted, c'.isCheckpoint = true ∧ c.1 < c'.1

/-- What holds in every interleaving. -/
structure Sound (m : Manifest) (s : PersistLane) : Prop extends Ordered s where
  queued : ∀ j ∈ s.queue, j.isCheckpoint = false
  held : ∀ j ∈ s.checkpoint, j.isCheckpoint = true
  idle : s.phase = .waiting ∨ s.phase = .ended → s.queue = [] ∧ s.checkpoint = none
  ended : s.phase = .ended → s.closed = true ∧ s.channel = []
  manifest : s.manifest = leftBy m s.log
  given : ∀ before r after, s.log = before ++ r :: after → r.manifest = leftBy m before

theorem sound_start (m : Manifest) : Sound m (start m) where
  numbered := by simp [start]
  below := by simp [start]
  inOrder := rfl
  checkpoints := List.nil_sublist _
  skipped := by simp [start]
  queued := by simp [start]
  held := by simp [start]
  idle := by simp [start]
  ended := by simp [start]
  manifest := rfl
  given := by simp [start]

/-! ## Steps -/

/-- A step that moves jobs on, each past none of its kind. -/
theorem Ordered.of_filter {s' : PersistLane} (h : Ordered s)
    (hsubmitted : s'.submitted = s.submitted)
    (hqueued : s'.trail.filter Submission.isQueued = s.trail.filter Submission.isQueued)
    (hcheckpoints : s'.trail.filter Submission.isCheckpoint =
      s.trail.filter Submission.isCheckpoint) : Ordered s' where
  numbered := hsubmitted ▸ h.numbered
  below := hsubmitted ▸ h.below
  inOrder := by rw [hqueued, hsubmitted, h.inOrder]
  checkpoints := by
    rw [hcheckpoints, hsubmitted]
    exact h.checkpoints
  skipped c hc hcheckpoint := by
    rw [hsubmitted] at hc ⊢
    refine (h.skipped c hc hcheckpoint).imp (fun htrail => ?_) id
    have hmem : c ∈ s'.trail.filter Submission.isCheckpoint :=
      hcheckpoints ▸ List.mem_filter.mpr ⟨htrail, hcheckpoint⟩
    exact (List.mem_filter.mp hmem).1

theorem Ordered.of_trail {s' : PersistLane} (h : Ordered s)
    (hsubmitted : s'.submitted = s.submitted) (htrail : s'.trail = s.trail) : Ordered s' :=
  h.of_filter hsubmitted (by rw [htrail]) (by rw [htrail])

theorem leftBy_concat (m : Manifest) (log : List LaneRun) (r : LaneRun) :
    leftBy m (log ++ [r]) =
      if r.job.isAdministrative then r.left.getD (leftBy m log) else leftBy m log := by
  rw [leftBy, List.foldl_concat]
  rfl

/-- Only administrative jobs change the manifest. -/
theorem persist_manifest {job : PersistJob} (h : job.isAdministrative = false) (m : Manifest)
    (o : Persist.Outcomes) (w : Persist.World) : (o.run (Persist.persist job m) w).1.2 = m := by
  cases job with
  | checkpoint c => simp [Persist.persist]
  | gatewayWarning uplink interface delay => rfl
  | _ => cases h

/-- Reading a checkpoint drops the one that was held, for a later one. -/
theorem ordered_checkpoint {closed : Bool} {queue rest submitted : List Submission}
    {held : Option Submission} {j : Submission} {manifest : Manifest} {log : List LaneRun}
    (h : Sound m ⟨j :: rest, closed, queue, held, .sorting, manifest, submitted, log⟩)
    (hj : j.isCheckpoint = true) :
    Ordered ⟨rest, closed, queue, some j, .sorting, manifest, submitted, log⟩ := by
  cases held with
  | none => exact h.toOrdered.of_trail rfl (by simp [trail, current, ran])
  | some c =>
    have hc := h.held c rfl
    -- Without the checkpoint that was held, the trail is the same.
    have hqueued := h.inOrder
    have hsub := h.checkpoints
    simp only [trail, current, List.append_nil, Option.toList_some, List.filter_append,
      List.append_assoc, List.singleton_append, List.filter_cons_of_pos hc,
      List.filter_cons_of_pos hj] at hsub
    have hlater : c.1 < j.1 := by
      have hsorted := h.numbered.sublist hsub
      simp only [List.pairwise_append, List.pairwise_cons] at hsorted
      exact hsorted.2.1.2.1.1 j List.mem_cons_self
    have hmem : j ∈ submitted := hsub.subset (by simp)
    exact
      { numbered := h.numbered
        below := h.below
        inOrder := by
          rw [← hqueued]
          simp [trail, current, ran, Submission.isQueued, hc]
        checkpoints := by
          refine List.Sublist.trans ?_ hsub
          simp [trail, current, ran, List.filter_append, hj]
        skipped := by
          intro d hd hcheckpoint
          rcases h.skipped d hd hcheckpoint with htrail | hskipped
          · by_cases hdropped : d = c
            · exact .inr ⟨j, hmem, hj, hdropped ▸ hlater⟩
            · left
              simp only [trail, current, ran, List.mem_append, Option.toList_some, List.mem_cons,
                List.not_mem_nil, or_false] at htrail ⊢
              tauto
          · exact .inr hskipped }

theorem sound_proceed (h : Sound m s) (outcome : Option (Persist.Outcomes × Persist.World)) :
    Sound m (s.proceed outcome) := by
  obtain ⟨channel, closed, queue, held, phase, manifest, submitted, log⟩ := s
  cases phase with
  | sorting =>
    cases channel with
    | nil =>
      exact { h with
        toOrdered := h.toOrdered.of_trail rfl rfl
        idle := by simp [proceed]
        ended := by simp [proceed] }
    | cons j rest =>
      simp only [proceed]
      split_ifs with hj
      · exact { h with
          toOrdered := ordered_checkpoint h hj
          held := by
            rintro c ⟨⟩
            exact hj
          idle := by simp
          ended := by simp }
      · have hheld := h.held
        rw [Bool.not_eq_true] at hj
        exact { h with
          toOrdered := h.toOrdered.of_filter rfl
            (by cases held <;> simp_all [trail, current, ran, Submission.isQueued])
            (by simp [trail, current, ran, hj])
          queued := by
            intro c hc
            rcases List.mem_append.mp hc with hc | hc
            · exact h.queued c hc
            · rw [List.mem_singleton.mp hc]
              exact hj
          idle := by simp
          ended := by simp }
  | choosing =>
    cases queue with
    | cons j rest =>
      exact { h with
        toOrdered := h.toOrdered.of_trail rfl (by simp [trail, current, ran, proceed])
        queued := fun c hc => h.queued c (List.mem_cons_of_mem j hc)
        idle := by simp [proceed]
        ended := by simp [proceed] }
    | nil =>
      cases held with
      | some c =>
        exact { h with
          toOrdered := h.toOrdered.of_trail rfl (by simp [trail, current, ran, proceed])
          held := by simp [proceed]
          idle := by simp [proceed]
          ended := by simp [proceed] }
      | none =>
        exact { h with
          toOrdered := h.toOrdered.of_trail rfl rfl
          idle := fun _ => ⟨rfl, rfl⟩
          ended := by simp [proceed] }
  | waiting =>
    obtain ⟨rfl, rfl⟩ := h.idle (.inl rfl)
    cases channel with
    | cons j rest =>
      exact { h with
        toOrdered := h.toOrdered.of_trail rfl (by simp [trail, current, ran, proceed])
        idle := by simp [proceed]
        ended := by simp [proceed] }
    | nil =>
      simp only [proceed]
      split_ifs with hclosed
      · exact { h with
          toOrdered := h.toOrdered.of_trail rfl rfl
          idle := fun _ => ⟨rfl, rfl⟩
          ended := fun _ => ⟨hclosed, rfl⟩ }
      · exact h
  | running j =>
    exact { h with
      toOrdered := h.toOrdered.of_trail rfl (by simp [trail, current, ran, proceed])
      idle := by simp [proceed]
      ended := by simp [proceed]
      manifest := by
        have hmanifest : manifest = leftBy m log := h.manifest
        simp only [proceed, leftBy_concat, ← hmanifest]
        split_ifs with hadmin
        · rfl
        · cases outcome with
          | none => rfl
          | some r => exact persist_manifest (Bool.eq_false_iff.mpr hadmin) _ _ _
      given := by
        intro before r after hlog
        rcases List.eq_nil_or_concat after with rfl | ⟨after, last, rfl⟩
        · obtain ⟨rfl, hr⟩ := List.append_inj' hlog rfl
          obtain rfl := (List.cons.inj hr).1
          exact h.manifest
        · rw [List.concat_eq_append, ← List.cons_append, ← List.append_assoc] at hlog
          exact h.given before r after (List.append_inj' hlog rfl).1 }
  | ended => exact h

theorem sound_step (h : Sound m s) (e : Event) : Sound m (s.step e) := by
  cases e with
  | lane outcome => exact sound_proceed h outcome
  | close =>
    exact { h with
      toOrdered := h.toOrdered.of_trail rfl rfl
      ended := fun hended => ⟨rfl, (h.ended hended).2⟩ }
  | submit job =>
    rw [step]
    split_ifs with hclosed
    · exact h
    · have htrail : ∀ c p, trail { s with
          channel := s.channel ++ [c]
          submitted := p } = s.trail ++ [c] := by
        intro c p
        simp [trail, current, ran]
      exact { h with
        numbered := by
          refine List.pairwise_append.mpr ⟨h.numbered, List.pairwise_singleton _ _, ?_⟩
          intro j hj c hc
          rw [List.mem_singleton.mp hc]
          exact h.below j hj
        below := by
          intro j hj
          rw [List.length_append, List.length_singleton]
          rcases List.mem_append.mp hj with hj | hj
          · exact (h.below j hj).trans (Nat.lt_succ_self _)
          · rw [List.mem_singleton.mp hj]
            exact Nat.lt_succ_self _
        inOrder := by
          rw [htrail, List.filter_append, List.filter_append, h.inOrder]
        checkpoints := by
          rw [htrail, List.filter_append]
          exact h.checkpoints.append List.filter_sublist
        skipped := by
          intro c hc hcheckpoint
          rw [htrail]
          rcases List.mem_append.mp hc with hc | hc
          · rcases h.skipped c hc hcheckpoint with htrail | ⟨c', hc', hlater⟩
            · exact .inl (List.mem_append_left _ htrail)
            · exact .inr ⟨c', List.mem_append_left _ hc', hlater⟩
          · exact .inl (List.mem_append_right _ hc)
        ended := fun hended => absurd (h.ended hended).1 hclosed }

theorem sound_run (m : Manifest) (events : List Event) : Sound m ((start m).run events) := by
  induction events using List.reverseRecOn with
  | nil => exact sound_start m
  | append_singleton events e ih =>
    rw [run, List.foldl_concat]
    exact sound_step ih e

/-! ## Progress -/

/-- The lane has nothing to do. -/
def Idle (s : PersistLane) : Prop :=
  s.phase = .ended ∨ s.phase = .waiting ∧ s.channel = [] ∧ s.closed = false

/-- The steps that are left. -/
def work (s : PersistLane) : ℕ :=
  4 * s.channel.length + 3 * s.queue.length + 3 * s.checkpoint.toList.length +
    match s.phase with
    | .ended => 0
    | .waiting => 1
    | .choosing => 2
    | .sorting => 3
    | .running _ => 4

/-- A step of the lane is progress, unless it has nothing to do. -/
theorem work_proceed (outcome : Option (Persist.Outcomes × Persist.World)) (h : ¬ s.Idle) :
    (s.proceed outcome).work < s.work := by
  obtain ⟨channel, closed, queue, held, phase, manifest, submitted, log⟩ := s
  cases phase with
  | sorting =>
    cases channel with
    | nil => simp [proceed, work]
    | cons j rest =>
      simp only [proceed]
      split_ifs <;> cases held <;> simp [work] <;> omega
  | choosing =>
    cases queue <;> cases held <;> simp [proceed, work] <;> omega
  | waiting =>
    cases channel with
    | nil => cases closed <;> simp_all [proceed, work, Idle]
    | cons j rest =>
      simp [proceed, work]
      omega
  | running j => simp [proceed, work]
  | ended => exact absurd (.inl rfl) h

theorem idle_proceed (outcome : Option (Persist.Outcomes × Persist.World)) (h : s.Idle) :
    (s.proceed outcome).Idle := by
  have hsame : s.proceed outcome = s := by
    rcases h with hphase | ⟨hphase, hchannel, hclosed⟩
    · simp only [proceed, hphase]
    · simp only [proceed, hphase, hchannel, hclosed, Bool.false_eq_true, if_false]
  rw [hsame]
  exact h

/-- **The lane gets everything done** if it goes on. -/
theorem idle_run (outcomes : List (Option (Persist.Outcomes × Persist.World)))
    (h : s.Idle ∨ s.work ≤ outcomes.length) : (s.run (outcomes.map .lane)).Idle := by
  induction outcomes generalizing s with
  | nil =>
    by_contra hidle
    have hlt := work_proceed none (s := s) hidle
    rcases h with h | h
    · exact hidle h
    · rw [List.length_nil] at h
      omega
  | cons o outcomes ih =>
    refine @ih (s.proceed o) ?_
    by_cases hidle : s.Idle
    · exact .inl (idle_proceed o hidle)
    · have hlt := work_proceed o hidle
      have hle := h.resolve_left hidle
      rw [List.length_cons] at hle
      exact .inr (by omega)

theorem closed_proceed (outcome : Option (Persist.Outcomes × Persist.World)) :
    (s.proceed outcome).closed = s.closed := by
  unfold proceed
  repeat' split
  all_goals rfl

theorem closed_run (outcomes : List (Option (Persist.Outcomes × Persist.World))) :
    (s.run (outcomes.map .lane)).closed = s.closed := by
  induction outcomes generalizing s with
  | nil => rfl
  | cons o outcomes ih => exact ih.trans (closed_proceed o)

/-! ## The order of the jobs -/

/-- What has run when the lane has nothing to do: everything but checkpoints with a later one. -/
theorem Sound.done (h : Sound m s) (hidle : s.Idle) :
    s.ran.filter Submission.isQueued = s.submitted.filter Submission.isQueued ∧
      ∀ c ∈ s.submitted, c.isCheckpoint = true → c ∈ s.ran ∨
        ∃ c' ∈ s.submitted, c'.isCheckpoint = true ∧ c.1 < c'.1 := by
  have hrest := h.idle (hidle.symm.imp And.left id)
  have htrail : s.trail = s.ran := by
    rcases hidle with hphase | ⟨hphase, hchannel, -⟩
    · simp [trail, current, hphase, hrest, (h.ended hphase).2]
    · simp [trail, current, hphase, hrest, hchannel]
  refine ⟨?_, fun c hc hcheckpoint => ?_⟩
  · rw [← h.inOrder, htrail]
  · rw [← htrail]
    exact h.skipped c hc hcheckpoint

/-- **The order of the persistence lane.**  In any interleaving each job that waits in the queue,
so every administrative one, runs at most once and in the order of submission, on the manifest
that the previous administrative job left which did not panic; checkpoints run in that order, none
twice, and one is neither run nor on its way only if a later one was submitted.  A lane that ended,
or waits for jobs, has run everything but such checkpoints.  It comes to that if it goes on, and
ends once the channel is closed. -/
theorem ordered_run (m : Manifest) (events : List Event) :
    let s := (start m).run events
    (s.submitted.map Prod.fst).Nodup ∧
    s.ran.filter Submission.isQueued <+: s.submitted.filter Submission.isQueued ∧
    (∀ before r after, s.log = before ++ r :: after → r.manifest = leftBy m before) ∧
    (s.ran.filter Submission.isCheckpoint).Sublist s.submitted ∧
    (∀ c ∈ s.submitted, c.isCheckpoint = true → c ∈ s.trail ∨
      ∃ c' ∈ s.submitted, c'.isCheckpoint = true ∧ c.1 < c'.1) ∧
    (s.Idle →
      s.ran.filter Submission.isQueued = s.submitted.filter Submission.isQueued ∧
      ∀ c ∈ s.submitted, c.isCheckpoint = true → c ∈ s.ran ∨
        ∃ c' ∈ s.submitted, c'.isCheckpoint = true ∧ c.1 < c'.1) ∧
    ∀ outcomes : List (Option (Persist.Outcomes × Persist.World)), s.work ≤ outcomes.length →
      ((start m).run (events ++ outcomes.map .lane)).Idle ∧
        (s.closed = true → ((start m).run (events ++ outcomes.map .lane)).phase = .ended) := by
  intro s
  have h : Sound m s := sound_run m events
  have hran : s.trail = s.ran ++ (s.current ++ s.queue ++ s.checkpoint.toList ++ s.channel) := by
    simp [trail]
  refine ⟨?_, ?_, h.given, ?_, h.skipped, h.done, fun outcomes hwork => ?_⟩
  · exact (List.pairwise_map.mpr h.numbered).imp fun hlt => hlt.ne
  · rw [← h.inOrder, hran, List.filter_append]
    exact List.prefix_append _ _
  · refine List.Sublist.trans ?_ h.checkpoints
    rw [hran, List.filter_append]
    exact List.sublist_append_left _ _
  · have hidle := idle_run outcomes (.inr hwork)
    have hrun : (start m).run (events ++ outcomes.map .lane) = s.run (outcomes.map .lane) :=
      List.foldl_append
    rw [hrun]
    refine ⟨hidle, fun hclosed => hidle.resolve_right fun hwaiting => ?_⟩
    rw [closed_run, hclosed] at hwaiting
    cases hwaiting.2.2

end PersistLane

namespace Sample

/-- A checkpoint of a router without paths. -/
def checkpointAt (boottimeMs : ℕ) : Checkpoint :=
  { bootId := "boot", boottimeMs, structural := (Manifest.new config).structural, paths := []
    activeV4 := [], activeV6 := [] }

/-- A drain request between two checkpoints; then the channel is closed. -/
def submissions : List PersistLane.Event :=
  [.submit (.checkpoint (checkpointAt 0)), .submit (.drain 0 ["fibre"]),
    .submit (.checkpoint (checkpointAt 1)), .close]

/-- The lane goes on, and every call succeeds. -/
def laneSteps : List (Option (Persist.Outcomes × Persist.World)) :=
  List.replicate 15 (some (fun _ => true, emptyWorld))

end Sample

namespace PersistLane

open Sample

/-- The request runs before the second checkpoint, and the first is dropped. -/
theorem ordered_run_submissions :
    let s := (start emptyWorld.manifest).run (submissions ++ laneSteps.map .lane)
    s.phase = .ended ∧ s.ran.map Prod.fst = [1, 2] := by
  obtain ⟨-, -, -, -, -, -, hends⟩ := ordered_run emptyWorld.manifest submissions
  exact ⟨(hends laneSteps (by decide)).2 rfl, by decide +kernel⟩

end PersistLane

end Polywan
