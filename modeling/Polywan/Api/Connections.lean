import Polywan.Api
import Polywan.Lib.Until

/-!
# Connections of a listener

A listener has two signals: it stops when it is closed, and a generation is advanced when its
access changes.  A connection is accepted by one task and served by another, which samples the
generation when it first runs.  Every task may run between any two steps of the others.

## Main definitions

* `Api.Connection`, `Api.Gate` — a connection, and a listener with its connections.
* `Api.Gate.step` — the steps of the accepting task, of connections and of commits.
* `Api.Gate.Cuts` — a connection from before a signal ends when it is polled, and no other.

## Main results

* `Api.Gate.cuts_commit_iff` — a changed access cuts exactly the connections that ran before.
* `Api.Gate.cuts_iff_along` — the runs in which every signal reaches what was accepted.
-/

namespace Polywan.Api

/-- Where the task of a connection is. -/
inductive Phase where
  /-- Accepted; its task has not run. -/
  | spawned
  | running (generation : ℕ)
  | ended
deriving DecidableEq

namespace Phase

/-- The task runs for the first time: it samples the generation. -/
def start (generation : ℕ) : Phase → Phase
  | .spawned => .running generation
  | p => p

/-- What the task selects on: its own end (the exchange is over, its deadline passed), the stop
of the listener and another generation. -/
def select (generation : ℕ) (stopped done : Bool) : Phase → Phase
  | .running g => if done || stopped || generation ≠ g then .ended else .running g
  | p => p

end Phase

structure Connection where
  phase : Phase := .spawned
  /-- The generation when it was accepted. -/
  accepted : ℕ
deriving DecidableEq

/-- Connections at a time; more are closed at once. -/
def connectionsMax : ℕ := 16

/-- A listener with its signals and its connections. -/
structure Gate where
  /-- What the manager serves. -/
  listener : Option Listener
  stopped : Bool := false
  generation : ℕ := 0
  /-- The accepting task runs. -/
  accepting : Bool := true
  connections : List Connection := []

namespace Gate

/-- A step of one of the tasks. -/
inductive Step where
  | accept
  /-- The accepting task sees the stop. -/
  | leave
  | start (i : ℕ)
  | poll (i : ℕ) (done : Bool)
  | commit (wanted : List Endpoint) (o : Outcomes)

/-- A listener that was just bound. -/
def serve (l : Listener) : Gate where
  listener := some l

variable (s : Gate)

def admitted : ℕ := s.connections.countP (·.phase ≠ .ended)

/-- A commit: an unchanged listener is kept, one whose access changed cuts its connections, and
any other is closed. -/
def commit (wanted : List Endpoint) (o : Outcomes) : Gate :=
  match s.listener with
  | none => s
  | some l =>
    match Manager.kept o wanted l with
    | none => { s with listener := none, stopped := true }
    | some l' =>
      if l' = l then s else { s with listener := some l', generation := s.generation + 1 }

def step : Step → Gate
  | .accept =>
    if s.accepting && s.admitted < connectionsMax then
      { s with connections := s.connections ++ [{ accepted := s.generation }] }
    else s
  | .leave => { s with accepting := s.accepting && !s.stopped }
  | .start i =>
    { s with
      connections := s.connections.modify i fun c =>
        { c with phase := c.phase.start s.generation } }
  | .poll i done =>
    { s with
      connections := s.connections.modify i fun c =>
        { c with phase := c.phase.select s.generation s.stopped done } }
  | .commit wanted o => s.commit wanted o

/-- The connection is over after a poll, although it has not ended by itself. -/
def Ends (c : Connection) : Prop :=
  (c.phase.start s.generation).select s.generation s.stopped false = .ended

instance (c : Connection) : Decidable (s.Ends c) :=
  inferInstanceAs (Decidable (_ = _))

/-- A connection that was accepted before the listener was closed or its access changed last
ends when it is polled; one that was accepted after that does not. -/
structure Cuts : Prop where
  ends : ∀ c ∈ s.connections, s.stopped = true ∨ c.accepted < s.generation → s.Ends c
  stays : ∀ c ∈ s.connections, s.stopped = false → c.accepted = s.generation →
    c.phase ≠ .ended → ¬ s.Ends c

/-- When a commit changes the access, the task of every connection has run. -/
def Started : Step → Prop
  | .commit wanted o =>
    ∀ l ∈ s.listener, ∀ l' ∈ Manager.kept o wanted l, l' ≠ l →
      ∀ c ∈ s.connections, c.phase ≠ .spawned
  | _ => True

/-- How phases and generations are related. -/
structure Sound : Prop where
  accepted_le : ∀ c ∈ s.connections, c.accepted ≤ s.generation
  sampled : ∀ c ∈ s.connections, ∀ g, c.phase = .running g → c.accepted ≤ g ∧ g ≤ s.generation
  closed : s.stopped = true → s.listener = none

variable {s}

theorem ends_spawned {c : Connection} (hc : c.phase = .spawned) :
    s.Ends c ↔ s.stopped = true := by
  simp [Ends, hc, Phase.start, Phase.select]

theorem ends_running {c : Connection} {g : ℕ} (hc : c.phase = .running g) :
    s.Ends c ↔ s.stopped = true ∨ s.generation ≠ g := by
  cases hstopped : s.stopped <;> simp [Ends, hc, Phase.start, Phase.select, hstopped]

theorem ends_ended {c : Connection} (hc : c.phase = .ended) : s.Ends c := by
  simp [Ends, hc, Phase.start, Phase.select]

/-! ## Steps of connections -/

/-- A connection after one of them was changed. -/
theorem mem_modify {cs : List Connection} {i : ℕ} {f : Connection → Connection} {c : Connection}
    (hc : c ∈ cs.modify i f) : ∃ c₀ ∈ cs, c = c₀ ∨ c = f c₀ := by
  obtain ⟨j, hj, rfl⟩ := List.mem_iff_getElem.mp hc
  rw [List.length_modify] at hj
  refine ⟨cs[j], List.getElem_mem hj, ?_⟩
  rw [List.getElem_modify]
  split
  · exact .inr rfl
  · exact .inl rfl

/-- A step that changes phases only, as polls do. -/
theorem Cuts.modify (h : s.Cuts) (i : ℕ) {f : Connection → Connection}
    (haccepted : ∀ c, (f c).accepted = c.accepted)
    (hends : ∀ c ∈ s.connections, s.Ends c → s.Ends (f c))
    (hstays : ∀ c ∈ s.connections, (f c).phase ≠ .ended → s.Ends (f c) →
      c.phase ≠ .ended ∧ s.Ends c) :
    Cuts { s with connections := s.connections.modify i f } where
  ends c hc hbefore := by
    obtain ⟨c₀, hc₀, rfl | rfl⟩ := mem_modify hc
    · exact h.ends c hc₀ hbefore
    · rw [haccepted] at hbefore
      exact hends c₀ hc₀ (h.ends c₀ hc₀ hbefore)
  stays c hc hopen hafter hover hends' := by
    obtain ⟨c₀, hc₀, rfl | rfl⟩ := mem_modify hc
    · exact h.stays c hc₀ hopen hafter hover hends'
    · rw [haccepted] at hafter
      obtain ⟨hover₀, hends₀⟩ := hstays c₀ hc₀ hover hends'
      exact h.stays c₀ hc₀ hopen hafter hover₀ hends₀

theorem Cuts.start (h : s.Cuts) (i : ℕ) : (s.step (.start i)).Cuts := by
  have hends : ∀ c : Connection,
      s.Ends { c with phase := c.phase.start s.generation } ↔ s.Ends c := by
    intro c
    simp only [Ends]
    cases c.phase <;> rfl
  refine h.modify i (fun _ => rfl) (fun c _ => (hends c).mpr) fun c _ hover hc => ?_
  refine ⟨fun hphase => hover ?_, (hends c).mp hc⟩
  rw [hphase]
  rfl

theorem Cuts.poll (h : s.Cuts) (i : ℕ) (done : Bool) : (s.step (.poll i done)).Cuts := by
  -- A poll ends the connection or leaves it.
  have hselect : ∀ c : Connection, (c.phase.select s.generation s.stopped done) = .ended ∨
      (c.phase.select s.generation s.stopped done) = c.phase := by
    intro c
    cases c.phase with
    | running g =>
      simp only [Phase.select]
      split
      · exact .inl rfl
      · exact .inr rfl
    | _ => exact .inr rfl
  refine h.modify i (fun _ => rfl) (fun c _ hc => ?_) fun c _ hover hc => ?_
  · rcases hselect c with hphase | hphase
    · exact ends_ended hphase
    · rw [Ends, hphase]
      exact hc
  · rcases hselect c with hphase | hphase
    · exact absurd hphase hover
    · rw [Ends, hphase] at hc
      dsimp only at hover
      rw [hphase] at hover
      exact ⟨hover, hc⟩

theorem Cuts.accept (h : s.Cuts) : (s.step .accept).Cuts := by
  simp only [step]
  split
  · constructor
    · intro c hc hbefore
      rcases List.mem_append.mp hc with hc | hc
      · exact h.ends c hc hbefore
      · -- It is accepted under the current generation.
        obtain rfl := List.mem_singleton.mp hc
        obtain hstopped | hlt := hbefore
        · exact (ends_spawned rfl).mpr hstopped
        · exact absurd hlt (Nat.lt_irrefl _)
    · intro c hc hopen hafter hover hends
      rcases List.mem_append.mp hc with hc | hc
      · exact h.stays c hc hopen hafter hover hends
      · obtain rfl := List.mem_singleton.mp hc
        have hstopped := (ends_spawned rfl).mp hends
        rw [hopen] at hstopped
        cases hstopped
  · exact h

/-! ## Signals -/

/-- A closed listener ends all its connections. -/
theorem ends_of_stopped (hstopped : s.stopped = true) (c : Connection) : s.Ends c := by
  cases hphase : c.phase with
  | spawned => exact (ends_spawned hphase).mpr hstopped
  | running g => exact (ends_running hphase).mpr (.inl hstopped)
  | ended => exact ends_ended hphase

/-- **A changed access cuts exactly the connections whose tasks have run.** -/
theorem cuts_cut_iff (hsound : s.Sound) (hopen : s.stopped = false) (l' : Option Listener) :
    Cuts { s with listener := l', generation := s.generation + 1 } ↔
      ∀ c ∈ s.connections, c.phase ≠ .spawned := by
  constructor
  · intro h c hc hphase
    have hlt := Nat.lt_succ_of_le (hsound.accepted_le c hc)
    have hstopped := (ends_spawned hphase).mp (h.ends c hc (.inr hlt))
    rw [hopen] at hstopped
    cases hstopped
  · intro hstarted
    constructor
    · intro c hc _
      cases hphase : c.phase with
      | spawned => exact absurd hphase (hstarted c hc)
      | running g =>
        have hle := (hsound.sampled c hc g hphase).2
        refine (ends_running hphase).mpr (.inr ?_)
        dsimp only
        omega
      | ended => exact ends_ended hphase
    · intro c hc _ hafter
      have hle := hsound.accepted_le c hc
      dsimp only at hafter
      omega

theorem cuts_commit_iff (hsound : s.Sound) (h : s.Cuts) (wanted : List Endpoint) (o : Outcomes) :
    (s.commit wanted o).Cuts ↔ s.Started (.commit wanted o) := by
  simp only [commit, Started]
  cases hlistener : s.listener with
  | none => exact iff_of_true h (by simp)
  | some l =>
    have hopen : s.stopped = false := by
      cases hstopped : s.stopped with
      | false => rfl
      | true =>
        rw [hsound.closed hstopped] at hlistener
        cases hlistener
    simp only [Option.mem_def, Option.some.injEq, forall_eq']
    cases hkept : Manager.kept o wanted l with
    | none =>
      refine iff_of_true ⟨fun c _ _ => ends_of_stopped rfl c, fun c _ hfalse => ?_⟩ (by simp)
      cases hfalse
    | some l' =>
      simp only [Option.some.injEq, forall_eq']
      by_cases heq : l' = l
      · rw [if_pos heq]
        exact iff_of_true h fun hne => absurd heq hne
      · rw [if_neg heq, cuts_cut_iff hsound hopen]
        exact (imp_iff_right heq).symm

theorem cuts_step_iff (hsound : s.Sound) (h : s.Cuts) (e : Step) :
    (s.step e).Cuts ↔ s.Started e := by
  cases e with
  | accept => exact iff_of_true h.accept trivial
  | leave => exact iff_of_true ⟨h.ends, h.stays⟩ trivial
  | start i => exact iff_of_true (h.start i) trivial
  | poll i done => exact iff_of_true (h.poll i done) trivial
  | commit wanted o => exact cuts_commit_iff hsound h wanted o

/-! ## Runs -/

theorem Sound.modify (h : s.Sound) (i : ℕ) {f : Connection → Connection}
    (haccepted : ∀ c, (f c).accepted = c.accepted)
    (hsampled : ∀ c ∈ s.connections, ∀ g, (f c).phase = .running g →
      c.phase = .running g ∨ g = s.generation) :
    Sound { s with connections := s.connections.modify i f } where
  accepted_le c hc := by
    obtain ⟨c₀, hc₀, rfl | rfl⟩ := mem_modify hc
    · exact h.accepted_le c hc₀
    · exact (haccepted c₀).symm ▸ h.accepted_le c₀ hc₀
  sampled c hc g hg := by
    obtain ⟨c₀, hc₀, rfl | rfl⟩ := mem_modify hc
    · exact h.sampled c hc₀ g hg
    · rw [haccepted]
      obtain hold | rfl := hsampled c₀ hc₀ g hg
      · exact h.sampled c₀ hc₀ g hold
      · exact ⟨h.accepted_le c₀ hc₀, le_rfl⟩
  closed := h.closed

theorem Sound.commit (h : s.Sound) (wanted : List Endpoint) (o : Outcomes) :
    (s.commit wanted o).Sound := by
  simp only [Gate.commit]
  split
  · exact h
  · next l hlistener =>
      split
      · exact ⟨h.accepted_le, h.sampled, fun _ => rfl⟩
      · split
        · exact h
        · refine ⟨fun c hc => (h.accepted_le c hc).trans (Nat.le_succ _), fun c hc g hg => ?_,
            fun hstopped => ?_⟩
          · obtain ⟨haccepted, hle⟩ := h.sampled c hc g hg
            exact ⟨haccepted, hle.trans (Nat.le_succ _)⟩
          · have hnone := h.closed hstopped
            rw [hlistener] at hnone
            cases hnone

theorem Sound.step (h : s.Sound) (e : Step) : (s.step e).Sound := by
  cases e with
  | accept =>
    simp only [Gate.step]
    split
    · refine ⟨fun c hc => ?_, fun c hc g hg => ?_, h.closed⟩
      · rcases List.mem_append.mp hc with hc | hc
        · exact h.accepted_le c hc
        · obtain rfl := List.mem_singleton.mp hc
          exact le_rfl
      · rcases List.mem_append.mp hc with hc | hc
        · exact h.sampled c hc g hg
        · obtain rfl := List.mem_singleton.mp hc
          cases hg
    · exact h
  | leave => exact ⟨h.accepted_le, h.sampled, h.closed⟩
  | start i =>
    refine h.modify i (fun _ => rfl) fun c _ g hg => ?_
    cases hphase : c.phase with
    | spawned =>
      rw [hphase] at hg
      exact .inr (Phase.running.inj hg).symm
    | running g' =>
      rw [hphase] at hg
      exact .inl hg
    | ended =>
      rw [hphase] at hg
      cases hg
  | poll i done =>
    refine h.modify i (fun _ => rfl) fun c _ g hg => .inl ?_
    cases hphase : c.phase with
    | running g' =>
      simp only [hphase, Phase.select] at hg
      split at hg
      · cases hg
      · exact hg
    | _ =>
      rw [hphase] at hg
      exact hg
  | commit wanted o => exact h.commit wanted o

theorem sound_serve (l : Listener) : (serve l).Sound :=
  ⟨fun _ hc => absurd hc List.not_mem_nil, fun _ hc => absurd hc List.not_mem_nil,
    fun h => by cases h⟩

theorem cuts_serve (l : Listener) : (serve l).Cuts :=
  ⟨fun _ hc => absurd hc List.not_mem_nil, fun _ hc => absurd hc List.not_mem_nil⟩

/-- **The runs in which signals reach every connection**: each connection that was accepted
before its listener was closed or changed its access ends when it is polled, and no other
does, exactly when no access changes while the task of a connection has still to run. -/
theorem cuts_iff_along (l : Listener) (steps : List Step) :
    (∀ before after, steps = before ++ after → (before.foldl step (serve l)).Cuts) ↔
      Lib.Along step Started (serve l) steps := by
  have hstep : ∀ s e, Sound s ∧ Cuts s → (Sound (step s e) ∧ Cuts (step s e) ↔ Started s e) := by
    rintro s e ⟨hsound, hcuts⟩
    rw [← cuts_step_iff hsound hcuts e]
    exact and_iff_right (hsound.step e)
  have hsound : ∀ before : List Step, (before.foldl step (serve l)).Sound := by
    intro before
    induction before using List.reverseRecOn with
    | nil => exact sound_serve l
    | append_singleton before e ih =>
      rw [List.foldl_append]
      exact ih.step e
  rw [← Lib.forall_prefix_iff_along hstep ⟨sound_serve l, cuts_serve l⟩]
  exact forall_congr' fun before => forall_congr' fun after => imp_congr_right fun _ =>
    (and_iff_right (hsound before)).symm

/-- The control socket of a group. -/
def controlSocket (gid : ℕ) : Endpoint where
  role := .control
  address := .unix "/run/polywan/api.sock" ⟨some gid⟩

/-- A connection is accepted, and the group changes before its task runs first. -/
def lateStart : List Step :=
  [.accept, .commit [controlSocket 20] {}, .start 0, .poll 0 false, .poll 0 false]

/-- The connection of the old group stays open under the new one. -/
theorem lateStart_stays :
    ∃ s, lateStart.foldl step (serve ⟨controlSocket 10, some ⟨"/run/polywan/api.sock", 1⟩⟩) = s ∧
      s.connections = [{ phase := .running 1, accepted := 0 }] ∧ s.generation = 1 ∧
      s.stopped = false ∧ ¬ s.Cuts := by
  refine ⟨_, rfl, by decide, by decide, by decide, fun h => ?_⟩
  have hends := h.ends { phase := .running 1, accepted := 0 } (by decide) (.inr (by decide))
  exact absurd hends (by decide)

end Gate

end Polywan.Api
