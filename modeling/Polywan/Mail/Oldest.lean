import Polywan.Mail.Life

/-!
# Oldest first

Messages are evicted from the front of the queue, which is the oldest one as long as the
queue is in the order of creation.  New messages go to its end, and so does a retry: the
order is kept exactly when a retry finds only older messages waiting.

## Main definitions

* `Mail.Ledger.OldestFirst` — what was evicted last and what waits are oldest first.
* `Mail.Notifier.RetriesYoungest` — a retry finds only older messages waiting.

## Main results

* `Mail.Ledger.oldestFirst_iff` — a run keeps the order exactly when each retry does so.
-/

namespace Polywan.Mail

/-- The messages that a deed evicts. -/
def Deed.evicts : Deed → List Message
  | .queued _ lost => lost
  | .retried _ _ lost => lost
  | _ => []

/-- Messages in the order of their creation. -/
def Aged (queue : List Message) : Prop := (queue.map Message.number).Pairwise (· < ·)

instance (queue : List Message) : Decidable (Aged queue) :=
  inferInstanceAs (Decidable ((queue.map Message.number).Pairwise (· < ·)))

theorem Aged.sublist {queue queue' : List Message} (h : Aged queue)
    (hsub : queue'.Sublist queue) : Aged queue' :=
  List.Pairwise.sublist (hsub.map Message.number) h

/-- A message at the end is younger than all others. -/
theorem aged_concat {queue : List Message} {m : Message} (h : Aged queue) :
    Aged (queue ++ [m]) ↔ ∀ old ∈ queue, old.number < m.number := by
  have hqueue : (queue.map Message.number).Pairwise (· < ·) := h
  rw [Aged, List.map_append, List.pairwise_append]
  simp [hqueue]

/-- The numbers of messages, from their Message-IDs. -/
theorem map_number_eq {queue : List Message} {numbers : List ℕ} {instanceId sender : String}
    (h : queue.map Message.id = numbers.map (messageId instanceId · sender)) :
    queue.map Message.number = numbers := by
  induction queue generalizing numbers with
  | nil => simpa using h
  | cons m queue ih =>
    cases numbers with
    | nil => cases h
    | cons n numbers =>
      obtain ⟨hid, hrest⟩ := List.cons.inj h
      rw [List.map_cons, number_eq hid, ih hrest]

/-- A failed submission whose message is to be retried finds only older messages waiting. -/
def Notifier.RetriesYoungest (n : Notifier) : Action → Prop
  | .ended .failed _ =>
    n.stopped = false → n.notify.email.isSome → ∀ msg ∈ n.running,
      (n.mail.times.retry msg.failures).isSome →
        ∀ old ∈ n.mail.waiting, old.number < msg.number
  | _ => True

namespace Ledger

/-- What the last action evicted and what waits, in the order of creation: each message
evicted is the oldest of those that waited. -/
def OldestFirst (l : Ledger) : Prop :=
  Aged ((l.deeds.getLast?.elim [] Deed.evicts) ++ l.notifier.mail.waiting)

instance (l : Ledger) : Decidable l.OldestFirst :=
  inferInstanceAs (Decidable (Aged _))

variable {l : Ledger} {n' : Notifier}

theorem OldestFirst.aged (h : l.OldestFirst) : Aged l.notifier.mail.waiting :=
  Aged.sublist h (List.sublist_append_right _ _)

/-- A deed that evicts nothing and queues nothing. -/
theorem oldestFirst_of_sublist {d : Deed} (h : l.OldestFirst) (hd : d.evicts = [])
    (hsub : n'.mail.waiting.Sublist l.notifier.mail.waiting) :
    OldestFirst ⟨n', l.deeds ++ [d]⟩ := by
  simp only [OldestFirst, List.getLast?_concat, Option.elim_some, hd, List.nil_append]
  exact h.aged.sublist hsub

/-- A deed that queues a message. -/
theorem oldestFirst_queue {d : Deed} {m : Message} (h : l.OldestFirst)
    (hd : d.evicts = evicted (l.notifier.mail.waiting ++ [m]))
    (hwaiting : n'.mail.waiting = evict (l.notifier.mail.waiting ++ [m])) :
    OldestFirst ⟨n', l.deeds ++ [d]⟩ ↔
      ∀ old ∈ l.notifier.mail.waiting, old.number < m.number := by
  simp only [OldestFirst, List.getLast?_concat, Option.elim_some, hd, hwaiting,
    evicted_append_evict]
  exact aged_concat h.aged

/-- What a failed submission's end does, when it is retried. -/
theorem deed_ended {n : Notifier} {msg : Message} {now delay : ℕ} (hrunning : n.running = some msg)
    (hemail : n.notify.email.isSome) (hretry : n.mail.times.retry msg.failures = some delay) :
    n.deed (.ended .failed now) =
      .retried msg now (evicted (n.mail.waiting ++ [msg.again now delay])) := by
  simp only [Notifier.deed, hrunning, hemail, hretry]

/-- Only a retry of the running message can break the order. -/
theorem retriesYoungest_of_ne {n : Notifier} {x : Action}
    (h : ∀ msg now lost, n.deed x ≠ .retried msg now lost) : n.RetriesYoungest x := by
  cases x with
  | ended result now =>
    cases result with
    | failed =>
      intro _ hemail msg hrunning hretry
      obtain ⟨delay, hdelay⟩ := Option.isSome_iff_exists.mp hretry
      exact absurd (deed_ended hrunning hemail hdelay) (h _ _ _)
    | _ => trivial
  | _ => trivial

/-- The action that a retry comes from. -/
theorem eq_ended_of_retried {n : Notifier} {x : Action} {msg : Message} {now : ℕ}
    {lost : List Message} (h : n.deed x = .retried msg now lost) :
    x = .ended .failed now ∧ n.notify.email.isSome := by
  cases x with
  | ended result now' =>
    simp only [Notifier.deed] at h
    split at h
    · cases h
    · split at h
      · next hemail _ =>
          cases h
          exact ⟨rfl, hemail⟩
      · cases h
  | _ =>
    simp only [Notifier.deed] at h
    repeat' split at h
    all_goals cases h

/-- **A step keeps the order exactly when its retry does.** -/
theorem oldestFirst_step (hsound : Sound l) (h : l.OldestFirst)
    (hopen : l.notifier.stopped = false) {x : Action} (hstep : l.notifier.step x = some n') :
    OldestFirst ⟨n', l.deeds ++ [l.notifier.deed x]⟩ ↔ l.notifier.RetriesYoungest x := by
  have hholds := Notifier.holds_deed hstep
  have hother : (∀ msg now lost, l.notifier.deed x ≠ .retried msg now lost) →
      l.notifier.RetriesYoungest x := retriesYoungest_of_ne
  cases hdeed : l.notifier.deed x with
  | retried msg now lost =>
    rw [hdeed] at hholds
    obtain ⟨rfl, hemail⟩ := eq_ended_of_retried hdeed
    obtain ⟨delay, hretry, hrunning, -, -, rfl, hwaiting⟩ := hholds
    rw [oldestFirst_queue h rfl hwaiting]
    constructor
    · intro hold _ _ msg' hmsg' _
      obtain rfl := Option.some.inj (hrunning.symm.trans hmsg')
      exact hold
    · intro hyoungest
      exact hyoungest hopen hemail msg hrunning (by rw [hretry]; rfl)
  | queued msg lost =>
    rw [hdeed] at hholds
    obtain ⟨hnumber, -, -, -, rfl, hwaiting⟩ := hholds
    rw [oldestFirst_queue h rfl hwaiting]
    -- The new number is larger than all others.
    have hyounger : ∀ old ∈ l.notifier.mail.waiting, old.number < msg.number := by
      intro old hold
      have := hsound.le_ids _ (mem_numbers_of_waiting hold)
      omega
    exact iff_of_true hyounger (hother (by simp [hdeed]))
  | idle =>
    rw [hdeed] at hholds
    exact iff_of_true (oldestFirst_of_sublist h rfl (hholds.1 ▸ List.Sublist.refl _))
      (hother (by simp [hdeed]))
  | discarded lost =>
    rw [hdeed] at hholds
    exact iff_of_true (oldestFirst_of_sublist h rfl (hholds.2.1 ▸ List.nil_sublist _))
      (hother (by simp [hdeed]))
  | started msg now =>
    rw [hdeed] at hholds
    obtain ⟨-, -, -, -, before, after, hwaiting, hwaiting'⟩ := hholds
    refine iff_of_true (oldestFirst_of_sublist h rfl ?_) (hother (by simp [hdeed]))
    rw [hwaiting, hwaiting']
    exact (List.Sublist.refl before).append (List.sublist_cons_self msg after)
  | ended msg result now =>
    rw [hdeed] at hholds
    exact iff_of_true (oldestFirst_of_sublist h rfl (hholds.2.2.1 ▸ List.Sublist.refl _))
      (hother (by simp [hdeed]))
  | stopped =>
    rw [hdeed] at hholds
    refine iff_of_true (oldestFirst_of_sublist h rfl ?_) (hother (by simp [hdeed]))
    obtain hnil | hsame := hholds.2.2.2
    · rw [hnil]
      exact List.nil_sublist _
    · rw [hsame]

/-- One more action of a run. -/
theorem run_concat (l₀ : Ledger) (actions : List Action) (x : Action) :
    l₀.run (actions ++ [x]) = (l₀.run actions).bind fun l => l.step x := by
  simp [run]

/-- A step of the log. -/
theorem oldestFirst_step_iff (hsound : Sound l) (h : l.OldestFirst) {x : Action} :
    (∀ l', l.step x = some l' → l'.OldestFirst) ↔ l.notifier.RetriesYoungest x := by
  by_cases hopen : l.notifier.stopped = true
  · -- A stopped notifier does nothing more.
    refine iff_of_true (fun l' hstep => ?_) ?_
    · rw [step, if_pos hopen] at hstep
      exact Option.some.inj hstep ▸ h
    · cases x with
      | ended result now =>
        cases result with
        | failed =>
          intro hfalse
          rw [hopen] at hfalse
          cases hfalse
        | _ => trivial
      | _ => trivial
  · have hfalse : l.notifier.stopped = false := Bool.not_eq_true _ ▸ hopen
    simp only [step, if_neg hopen, Option.map_eq_some_iff]
    cases hstep : l.notifier.step x with
    | none =>
      refine iff_of_true (fun l' hl' => ?_) (retriesYoungest_of_ne fun msg now lost hdeed => ?_)
      · obtain ⟨n', hn', -⟩ := hl'
        cases hn'
      · -- The end of a submission never aborts.
        obtain ⟨rfl, -⟩ := eq_ended_of_retried hdeed
        simp only [Notifier.step] at hstep
        split at hstep <;> cases hstep
    | some n' =>
      rw [← oldestFirst_step hsound h hfalse hstep]
      constructor
      · intro hall
        exact hall _ ⟨n', rfl, rfl⟩
      · rintro hnext l' ⟨n'', hn'', rfl⟩
        exact Option.some.inj hn'' ▸ hnext

/-- **Runs that keep messages oldest first**, and evict the oldest ones, are exactly those in
which no younger message waits when a message is queued for a retry. -/
theorem oldestFirst_iff (notify : Notify) (times : Times) (instanceId : String)
    (actions : List Action) :
    (∀ before l, before <+: actions → (start notify times instanceId).run before = some l →
        l.OldestFirst) ↔
      ∀ before x l, before ++ [x] <+: actions →
        (start notify times instanceId).run before = some l → l.notifier.RetriesYoungest x := by
  constructor
  · intro h before x l hbefore hrun
    have hshort : before <+: actions := (List.prefix_append before [x]).trans hbefore
    refine (oldestFirst_step_iff (sound_run hrun).1 (h before l hshort hrun)).mp ?_
    intro l' hstep
    refine h _ l' hbefore ?_
    rw [run_concat, hrun, Option.bind_some, hstep]
  · intro h before
    induction before using List.reverseRecOn with
    | nil =>
      intro l _ hrun
      obtain rfl := Option.some.inj hrun
      exact List.Pairwise.nil
    | append_singleton before x ih =>
      intro l hbefore hrun
      rw [run_concat, Option.bind_eq_some_iff] at hrun
      obtain ⟨l₁, hrun₁, hstep⟩ := hrun
      have hfirst := ih l₁ ((List.prefix_append before [x]).trans hbefore) hrun₁
      exact (oldestFirst_step_iff (sound_run hrun₁).1 hfirst).mpr (h before x l₁ hbefore hrun₁)
        l hstep

/-- Batches close after a second. -/
def prompt : Notify := { Account.settings 20 with coalesce := Duration.ofSecs 1 }

/-- While the submission of the first message runs into its deadline, eight more are
queued. -/
def overtaken : List Action :=
  Account.batchFrom 0 1 ++ [.turn (Duration.ofSecs 1)] ++
    [10, 12, 14, 16, 18, 20, 22, 24].flatMap (fun s => Account.batchFrom s (s + 1)) ++
    [.ended .failed (Duration.ofSecs 61)]

/-- Queueing its retry evicts the second message, and the first one stays. -/
theorem overtaken_not_oldestFirst :
    ∃ l, (start prompt {} "run").run overtaken = some l ∧ ¬ l.OldestFirst ∧
      (l.deeds.getLast?.elim [] Deed.evicts).map Message.number = [2] ∧
      l.notifier.mail.waiting.map Message.number = [3, 4, 5, 6, 7, 8, 9, 1] := by
  have hfacts : ((start prompt {} "run").run overtaken).map
      (fun l => ((l.deeds.getLast?.elim [] Deed.evicts).map Message.id,
        l.notifier.mail.waiting.map Message.id)) =
      some ([2].map (messageId "run" · "router@example.org"),
        [3, 4, 5, 6, 7, 8, 9, 1].map (messageId "run" · "router@example.org")) := by
    rfl
  obtain ⟨l, hrun, hids⟩ := Option.map_eq_some_iff.mp hfacts
  have hevicted := map_number_eq (congrArg Prod.fst hids)
  have hwaiting := map_number_eq (congrArg Prod.snd hids)
  refine ⟨l, hrun, ?_, hevicted, hwaiting⟩
  rw [OldestFirst, Aged, List.map_append, hevicted, hwaiting]
  decide

end Ledger

end Polywan.Mail
