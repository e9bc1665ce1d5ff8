import Mathlib.Data.List.Infix
import Polywan.Mail.Life

/-!
# Removing email

A reload publishes its settings in a channel that keeps the latest value only, and the
notifier looks at the channel before anything else.  A reload without email is to discard
what is pending for good.  It does when its successors wait: a later reload that configures
email again may hide it from the notifier, or find a submission still running, whose retry
it then allows.

## Main definitions

* `Mail.Subscription` — the notifier, the channel of its settings and a log of both.
* `Mail.Fresh`, `Mail.Kept` — messages of batches opened after every removal; only those are
  submitted.
* `Mail.Subscription.Settled` — email is configured again once its removal is complete.

## Main results

* `Mail.Subscription.Sound.step` — what the removal of email leaves is fresh, step by step.
* `Mail.Subscription.kept` — in settled runs, nothing pending survives a removal.
-/

namespace Polywan.Mail

/-- What the log records. -/
inductive Entry where
  /-- An accepted reload. -/
  | reload (next : Notify)
  /-- A change opens a batch. -/
  | opened
  | deed (d : Deed)
deriving DecidableEq

namespace Entry

/-- A reload without email. -/
def removes : Entry → Bool
  | .reload next => next.email.isNone
  | _ => false

/-- The message is created. -/
def queues (number : ℕ) : Entry → Prop
  | .deed (.queued msg _) => msg.number = number
  | _ => False

end Entry

/-! ## Freshness -/

/-- The message was created after every removal of email, and from a batch opened after it. -/
def Fresh (number : ℕ) (log : List Entry) : Prop :=
  ∀ earlier e later, log = earlier ++ e :: later → e.removes = true →
    ∃ a b, later = a ++ .opened :: b ∧ ∃ q ∈ b, q.queues number

/-- A batch was opened after every removal of email. -/
def FreshBatch (log : List Entry) : Prop :=
  ∀ earlier e later, log = earlier ++ e :: later → e.removes = true → .opened ∈ later

/-- Only fresh messages are submitted. -/
def Kept (log : List Entry) : Prop :=
  ∀ before msg now, before ++ [.deed (.started msg now)] <+: log → Fresh msg.number before

section Fresh

variable {log es : List Entry} {number : ℕ}

/-- A removal in a log that ends with other entries. -/
theorem exists_of_append {earlier later : List Entry} {e : Entry}
    (h : log ++ es = earlier ++ e :: later) (he : e ∉ es) :
    ∃ rest, log = earlier ++ e :: rest ∧ later = rest ++ es := by
  rcases List.append_eq_append_iff.mp h with ⟨a, -, hes⟩ | ⟨c, hlog, hc⟩
  · exact absurd (by simp [hes]) he
  · cases c with
    | nil =>
      rw [List.nil_append] at hc
      exact absurd (by simp [← hc]) he
    | cons e' rest =>
      obtain ⟨rfl, rfl⟩ := List.cons.inj hc
      exact ⟨rest, hlog, rfl⟩

theorem not_mem_of_removes {e : Entry} (he : e.removes = true)
    (hes : ∀ e ∈ es, e.removes = false) : e ∉ es := by
  intro hmem
  rw [hes e hmem] at he
  cases he

theorem Fresh.append (h : Fresh number log) (hes : ∀ e ∈ es, e.removes = false) :
    Fresh number (log ++ es) := by
  intro earlier e later heq he
  obtain ⟨rest, hlog, rfl⟩ := exists_of_append heq (not_mem_of_removes he hes)
  obtain ⟨a, b, rfl, q, hq, hqueues⟩ := h earlier e rest hlog he
  exact ⟨a, b ++ es, by simp, q, List.mem_append_left _ hq, hqueues⟩

theorem FreshBatch.append (h : FreshBatch log) (hes : ∀ e ∈ es, e.removes = false) :
    FreshBatch (log ++ es) := by
  intro earlier e later heq he
  obtain ⟨rest, hlog, rfl⟩ := exists_of_append heq (not_mem_of_removes he hes)
  exact List.mem_append_left _ (h earlier e rest hlog he)

theorem freshBatch_opened : FreshBatch (log ++ [.opened]) := by
  intro earlier e later heq he
  obtain ⟨rest, -, rfl⟩ := exists_of_append heq (not_mem_of_removes he (by simp [Entry.removes]))
  simp

/-- The message of a batch that was opened after every removal. -/
theorem FreshBatch.queued (h : FreshBatch log) (msg : Message) (lost : List Message) :
    Fresh msg.number (log ++ [.deed (.queued msg lost)]) := by
  intro earlier e later heq he
  obtain ⟨rest, hlog, rfl⟩ :=
    exists_of_append heq (not_mem_of_removes he (by simp [Entry.removes]))
  obtain ⟨a, b, rfl⟩ := List.append_of_mem (h earlier e rest hlog he)
  refine ⟨a, b ++ [.deed (.queued msg lost)], by simp, .deed (.queued msg lost), ?_, rfl⟩
  exact List.mem_append_right _ (List.mem_singleton_self _)

theorem Kept.concat {e : Entry} (h : Kept log)
    (he : ∀ msg now, e = .deed (.started msg now) → Fresh msg.number log) : Kept (log ++ [e]) := by
  intro before msg now hbefore
  rcases List.prefix_concat_iff.mp hbefore with heq | hle
  · obtain ⟨rfl, hlast⟩ := List.append_inj' heq rfl
    exact he msg now (List.singleton_inj.mp hlast).symm
  · exact h before msg now hle

/-- Several fresh messages are submitted. -/
theorem Kept.starts (h : Kept log) (msgs : List Message) (now : ℕ)
    (hmsgs : ∀ m ∈ msgs, Fresh m.number log) :
    Kept (log ++ msgs.map fun m => .deed (.started m now)) := by
  induction msgs using List.reverseRecOn with
  | nil => simpa using h
  | append_singleton msgs m ih =>
    rw [List.map_append, ← List.append_assoc]
    refine (ih fun m hm => hmsgs m (List.mem_append_left _ hm)).concat fun msg t heq => ?_
    obtain ⟨rfl, -⟩ : m = msg ∧ now = t := by simpa using heq
    refine (hmsgs m (by simp)).append fun e he => ?_
    obtain ⟨m', -, rfl⟩ := List.mem_map.mp he
    rfl

/-- A message that is submitted after a removal, when no batch was opened in between. -/
theorem not_kept {a b : List Entry} {e : Entry} {msg : Message} {now : ℕ}
    (he : e.removes = true) (hb : .opened ∉ b) :
    ¬ Kept (a ++ e :: b ++ [.deed (.started msg now)]) := by
  intro h
  obtain ⟨c, d, rfl, -⟩ := h (a ++ e :: b) msg now List.prefix_rfl a e b rfl he
  exact hb (by simp)

end Fresh

/-! ## What actions do -/

section Batch

variable (m : Mail)

@[simp] theorem batch_takeDue (now : ℕ) : (m.takeDue now).2.batch = m.batch := by
  simp only [takeDue]
  split <;> rfl

@[simp] theorem batch_finished (msg : Message) (result : Submitted) (now : ℕ) (retry : Bool) :
    (m.finished msg result now retry).batch = m.batch := by
  simp only [finished]
  split
  · simp only [failed]
    split <;> rfl
  · rfl

@[simp] theorem batch_closeBatch (now : ℕ) (email : Email) (host : Option String) :
    (m.closeBatch now email host).batch = none := by
  cases hbatch : m.batch with
  | none => rw [m.closeBatch_of_none hbatch, hbatch]
  | some b =>
    simp only [closeBatch, hbatch]
    split <;> rfl

end Batch

namespace Notifier

/-- What a stopping notifier submits last. -/
def flushed (n : Notifier) (now : ℕ) (host : Option String) : List Entry :=
  match n.notify.email with
  | none => []
  | some email =>
    (n.mail.closingMessage now email host).toList.map (fun msg =>
        .deed (.queued msg (evicted (n.mail.waiting ++ [msg])))) ++
      ((n.mail.closeBatch now email host).waiting.filter (·.due ≤ now)).map fun m =>
        .deed (.started m now)

/-- The change opens a batch. -/
def opens (n : Notifier) : List Entry :=
  if n.notify.email.isSome && n.mail.batch.isNone then [.opened] else []

/-- What an action adds to the log. -/
def entries (n : Notifier) : Action → List Entry
  | .event _ _ => n.opens
  | .stop now queued host =>
    (if queued.isEmpty then [] else n.opens) ++
      (n.events queued).elim [] fun n' => n'.flushed now host
  | x => [.deed (n.deed x)]

variable {n n' : Notifier}

theorem removes_opens : ∀ e ∈ n.opens, e.removes = false := by
  intro e he
  simp only [opens] at he
  split at he
  · obtain rfl := List.mem_singleton.mp he
    rfl
  · cases he

theorem removes_flushed {now : ℕ} {host : Option String} :
    ∀ e ∈ n.flushed now host, e.removes = false := by
  intro e he
  simp only [flushed] at he
  split at he
  · cases he
  · rcases List.mem_append.mp he with he | he
    all_goals
      obtain ⟨m, -, rfl⟩ := List.mem_map.mp he
      rfl

theorem removes_entries (x : Action) : ∀ e ∈ n.entries x, e.removes = false := by
  intro e he
  cases x with
  | event now ev => exact removes_opens e he
  | stop now queued host =>
    rcases List.mem_append.mp he with he | he
    · split at he
      · cases he
      · exact removes_opens e he
    · cases hevents : n.events queued with
      | none =>
        rw [hevents] at he
        cases he
      | some n' =>
        rw [hevents] at he
        exact removes_flushed e he
  | _ =>
    obtain rfl := List.mem_singleton.mp he
    rfl

/-- Messages in memory were there before, or are new. -/
theorem numbers_of_holds {d : Deed} (h : d.Holds n n') {number : ℕ}
    (hn : number ∈ Ledger.numbers n') :
    number ∈ Ledger.numbers n ∨ ∃ msg lost, d = .queued msg lost ∧ msg.number = number := by
  have hold : ∀ m : Message, m ∈ n.mail.waiting → m.number ∈ Ledger.numbers n :=
    fun m hm => Ledger.mem_numbers_of_waiting hm
  have hsplit : (∃ m ∈ n'.mail.waiting, m.number = number) ∨
      ∃ m ∈ n'.running, m.number = number := by
    simpa [Ledger.numbers] using hn
  have hkept : ∀ {queue : List Message} {m : Message}, m ∈ evict queue → m ∈ queue := by
    intro queue m hm
    rw [← evicted_append_evict queue]
    exact List.mem_append_right _ hm
  cases d with
  | idle =>
    obtain ⟨hwaiting, hrunning, -⟩ := h
    rw [Ledger.numbers, hwaiting, hrunning] at hn
    exact .inl hn
  | discarded lost =>
    obtain ⟨-, hwaiting, hrunning, -⟩ := h
    rw [Ledger.numbers, hwaiting, hrunning] at hn
    exact .inl (List.mem_append_right _ hn)
  | queued msg lost =>
    obtain ⟨-, -, -, hrunning, -, hwaiting⟩ := h
    rw [hwaiting, hrunning] at hsplit
    obtain ⟨m, hm, rfl⟩ | ⟨m, hm, rfl⟩ := hsplit
    · rcases List.mem_append.mp (hkept hm) with hm | hm
      · exact .inl (hold m hm)
      · obtain rfl := List.mem_singleton.mp hm
        exact .inr ⟨m, lost, rfl, rfl⟩
    · exact .inl (Ledger.mem_numbers_of_running hm)
  | started msg now =>
    obtain ⟨-, -, hrunning, -, before, after, hwaiting, hwaiting'⟩ := h
    rw [hwaiting', hrunning] at hsplit
    refine .inl ?_
    obtain ⟨m, hm, rfl⟩ | ⟨m, hm, rfl⟩ := hsplit
    · refine hold m ?_
      rw [hwaiting]
      exact ((List.sublist_cons_self msg after).append_left before).subset hm
    · obtain rfl := Option.some.inj hm
      exact hold _ (by simp [hwaiting])
  | ended msg result now =>
    obtain ⟨-, hrunning, hwaiting, -⟩ := h
    rw [hwaiting, hrunning] at hsplit
    obtain ⟨m, hm, rfl⟩ | ⟨m, hm, rfl⟩ := hsplit
    · exact .inl (hold m hm)
    · cases hm
  | retried msg now lost =>
    obtain ⟨delay, -, hbusy, hrunning, -, -, hwaiting⟩ := h
    rw [hwaiting, hrunning] at hsplit
    obtain ⟨m, hm, rfl⟩ | ⟨m, hm, rfl⟩ := hsplit
    · rcases List.mem_append.mp (hkept hm) with hm | hm
      · exact .inl (hold m hm)
      · obtain rfl := List.mem_singleton.mp hm
        have hnumber : (msg.again now delay).number = msg.number := rfl
        rw [hnumber]
        exact .inl (Ledger.mem_numbers_of_running hbusy)
    · cases hm
  | stopped =>
    obtain ⟨-, hrunning, -, hwaiting⟩ := h
    rw [hrunning] at hsplit
    obtain ⟨m, hm, rfl⟩ | ⟨m, hm, rfl⟩ := hsplit
    · obtain hnil | hsame := hwaiting
      · rw [hnil] at hm
        cases hm
      · exact .inl (hold m (hsame ▸ hm))
    · cases hm

/-- Email is not configured, and nothing is pending. -/
structure Removed (n : Notifier) : Prop where
  batch : n.mail.batch = none
  waiting : n.mail.waiting = []

theorem events_of_none (hemail : n.notify.email = none) (queued : List (ℕ × Events.Event)) :
    n.events queued = some n := by
  induction queued with
  | nil => rfl
  | cons e queued ih =>
    rw [events, List.foldlM_cons]
    have hevent : n.event e.1 e.2 = some n := by simp [event, hemail]
    rw [hevent]
    exact ih

/-- The settings change by a reload only. -/
theorem notify_events {queued : List (ℕ × Events.Event)} (h : n.events queued = some n') :
    n'.notify = n.notify := by
  induction queued generalizing n with
  | nil => rw [Option.some.inj h]
  | cons e queued ih =>
    rw [events, List.foldlM_cons, Option.bind_eq_bind, Option.bind_eq_some_iff] at h
    obtain ⟨n₁, hevent, hrest⟩ := h
    rw [ih hrest]
    simp only [event] at hevent
    split at hevent
    · obtain ⟨mail, -, rfl⟩ := Option.map_eq_some_iff.mp hevent
      rfl
    · rw [Option.some.inj hevent]

theorem notify_flush (n : Notifier) (now : ℕ) (host : Option String) :
    (n.flush now host).notify = n.notify := by
  rw [flush]
  split <;> rfl

theorem notify_step {x : Action} (hx : ∀ next, x ≠ .config next) (h : n.step x = some n') :
    n'.notify = n.notify := by
  cases x with
  | config next => exact absurd rfl (hx next)
  | stop now queued host =>
    obtain ⟨n₁, hevents, rfl⟩ := Option.map_eq_some_iff.mp h
    rw [notify_flush, notify_events hevents]
  | event now e =>
    have hevents : n.events [(now, e)] = some n' := by simpa [events, step] using h
    exact notify_events hevents
  | _ =>
    simp only [step] at h
    repeat' split at h
    all_goals rw [← Option.some.inj h]

/-- What is not configured stays without pending email. -/
theorem removed_step {x : Action} (hx : ∀ next, x ≠ .config next) (hemail : n.notify.email = none)
    (hremoved : n.Removed) (h : n.step x = some n') : n'.Removed := by
  cases x with
  | config next => exact absurd rfl (hx next)
  | stop now queued host =>
    obtain ⟨n₁, hevents, rfl⟩ := Option.map_eq_some_iff.mp h
    rw [events_of_none hemail] at hevents
    obtain rfl := Option.some.inj hevents
    rw [flush, hemail]
    exact ⟨hremoved.batch, hremoved.waiting⟩
  | event now e =>
    simp only [step, event, hemail, Option.isSome_none, Bool.false_eq_true, if_false] at h
    exact Option.some.inj h ▸ hremoved
  | ended result now =>
    simp only [step] at h
    split at h
    · obtain rfl := Option.some.inj h
      have hsame : ∀ msg, n.mail.finished msg result now n.notify.email.isSome = n.mail := by
        intro msg
        rw [hemail]
        cases result <;> rfl
      exact ⟨by rw [hsame]; exact hremoved.batch, by rw [hsame]; exact hremoved.waiting⟩
    · exact Option.some.inj h ▸ hremoved
  | turn now =>
    simp only [step, hemail] at h
    split at h
    · exact Option.some.inj h ▸ hremoved
    · obtain rfl := Option.some.inj h
      exact ⟨rfl, rfl⟩
  | close now host =>
    simp only [step, hremoved.batch, Option.isNone_none, if_true] at h
    exact Option.some.inj h ▸ hremoved

/-- The batch was open before, or an event opens it. -/
theorem batch_step {x : Action} {email : Email} (hx : ∀ next, x ≠ .config next)
    (hemail : n.notify.email = some email) (h : n.step x = some n')
    (hbatch : n'.mail.batch.isSome) : n.mail.batch.isSome ∨ ∃ now e, x = .event now e := by
  cases x with
  | config next => exact absurd rfl (hx next)
  | stop now queued host =>
    obtain ⟨n₁, hevents, rfl⟩ := Option.map_eq_some_iff.mp h
    simp [flush, notify_events hevents, hemail] at hbatch
  | event now e => exact .inr ⟨now, e, rfl⟩
  | ended result now =>
    simp only [step] at h
    split at h
    · obtain rfl := Option.some.inj h
      simpa using hbatch
    · exact .inl (Option.some.inj h ▸ hbatch)
  | turn now =>
    simp only [step, hemail] at h
    split at h
    · exact .inl (Option.some.inj h ▸ hbatch)
    · obtain rfl := Option.some.inj h
      simpa using hbatch
  | close now host =>
    simp only [step, hemail] at h
    split at h
    · exact .inl (Option.some.inj h ▸ hbatch)
    · obtain rfl := Option.some.inj h
      simp at hbatch

/-- Only closing a batch creates a message. -/
theorem batch_of_queued {x : Action} {msg : Message} {lost : List Message}
    (h : n.deed x = .queued msg lost) : n.mail.batch.isSome ∧ ∃ now host, x = .close now host := by
  cases x with
  | close now host =>
    refine ⟨?_, now, host, rfl⟩
    simp only [deed] at h
    split at h
    · cases h
    · next hopen =>
        rw [Option.isSome_iff_ne_none]
        simpa using hopen
  | _ =>
    simp only [deed] at h
    repeat' split at h
    all_goals cases h

end Notifier

/-! ## The channel -/

/-- What happens: a reload publishes its settings, or the notifier's loop turns, ready for an
action. -/
inductive Input where
  | publish (next : Notify)
  | turn (x : Action)
deriving DecidableEq

/-- The notifier with the channel of its settings. -/
structure Subscription where
  notifier : Notifier
  published : Notify
  /-- The notifier has not seen the published value. -/
  unseen : Bool := false
  log : List Entry := []
deriving DecidableEq

namespace Subscription

/-- The notifier as a process starts it. -/
def start (notify : Notify) (times : Times) (instanceId : String) : Subscription where
  notifier := { notify, mail := { times, instanceId } }
  published := notify

/-- New settings come before anything else that is ready. -/
def step (s : Subscription) : Input → Option Subscription
  | .publish next =>
    some { s with published := next, unseen := true, log := s.log ++ [.reload next] }
  | .turn x =>
    if s.notifier.stopped then some s
    else if s.unseen then
      (s.notifier.step (.config s.published)).map fun notifier =>
        { s with
          notifier
          unseen := false
          log := s.log ++ s.notifier.entries (.config s.published) }
    else match x with
      | .config _ => some s
      | x => (s.notifier.step x).map fun notifier =>
        { s with notifier, log := s.log ++ s.notifier.entries x }

def run (s : Subscription) (inputs : List Input) : Option Subscription := inputs.foldlM step s

/-- Email is configured again once the notifier has seen its removal and no submission
runs. -/
def Settled (s : Subscription) : Input → Prop
  | .publish next =>
    s.published.email = none → next.email.isSome → s.unseen = false ∧ s.notifier.running = none
  | .turn _ => True

instance (s : Subscription) : (i : Input) → Decidable (s.Settled i)
  | .publish _ => inferInstanceAs (Decidable (_ → _ → _))
  | .turn _ => .isTrue trivial

/-- What the removal of email leaves is fresh. -/
structure Sound (s : Subscription) : Prop where
  seen : s.unseen = false → s.notifier.notify = s.published
  removed : s.notifier.notify.email = none → s.notifier.Removed
  batch : s.published.email.isSome → s.notifier.mail.batch.isSome → FreshBatch s.log
  fresh : s.published.email.isSome → ∀ number ∈ Ledger.numbers s.notifier, Fresh number s.log
  kept : Kept s.log

theorem sound_start (notify : Notify) (times : Times) (instanceId : String) :
    Sound (start notify times instanceId) where
  seen _ := rfl
  removed _ := ⟨rfl, rfl⟩
  batch _ h := by cases h
  fresh _ number hn := by cases hn
  kept before msg now h := by simp [start] at h

variable {s s' : Subscription}

theorem Sound.publish (h : Sound s) {next : Notify} (hsettled : s.Settled (.publish next)) :
    Sound { s with published := next, unseen := true, log := s.log ++ [.reload next] } where
  seen hfalse := by cases hfalse
  removed := h.removed
  batch hnext hbatch := by
    cases hemail : s.published.email with
    | none =>
      -- The removal is complete: nothing is pending.
      obtain ⟨hseen, -⟩ := hsettled hemail hnext
      have hnone := (h.removed (h.seen hseen ▸ hemail)).batch
      dsimp only at hbatch
      rw [hnone] at hbatch
      cases hbatch
    | some email =>
      refine (h.batch (by rw [hemail]; rfl) hbatch).append fun e he => ?_
      obtain rfl := List.mem_singleton.mp he
      simpa [Entry.removes] using hnext
  fresh hnext number hn := by
    cases hemail : s.published.email with
    | none =>
      obtain ⟨hseen, hidle⟩ := hsettled hemail hnext
      have hnil := (h.removed (h.seen hseen ▸ hemail)).waiting
      simp [Ledger.numbers, hnil, hidle] at hn
    | some email =>
      refine (h.fresh (by rw [hemail]; rfl) number hn).append fun e he => ?_
      obtain rfl := List.mem_singleton.mp he
      simpa [Entry.removes] using hnext
  kept := h.kept.concat fun msg now heq => by cases heq

/-- The notifier sees new settings. -/
theorem Sound.observe (h : Sound s) {n' : Notifier}
    (hstep : s.notifier.step (.config s.published) = some n') :
    Sound { s with
      notifier := n'
      unseen := false
      log := s.log ++ s.notifier.entries (.config s.published) } := by
  have hholds := Notifier.holds_deed hstep
  have hentries : ∀ e ∈ s.notifier.entries (.config s.published), e.removes = false :=
    Notifier.removes_entries _
  refine ⟨fun _ => ?_, fun hemail => ?_, fun hsome hbatch => ?_, fun hsome number hn => ?_, ?_⟩
  · rw [← Option.some.inj hstep]
  · obtain rfl := Option.some.inj hstep
    dsimp only at hemail ⊢
    cases hbefore : s.notifier.notify.email with
    | none =>
      have hremoved := h.removed hbefore
      exact ⟨by simpa using hremoved.batch, by simpa using hremoved.waiting⟩
    | some email => exact ⟨by simp [hemail, discard], by simp [hemail, discard]⟩
  · obtain rfl := Option.some.inj hstep
    refine (h.batch hsome ?_).append hentries
    have hstays : s.published.email.isNone = false := by simpa using hsome
    simpa [hstays] using hbatch
  · refine Fresh.append ?_ hentries
    obtain hold | ⟨msg, lost, hdeed, -⟩ := Notifier.numbers_of_holds hholds hn
    · exact h.fresh hsome number hold
    · obtain ⟨-, now, host, hx⟩ := Notifier.batch_of_queued hdeed
      cases hx
  · refine h.kept.concat fun msg now heq => ?_
    have hdeed : s.notifier.deed (.config s.published) = .started msg now := by simpa using heq
    simp only [Notifier.deed] at hdeed
    split at hdeed <;> cases hdeed

/-- The settings that the notifier follows are the published ones. -/
theorem Sound.configured (h : Sound s) (hseen : s.unseen = false) {email : Email}
    (hemail : s.notifier.notify.email = some email) : s.published.email.isSome := by
  rw [← h.seen hseen, hemail]
  rfl

/-- An event opens a batch after every removal, unless one was open. -/
theorem Sound.opens (h : Sound s) (hseen : s.unseen = false) {email : Email}
    (hemail : s.notifier.notify.email = some email) :
    FreshBatch (s.log ++ s.notifier.opens) := by
  cases hopen : s.notifier.mail.batch with
  | none =>
    simp only [Notifier.opens, hemail, hopen, Option.isSome_some, Option.isNone_none,
      Bool.and_self, if_true]
    exact freshBatch_opened
  | some b =>
    exact (h.batch (h.configured hseen hemail) (by rw [hopen]; rfl)).append
      Notifier.removes_opens

/-- The last submissions are of fresh messages. -/
theorem Sound.stop (h : Sound s) (hseen : s.unseen = false) {now : ℕ}
    {queued : List (ℕ × Events.Event)} {host : Option String} {n₁ : Notifier}
    (hevents : s.notifier.events queued = some n₁) :
    Kept (s.log ++ s.notifier.entries (.stop now queued host)) := by
  have hopens : Kept (s.log ++ if queued.isEmpty then [] else s.notifier.opens) := by
    split
    · simpa using h.kept
    · simp only [Notifier.opens]
      split
      · exact h.kept.concat fun msg now heq => by cases heq
      · simpa using h.kept
  have hremoves : ∀ e ∈ (if queued.isEmpty then [] else s.notifier.opens),
      e.removes = false := by
    intro e he
    split at he
    · cases he
    · exact Notifier.removes_opens e he
  simp only [Notifier.entries, hevents, Option.elim_some, ← List.append_assoc]
  obtain ⟨hwaiting, -, -⟩ := Notifier.holds_events hevents
  cases hemail : s.notifier.notify.email with
  | none => simpa [Notifier.flushed, Notifier.notify_events hevents, hemail] using hopens
  | some email =>
    have hsome := h.configured hseen hemail
    simp only [Notifier.flushed, Notifier.notify_events hevents, hemail, ← List.append_assoc]
    have hold : ∀ m ∈ s.notifier.mail.waiting,
        Fresh m.number (s.log ++ if queued.isEmpty then [] else s.notifier.opens) :=
      fun m hm => (h.fresh hsome _ (Ledger.mem_numbers_of_waiting hm)).append hremoves
    cases hmsg : n₁.mail.closingMessage now email host with
    | none =>
      rw [(n₁.mail.closeBatch_none hmsg).2, hwaiting]
      simp only [Option.toList_none, List.map_nil, List.append_nil]
      exact hopens.starts _ now fun m hm => hold m (List.mem_of_mem_filter hm)
    | some msg =>
      have hbatch : FreshBatch (s.log ++ if queued.isEmpty then [] else s.notifier.opens) := by
        cases queued with
        | nil =>
          -- No event is left: the batch was open before.
          obtain rfl := Option.some.inj hevents
          obtain ⟨b, hopen, -⟩ := Option.bind_eq_some_iff.mp hmsg
          simpa using h.batch hsome (by rw [hopen]; rfl)
        | cons e queued => exact h.opens hseen hemail
      rw [(n₁.mail.closeBatch_some hmsg).2.2.2, hwaiting]
      simp only [Option.toList_some, List.map_cons, List.map_nil]
      refine (hopens.concat fun msg now heq => by cases heq).starts _ now fun m hm => ?_
      have hm := List.mem_of_mem_filter hm
      have hqueue : m ∈ s.notifier.mail.waiting ++ [msg] := by
        rw [← evicted_append_evict (s.notifier.mail.waiting ++ [msg])]
        exact List.mem_append_right _ hm
      rcases List.mem_append.mp hqueue with hm | hm
      · refine (hold m hm).append fun e he => ?_
        obtain rfl := List.mem_singleton.mp he
        rfl
      · obtain rfl := List.mem_singleton.mp hm
        exact hbatch.queued _ _

/-- The loop turns, with no new settings. -/
theorem Sound.act (h : Sound s) (hseen : s.unseen = false) {x : Action} {n' : Notifier}
    (hx : ∀ next, x ≠ .config next) (hstep : s.notifier.step x = some n') :
    Sound { s with notifier := n', log := s.log ++ s.notifier.entries x } := by
  have hholds := Notifier.holds_deed hstep
  have hnotify := Notifier.notify_step hx hstep
  have hentries : ∀ e ∈ s.notifier.entries x, e.removes = false := Notifier.removes_entries x
  refine ⟨fun _ => hnotify.trans (h.seen hseen), fun hemail => ?_, fun hsome hbatch => ?_,
    fun hsome number hn => ?_, ?_⟩
  · have hnone : s.notifier.notify.email = none := hnotify ▸ hemail
    exact Notifier.removed_step hx hnone (h.removed hnone) hstep
  · obtain ⟨email, hemail⟩ := Option.isSome_iff_exists.mp hsome
    have hconfigured : s.notifier.notify.email = some email := h.seen hseen ▸ hemail
    obtain hopen | ⟨now, e, rfl⟩ := Notifier.batch_step hx hconfigured hstep hbatch
    · exact (h.batch hsome hopen).append hentries
    · exact h.opens hseen hconfigured
  · obtain hold | ⟨msg, lost, hdeed, rfl⟩ := Notifier.numbers_of_holds hholds hn
    · exact (h.fresh hsome number hold).append hentries
    · obtain ⟨hopen, now, host, rfl⟩ := Notifier.batch_of_queued hdeed
      simp only [Notifier.entries, hdeed]
      exact (h.batch hsome hopen).queued msg lost
  · -- A submission that starts is of a message that waited.
    have hstarted : ∀ msg now, Entry.deed (s.notifier.deed x) = .deed (.started msg now) →
        Fresh msg.number s.log := by
      intro msg now heq
      obtain hdeed : s.notifier.deed x = .started msg now := by simpa using heq
      rw [hdeed] at hholds
      obtain ⟨-, -, -, -, before, after, hwaiting, -⟩ := hholds
      have hmsg : msg ∈ s.notifier.mail.waiting := by simp [hwaiting]
      cases hemail : s.notifier.notify.email with
      | none =>
        rw [(h.removed hemail).waiting] at hmsg
        cases hmsg
      | some email =>
        exact h.fresh (h.configured hseen hemail) _ (Ledger.mem_numbers_of_waiting hmsg)
    cases x with
    | config next => exact absurd rfl (hx next)
    | stop now queued host =>
      obtain ⟨n₁, hevents, -⟩ := Option.map_eq_some_iff.mp hstep
      exact h.stop hseen hevents
    | event now e =>
      simp only [Notifier.entries, Notifier.opens]
      split
      · exact h.kept.concat fun msg now heq => by cases heq
      · simpa using h.kept
    | ended result now => exact h.kept.concat hstarted
    | turn now => exact h.kept.concat hstarted
    | close now host => exact h.kept.concat hstarted

/-- **A settled step leaves nothing of before a removal.** -/
theorem Sound.step (h : Sound s) {i : Input} (hsettled : s.Settled i)
    (hstep : s.step i = some s') : Sound s' := by
  cases i with
  | publish next =>
    obtain rfl := Option.some.inj hstep
    exact h.publish hsettled
  | turn x =>
    simp only [Subscription.step] at hstep
    split at hstep
    · exact Option.some.inj hstep ▸ h
    · split at hstep
      · obtain ⟨n', hn', rfl⟩ := Option.map_eq_some_iff.mp hstep
        exact h.observe hn'
      · next hunseen =>
          have hseen : s.unseen = false := Bool.not_eq_true _ ▸ hunseen
          split at hstep
          · exact Option.some.inj hstep ▸ h
          · next x hx =>
              obtain ⟨n', hn', rfl⟩ := Option.map_eq_some_iff.mp hstep
              exact h.act hseen hx hn'

/-- One more input of a run. -/
theorem run_concat (s : Subscription) (inputs : List Input) (i : Input) :
    s.run (inputs ++ [i]) = (s.run inputs).bind fun s' => s'.step i := by
  simp [run]

theorem sound_run {notify : Notify} {times : Times} {instanceId : String} {inputs : List Input}
    (hsettled : ∀ before i s, before ++ [i] <+: inputs →
      (start notify times instanceId).run before = some s → s.Settled i)
    (h : (start notify times instanceId).run inputs = some s) : Sound s := by
  induction inputs using List.reverseRecOn generalizing s with
  | nil => exact Option.some.inj h ▸ sound_start notify times instanceId
  | append_singleton inputs i ih =>
    rw [run_concat, Option.bind_eq_some_iff] at h
    obtain ⟨s₁, hrun, hstep⟩ := h
    refine (ih (fun before j s hbefore => ?_) hrun).step
      (hsettled inputs i s₁ List.prefix_rfl hrun) hstep
    exact hsettled before j s (hbefore.trans (List.prefix_append inputs [i]))

/-- **Removing email discards what is pending for good**, in every run that configures email
again only once the removal is complete: what is submitted after a reload without email comes
from a batch that was opened after it. -/
theorem kept (notify : Notify) (times : Times) (instanceId : String) (inputs : List Input)
    (hsettled : ∀ before i s, before ++ [i] <+: inputs →
      (start notify times instanceId).run before = some s → s.Settled i)
    (s : Subscription) (h : (start notify times instanceId).run inputs = some s) : Kept s.log :=
  (sound_run hsettled h).kept

/-- Email as before, and without it. -/
def without : Notify := { Account.settings 2 with email := none }

/-- Email is removed while a message waits, and configured again after that is seen. -/
def restored : List Input :=
  (Account.batchAt 30).map .turn ++ [.publish without, .turn (.turn (Duration.ofSecs 31)),
    .publish (Account.settings 2), .turn (.turn (Duration.ofSecs 32))]

theorem kept_restored :
    ∃ s, (start (Account.settings 2) {} "run").run restored = some s ∧
      s.notifier.mail.waiting = [] ∧ Kept s.log := by
  have hchecked : ∀ p ∈ restored.inits, ∀ i ∈ p.getLast?,
      ∀ s ∈ (start (Account.settings 2) {} "run").run p.dropLast, s.Settled i := by
    decide +kernel
  have hwaiting : ((start (Account.settings 2) {} "run").run restored).map
      (fun s => s.notifier.mail.waiting) = some [] := by
    decide +kernel
  obtain ⟨s, hrun, hnil⟩ := Option.map_eq_some_iff.mp hwaiting
  refine ⟨s, hrun, hnil, kept _ _ _ _ (fun before i s' hbefore hrun' => ?_) s hrun⟩
  refine hchecked _ ((List.mem_inits _ _).mpr hbefore) i ?_ s' ?_
  · rw [List.getLast?_concat]
    rfl
  · rw [List.dropLast_concat]
    exact hrun'

/-- The message of `Account.batchAt 30`. -/
def first : Message where
  kind := .notification
  id := messageId "run" 1 "router@example.org"
  body := Batch.body (Batch.add { deadline := Duration.ofSecs 30 }
    { timestamp := "t", kind := "path_state_changed", message := "path down" }) none 0
  failures := 0
  due := Duration.ofSecs 30

/-- Email is removed and configured again while the message is being submitted. -/
def retriedLater : List Input :=
  (Account.batchAt 30 ++ [Action.turn (Duration.ofSecs 30)]).map .turn ++
    [.publish without, .turn (.turn (Duration.ofSecs 31)), .publish (Account.settings 2),
      .turn (.turn (Duration.ofSecs 32)), .turn (.ended .failed (Duration.ofSecs 40)),
      .turn (.turn (Duration.ofSecs 100))]

/-- Email is removed and configured again before the notifier looks. -/
def overwritten : List Input :=
  (Account.batchAt 30).map .turn ++ [.publish without, .publish (Account.settings 2),
    .turn (.turn (Duration.ofSecs 31)), .turn (.turn (Duration.ofSecs 32))]

/-- A message that was pending, or running, when email was removed is submitted afterwards. -/
theorem submitted_after_removal :
    (∃ s, (start (Account.settings 2) {} "run").run retriedLater = some s ∧ ¬ Kept s.log) ∧
      ∃ s, (start (Account.settings 2) {} "run").run overwritten = some s ∧ ¬ Kept s.log := by
  have hretried : ((start (Account.settings 2) {} "run").run retriedLater).map log =
      some ([.opened, .deed (.queued first []), .deed (.started first (Duration.ofSecs 30))] ++
        .reload without :: [.deed (.discarded []), .reload (Account.settings 2), .deed .idle,
          .deed (.retried first (Duration.ofSecs 40) [])] ++
        [.deed (.started (first.again (Duration.ofSecs 40) (Duration.ofSecs 60))
          (Duration.ofSecs 100))]) := by
    rfl
  have hoverwritten : ((start (Account.settings 2) {} "run").run overwritten).map log =
      some ([.opened, .deed (.queued first [])] ++
        .reload without :: [.reload (Account.settings 2), .deed .idle] ++
        [.deed (.started first (Duration.ofSecs 32))]) := by
    rfl
  obtain ⟨s, hrun, hlog⟩ := Option.map_eq_some_iff.mp hretried
  obtain ⟨s', hrun', hlog'⟩ := Option.map_eq_some_iff.mp hoverwritten
  refine ⟨⟨s, hrun, ?_⟩, s', hrun', ?_⟩
  · rw [hlog]
    exact not_kept rfl (by simp)
  · rw [hlog']
    exact not_kept rfl (by simp)

end Subscription

end Polywan.Mail
