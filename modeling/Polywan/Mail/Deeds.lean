import Polywan.Mail.Limit

/-!
# What one action does with messages

A message is waiting, being submitted, or gone.  Each action of the notifier moves at most
one message between these places, apart from what it discards, and `Deed` says which.  The
number of a Message-ID orders messages by their creation.

## Main definitions

* `Mail.Message.number` — the number of a message.
* `Mail.Deed`, `Mail.Notifier.deed` — what an action does.
* `Mail.Deed.Holds` — what that means for the messages.

## Main results

* `Mail.Notifier.holds_deed` — every action does what its deed says.
-/

namespace Polywan.Mail

/-! ## Numbers -/

/-- The number in the Message-ID. -/
def Message.number (m : Message) : ℕ :=
  Nat.ofDigitChars 10 ((m.id.toList.drop 1).takeWhile Char.isDigit) 0

theorem number_eq {m : Message} {instanceId sender : String} {n : ℕ}
    (h : m.id = messageId instanceId n sender) : m.number = n := by
  have hdigits : ∀ c ∈ Nat.toDigits 10 n, c.isDigit = true :=
    fun c hc => Nat.isDigit_of_mem_toDigits (by omega) (by omega) hc
  have htext : ∃ rest, m.id.toList = '<' :: (Nat.toDigits 10 n ++ '.' :: rest) := by
    rw [h, messageId]
    generalize (if sender.contains '@' then
      String.ofList (sender.toList.reverse.takeWhile (· ≠ '@')).reverse else "localhost") = domain
    have hopen : (toString "<").toList = ['<'] := rfl
    have hdot : (toString ".").toList = ['.'] := rfl
    refine ⟨(toString instanceId).toList ++ ((toString "@").toList ++ ((toString domain).toList
      ++ (toString ">").toList)), ?_⟩
    simp [hopen, hdot]
  obtain ⟨rest, htext⟩ := htext
  rw [Message.number, htext, List.drop_succ_cons, List.drop_zero,
    List.takeWhile_append_of_pos hdigits, List.takeWhile_cons_of_neg (by decide), List.append_nil]
  exact Nat.ofDigitChars_ten_toDigits

/-! ## Eviction -/

/-- The messages that are evicted. -/
def evicted : List Message → List Message
  | [] => []
  | old :: rest =>
    if waitingMax < (old :: rest).length
        || waitingBytes < ((old :: rest).map fun m => m.body.utf8ByteSize).sum then
      old :: evicted rest
    else []

theorem evicted_append_evict (queue : List Message) : evicted queue ++ evict queue = queue := by
  induction queue with
  | nil => rfl
  | cons old rest ih =>
    rw [evicted, evict]
    split
    · rw [List.cons_append, ih]
    · rfl

/-- What is left keeps the bounds. -/
theorem bounds_evict (queue : List Message) :
    (evict queue).length ≤ waitingMax ∧
      ((evict queue).map fun m => m.body.utf8ByteSize).sum ≤ waitingBytes := by
  induction queue with
  | nil => exact ⟨Nat.zero_le _, Nat.zero_le _⟩
  | cons old rest ih =>
    rw [evict]
    split
    · exact ih
    · next h =>
        simp only [Bool.or_eq_true, decide_eq_true_eq, not_or, not_lt] at h
        exact h

/-! ## Deeds -/

/-- What an action does with messages; `lost` are those it drops. -/
inductive Deed where
  | idle
  /-- Email is removed. -/
  | discarded (lost : List Message)
  /-- A closed batch becomes a message. -/
  | queued (msg : Message) (lost : List Message)
  /-- A submission starts. -/
  | started (msg : Message) (now : ℕ)
  /-- A submission ends, and its message is gone. -/
  | ended (msg : Message) (result : Submitted) (now : ℕ)
  /-- A submission fails, and its message waits for a retry. -/
  | retried (msg : Message) (now : ℕ) (lost : List Message)
  | stopped
deriving DecidableEq

/-- The message of a retry. -/
def Message.again (m : Message) (now delay : ℕ) : Message :=
  { m with failures := m.failures + 1, due := now + delay }

/-- The message that closing the open batch makes. -/
def closingMessage (m : Mail) (now : ℕ) (email : Email) (host : Option String) :
    Option Message :=
  m.batch.bind fun batch =>
    match (m.admission.tryAdmit now email.maxPerHour m.times.hour).1 with
    | .yes suppressed =>
      some (m.newMessage .notification (batch.body host suppressed) email now)
    | .no true => some (m.newMessage .suppressed (suppressionBody host email.maxPerHour) email now)
    | .no false => none

namespace Notifier

variable (n : Notifier)

/-- What an action does. -/
def deed : Action → Deed
  | .config next =>
    if n.notify.email.isSome && next.email.isNone then .discarded n.mail.waiting else .idle
  | .stop _ _ _ => .stopped
  | .ended result now =>
    match n.running with
    | none => .idle
    | some msg =>
      match result, n.notify.email.isSome, n.mail.times.retry msg.failures with
      | .failed, true, some delay =>
        .retried msg now (evicted (n.mail.waiting ++ [msg.again now delay]))
      | _, _, _ => .ended msg result now
  | .turn now =>
    if n.running.isSome || n.mail.nextDue.isNone then .idle
    else
      match n.notify.email, (n.mail.takeDue now).1 with
      | some _, some msg => .started msg now
      | some _, none => .idle
      | none, _ => .discarded n.mail.waiting
  | .close now host =>
    if n.mail.batch.isNone then .idle
    else
      match n.notify.email with
      | none => .discarded n.mail.waiting
      | some email =>
        match n.mail.closingMessage now email host with
        | some msg => .queued msg (evicted (n.mail.waiting ++ [msg]))
        | none => .idle
  | .event _ _ => .idle

end Notifier

/-- What a deed means for the messages. -/
def Deed.Holds (n n' : Notifier) : Deed → Prop
  | .idle =>
    n'.mail.waiting = n.mail.waiting ∧ n'.running = n.running ∧ n'.mail.ids = n.mail.ids
  | .discarded lost =>
    lost = n.mail.waiting ∧ n'.mail.waiting = [] ∧ n'.running = n.running ∧
      n'.mail.ids = n.mail.ids
  | .queued msg lost =>
    msg.number = n.mail.ids + 1 ∧ n'.mail.ids = n.mail.ids + 1 ∧ msg.failures = 0 ∧
      n'.running = n.running ∧ lost = evicted (n.mail.waiting ++ [msg]) ∧
      n'.mail.waiting = evict (n.mail.waiting ++ [msg])
  | .started msg now =>
    msg.due ≤ now ∧ n.running = none ∧ n'.running = some msg ∧ n'.mail.ids = n.mail.ids ∧
      ∃ before after, n.mail.waiting = before ++ msg :: after ∧
        n'.mail.waiting = before ++ after
  | .ended msg _ _ =>
    n.running = some msg ∧ n'.running = none ∧ n'.mail.waiting = n.mail.waiting ∧
      n'.mail.ids = n.mail.ids
  | .retried msg now lost =>
    ∃ delay, n.mail.times.retry msg.failures = some delay ∧ n.running = some msg ∧
      n'.running = none ∧ n'.mail.ids = n.mail.ids ∧
      lost = evicted (n.mail.waiting ++ [msg.again now delay]) ∧
      n'.mail.waiting = evict (n.mail.waiting ++ [msg.again now delay])
  | .stopped =>
    n'.stopped = true ∧ n'.running = none ∧ n.mail.ids ≤ n'.mail.ids ∧
      (n'.mail.waiting = [] ∨ n'.mail.waiting = n.mail.waiting)

/-! ## Every action does its deed -/

section Steps

variable (m : Mail)

/-- What is taken was waiting and is due. -/
theorem takeDue_eq_some {now : ℕ} {msg : Message} (h : (m.takeDue now).1 = some msg) :
    msg.due ≤ now ∧ ∃ before after, m.waiting = before ++ msg :: after ∧
      (m.takeDue now).2 = { m with waiting := before ++ after } := by
  simp only [takeDue] at h ⊢
  split at h
  · cases h
  · next msg' i hmin =>
      obtain rfl := Option.some.inj h
      have hmem := List.argmin_mem hmin
      rw [List.mem_filter, decide_eq_true_eq, List.mem_zipIdx_iff_getElem?] at hmem
      obtain ⟨hi, hget⟩ := List.getElem?_eq_some_iff.mp hmem.1
      dsimp only at hi hget
      refine ⟨hmem.2, m.waiting.take i, m.waiting.drop (i + 1), ?_, ?_⟩
      · rw [← hget, ← List.drop_eq_getElem_cons hi, List.take_append_drop]
      · rw [List.eraseIdx_eq_take_drop_succ]

theorem takeDue_eq_none {now : ℕ} (h : (m.takeDue now).1 = none) : (m.takeDue now).2 = m := by
  simp only [takeDue] at h ⊢
  split at h
  · rfl
  · cases h

theorem number_newMessage (kind : Kind) (body : String) (email : Email) (now : ℕ) :
    (m.newMessage kind body email now).number = m.ids + 1 := number_eq rfl

/-- Closing a batch queues its message, if any. -/
theorem closeBatch_some {now : ℕ} {email : Email} {host : Option String} {msg : Message}
    (h : m.closingMessage now email host = some msg) :
    msg.number = m.ids + 1 ∧ msg.failures = 0 ∧
      (m.closeBatch now email host).ids = m.ids + 1 ∧
      (m.closeBatch now email host).waiting = evict (m.waiting ++ [msg]) := by
  obtain ⟨batch, hbatch, hadmitted⟩ := Option.bind_eq_some_iff.mp h
  cases hout : (m.admission.tryAdmit now email.maxPerHour m.times.hour).1 with
  | yes suppressed =>
    rw [hout] at hadmitted
    obtain rfl := Option.some.inj hadmitted
    simp only [closeBatch, hbatch, hout]
    exact ⟨m.number_newMessage _ _ _ _, rfl, rfl, rfl⟩
  | no notice =>
    rw [hout] at hadmitted
    cases notice with
    | true =>
      obtain rfl := Option.some.inj hadmitted
      simp only [closeBatch, hbatch, hout]
      exact ⟨m.number_newMessage _ _ _ _, rfl, rfl, rfl⟩
    | false => cases hadmitted

theorem closeBatch_none {now : ℕ} {email : Email} {host : Option String}
    (h : m.closingMessage now email host = none) :
    (m.closeBatch now email host).ids = m.ids ∧
      (m.closeBatch now email host).waiting = m.waiting := by
  cases hbatch : m.batch with
  | none =>
    rw [m.closeBatch_of_none hbatch]
    exact ⟨rfl, rfl⟩
  | some batch =>
    rw [closingMessage, hbatch, Option.bind_some] at h
    cases hout : (m.admission.tryAdmit now email.maxPerHour m.times.hour).1 with
    | yes suppressed =>
      rw [hout] at h
      cases h
    | no notice =>
      rw [hout] at h
      cases notice with
      | true => cases h
      | false => constructor <;> simp only [closeBatch, hbatch, hout]

end Steps

namespace Notifier

variable {n n' : Notifier}

theorem holds_event {now : ℕ} {e : Events.Event} (h : n.event now e = some n') :
    Deed.idle.Holds n n' := by
  simp only [event] at h
  split at h
  · obtain ⟨mail, hmail, rfl⟩ := Option.map_eq_some_iff.mp h
    obtain ⟨b, rfl⟩ := n.mail.add_eq_some hmail
    exact ⟨rfl, rfl, rfl⟩
  · obtain rfl := Option.some.inj h
    exact ⟨rfl, rfl, rfl⟩

theorem holds_events {queued : List (ℕ × Events.Event)} (h : n.events queued = some n') :
    Deed.idle.Holds n n' := by
  induction queued generalizing n with
  | nil =>
    obtain rfl := Option.some.inj h
    exact ⟨rfl, rfl, rfl⟩
  | cons e queued ih =>
    rw [events, List.foldlM_cons, Option.bind_eq_bind, Option.bind_eq_some_iff] at h
    obtain ⟨n₁, hevent, hrest⟩ := h
    obtain ⟨hwaiting, hrunning, hids⟩ := holds_event hevent
    obtain ⟨hwaiting', hrunning', hids'⟩ := ih hrest
    exact ⟨hwaiting'.trans hwaiting, hrunning'.trans hrunning, hids'.trans hids⟩

theorem holds_flush (n : Notifier) (now : ℕ) (host : Option String) :
    Deed.stopped.Holds n (n.flush now host) := by
  rw [flush]
  cases hemail : n.notify.email with
  | none => exact ⟨rfl, rfl, le_rfl, .inr rfl⟩
  | some email =>
    refine ⟨rfl, rfl, ?_, .inl rfl⟩
    change n.mail.ids ≤ (n.mail.closeBatch now email host).ids
    cases hmsg : n.mail.closingMessage now email host with
    | none => rw [(n.mail.closeBatch_none hmsg).1]
    | some msg =>
      rw [(n.mail.closeBatch_some hmsg).2.2.1]
      exact Nat.le_succ _

theorem holds_ended {result : Submitted} {now : ℕ} (h : n.step (.ended result now) = some n') :
    (n.deed (.ended result now)).Holds n n' := by
  simp only [step] at h
  simp only [deed]
  cases hrunning : n.running with
  | none =>
    rw [hrunning] at h
    obtain rfl := Option.some.inj h
    exact ⟨rfl, rfl, rfl⟩
  | some msg =>
    rw [hrunning] at h
    obtain rfl := Option.some.inj h
    dsimp only
    cases result with
    | accepted => exact ⟨hrunning, rfl, rfl, rfl⟩
    | unbuildable => exact ⟨hrunning, rfl, rfl, rfl⟩
    | failed =>
      cases hemail : n.notify.email.isSome with
      | false => exact ⟨hrunning, rfl, rfl, rfl⟩
      | true =>
        cases hretry : n.mail.times.retry msg.failures with
        | none =>
          have hdropped : n.mail.finished msg .failed now true = n.mail := by
            simp only [finished, failed, hretry]
          refine ⟨hrunning, rfl, ?_, ?_⟩ <;> dsimp only <;> rw [hdropped]
        | some delay =>
          have hqueued : n.mail.finished msg .failed now true =
              n.mail.wait (msg.again now delay) := by
            simp only [finished, failed, hretry, Message.again]
          refine ⟨delay, hretry, hrunning, rfl, ?_, rfl, ?_⟩ <;> dsimp only <;>
            rw [hqueued] <;> rfl

theorem holds_turn {now : ℕ} (h : n.step (.turn now) = some n') :
    (n.deed (.turn now)).Holds n n' := by
  simp only [step] at h
  simp only [deed]
  split at h
  · next hbusy =>
      rw [if_pos hbusy]
      obtain rfl := Option.some.inj h
      exact ⟨rfl, rfl, rfl⟩
  · next hfree =>
      rw [if_neg hfree]
      have hrunning : n.running = none := by
        simp only [Bool.or_eq_true, not_or, Bool.not_eq_true, Option.isSome_eq_false_iff,
          Option.isNone_iff_eq_none] at hfree
        exact hfree.1
      cases hemail : n.notify.email with
      | none =>
        rw [hemail] at h
        obtain rfl := Option.some.inj h
        exact ⟨rfl, rfl, rfl, rfl⟩
      | some email =>
        rw [hemail] at h
        obtain rfl := Option.some.inj h
        cases hdue : (n.mail.takeDue now).1 with
        | none =>
          refine ⟨?_, ?_, ?_⟩ <;> dsimp only
          · rw [n.mail.takeDue_eq_none hdue]
          · rw [hrunning]
          · rw [n.mail.takeDue_eq_none hdue]
        | some msg =>
          obtain ⟨hle, before, after, hwaiting, htaken⟩ := n.mail.takeDue_eq_some hdue
          refine ⟨hle, hrunning, rfl, ?_, before, after, hwaiting, ?_⟩ <;> dsimp only <;>
            rw [htaken]

theorem holds_close {now : ℕ} {host : Option String} (h : n.step (.close now host) = some n') :
    (n.deed (.close now host)).Holds n n' := by
  simp only [step] at h
  simp only [deed]
  split at h
  · next hnone =>
      rw [if_pos hnone]
      obtain rfl := Option.some.inj h
      exact ⟨rfl, rfl, rfl⟩
  · next hopen =>
      rw [if_neg hopen]
      cases hemail : n.notify.email with
      | none =>
        rw [hemail] at h
        obtain rfl := Option.some.inj h
        exact ⟨rfl, rfl, rfl, rfl⟩
      | some email =>
        rw [hemail] at h
        obtain rfl := Option.some.inj h
        dsimp only
        cases hmsg : n.mail.closingMessage now email host with
        | none =>
          obtain ⟨hids, hwaiting⟩ := n.mail.closeBatch_none hmsg
          exact ⟨hwaiting, rfl, hids⟩
        | some msg =>
          obtain ⟨hnumber, hfailures, hids, hwaiting⟩ := n.mail.closeBatch_some hmsg
          exact ⟨hnumber, hids, hfailures, rfl, rfl, hwaiting⟩

/-- **Every action does what its deed says.** -/
theorem holds_deed {x : Action} (h : n.step x = some n') : (n.deed x).Holds n n' := by
  cases x with
  | config next =>
    obtain rfl := Option.some.inj h
    simp only [deed]
    split
    · exact ⟨rfl, rfl, rfl, rfl⟩
    · exact ⟨rfl, rfl, rfl⟩
  | stop now queued host =>
    obtain ⟨n₁, hevents, rfl⟩ := Option.map_eq_some_iff.mp h
    obtain ⟨hwaiting, -, hids⟩ := holds_events hevents
    obtain ⟨hstopped, hrunning, hle, hleft⟩ := n₁.holds_flush now host
    rw [hids] at hle
    rw [hwaiting] at hleft
    exact ⟨hstopped, hrunning, hle, hleft⟩
  | ended result now => exact holds_ended h
  | turn now => exact holds_turn h
  | close now host => exact holds_close h
  | event now e => exact holds_event h

end Notifier

end Polywan.Mail
