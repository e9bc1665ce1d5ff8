import Mathlib.Data.List.Induction
import Polywan.Lib.Window
import Polywan.Mail

/-!
# The limit over a rolling hour

Every closed batch is a notification that is admitted or suppressed.  The log of these
decisions, and of the messages they queue, is kept beside the notifier, whose reloads may
change the limit at any time; the accounting of the limit depends on the log alone, whatever
is discarded meanwhile.

## Main definitions

* `Mail.Closing` — a closed batch, with the limit of then and the decision.
* `Mail.Closing.Queued` — the message of the decision is queued.
* `Mail.Limited` — what the limit promises about a log of closings.
* `Mail.Account` — the notifier with the log of its closings.

## Main results

* `Mail.Tracks.concat` — the accounting follows the log.
* `Mail.Account.limited_of_run` — every run of the notifier keeps the limit.
-/

namespace Polywan.Mail

/-- A new message. -/
def newMessage (m : Mail) (kind : Kind) (body : String) (email : Email) (now : ℕ) : Message where
  kind := kind
  id := messageId m.instanceId (m.ids + 1) email.sender
  body := body
  failures := 0
  due := now

/-- A closed batch: the time, the settings of then, the decision, and the mail before and
after. -/
structure Closing where
  now : ℕ
  email : Email
  host : Option String
  batch : Batch
  result : Admit
  before : Mail
  after : Mail

namespace Closing

variable (c : Closing)

def limit : ℕ := c.email.maxPerHour

def admitted : Bool :=
  match c.result with
  | .yes _ => true
  | .no _ => false

/-- Suppressed, with the suppression notice. -/
def noticed : Bool := c.result = .no true

/-- The suppressed messages that an admitted one reports. -/
def reported : ℕ :=
  match c.result with
  | .yes suppressed => suppressed
  | .no _ => 0

/-- A message was queued. -/
def Queues (kind : Kind) (body : String) : Prop :=
  c.after.waiting = evict (c.before.waiting ++ [c.before.newMessage kind body c.email c.now])

/-- The message of the decision was queued: the notification with the suppressed ones it
reports, the suppression notice, or none. -/
def Queued : Prop :=
  match c.result with
  | .yes suppressed => c.Queues .notification (c.batch.body c.host suppressed)
  | .no true => c.Queues .suppressed (suppressionBody c.host c.limit)
  | .no false => c.after.waiting = c.before.waiting

end Closing

/-- The admissions of a log in the hour up to `now`. -/
def admissions (hour now : ℕ) (log : List Closing) : ℕ :=
  (log.filter fun c => c.admitted && now < c.now + hour && c.now ≤ now).length

/-- What the limit promises about a log of closings, with `pending` suppressed messages not
reported yet. -/
structure Limited (hour : ℕ) (log : List Closing) (pending : ℕ) : Prop where
  admitted : ∀ before c, before ++ [c] <+: log → c.admitted = true →
    admissions hour c.now before + 1 ≤ c.limit
  suppressed : ∀ before c, before ++ [c] <+: log → c.admitted = false →
    c.limit ≤ admissions hour c.now before
  apart : log.Pairwise fun c c' => c.noticed = true → c'.noticed = true → c.now + hour ≤ c'.now
  noticed : ∀ before c, before ++ [c] <+: log → c.admitted = false →
    (∀ c' ∈ before, c'.noticed = true → c'.now + hour ≤ c.now) → c.noticed = true
  counted : (log.map Closing.reported).sum + pending = log.countP fun c => !c.admitted
  queued : ∀ c ∈ log, c.Queued

/-! ## The accounting -/

/-- An admission that no longer counts. -/
def old (hour now t : ℕ) : Bool := hour ≤ now - t

theorem ages_old {hour : ℕ} : Lib.Ages (old hour) where
  later h hle := by
    simp only [old, decide_eq_true_eq] at *
    omega
  earlier h hle := by
    simp only [old, decide_eq_true_eq] at *
    omega

/-- The times of the admissions of a log. -/
def admittedTimes (log : List Closing) : List ℕ :=
  (log.filter Closing.admitted).map Closing.now

/-- The accounting of the limit after a log of closings. -/
structure Tracks (hour : ℕ) (log : List Closing) (a : Admission) : Prop where
  window : ∀ now, (∀ c ∈ log, c.now ≤ now) →
    Lib.Lacks (old hour) now (admittedTimes log) a.admitted
  notice : a.notice = ((log.filter Closing.noticed).getLast?).map Closing.now
  limited : Limited hour log a.suppressed

section Tracks

variable {hour : ℕ} {log : List Closing} {a : Admission} {c : Closing} {now limit : ℕ}

theorem Tracks.start (hour : ℕ) : Tracks hour [] {} where
  window now _ := ⟨[], rfl, nofun⟩
  notice := rfl
  limited :=
    { admitted := by simp
      suppressed := by simp
      apart := List.Pairwise.nil
      noticed := by simp
      counted := rfl
      queued := nofun }

/-- The accounting decides a closing. -/
def Admission.Decides (a : Admission) (hour : ℕ) (c : Closing) : Prop :=
  (a.tryAdmit c.now c.limit hour).1 = c.result

theorem sorted_admittedTimes (hsorted : (log.map Closing.now).Pairwise (· ≤ ·)) :
    (admittedTimes log).Pairwise (· ≤ ·) := by
  rw [admittedTimes, List.pairwise_map]
  exact (List.pairwise_map.mp hsorted).filter _

/-- What is left of the queue are the admissions of the last hour. -/
theorem Tracks.length_recent (h : Tracks hour log a)
    (hsorted : (log.map Closing.now).Pairwise (· ≤ ·)) (hnow : ∀ c ∈ log, c.now ≤ now) :
    (a.admitted.dropWhile fun t => hour ≤ now - t).length = admissions hour now log := by
  have hlacks := h.window now hnow
  have hdrop := hlacks.dropWhile_eq_filter ages_old (sorted_admittedTimes hsorted) le_rfl
  change (a.admitted.dropWhile (old hour now)).length = _
  rw [hdrop, admittedTimes, List.filter_map, List.length_map, List.filter_filter, admissions]
  refine congrArg List.length (List.filter_congr fun c hc => ?_)
  have hle := hnow c hc
  rw [Bool.eq_iff_iff]
  simp only [Function.comp, old, Bool.and_eq_true, Bool.not_eq_true', decide_eq_true_eq,
    decide_eq_false_iff_not]
  constructor
  · rintro ⟨hold, hadmitted⟩
    exact ⟨⟨hadmitted, by omega⟩, hle⟩
  · rintro ⟨⟨hadmitted, hlt⟩, -⟩
    exact ⟨by omega, hadmitted⟩

theorem Admission.admit_of_lt
    (hroom : (a.admitted.dropWhile fun t => hour ≤ now - t).length < limit) :
    a.tryAdmit now limit hour = (.yes a.suppressed, { a with
      admitted := (a.admitted.dropWhile fun t => hour ≤ now - t) ++ [now], suppressed := 0 }) :=
  if_pos hroom

theorem Admission.admit_of_not_lt
    (hroom : ¬ (a.admitted.dropWhile fun t => hour ≤ now - t).length < limit) :
    a.tryAdmit now limit hour = (.no (a.notice.all fun t => hour ≤ now - t),
      { admitted := a.admitted.dropWhile fun t => hour ≤ now - t
        notice := if a.notice.all fun t => hour ≤ now - t then some now else a.notice
        suppressed := a.suppressed + 1 }) :=
  if_neg hroom

theorem Admission.Decides.admitted_iff (h : a.Decides hour c) :
    c.admitted = true ↔ (a.admitted.dropWhile fun t => hour ≤ c.now - t).length < c.limit := by
  rw [Closing.admitted, ← h]
  by_cases hroom : (a.admitted.dropWhile fun t => hour ≤ c.now - t).length < c.limit
  · simp [admit_of_lt hroom, hroom]
  · simp [admit_of_not_lt hroom, hroom]

/-- The notice is due unless one was sent within the hour. -/
theorem Admission.Decides.noticed_iff (h : a.Decides hour c) :
    c.noticed = true ↔ c.admitted = false ∧ ∀ t ∈ a.notice, hour ≤ c.now - t := by
  rw [Closing.noticed, Closing.admitted, ← h]
  by_cases hroom : (a.admitted.dropWhile fun t => hour ≤ c.now - t).length < c.limit
  · simp [admit_of_lt hroom]
  · simp [admit_of_not_lt hroom, Option.all_eq_true]

/-- The accounting remembers the last notice. -/
theorem Admission.Decides.notice (h : a.Decides hour c) :
    (a.tryAdmit c.now c.limit hour).2.notice = if c.noticed then some c.now else a.notice := by
  rw [Closing.noticed, ← h]
  by_cases hroom : (a.admitted.dropWhile fun t => hour ≤ c.now - t).length < c.limit
  · simp [admit_of_lt hroom]
  · simp [admit_of_not_lt hroom]

/-- The last notice decides for all of them. -/
theorem Tracks.forall_notice (h : Tracks hour log a)
    (hsorted : (log.map Closing.now).Pairwise (· ≤ ·)) (hnow : ∀ c ∈ log, c.now ≤ now) :
    (∀ t ∈ a.notice, hour ≤ now - t) ↔
      ∀ c ∈ log, c.noticed = true → c.now + hour ≤ now := by
  have hmem : ∀ c, c ∈ log.filter Closing.noticed ↔ c ∈ log ∧ c.noticed = true :=
    fun c => List.mem_filter
  rw [h.notice]
  constructor
  · intro hlast c hc hnoticed
    have hfilter := (hmem c).mpr ⟨hc, hnoticed⟩
    obtain ⟨last, hlast'⟩ := List.getLast?_isSome.mpr (List.ne_nil_of_mem hfilter)
      |> Option.isSome_iff_exists.mp
    have hhour := hlast last.now (by rw [hlast']; rfl)
    obtain ⟨earlier, heq⟩ := List.getLast?_eq_some_iff.mp hlast'
    have hmono : ∀ x ∈ log.filter Closing.noticed, x.now ≤ last.now := by
      have hpair := (List.pairwise_map.mp hsorted).filter Closing.noticed
      rw [heq] at hpair ⊢
      intro x hx
      rcases List.mem_append.mp hx with hx | hx
      · exact (List.pairwise_append.mp hpair).2.2 x hx last (List.mem_singleton_self last)
      · rw [List.mem_singleton.mp hx]
    have hle := hmono c hfilter
    have hle' := hnow last ((hmem last).mp (List.mem_of_getLast? hlast')).1
    omega
  · intro hall t ht
    obtain ⟨last, hlast, rfl⟩ := Option.map_eq_some_iff.mp ht
    obtain ⟨hlog, hnoticed⟩ := (hmem last).mp (List.mem_of_getLast? hlast)
    have := hall last hlog hnoticed
    omega

/-- One more closing that the accounting decides keeps the promises. -/
theorem Tracks.limited_concat (h : Tracks hour log a) (hc : a.Decides hour c)
    (hqueued : c.Queued) (hsorted : (log.map Closing.now).Pairwise (· ≤ ·))
    (hnow : ∀ c' ∈ log, c'.now ≤ c.now) :
    Limited hour (log ++ [c]) (a.tryAdmit c.now c.limit hour).2.suppressed where
  admitted before c' hprefix hadmitted := by
    rcases List.prefix_concat_iff.mp hprefix with heq | hprefix
    · obtain ⟨rfl, rfl⟩ := List.append_singleton_inj.mp heq
      rw [hc.admitted_iff, h.length_recent hsorted hnow] at hadmitted
      exact hadmitted
    · exact h.limited.admitted before c' hprefix hadmitted
  suppressed before c' hprefix hsuppressed := by
    rcases List.prefix_concat_iff.mp hprefix with heq | hprefix
    · obtain ⟨rfl, rfl⟩ := List.append_singleton_inj.mp heq
      rw [← Bool.not_eq_true, hc.admitted_iff, h.length_recent hsorted hnow,
        not_lt] at hsuppressed
      exact hsuppressed
    · exact h.limited.suppressed before c' hprefix hsuppressed
  apart := by
    rw [List.pairwise_append]
    refine ⟨h.limited.apart, List.pairwise_singleton _ _, fun x hx c' hc' hnoticed hnoticed' => ?_⟩
    rw [List.mem_singleton.mp hc'] at hnoticed' ⊢
    have hlast := (hc.noticed_iff.mp hnoticed').2
    exact (h.forall_notice hsorted hnow).mp hlast x hx hnoticed
  noticed before c' hprefix hsuppressed hnone := by
    rcases List.prefix_concat_iff.mp hprefix with heq | hprefix
    · obtain ⟨rfl, rfl⟩ := List.append_singleton_inj.mp heq
      exact hc.noticed_iff.mpr ⟨hsuppressed, (h.forall_notice hsorted hnow).mpr hnone⟩
    · exact h.limited.noticed before c' hprefix hsuppressed hnone
  counted := by
    have hcounted := h.limited.counted
    rw [List.map_append, List.sum_append, List.countP_append, List.map_singleton,
      List.sum_singleton, List.countP_singleton, Closing.reported, Closing.admitted, ← hc]
    by_cases hroom : (a.admitted.dropWhile fun t => hour ≤ c.now - t).length < c.limit
    · rw [Admission.admit_of_lt hroom]
      exact hcounted
    · rw [Admission.admit_of_not_lt hroom]
      change _ + 0 + (a.suppressed + 1) = _ + 1
      omega
  queued c' hc' := by
    rcases List.mem_append.mp hc' with hlog | hlast
    · exact h.limited.queued c' hlog
    · rwa [List.mem_singleton.mp hlast]

/-- **The accounting follows the log.** -/
theorem Tracks.concat (h : Tracks hour log a) (hc : a.Decides hour c) (hqueued : c.Queued)
    (hsorted : (log.map Closing.now).Pairwise (· ≤ ·)) (hnow : ∀ c' ∈ log, c'.now ≤ c.now) :
    Tracks hour (log ++ [c]) (a.tryAdmit c.now c.limit hour).2 where
  limited := h.limited_concat hc hqueued hsorted hnow
  window later hlater := by
    have hle : c.now ≤ later := hlater _ (List.mem_append_right _ (List.mem_singleton_self _))
    have hlacks := ((h.window c.now hnow).dropWhile ages_old le_rfl).mono ages_old hle
    have htimes : admittedTimes (log ++ [c]) =
        admittedTimes log ++ if c.admitted then [c.now] else [] := by
      rw [admittedTimes, List.filter_append, List.map_append, List.filter_singleton]
      cases c.admitted <;> rfl
    rw [htimes]
    by_cases hroom : (a.admitted.dropWhile fun t => hour ≤ c.now - t).length < c.limit
    · rw [if_pos (hc.admitted_iff.mpr hroom), Admission.admit_of_lt hroom]
      exact hlacks.concat c.now
    · rw [if_neg fun hadmitted => hroom (hc.admitted_iff.mp hadmitted),
        Admission.admit_of_not_lt hroom, List.append_nil]
      exact hlacks
  notice := by
    rw [hc.notice, List.filter_append, List.filter_singleton]
    by_cases hnoticed : c.noticed = true
    · rw [hnoticed, cond_true, List.getLast?_concat, if_pos rfl]
      rfl
    · rw [Bool.not_eq_true] at hnoticed
      rw [hnoticed, cond_false, List.append_nil, ← h.notice]
      rfl

end Tracks

/-! ## The notifier -/

section Messages

variable (m : Mail)

@[simp] theorem admission_discard : m.discard.admission = m.admission := rfl

@[simp] theorem times_discard : m.discard.times = m.times := rfl

@[simp] theorem admission_takeDue (now : ℕ) : (m.takeDue now).2.admission = m.admission := by
  unfold takeDue
  split <;> rfl

@[simp] theorem times_takeDue (now : ℕ) : (m.takeDue now).2.times = m.times := by
  unfold takeDue
  split <;> rfl

@[simp] theorem admission_finished (msg : Message) (result : Submitted) (now : ℕ) (retry : Bool) :
    (m.finished msg result now retry).admission = m.admission := by
  unfold finished failed
  split
  · split <;> rfl
  · rfl

@[simp] theorem times_finished (msg : Message) (result : Submitted) (now : ℕ) (retry : Bool) :
    (m.finished msg result now retry).times = m.times := by
  unfold finished failed
  split
  · split <;> rfl
  · rfl

theorem add_eq_some {now coalesce : ℕ} {e : Events.Event} {m' : Mail}
    (h : m.add now coalesce e = some m') : ∃ b, m' = { m with batch := some b } := by
  obtain ⟨b, -, rfl⟩ := Option.map_eq_some_iff.mp h
  exact ⟨b.add e, rfl⟩

/-- Closing an open batch is one decision of the limit. -/
theorem closeBatch_of_open {b : Batch} (hb : m.batch = some b) (now : ℕ) (email : Email)
    (host : Option String) :
    (m.closeBatch now email host).admission =
        (m.admission.tryAdmit now email.maxPerHour m.times.hour).2 ∧
      (m.closeBatch now email host).times = m.times := by
  simp only [closeBatch, hb]
  split <;> exact ⟨rfl, rfl⟩

theorem closeBatch_of_none (hb : m.batch = none) (now : ℕ) (email : Email)
    (host : Option String) : m.closeBatch now email host = m := by
  simp only [closeBatch, hb]

/-- The closing of a batch. -/
def closing (batch : Batch) (now : ℕ) (email : Email) (host : Option String) : Closing where
  now := now
  email := email
  host := host
  batch := batch
  result := (m.admission.tryAdmit now email.maxPerHour m.times.hour).1
  before := m
  after := m.closeBatch now email host

/-- The message of the decision is queued. -/
theorem queued_closing {batch : Batch} (hb : m.batch = some batch) (now : ℕ) (email : Email)
    (host : Option String) : (m.closing batch now email host).Queued := by
  simp only [Closing.Queued, Closing.Queues, closing, closeBatch, hb]
  cases (m.admission.tryAdmit now email.maxPerHour m.times.hour).1 with
  | yes suppressed => rfl
  | no notice => cases notice <;> rfl

end Messages

namespace Notifier

/-- The closing of the open batch. -/
def closingAt (n : Notifier) (now : ℕ) (host : Option String) : Option Closing :=
  match n.notify.email, n.mail.batch with
  | some email, some batch => some (n.mail.closing batch now email host)
  | _, _ => none

/-- The batch that an action closes. -/
def closing (n : Notifier) : Action → Option Closing
  | .close now host => n.closingAt now host
  | .stop now queued host => (n.events queued).bind fun n => n.closingAt now host
  | _ => none

/-- The accounting changes with what is closed, and with nothing else. -/
structure Accounts (n n' : Notifier) (c : Option Closing) : Prop where
  times : n'.mail.times = n.mail.times
  decided : ∀ x ∈ c, n.mail.admission.Decides n.mail.times.hour x ∧ x.Queued
  admission : n'.mail.admission = c.elim n.mail.admission fun x =>
    (n.mail.admission.tryAdmit x.now x.limit n.mail.times.hour).2

variable {n n' : Notifier}

theorem Accounts.idle (htimes : n'.mail.times = n.mail.times)
    (hadmission : n'.mail.admission = n.mail.admission) : Accounts n n' none where
  times := htimes
  decided := nofun
  admission := hadmission

theorem Accounts.trans {n'' : Notifier} {c : Option Closing} (h : Accounts n n' none)
    (h' : Accounts n' n'' c) : Accounts n n'' c where
  times := h'.times.trans h.times
  decided x hx := by
    rw [← h.times, ← show n'.mail.admission = n.mail.admission from h.admission]
    exact h'.decided x hx
  admission := by
    rw [h'.admission, h.times, show n'.mail.admission = n.mail.admission from h.admission]

theorem accounts_event {now : ℕ} {e : Events.Event} (h : n.event now e = some n') :
    Accounts n n' none := by
  simp only [event] at h
  split at h
  · obtain ⟨mail, hmail, rfl⟩ := Option.map_eq_some_iff.mp h
    obtain ⟨b, rfl⟩ := n.mail.add_eq_some hmail
    exact .idle rfl rfl
  · obtain rfl := Option.some.inj h
    exact .idle rfl rfl

theorem accounts_events {queued : List (ℕ × Events.Event)} (h : n.events queued = some n') :
    Accounts n n' none := by
  induction queued generalizing n with
  | nil =>
    obtain rfl := Option.some.inj h
    exact .idle rfl rfl
  | cons e queued ih =>
    rw [events, List.foldlM_cons, Option.bind_eq_bind, Option.bind_eq_some_iff] at h
    obtain ⟨n₁, hevent, hrest⟩ := h
    exact (accounts_event hevent).trans (ih hrest)

theorem accounts_closeBatch {email : Email} (hemail : n.notify.email = some email)
    (now : ℕ) (host : Option String)
    (hmail : n'.mail.times = (n.mail.closeBatch now email host).times)
    (hadmission : n'.mail.admission = (n.mail.closeBatch now email host).admission) :
    Accounts n n' (n.closingAt now host) := by
  cases hb : n.mail.batch with
  | none =>
    have hnone : n.closingAt now host = none := by simp [closingAt, hemail, hb]
    rw [n.mail.closeBatch_of_none hb] at hmail hadmission
    rw [hnone]
    exact .idle hmail hadmission
  | some b =>
    have hsome : n.closingAt now host =
        some (n.mail.closing b now email host) := by
      simp [closingAt, hemail, hb]
    obtain ⟨hdecided, htimes⟩ := n.mail.closeBatch_of_open hb now email host
    rw [hsome]
    refine ⟨hmail.trans htimes, fun x hx => ?_, hadmission.trans hdecided⟩
    obtain rfl := Option.some.inj hx
    exact ⟨rfl, n.mail.queued_closing hb now email host⟩

theorem accounts_flush (n : Notifier) (now : ℕ) (host : Option String) :
    Accounts n (n.flush now host) (n.closingAt now host) := by
  cases hemail : n.notify.email with
  | none =>
    have hnone : n.closingAt now host = none := by simp [closingAt, hemail]
    rw [hnone, flush, hemail]
    exact .idle rfl rfl
  | some email =>
    refine accounts_closeBatch hemail now host ?_ ?_ <;> simp only [flush, hemail]

/-- **Only the closing of a batch changes the accounting of the limit.** -/
theorem accounts_step {x : Action} (h : n.step x = some n') : Accounts n n' (n.closing x) := by
  cases x with
  | config next =>
    obtain rfl := Option.some.inj h
    refine .idle ?_ ?_ <;> dsimp only <;> split <;> rfl
  | stop now queued host =>
    obtain ⟨n₁, hevents, rfl⟩ := Option.map_eq_some_iff.mp h
    have hclosing : n.closing (.stop now queued host) = n₁.closingAt now host := by
      simp only [closing, hevents, Option.bind_some]
    rw [hclosing]
    exact (accounts_events hevents).trans (n₁.accounts_flush now host)
  | ended result now =>
    simp only [step] at h
    split at h <;> obtain rfl := Option.some.inj h
    · exact .idle (by simp) (by simp)
    · exact .idle rfl rfl
  | turn now =>
    simp only [step] at h
    split at h
    · obtain rfl := Option.some.inj h
      exact .idle rfl rfl
    · split at h <;> obtain rfl := Option.some.inj h <;> exact .idle (by simp) (by simp)
  | close now host =>
    simp only [step] at h
    split at h
    · next hopen =>
        obtain rfl := Option.some.inj h
        have hnone : n.closing (.close now host) = none := by
          simp [closing, closingAt, Option.isNone_iff_eq_none.mp hopen]
        rw [hnone]
        exact .idle rfl rfl
    · cases hemail : n.notify.email with
      | none =>
        rw [hemail] at h
        obtain rfl := Option.some.inj h
        have hnone : n.closing (.close now host) = none := by simp [closing, closingAt, hemail]
        rw [hnone]
        exact .idle rfl rfl
      | some email =>
        rw [hemail] at h
        obtain rfl := Option.some.inj h
        exact accounts_closeBatch hemail now host rfl rfl
  | event now e => exact accounts_event h

end Notifier

/-- The notifier with the log of its closings. -/
structure Account where
  notifier : Notifier
  closings : List Closing := []

namespace Account

/-- The notifier as a process starts it. -/
def start (notify : Notify) (times : Times) (instanceId : String) : Account where
  notifier := { notify, mail := { times, instanceId } }

def step (a : Account) (x : Action) : Option Account :=
  if a.notifier.stopped then some a
  else (a.notifier.step x).map fun n => ⟨n, a.closings ++ (a.notifier.closing x).toList⟩

def run (a : Account) (actions : List Action) : Option Account := actions.foldlM step a

/-- One more action keeps the accounting in step with the log. -/
theorem tracks_step {a a' : Account} {x : Action}
    (h : Tracks a.notifier.mail.times.hour a.closings a.notifier.mail.admission)
    (hstep : a.step x = some a') (hsorted : (a'.closings.map Closing.now).Pairwise (· ≤ ·)) :
    Tracks a'.notifier.mail.times.hour a'.closings a'.notifier.mail.admission := by
  simp only [step] at hstep
  split at hstep
  · obtain rfl := Option.some.inj hstep
    exact h
  · obtain ⟨n, hn, rfl⟩ := Option.map_eq_some_iff.mp hstep
    have haccounts := Notifier.accounts_step hn
    dsimp only at hsorted ⊢
    rw [haccounts.times, haccounts.admission]
    cases hclosing : a.notifier.closing x with
    | none => simpa using h
    | some c =>
      rw [hclosing, Option.toList_some, List.map_append, List.pairwise_append] at hsorted
      obtain ⟨hdecided, hqueued⟩ := haccounts.decided c hclosing
      rw [Option.toList_some]
      refine h.concat hdecided hqueued hsorted.1 fun c' hc' => ?_
      exact hsorted.2.2 c'.now (List.mem_map_of_mem hc') c.now (List.mem_singleton_self _)

theorem closings_grow {a a' : Account} {x : Action} (hstep : a.step x = some a') :
    a.closings <+: a'.closings := by
  simp only [step] at hstep
  split at hstep
  · obtain rfl := Option.some.inj hstep
    exact List.prefix_refl _
  · obtain ⟨n, -, rfl⟩ := Option.map_eq_some_iff.mp hstep
    exact List.prefix_append _ _

theorem times_step {a a' : Account} {x : Action} (hstep : a.step x = some a') :
    a'.notifier.mail.times = a.notifier.mail.times := by
  simp only [step] at hstep
  split at hstep
  · obtain rfl := Option.some.inj hstep
    rfl
  · obtain ⟨n, hn, rfl⟩ := Option.map_eq_some_iff.mp hstep
    exact (Notifier.accounts_step hn).times

theorem tracks_run {notify : Notify} {times : Times} {instanceId : String}
    {actions : List Action} {a : Account}
    (h : (start notify times instanceId).run actions = some a)
    (hsorted : (a.closings.map Closing.now).Pairwise (· ≤ ·)) :
    a.notifier.mail.times = times ∧ Tracks times.hour a.closings a.notifier.mail.admission := by
  -- The last action is the one the step lemma speaks of; the log before it is a prefix.
  induction actions using List.reverseRecOn generalizing a with
  | nil =>
    obtain rfl := Option.some.inj h
    exact ⟨rfl, Tracks.start times.hour⟩
  | append_singleton actions x ih =>
    rw [run, List.foldlM_append, Option.bind_eq_bind, Option.bind_eq_some_iff] at h
    obtain ⟨a₁, hrun, hlast⟩ := h
    have hstep : a₁.step x = some a := by simpa using hlast
    obtain ⟨htimes, htracks⟩ := ih hrun
      (hsorted.sublist ((closings_grow hstep).map Closing.now).sublist)
    refine ⟨(times_step hstep).trans htimes, ?_⟩
    have hnext := tracks_step (htimes.symm ▸ htracks) hstep hsorted
    rwa [times_step hstep, htimes] at hnext

/-- **Every run of the notifier keeps the limit of each hour**, whatever reloads make of the
limit and whatever is discarded, as long as batches close at non-decreasing times. -/
theorem limited_of_run (notify : Notify) (times : Times) (instanceId : String)
    (actions : List Action) (a : Account) (h : (start notify times instanceId).run actions = some a)
    (hsorted : (a.closings.map Closing.now).Pairwise (· ≤ ·)) :
    Limited times.hour a.closings a.notifier.mail.admission.suppressed :=
  (tracks_run h hsorted).2.limited

/-- Email limited to `maxPerHour` notifications. -/
def settings (maxPerHour : ℕ) : Notify where
  coalesce := Duration.ofSecs 30
  email := some
    { sender := "router@example.org", recipients := ["admin@example.org"]
      sendmail := "/usr/sbin/sendmail", maxPerHour, events := ["path_state_changed"] }
  hooks := []
  hookUser := "nobody"

/-- A batch of one event. -/
def batchFrom (opened closed : ℕ) : List Action :=
  [.event (Duration.ofSecs opened)
      { timestamp := "t", kind := "path_state_changed", message := "path down" },
    .close (Duration.ofSecs closed) none]

/-- A batch of one event that closes at an instant. -/
def batchAt (secs : ℕ) : List Action := batchFrom (secs - 30) secs

/-- Four batches under a limit of one, lowered from two; email is removed and restored in
between. -/
def busyHour : List Action :=
  batchAt 30 ++ [.config (settings 1)] ++ batchAt 630 ++ [.config { settings 1 with email := none }]
    ++ [.config (settings 1)] ++ batchAt 1830 ++ batchAt 3630

theorem limited_busyHour :
    ∃ a, (start (settings 2) {} "run").run busyHour = some a ∧
      a.closings.map Closing.result = [.yes 0, .no true, .no false, .yes 2] ∧
      a.closings.map (fun c => c.after.waiting.map Message.kind) =
        [[.notification], [.notification, .suppressed], [], [.notification]] ∧
      Limited (Times.hour {}) a.closings a.notifier.mail.admission.suppressed := by
  have hfacts : ((start (settings 2) {} "run").run busyHour).map (fun a => a.closings.map fun c =>
      (c.now, c.result, c.after.waiting.map Message.kind)) =
      some [(30000000000, .yes 0, [.notification]),
        (630000000000, .no true, [.notification, .suppressed]),
        (1830000000000, .no false, []), (3630000000000, .yes 2, [.notification])] := by
    decide +kernel
  obtain ⟨a, hrun, hclosings⟩ := Option.map_eq_some_iff.mp hfacts
  have hnow := congrArg (List.map Prod.fst) hclosings
  have hresult := congrArg (List.map fun c => c.2.1) hclosings
  have hkinds := congrArg (List.map fun c => c.2.2) hclosings
  rw [List.map_map] at hnow hresult hkinds
  refine ⟨a, hrun, hresult, hkinds, limited_of_run _ _ _ _ a hrun ?_⟩
  rw [show a.closings.map Closing.now = _ from hnow]
  decide

end Account

end Polywan.Mail
