import Polywan.Config.Accept
import Polywan.Mail

/-!
# Deadlines of notifications

An email batch closes after the coalescing delay, a hook runs until its timeout, and a test of
the notifications has the time of all of them.  Validation gives none of these durations an
upper bound, so that the sums need not be representable.

## Main definitions

* `Subprocess.deadline`, `NotifyTest.budget` — the deadline of a run, and the time of a test.
* `Notify.Usable` — no sum with the durations of the settings overflows.
* `Notify.Bounded` — the bounds that are needed.

## Main results

* `Notify.usable_iff` — the bounds are exactly what is needed.
-/

namespace Polywan

open Duration

/-- The deadline of a run that starts now. -/
def Subprocess.deadline (now timeout : ℕ) : Option ℕ := Instant.checkedAdd now timeout

/-- The overall budget: the timeouts of the hooks and the deadline of sendmail. -/
def NotifyTest.budget (n : Notify) (times : Mail.Times) : Option ℕ := do
  let total ← n.hooks.foldlM (fun total h => checkedAdd total h.timeout) 0
  checkedAdd total times.deadline

/-- Where the seconds of an instant need more than 62 bits. -/
def Instant.horizon : ℕ := ofSecs (2 ^ 62)

namespace Mail

/-- An action before the horizon, under settings that stay. -/
def Action.Timely (n : Notify) : Action → Prop
  | .config next => next = n
  | .stop now queued _ => now < Instant.horizon ∧ ∀ e ∈ queued, e.1 < Instant.horizon
  | .ended _ now | .turn now | .close now _ | .event now _ => now < Instant.horizon

end Mail

namespace Notify

/-- No sum with the durations of the settings overflows: the notifier never stops at one, and
the deadlines of hooks and the budget of a test exist. -/
structure Usable (n : Notify) : Prop where
  batches : ∀ (mail : Mail) (actions : List Mail.Action), (∀ a ∈ actions, a.Timely n) →
    ((Mail.Notifier.mk n mail none false).run actions).isSome = true
  hooks : ∀ h ∈ n.hooks, ∀ now < Instant.horizon, (Subprocess.deadline now h.timeout).isSome = true
  tests : (NotifyTest.budget n {}).isSome = true

/-- The bounds that are needed. -/
structure Bounded (n : Notify) : Prop where
  coalesce_le : n.email.isSome = true → n.coalesce ≤ ofSecs (2 ^ 62)
  timeout_le : ∀ h ∈ n.hooks, h.timeout ≤ ofSecs (2 ^ 62)
  total_lt : (n.hooks.map Hook.timeout).sum + ({} : Mail.Times).deadline < Duration.limit

end Notify

/-- Before the horizon, a duration may be added if it is not longer than the horizon. -/
theorem Instant.isSome_checkedAdd_iff (d : ℕ) :
    (∀ now < horizon, (checkedAdd now d).isSome = true) ↔ d ≤ ofSecs (2 ^ 62) := by
  simp only [isSome_checkedAdd, horizon, limit, ofSecs, second]
  constructor
  · intro h
    have hlast := h (2 ^ 62 * 1000000000 - 1) (by omega)
    omega
  · intro h now hnow
    omega

/-! ## The notifier -/

namespace Mail.Notifier

variable {n : Notifier} {settings : Notify}

/-- An event before the horizon is taken. -/
theorem isSome_event (hbound : n.notify.email.isSome = true → n.notify.coalesce ≤ ofSecs (2 ^ 62))
    {now : ℕ} (hnow : now < Instant.horizon) (e : Events.Event) :
    ∃ n', n.event now e = some n' ∧ n'.notify = n.notify := by
  rw [event]
  split
  · next hemail =>
      have hopen : (n.mail.openBatch now n.notify.coalesce).isSome = true := by
        rw [openBatch]
        split
        · rfl
        · rw [Option.isSome_map]
          exact (Instant.isSome_checkedAdd_iff _).mpr (hbound hemail) now hnow
      obtain ⟨b, hb⟩ := Option.isSome_iff_exists.mp hopen
      exact ⟨{ n with mail := { n.mail with batch := some (b.add e) } }, by rw [add, hb]; rfl, rfl⟩
  · exact ⟨n, rfl, rfl⟩

theorem isSome_events (hbound : n.notify.email.isSome = true → n.notify.coalesce ≤ ofSecs (2 ^ 62))
    {queued : List (ℕ × Events.Event)} (hqueued : ∀ e ∈ queued, e.1 < Instant.horizon) :
    ∃ n', n.events queued = some n' ∧ n'.notify = n.notify := by
  induction queued generalizing n with
  | nil => exact ⟨n, rfl, rfl⟩
  | cons e queued ih =>
    obtain ⟨n', hevent, hnotify⟩ := isSome_event hbound (hqueued e List.mem_cons_self) e.2
    obtain ⟨n'', hevents, hnotify'⟩ := ih (n := n') (hnotify ▸ hbound)
      fun x hx => hqueued x (List.mem_cons_of_mem e hx)
    refine ⟨n'', ?_, hnotify'.trans hnotify⟩
    rw [events, List.foldlM_cons, hevent]
    exact hevents

/-- No turn stops the notifier. -/
theorem isSome_step (hsettings : n.notify = settings)
    (hbound : settings.email.isSome = true → settings.coalesce ≤ ofSecs (2 ^ 62))
    {a : Action} (ha : a.Timely settings) :
    ∃ n', n.step a = some n' ∧ n'.notify = settings := by
  subst hsettings
  cases a with
  | config next => exact ⟨_, rfl, ha⟩
  | stop now queued host =>
    obtain ⟨n', hevents, hnotify⟩ := isSome_events hbound ha.2
    refine ⟨n'.flush now host, by rw [step, hevents]; rfl, ?_⟩
    rw [← hnotify, flush]
    split <;> rfl
  | ended result now =>
    simp only [step]
    split
    · exact ⟨_, rfl, rfl⟩
    · exact ⟨_, rfl, rfl⟩
  | turn now =>
    simp only [step]
    split
    · exact ⟨_, rfl, rfl⟩
    · split
      · exact ⟨_, rfl, rfl⟩
      · exact ⟨_, rfl, rfl⟩
  | close now host =>
    simp only [step]
    split
    · exact ⟨_, rfl, rfl⟩
    · split
      · exact ⟨_, rfl, rfl⟩
      · exact ⟨_, rfl, rfl⟩
  | event now e => exact isSome_event hbound ha e

theorem isSome_run (hsettings : n.notify = settings)
    (hbound : settings.email.isSome = true → settings.coalesce ≤ ofSecs (2 ^ 62))
    {actions : List Action} (hactions : ∀ a ∈ actions, a.Timely settings) :
    (n.run actions).isSome = true := by
  induction actions generalizing n with
  | nil => rfl
  | cons a actions ih =>
    have hrest : ∀ b ∈ actions, b.Timely settings :=
      fun b hb => hactions b (List.mem_cons_of_mem a hb)
    rw [run, List.foldlM_cons]
    by_cases hstopped : n.stopped = true
    · rw [if_pos hstopped]
      exact ih hsettings hrest
    · obtain ⟨n', hstep, hnotify⟩ := isSome_step hsettings hbound (hactions a List.mem_cons_self)
      rw [if_neg hstopped, hstep]
      exact ih hnotify hrest

end Mail.Notifier

/-! ## The budget of a test -/

/-- The sum is taken from the left, and only the whole of it matters. -/
theorem foldlM_timeout (hooks : List Hook) {total : ℕ} (htotal : total < Duration.limit) :
    hooks.foldlM (fun total h => checkedAdd total h.timeout) total =
      checked (total + (hooks.map Hook.timeout).sum) := by
  induction hooks generalizing total with
  | nil => simp [checked, htotal]
  | cons h hooks ih =>
    rw [List.foldlM_cons, List.map_cons, List.sum_cons, ← Nat.add_assoc]
    by_cases hfits : total + h.timeout < Duration.limit
    · rw [checkedAdd, checked, if_pos hfits]
      exact ih hfits
    · rw [checkedAdd, checked, if_neg hfits, checked, if_neg (by omega)]
      rfl

theorem isSome_checkedAdd_checked (a b : ℕ) :
    ((checked a).bind fun total => checkedAdd total b).isSome = true ↔ a + b < Duration.limit := by
  by_cases hfits : a < Duration.limit
  · rw [checked, if_pos hfits, Option.bind_some]
    exact isSome_checked
  · rw [checked, if_neg hfits, Option.bind_none, Option.isSome_none]
    exact iff_of_false Bool.false_ne_true (by omega)

theorem isSome_budget_iff (n : Notify) (times : Mail.Times) :
    (NotifyTest.budget n times).isSome = true ↔
      (n.hooks.map Hook.timeout).sum + times.deadline < Duration.limit := by
  have htotal := foldlM_timeout n.hooks (show 0 < Duration.limit by decide)
  rw [Nat.zero_add] at htotal
  rw [NotifyTest.budget, htotal]
  exact isSome_checkedAdd_checked _ _

namespace Notify

/-- **The durations of the settings are usable exactly within the bounds.** -/
theorem usable_iff (n : Notify) : n.Usable ↔ n.Bounded := by
  constructor
  · intro h
    refine ⟨fun hemail => ?_, fun x hx => ?_, (isSome_budget_iff n {}).mp h.tests⟩
    · -- The first event opens a batch.
      refine (Instant.isSome_checkedAdd_iff _).mp fun now hnow => ?_
      have hrun := h.batches { instanceId := "" } [.event now ⟨"", "", none, none, ""⟩]
        (by simpa [Mail.Action.Timely] using hnow)
      simpa [Mail.Notifier.run, Mail.Notifier.step, Mail.Notifier.event, Mail.add, Mail.openBatch,
        hemail] using hrun
    · exact (Instant.isSome_checkedAdd_iff _).mp (h.hooks x hx)
  · intro h
    refine ⟨fun mail actions hactions => ?_, fun x hx => ?_,
      (isSome_budget_iff n {}).mpr h.total_lt⟩
    · exact Mail.Notifier.isSome_run rfl h.coalesce_le hactions
    · exact (Instant.isSome_checkedAdd_iff _).mpr (h.timeout_le x hx)

end Notify

namespace Sample

/-- A file with the longest delay that can be read. -/
def patient : Raw.Config :=
  { raw with
    notify := some ⟨{ coalesce := some "18446744073709551615s"
                      email := some ⟨⟨"a@b", ["a@b"], none, none, none⟩, 21⟩ }, 20⟩ }

/-- Its settings of notifications. -/
def patientNotify : Notify where
  coalesce := ofSecs (2 ^ 64 - 1)
  email := some ⟨"a@b", ["a@b"], "/usr/sbin/sendmail", 20, defaultEmailEvents⟩
  hooks := []
  hookUser := "nobody"

end Sample

/-- It is accepted, and the first event stops the notifier, whenever it comes. -/
theorem patient_accepted_not_usable :
    validate Sample.texts Sample.patient =
        some (.ok { Sample.configuration with notify := Sample.patientNotify }) ∧
      (Mail.Notifier.mk Sample.patientNotify { instanceId := "run" } none false).run
        [.event 0 ⟨"", "daemon_started", none, none, ""⟩] = none := by
  decide +kernel

end Polywan
