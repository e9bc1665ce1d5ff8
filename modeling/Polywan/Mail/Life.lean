import Polywan.Mail.Deeds

/-!
# The life of a message

A message waits, is submitted, perhaps waits for a retry, and is gone.  The log of what the
actions did tells where each message is: a message waits as many times as its submissions
failed, and nothing that was lost comes back.

## Main definitions

* `Mail.Ledger` — the notifier with the log of its deeds.
* `Mail.Lived` — what the log of a run shows about messages.
* `Mail.Ledger.Sound` — how the log and the messages in memory agree.
* `Mail.Ledger.Queues` — a deed that queues a message.

## Main results

* `Mail.Ledger.Sound.step` — every deed keeps them in agreement.
* `Mail.Ledger.lives` — the life of every message, in every run.
-/

namespace Polywan.Mail

/-! ## Reading the log -/

namespace Deed

/-- A submission of the message starts. -/
def starts (number : ℕ) : Deed → Bool
  | .started msg _ => msg.number = number
  | _ => false

/-- A submission of the message fails, and it is to be retried. -/
def fails (number : ℕ) : Deed → Option ℕ
  | .retried msg now _ => if msg.number = number then some now else none
  | _ => none

/-- The messages that a deed drops. -/
def lost : Deed → List Message
  | .discarded lost => lost
  | .queued _ lost => lost
  | .retried _ _ lost => lost
  | .ended msg _ _ => [msg]
  | _ => []

def starting : Deed → Bool
  | .started _ _ => true
  | _ => false

/-- A submission ends. -/
def ending : Deed → Bool
  | .ended _ _ _ => true
  | .retried _ _ _ => true
  | _ => false

end Deed

section Log

variable (number : ℕ) (deeds : List Deed)

/-- The submissions of a message. -/
def submissions : ℕ := deeds.countP (Deed.starts number)

/-- The message was evicted or discarded, or its last submission ended. -/
def Gone : Prop := ∃ d ∈ deeds, ∃ m ∈ d.lost, m.number = number

/-- When the last submission that is to be retried failed. -/
def lastFailure : Option ℕ := (deeds.filterMap (Deed.fails number)).getLast?

end Log

/-- The delay of the next submission: after `failures` ones that failed, it starts at `due` or
later. -/
def Delayed (times : Times) (number : ℕ) (deeds : List Deed) (failures due : ℕ) : Prop :=
  ∀ k, failures = k + 1 → ∃ failed minutes, lastFailure number deeds = some failed ∧
    Times.retryMinutes[k]? = some minutes ∧ failed + times.minute * minutes ≤ due

/-- What the log of a run shows: one submission runs at a time; a message that is gone is not
submitted again; it is submitted at most four times, and its retries keep their delays. -/
structure Lived (times : Times) (deeds : List Deed) : Prop where
  turns : ∀ before, before <+: deeds →
    before.countP Deed.ending ≤ before.countP Deed.starting ∧
      before.countP Deed.starting ≤ before.countP Deed.ending + 1
  fresh : ∀ before msg now, before ++ [.started msg now] <+: deeds → ¬ Gone msg.number before
  tries : ∀ number, submissions number deeds ≤ 4
  delays : ∀ before msg now, before ++ [.started msg now] <+: deeds →
    Delayed times msg.number before (submissions msg.number before) now

section Log

variable {number : ℕ} {deeds : List Deed} {d : Deed}

@[simp] theorem submissions_concat :
    submissions number (deeds ++ [d]) =
      submissions number deeds + if d.starts number then 1 else 0 := by
  simp [submissions, List.countP_append]

theorem gone_concat :
    Gone number (deeds ++ [d]) ↔ Gone number deeds ∨ ∃ m ∈ d.lost, m.number = number := by
  simp only [Gone, List.mem_append, List.mem_singleton]
  constructor
  · rintro ⟨e, he | rfl, h⟩
    · exact .inl ⟨e, he, h⟩
    · exact .inr h
  · rintro (⟨e, he, h⟩ | h)
    · exact ⟨e, .inl he, h⟩
    · exact ⟨d, .inr rfl, h⟩

theorem lastFailure_concat :
    lastFailure number (deeds ++ [d]) = (d.fails number).or (lastFailure number deeds) := by
  rw [lastFailure, List.filterMap_append]
  cases h : d.fails number with
  | none => simp [h, lastFailure]
  | some failed => simp [h]

end Log

/-! ## Messages in memory -/

/-- The log shows a message that waits: not gone, submitted as often as it failed. -/
structure Waits (times : Times) (deeds : List Deed) (m : Message) : Prop where
  alive : ¬ Gone m.number deeds
  submissions : submissions m.number deeds = m.failures
  failures_le : m.failures ≤ 3
  delayed : Delayed times m.number deeds m.failures m.due

/-- The deed is not about the message. -/
structure Deed.Leaves (number : ℕ) (d : Deed) : Prop where
  starts : d.starts number = false
  fails : d.fails number = none
  lost : ∀ m ∈ d.lost, m.number ≠ number

theorem Waits.concat {times : Times} {deeds : List Deed} {m : Message} {d : Deed}
    (h : Waits times deeds m) (hd : d.Leaves m.number) : Waits times (deeds ++ [d]) m where
  alive := by
    rw [gone_concat]
    rintro (hgone | ⟨m', hm', heq⟩)
    · exact h.alive hgone
    · exact hd.lost m' hm' heq
  submissions := by simp [hd.starts, h.submissions]
  failures_le := h.failures_le
  delayed k hk := by
    rw [lastFailure_concat, hd.fails, Option.none_or]
    exact h.delayed k hk

/-- The log shows a message that is being submitted. -/
structure Runs (deeds : List Deed) (m : Message) : Prop where
  alive : ¬ Gone m.number deeds
  submissions : submissions m.number deeds = m.failures + 1
  failures_le : m.failures ≤ 3

theorem Runs.concat {deeds : List Deed} {m : Message} {d : Deed} (h : Runs deeds m)
    (hd : d.Leaves m.number) : Runs (deeds ++ [d]) m where
  alive := by
    rw [gone_concat]
    rintro (hgone | ⟨m', hm', heq⟩)
    · exact h.alive hgone
    · exact hd.lost m' hm' heq
  submissions := by simp [hd.starts, h.submissions]
  failures_le := h.failures_le

/-- One more deed; a submission that starts is one more of a message that may be submitted. -/
theorem Lived.concat {times : Times} {deeds : List Deed} {d : Deed} (h : Lived times deeds)
    (hturns : (deeds ++ [d]).countP Deed.ending ≤ (deeds ++ [d]).countP Deed.starting ∧
      (deeds ++ [d]).countP Deed.starting ≤ (deeds ++ [d]).countP Deed.ending + 1)
    (hstart : ∀ msg now, d = .started msg now → ¬ Gone msg.number deeds ∧
      submissions msg.number deeds ≤ 3 ∧
      Delayed times msg.number deeds (submissions msg.number deeds) now) :
    Lived times (deeds ++ [d]) where
  turns before hbefore := by
    rcases List.prefix_concat_iff.mp hbefore with rfl | hle
    · exact hturns
    · exact h.turns before hle
  fresh before msg now hbefore := by
    rcases List.prefix_concat_iff.mp hbefore with heq | hle
    · obtain ⟨rfl, hd⟩ := List.append_inj' heq rfl
      exact (hstart msg now (List.singleton_inj.mp hd).symm).1
    · exact h.fresh before msg now hle
  tries number := by
    rw [submissions_concat]
    cases hd : d.starts number with
    | false => simpa using h.tries number
    | true =>
      cases d with
      | started msg now =>
        obtain rfl : msg.number = number := by simpa [Deed.starts] using hd
        have := (hstart msg now rfl).2.1
        simp only [if_true]
        omega
      | _ => cases hd
  delays before msg now hbefore := by
    rcases List.prefix_concat_iff.mp hbefore with heq | hle
    · obtain ⟨rfl, hd⟩ := List.append_inj' heq rfl
      exact (hstart msg now (List.singleton_inj.mp hd).symm).2.2
    · exact h.delays before msg now hle

/-- The notifier with the log of what its actions did. -/
structure Ledger where
  notifier : Notifier
  deeds : List Deed := []

namespace Ledger

/-- The notifier as a process starts it. -/
def start (notify : Notify) (times : Times) (instanceId : String) : Ledger where
  notifier := { notify, mail := { times, instanceId } }

def step (l : Ledger) (x : Action) : Option Ledger :=
  if l.notifier.stopped then some l
  else (l.notifier.step x).map fun n => ⟨n, l.deeds ++ [l.notifier.deed x]⟩

def run (l : Ledger) (actions : List Action) : Option Ledger := actions.foldlM step l

/-- The numbers of the messages in memory. -/
def numbers (n : Notifier) : List ℕ :=
  n.mail.waiting.map Message.number ++ n.running.toList.map Message.number

/-- The log and the messages in memory agree. -/
structure Sound (l : Ledger) : Prop where
  once : (numbers l.notifier).Nodup
  le_ids : ∀ number ∈ numbers l.notifier, number ≤ l.notifier.mail.ids
  unused : ∀ number, l.notifier.mail.ids < number →
    submissions number l.deeds = 0 ∧ ¬ Gone number l.deeds
  length_le : l.notifier.mail.waiting.length ≤ waitingMax
  bytes_le : (l.notifier.mail.waiting.map fun m => m.body.utf8ByteSize).sum ≤ waitingBytes
  waits : ∀ m ∈ l.notifier.mail.waiting, Waits l.notifier.mail.times l.deeds m
  runs : ∀ m ∈ l.notifier.running, Runs l.deeds m
  balance : l.notifier.stopped = false → l.deeds.countP Deed.starting =
    l.deeds.countP Deed.ending + l.notifier.running.toList.length
  lived : Lived l.notifier.mail.times l.deeds

section Sound

variable {l : Ledger} {n' : Notifier} {d : Deed}

theorem sound_start (notify : Notify) (times : Times) (instanceId : String) :
    Sound (start notify times instanceId) where
  once := List.nodup_nil
  le_ids := by simp [numbers, start]
  unused _ _ := ⟨rfl, by simp [Gone, start]⟩
  length_le := Nat.zero_le _
  bytes_le := Nat.zero_le _
  waits := by simp [start]
  runs := by simp [start]
  balance _ := rfl
  lived :=
    { turns := by simp [start]
      fresh := by simp [start]
      tries := by simp [start, submissions]
      delays := by simp [start] }

/-- A number that is not used yet stays so. -/
theorem Sound.unused_concat (h : Sound l) {number : ℕ} (hids : l.notifier.mail.ids < number)
    (hstarts : d.starts number = false) (hlost : ∀ m ∈ d.lost, m.number ≠ number) :
    submissions number (l.deeds ++ [d]) = 0 ∧ ¬ Gone number (l.deeds ++ [d]) := by
  obtain ⟨hzero, halive⟩ := h.unused number hids
  refine ⟨by simp [hzero, hstarts], ?_⟩
  rw [gone_concat]
  rintro (hgone | ⟨m, hm, heq⟩)
  · exact halive hgone
  · exact hlost m hm heq

theorem mem_numbers_of_waiting {n : Notifier} {m : Message} (h : m ∈ n.mail.waiting) :
    m.number ∈ numbers n := List.mem_append_left _ (List.mem_map_of_mem h)

theorem mem_numbers_of_running {n : Notifier} {m : Message} (h : m ∈ n.running) :
    m.number ∈ numbers n :=
  List.mem_append_right _ (List.mem_map_of_mem (Option.mem_toList.mpr h))

/-- A deed that starts no submission. -/
structure Rests (l : Ledger) (n' : Notifier) (d : Deed) : Prop where
  times : n'.mail.times = l.notifier.mail.times
  running : n'.running = none ∨ n'.running = l.notifier.running
  ids : l.notifier.mail.ids ≤ n'.mail.ids
  starting : d.starting = false
  turns : (l.deeds ++ [d]).countP Deed.ending ≤ l.deeds.countP Deed.starting
  balance : n'.stopped = false → l.deeds.countP Deed.starting =
    (l.deeds ++ [d]).countP Deed.ending + n'.running.toList.length

namespace Rests

theorem starts (hd : Rests l n' d) (number : ℕ) : d.starts number = false := by
  cases d with
  | started msg now => cases hd.starting
  | _ => rfl

theorem countP_starting (hd : Rests l n' d) :
    (l.deeds ++ [d]).countP Deed.starting = l.deeds.countP Deed.starting := by
  simp [List.countP_append, hd.starting]

theorem mem_running (hd : Rests l n' d) {m : Message} (hm : m ∈ n'.running) :
    m ∈ l.notifier.running := by
  obtain hnone | hsame := hd.running
  · rw [hnone] at hm
    cases hm
  · exact hsame ▸ hm

theorem lived (hd : Rests l n' d) (h : Sound l) : Lived n'.mail.times (l.deeds ++ [d]) := by
  have hle : l.deeds.countP Deed.ending ≤ (l.deeds ++ [d]).countP Deed.ending := by
    rw [List.countP_append]
    exact Nat.le_add_right _ _
  rw [hd.times]
  refine h.lived.concat ⟨hd.countP_starting ▸ hd.turns, ?_⟩ ?_
  · have hbefore := (h.lived.turns l.deeds List.prefix_rfl).2
    rw [hd.countP_starting]
    omega
  · rintro msg now rfl
    cases hd.starting

end Rests

/-- A deed after which nothing more is in memory. -/
theorem Sound.shrink (h : Sound l) (hd : Rests l n' d)
    (hwaiting : n'.mail.waiting.Sublist l.notifier.mail.waiting)
    (hleaves : ∀ number ∈ numbers n', d.Leaves number)
    (hlost : ∀ m ∈ d.lost, m.number ≤ l.notifier.mail.ids) : Sound ⟨n', l.deeds ++ [d]⟩ := by
  have hsub : (numbers n').Sublist (numbers l.notifier) := by
    refine (hwaiting.map _).append ?_
    obtain hnone | hsame := hd.running
    · simp [hnone]
    · rw [hsame]
  refine ⟨h.once.sublist hsub, fun number hn => (h.le_ids number (hsub.subset hn)).trans hd.ids,
    fun number hn => ?_, hwaiting.length_le.trans h.length_le,
    ((hwaiting.map _).sum_le_sum fun _ _ => Nat.zero_le _).trans h.bytes_le, ?_, ?_,
    fun hstopped => hd.countP_starting ▸ hd.balance hstopped, hd.lived h⟩
  · have hlt : l.notifier.mail.ids < number := lt_of_le_of_lt hd.ids hn
    refine h.unused_concat hlt (hd.starts number) fun m hm heq => ?_
    have := hlost m hm
    omega
  · rw [hd.times]
    exact fun m hm =>
      (h.waits m (hwaiting.subset hm)).concat (hleaves _ (mem_numbers_of_waiting hm))
  · exact fun m hm =>
      (h.runs m (hd.mem_running hm)).concat (hleaves _ (mem_numbers_of_running hm))

/-- A deed that queues a message, new or to be retried. -/
structure Queues (l : Ledger) (n' : Notifier) (d : Deed) (m : Message) : Prop
    extends Rests l n' d where
  waiting : n'.mail.waiting = evict (l.notifier.mail.waiting ++ [m])
  lost : d.lost = evicted (l.notifier.mail.waiting ++ [m])
  once : ((l.notifier.mail.waiting ++ [m]).map Message.number
    ++ n'.running.toList.map Message.number).Nodup
  le_ids : m.number ≤ n'.mail.ids
  fails : ∀ number, number ≠ m.number → d.fails number = none
  alive : ¬ Gone m.number l.deeds
  submissions : submissions m.number l.deeds = m.failures
  failures_le : m.failures ≤ 3
  delayed : Delayed l.notifier.mail.times m.number (l.deeds ++ [d]) m.failures m.due

namespace Queues

variable {m : Message}

/-- No other message has the number. -/
theorem number_notMem (hd : Queues l n' d m) :
    m.number ∉ l.notifier.mail.waiting.map Message.number ++
      n'.running.toList.map Message.number := by
  have hmiddle := hd.once
  rw [List.map_append, List.map_singleton, List.append_assoc, List.singleton_append,
    List.nodup_middle] at hmiddle
  exact (List.nodup_cons.mp hmiddle).1

/-- What is lost, what is kept and what runs are different messages. -/
theorem nodup (hd : Queues l n' d m) : (d.lost.map Message.number ++ numbers n').Nodup := by
  have honce := hd.once
  rwa [← evicted_append_evict (l.notifier.mail.waiting ++ [m]), List.map_append,
    List.append_assoc, ← hd.waiting, ← hd.lost] at honce

theorem lost_ne (hd : Queues l n' d m) {number : ℕ} (hn : number ∈ numbers n') :
    ∀ m' ∈ d.lost, m'.number ≠ number :=
  fun _ hm' => (List.nodup_append.mp hd.nodup).2.2 _ (List.mem_map_of_mem hm') _ hn

theorem eq_or_mem (hd : Queues l n' d m) {m' : Message}
    (hm' : m' ∈ d.lost ∨ m' ∈ n'.mail.waiting) : m' ∈ l.notifier.mail.waiting ∨ m' = m := by
  rw [hd.lost, hd.waiting, ← List.mem_append, evicted_append_evict] at hm'
  simpa using hm'

theorem number_le (hd : Queues l n' d m) (h : Sound l) {m' : Message}
    (hm' : m' ∈ d.lost ∨ m' ∈ n'.mail.waiting) : m'.number ≤ n'.mail.ids := by
  obtain hold | rfl := hd.eq_or_mem hm'
  · exact (h.le_ids _ (mem_numbers_of_waiting hold)).trans hd.ids
  · exact hd.le_ids

theorem waits (hd : Queues l n' d m) (h : Sound l) {m' : Message}
    (hm' : m' ∈ n'.mail.waiting) : Waits n'.mail.times (l.deeds ++ [d]) m' := by
  have hlost := hd.lost_ne (mem_numbers_of_waiting hm')
  rw [hd.times]
  obtain hold | rfl := hd.eq_or_mem (.inr hm')
  · refine (h.waits m' hold).concat ⟨hd.starts _, hd.fails _ fun heq => ?_, hlost⟩
    exact hd.number_notMem (List.mem_append_left _ (heq ▸ List.mem_map_of_mem hold))
  · refine ⟨?_, by simp [hd.starts, hd.submissions], hd.failures_le, hd.delayed⟩
    rw [gone_concat]
    rintro (hgone | ⟨m, hm, heq⟩)
    · exact hd.alive hgone
    · exact hlost m hm heq

end Queues

theorem Sound.queue (h : Sound l) {m : Message} (hd : Queues l n' d m) :
    Sound ⟨n', l.deeds ++ [d]⟩ := by
  refine ⟨(List.nodup_append.mp hd.nodup).2.1, fun number hn => ?_, fun number hn => ?_, ?_, ?_,
    fun m' hm' => hd.waits h hm', fun m' hm' => ?_,
    fun hstopped => hd.countP_starting ▸ hd.balance hstopped, hd.lived h⟩
  · rcases List.mem_append.mp hn with hmem | hmem <;>
      obtain ⟨m', hm', rfl⟩ := List.mem_map.mp hmem
    · exact hd.number_le h (.inr hm')
    · have hold := hd.mem_running (Option.mem_toList.mp hm')
      exact (h.le_ids _ (mem_numbers_of_running hold)).trans hd.ids
  · have hlt : n'.mail.ids < number := hn
    refine h.unused_concat (lt_of_le_of_lt hd.ids hlt) (hd.starts number) fun m' hm' heq => ?_
    have := hd.number_le h (.inl hm')
    omega
  · exact hd.waiting ▸ (bounds_evict _).1
  · exact hd.waiting ▸ (bounds_evict _).2
  · refine (h.runs m' (hd.mem_running hm')).concat ⟨hd.starts _, hd.fails _ fun heq => ?_,
      hd.lost_ne (mem_numbers_of_running hm')⟩
    exact hd.number_notMem (List.mem_append_right _
      (heq ▸ List.mem_map_of_mem (Option.mem_toList.mpr hm')))

/-- A submission that starts. -/
theorem Sound.started (h : Sound l) (hopen : l.notifier.stopped = false) {msg : Message} {now : ℕ}
    (htimes : n'.mail.times = l.notifier.mail.times)
    (hholds : (Deed.started msg now).Holds l.notifier n') :
    Sound ⟨n', l.deeds ++ [.started msg now]⟩ := by
  obtain ⟨hdue, hidle, hrunning, hids, before, after, hwaiting, hwaiting'⟩ := hholds
  have hmsg : msg ∈ l.notifier.mail.waiting := by simp [hwaiting]
  have hwaits := h.waits msg hmsg
  have hbalance := h.balance hopen
  rw [hidle, Option.toList_none, List.length_nil, Nat.add_zero] at hbalance
  have hcounts : (l.deeds ++ [Deed.started msg now]).countP Deed.starting =
        l.deeds.countP Deed.starting + 1 ∧
      (l.deeds ++ [Deed.started msg now]).countP Deed.ending = l.deeds.countP Deed.ending := by
    simp [List.countP_append, Deed.starting, Deed.ending]
  have hsub : n'.mail.waiting.Sublist l.notifier.mail.waiting := by
    rw [hwaiting, hwaiting']
    exact (List.Sublist.refl before).append (List.sublist_cons_self msg after)
  have hperm : (numbers n').Perm (numbers l.notifier) := by
    simp only [numbers, hwaiting, hwaiting', hrunning, hidle, List.map_append, List.map_cons,
      Option.toList_some, Option.toList_none, List.map_nil, List.append_nil, List.append_assoc]
    refine List.Perm.append_left _ ?_
    exact List.perm_append_comm.trans (List.Perm.refl _)
  have honce : (numbers n').Nodup := hperm.nodup_iff.mpr h.once
  have hother : ∀ m ∈ n'.mail.waiting, m.number ≠ msg.number := by
    intro m hm heq
    have hdisjoint := (List.nodup_append.mp honce).2.2
    refine hdisjoint m.number (List.mem_map_of_mem hm) msg.number ?_ heq
    rw [hrunning]
    exact List.mem_map_of_mem (List.mem_singleton_self msg)
  refine ⟨honce, fun number hn => ?_, fun number hn => ?_, hsub.length_le.trans h.length_le,
    ((hsub.map _).sum_le_sum fun _ _ => Nat.zero_le _).trans h.bytes_le, fun m hm => ?_,
    fun m hm => ?_, fun _ => ?_, ?_⟩
  · dsimp only
    rw [hids]
    exact h.le_ids number (hperm.mem_iff.mp hn)
  · have hlt : l.notifier.mail.ids < number := hids ▸ hn
    have hle := h.le_ids _ (mem_numbers_of_waiting hmsg)
    refine h.unused_concat hlt ?_ (by simp [Deed.lost])
    simp only [Deed.starts, decide_eq_false_iff_not]
    omega
  · dsimp only
    rw [htimes]
    refine (h.waits m (hsub.subset hm)).concat ⟨?_, rfl, by simp [Deed.lost]⟩
    simpa [Deed.starts] using (hother m hm).symm
  · have heq : msg = m := by
      dsimp only at hm
      rw [hrunning] at hm
      exact Option.some.inj hm
    subst heq
    refine ⟨?_, by simp [Deed.starts, hwaits.submissions], hwaits.failures_le⟩
    rw [gone_concat]
    rintro (hgone | ⟨m, hm, -⟩)
    · exact hwaits.alive hgone
    · cases hm
  · dsimp only
    rw [hcounts.1, hcounts.2, hbalance, hrunning]
    rfl
  · dsimp only
    rw [htimes]
    refine h.lived.concat ?_ fun m t heq => ?_
    · rw [hcounts.1, hcounts.2]
      omega
    · cases heq
      refine ⟨hwaits.alive, hwaits.submissions ▸ hwaits.failures_le, fun k hk => ?_⟩
      rw [hwaits.submissions] at hk
      obtain ⟨failed, minutes, hlast, hminutes, hle⟩ := hwaits.delayed k hk
      exact ⟨failed, minutes, hlast, hminutes, hle.trans hdue⟩

/-- **Every action keeps the log and the messages in agreement.** -/
theorem Sound.step (h : Sound l) (hopen : l.notifier.stopped = false) {x : Action}
    (hstep : l.notifier.step x = some n') : Sound ⟨n', l.deeds ++ [l.notifier.deed x]⟩ := by
  have hholds := Notifier.holds_deed hstep
  have htimes := (Notifier.accounts_step hstep).times
  have hbalance := h.balance hopen
  have hturns := (h.lived.turns l.deeds List.prefix_rfl).1
  generalize l.notifier.deed x = d at hholds
  cases d with
  | idle =>
    obtain ⟨hwaiting, hrunning, hids⟩ := hholds
    refine h.shrink ⟨htimes, .inr hrunning, hids.ge, rfl, ?_, fun _ => ?_⟩
      (hwaiting ▸ List.Sublist.refl _) (fun _ _ => ⟨rfl, rfl, by simp [Deed.lost]⟩)
      (by simp [Deed.lost])
    · simpa [List.countP_append, Deed.ending] using hturns
    · simpa [List.countP_append, Deed.ending, hrunning] using hbalance
  | discarded lost =>
    obtain ⟨rfl, hwaiting, hrunning, hids⟩ := hholds
    refine h.shrink ⟨htimes, .inr hrunning, hids.ge, rfl, ?_, fun _ => ?_⟩
      (hwaiting ▸ List.nil_sublist _) (fun number hn => ⟨rfl, rfl, fun m hm heq => ?_⟩)
      (fun m hm => h.le_ids _ (mem_numbers_of_waiting hm))
    · simpa [List.countP_append, Deed.ending] using hturns
    · simpa [List.countP_append, Deed.ending, hrunning] using hbalance
    · -- What runs is not among those that waited.
      rw [numbers, hwaiting, List.map_nil, List.nil_append, hrunning] at hn
      exact (List.nodup_append.mp h.once).2.2 m.number (List.mem_map_of_mem hm) number hn heq
  | queued msg lost =>
    obtain ⟨hnumber, hids, hfailures, hrunning, rfl, hwaiting⟩ := hholds
    obtain ⟨hnone, halive⟩ := h.unused msg.number (by omega)
    refine h.queue ⟨⟨htimes, .inr hrunning, by omega, rfl, ?_, fun _ => ?_⟩, hwaiting, rfl, ?_,
      by omega, fun _ _ => rfl, halive, by omega, by omega, fun k hk => by omega⟩
    · simpa [List.countP_append, Deed.ending] using hturns
    · simpa [List.countP_append, Deed.ending, hrunning] using hbalance
    · -- The new number is larger than all others.
      rw [List.map_append, List.map_singleton, List.append_assoc, List.singleton_append,
        List.nodup_middle, List.nodup_cons, hrunning]
      refine ⟨fun hmem => ?_, h.once⟩
      have := h.le_ids _ hmem
      omega
  | started msg now => exact h.started hopen htimes hholds
  | ended msg result now =>
    obtain ⟨hbusy, hrunning, hwaiting, hids⟩ := hholds
    rw [hbusy, Option.toList_some, List.length_singleton] at hbalance
    refine h.shrink ⟨htimes, .inl hrunning, hids.ge, rfl, ?_, fun _ => ?_⟩
      (hwaiting ▸ List.Sublist.refl _) (fun number hn => ⟨rfl, rfl, fun m hm heq => ?_⟩)
      (fun m hm => ?_)
    · simp [List.countP_append, Deed.ending, hbalance]
    · simp [List.countP_append, Deed.ending, hbalance, hrunning]
    · obtain rfl : m = msg := by simpa [Deed.lost] using hm
      rw [numbers, hrunning, Option.toList_none, List.map_nil, List.append_nil, hwaiting] at hn
      refine (List.nodup_append.mp h.once).2.2 number hn m.number ?_ heq.symm
      rw [hbusy]
      exact List.mem_map_of_mem (List.mem_singleton_self m)
    · obtain rfl : m = msg := by simpa [Deed.lost] using hm
      exact h.le_ids _ (mem_numbers_of_running hbusy)
  | retried msg now lost =>
    obtain ⟨delay, hretry, hbusy, hrunning, hids, rfl, hwaiting⟩ := hholds
    obtain ⟨minutes, hminutes, rfl⟩ := Option.map_eq_some_iff.mp hretry
    have hruns := h.runs msg hbusy
    have hnumber : (msg.again now (l.notifier.mail.times.minute * minutes)).number =
      msg.number := rfl
    rw [hbusy, Option.toList_some, List.length_singleton] at hbalance
    have hthird : msg.failures < 3 := (List.getElem?_eq_some_iff.mp hminutes).1
    refine h.queue ⟨⟨htimes, .inl hrunning, hids.ge, rfl, ?_, fun _ => ?_⟩, hwaiting, rfl, ?_, ?_,
      fun number hne => if_neg fun heq => hne heq.symm, hruns.alive, hruns.submissions, hthird,
      fun k hk => ?_⟩
    · simp [List.countP_append, Deed.ending, hbalance]
    · simp [List.countP_append, Deed.ending, hbalance, hrunning]
    · have honce := h.once
      rw [numbers, hbusy] at honce
      simpa [hrunning, hnumber] using honce
    · rw [hids, hnumber]
      exact h.le_ids _ (mem_numbers_of_running hbusy)
    · have hk' : k = msg.failures := by
        have : msg.failures + 1 = k + 1 := hk
        omega
      refine ⟨now, minutes, ?_, hk' ▸ hminutes, le_rfl⟩
      rw [lastFailure_concat]
      simp [Deed.fails, Message.number, Message.again]
  | stopped =>
    obtain ⟨hstopped, hrunning, hids, hwaiting⟩ := hholds
    have hsub : n'.mail.waiting.Sublist l.notifier.mail.waiting := by
      obtain hnil | hsame := hwaiting
      · rw [hnil]
        exact List.nil_sublist _
      · rw [hsame]
    refine h.shrink ⟨htimes, .inl hrunning, hids, rfl, ?_, fun hfalse => ?_⟩ hsub
      (fun _ _ => ⟨rfl, rfl, by simp [Deed.lost]⟩) (by simp [Deed.lost])
    · simpa [List.countP_append, Deed.ending] using hturns
    · rw [hstopped] at hfalse
      cases hfalse

end Sound

theorem sound_run {notify : Notify} {times : Times} {instanceId : String}
    {actions : List Action} {l : Ledger}
    (h : (start notify times instanceId).run actions = some l) :
    Sound l ∧ l.notifier.mail.times = times := by
  induction actions using List.reverseRecOn generalizing l with
  | nil =>
    obtain rfl := Option.some.inj h
    exact ⟨sound_start notify times instanceId, rfl⟩
  | append_singleton actions x ih =>
    rw [run, List.foldlM_append, Option.bind_eq_bind, Option.bind_eq_some_iff] at h
    obtain ⟨l₁, hrun, hlast⟩ := h
    obtain ⟨hsound, htimes⟩ := ih hrun
    have hstep : l₁.step x = some l := by simpa using hlast
    simp only [step] at hstep
    split at hstep
    · obtain rfl := Option.some.inj hstep
      exact ⟨hsound, htimes⟩
    · next hopen =>
        obtain ⟨n', hn', rfl⟩ := Option.map_eq_some_iff.mp hstep
        exact ⟨hsound.step (Bool.not_eq_true _ ▸ hopen) hn',
          (Notifier.accounts_step hn').times.trans htimes⟩

/-- A message in memory is not gone. -/
theorem Sound.not_gone {l : Ledger} (h : Sound l) {number : ℕ} (hn : number ∈ numbers l.notifier) :
    ¬ Gone number l.deeds := by
  rcases List.mem_append.mp hn with hwaiting | hrunning
  · obtain ⟨m, hm, rfl⟩ := List.mem_map.mp hwaiting
    exact (h.waits m hm).alive
  · obtain ⟨m, hm, rfl⟩ := List.mem_map.mp hrunning
    exact (h.runs m (Option.mem_toList.mp hm)).alive

/-- **The life of every message**, in every run of the notifier: at most one submission runs
at a time; a message is in one place; few messages wait, with bodies that fit; each is
submitted at most four times, its retries after their delays; and none is submitted again
once its submission was accepted or it was evicted or discarded. -/
theorem lives (notify : Notify) (times : Times) (instanceId : String) (actions : List Action)
    (l : Ledger) (h : (start notify times instanceId).run actions = some l) :
    Lived times l.deeds ∧ (numbers l.notifier).Nodup ∧
      (∀ number ∈ numbers l.notifier, ¬ Gone number l.deeds) ∧
      l.notifier.mail.waiting.length ≤ 8 ∧
      (l.notifier.mail.waiting.map fun m => m.body.utf8ByteSize).sum ≤ 4 * 2 ^ 20 := by
  obtain ⟨hsound, rfl⟩ := sound_run h
  exact ⟨hsound.lived, hsound.once, fun _ => hsound.not_gone, hsound.length_le, hsound.bytes_le⟩

/-- A message whose first submission fails; it is retried a minute later, and email is removed
while it runs. -/
def retried : List Action :=
  Account.batchAt 30 ++ [.turn (Duration.ofSecs 30), .ended .failed (Duration.ofSecs 31),
    .turn (Duration.ofSecs 91), .config { Account.settings 2 with email := none },
    .ended .failed (Duration.ofSecs 92)]

theorem lives_retried :
    ∃ l, (start (Account.settings 2) {} "run").run retried = some l ∧
      l.deeds.countP Deed.starting = 2 ∧ Lived {} l.deeds := by
  have hfacts : ((start (Account.settings 2) {} "run").run retried).map
      (fun l => l.deeds.countP Deed.starting) = some 2 := by
    decide +kernel
  obtain ⟨l, hrun, hcount⟩ := Option.map_eq_some_iff.mp hfacts
  exact ⟨l, hrun, hcount, (lives _ _ _ _ l hrun).1⟩

end Ledger

end Polywan.Mail
