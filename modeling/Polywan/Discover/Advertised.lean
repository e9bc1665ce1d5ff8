import Mathlib.Data.Nat.Init
import Std.Data.ExtTreeSet
import Polywan.Lib.Told

/-!
# Router advertisements

The listener reports the interfaces that received advertisements, once for each window that the
first of them opens.

## Main definitions

* `Ra.advertisement` — the receiving interface of an advertisement.
* `Ra.Listener`, `Ra.Listener.step` — the listener, with the log of what it heard and reported.

## Main results

* `Ra.Listener.advertised_run` — what is heard is reported, within a window and once.
-/

namespace Polywan.Ra

/-- The type of advertisements, the length of their fixed part, and a window in milliseconds. -/
def routerAdvertisement : UInt8 := 134

def headerLen : ℕ := 16

def window : ℕ := 100

/-- The sender of a packet; a link-local one has the receiving interface as its scope. -/
inductive Sender
  | v4
  | v6 (scope : ℕ)

/-- The receiving interface of an advertisement. -/
def advertisement (packet : List UInt8) : Sender → Option ℕ
  | .v6 scope =>
    if packet.length = headerLen ∧ packet[0]? = some routerAdvertisement ∧ packet[1]? = some 0
        ∧ scope ≠ 0 then some scope else none
  | .v4 => none

inductive Deed
  | heard (time interface : ℕ)
  | reported (time interface : ℕ)

/-- Whether the last deed about an interface was to hear or to report it. -/
def Deed.hears (i : ℕ) : Deed → Option Bool
  | .heard _ j => if j = i then some true else none
  | .reported _ j => if j = i then some false else none

structure Listener where
  pending : Std.ExtTreeSet ℕ := ∅
  due : Option ℕ := none
  now : ℕ := 0
  log : List Deed := []

/-- After some time the fixed part of a packet is read, or the timer is looked at.  The run is
over when the socket fails. -/
inductive Event
  | packet (wait : ℕ) (packet : List UInt8) (sender : Sender)
  | timer (wait : ℕ)

namespace Listener

def step (l : Listener) : Event → Listener
  | .packet wait packet sender =>
    let now := l.now + wait
    match advertisement packet sender with
    | some i =>
      { pending := l.pending.insert i
        due := some (l.due.getD (now + window))
        now
        log := l.log ++ [.heard now i] }
    | none => { l with now }
  | .timer wait =>
    let now := l.now + wait
    if l.due.any (· ≤ now) then
      { now, log := l.log ++ l.pending.toList.map (.reported now) }
    else { l with now }

def run (events : List Event) : Listener := events.foldl step {}

/-- A window lies between two reports of an interface. -/
def Apart : Deed → Deed → Prop
  | .reported t i, .reported t' j => i = j → t + window ≤ t'
  | _, _ => True

/-- What holds of the listener at any time. -/
structure Sound (l : Listener) : Prop where
  /-- What waits is what was heard since it was reported last. -/
  pending : ∀ i, i ∈ l.pending ↔ Lib.lastTold (Deed.hears i) l.log = some true
  open_iff : l.due = none ↔ l.pending = ∅
  due_le : ∀ due ∈ l.due, due ≤ l.now + window
  apart : l.log.Pairwise Apart
  /-- The next reports are a window after the last ones. -/
  after : ∀ t i, .reported t i ∈ l.log → t ≤ l.now ∧ ∀ due ∈ l.due, t + window ≤ due

variable {l : Listener}

theorem lastTold_reports (i now : ℕ) (l : List ℕ) :
    Lib.lastTold (Deed.hears i) (l.map (.reported now)) = if i ∈ l then some false else none := by
  induction l with
  | nil => rfl
  | cons j l ih =>
    rw [List.map_cons, Lib.lastTold_cons, ih]
    by_cases hj : i = j
    · subst hj
      by_cases hi : i ∈ l <;> simp [hi, Deed.hears]
    · by_cases hi : i ∈ l <;> simp [hi, hj, Deed.hears, Ne.symm hj]

theorem sound_heard (h : l.Sound) (wait i : ℕ) :
    Sound ⟨l.pending.insert i, some (l.due.getD (l.now + wait + window)), l.now + wait,
      l.log ++ [.heard (l.now + wait) i]⟩ where
  pending j := by
    rw [Std.ExtTreeSet.mem_insert, Lib.lastTold_append, h.pending j]
    by_cases hj : i = j <;> simp [Lib.lastTold, Deed.hears, hj]
  open_iff := by
    have hmem : i ∈ l.pending.insert i := Std.ExtTreeSet.mem_insert_self
    constructor
    · intro hnone
      cases hnone
    · intro hempty
      rw [show l.pending.insert i = ∅ from hempty] at hmem
      exact absurd hmem Std.ExtTreeSet.not_mem_empty
  due_le := by
    intro due hdue
    obtain rfl := Option.some.inj hdue
    cases hold : l.due with
    | none => exact Nat.le_refl _
    | some due =>
      have := h.due_le due hold
      show due ≤ l.now + wait + window
      omega
  apart := by
    refine List.pairwise_append.mpr ⟨h.apart, List.pairwise_singleton _ _, ?_⟩
    intro a _ b hb
    rw [List.mem_singleton.mp hb]
    cases a <;> trivial
  after t j hmem := by
    rw [List.mem_append, List.mem_singleton, or_iff_left (by simp)] at hmem
    obtain ⟨hle, hdue⟩ := h.after t j hmem
    refine ⟨Nat.le_add_right_of_le hle, fun due hmem => ?_⟩
    obtain rfl := Option.some.inj hmem
    cases hold : l.due with
    | none => simp only [Option.getD_none]; omega
    | some due => exact hdue due hold

theorem sound_reported (h : l.Sound) {due wait : ℕ} (hdue : l.due = some due)
    (hle : due ≤ l.now + wait) :
    Sound ⟨∅, none, l.now + wait, l.log ++ l.pending.toList.map (.reported (l.now + wait))⟩ where
  pending i := by
    rw [Lib.lastTold_append, lastTold_reports]
    have hpending := h.pending i
    by_cases hi : i ∈ l.pending
    · simp [hi]
    · simpa [hi] using hpending.mpr.mt hi
  open_iff := by simp
  due_le := by simp
  apart := by
    refine List.pairwise_append.mpr ⟨h.apart, List.pairwise_map.mpr ?_, ?_⟩
    · refine Std.ExtTreeSet.ordered_toList.imp fun {i j} hlt heq => ?_
      subst heq
      simp at hlt
    · intro a ha b hb
      obtain ⟨j, -, rfl⟩ := List.mem_map.mp hb
      cases a with
      | heard t i => trivial
      | reported t i => exact fun _ => Nat.le_trans ((h.after t i ha).2 due hdue) hle
  after t i hmem := by
    refine ⟨?_, by simp⟩
    rcases List.mem_append.mp hmem with hmem | hmem
    · have := (h.after t i hmem).1
      show t ≤ l.now + wait
      omega
    · obtain ⟨j, -, heq⟩ := List.mem_map.mp hmem
      cases heq
      exact Nat.le_refl _

/-- Time passes. -/
theorem sound_wait (h : l.Sound) (wait : ℕ) : Sound { l with now := l.now + wait } where
  pending := h.pending
  open_iff := h.open_iff
  due_le due hdue := by
    have := h.due_le due hdue
    show due ≤ l.now + wait + window
    omega
  apart := h.apart
  after t i hmem := by
    obtain ⟨hle, hdue⟩ := h.after t i hmem
    exact ⟨Nat.le_add_right_of_le hle, hdue⟩

theorem sound_step (h : l.Sound) (e : Event) : (l.step e).Sound := by
  cases e with
  | packet wait packet sender =>
    simp only [step]
    cases advertisement packet sender with
    | none => exact sound_wait h wait
    | some i => exact sound_heard h wait i
  | timer wait =>
    simp only [step]
    split_ifs with hdue
    · cases hold : l.due with
      | none => simp [hold] at hdue
      | some due => exact sound_reported h hold (by simpa [hold] using hdue)
    · exact sound_wait h wait

theorem sound_run (events : List Event) : (run events).Sound := by
  refine List.foldlRecOn events step ?_ fun l hl e _ => sound_step hl e
  exact ⟨by simp [Lib.lastTold], by simp, by simp, List.Pairwise.nil, by simp⟩

/-- A window later the timer leaves nothing to report. -/
theorem pending_timer (h : l.Sound) (wait : ℕ) :
    (l.step (.timer (window + wait))).pending = ∅ := by
  simp only [step]
  split_ifs with hdue
  · rfl
  · refine h.open_iff.mp ?_
    cases hold : l.due with
    | none => rfl
    | some due =>
      have := h.due_le due hold
      simp only [hold, Option.any_some, decide_eq_true_eq] at hdue
      omega

/-- **What is heard is reported, within a window and once.**  At any time the interfaces to be
reported are those heard since their last report; the timer a window later leaves none; and a
window lies between two reports of an interface. -/
theorem advertised_run (events : List Event) (wait : ℕ) :
    (∀ i, i ∈ (run events).pending ↔
      Lib.lastTold (Deed.hears i) (run events).log = some true) ∧
    (run (events ++ [.timer (window + wait)])).pending = ∅ ∧
    (run events).log.Pairwise Apart := by
  have h := sound_run events
  refine ⟨h.pending, ?_, h.apart⟩
  rw [run, List.foldl_append]
  exact pending_timer h wait

end Listener

end Polywan.Ra
