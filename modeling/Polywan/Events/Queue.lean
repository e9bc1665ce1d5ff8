import Mathlib.Algebra.BigOperators.Group.List.Basic
import Mathlib.Data.List.Induction
import Mathlib.Data.List.Nodup
import Mathlib.Order.Basic
import Mathlib.Tactic.Linarith

/-!
# The queues of notifiers

The bus sends every selected event to the bounded queue of a notifier.  The bytes in the queue
are counted by both ends: the emitter adds the size of an event, and takes it back when the
event is refused; the receiver takes an event and then subtracts its size.  Any step of one
end may come between two steps of the other.

## Main definitions

* `Events.Outlet`, `Events.Outlet.step` — a notifier's queue and the steps of its two ends.
* `Events.Outlet.Sound` — how the counter, the queue and the history are related.
* `Events.Outlet.Accounted` — what can be seen of it.

## Main results

* `Events.Outlet.Sound.step` — every step keeps the accounts.
* `Events.Outlet.accounted` — the accounts along every run.
-/

namespace Polywan.Events

/-- An event, as the queues know it. -/
structure Emission where
  seq : ℕ
  kind : String
  /-- The length of the serialised event. -/
  size : ℕ
deriving DecidableEq

/-- The bytes of some events. -/
def volume (es : List Emission) : ℤ := (es.map fun e => (e.size : ℤ)).sum

/-- How far the emission of an event to a notifier is. -/
inductive Sending where
  | idle
  /-- Its size was added within the bound; it is sent next. -/
  | counted (e : Emission)
  /-- It is refused; its size is taken back next. -/
  | refused (e : Emission)
deriving DecidableEq

/-- The event being emitted. -/
def Sending.held : Sending → List Emission
  | .idle => []
  | .counted e => [e]
  | .refused e => [e]

/-- A notifier with its queue, and what happened to the events. -/
structure Outlet where
  capacity : ℕ
  maxBytes : ℕ
  /-- The selected types; `none` for every type. -/
  select : Option (List String) := none
  /-- The number of the last event. -/
  seq : ℕ := 0
  /-- The shared counter. -/
  bytes : ℤ := 0
  queue : List Emission := []
  dropped : ℕ := 0
  sending : Sending := .idle
  /-- Taken by the receiver, its size not yet subtracted. -/
  receiving : Option Emission := none
  /-- The events selected at their emission. -/
  selected : List Emission := []
  /-- The events taken by the receiver. -/
  delivered : List Emission := []
  /-- The events counted as dropped. -/
  lost : List Emission := []
deriving DecidableEq

namespace Outlet

inductive Step where
  | select (types : Option (List String))
  /-- An event is emitted: its size is added, if it is selected. -/
  | emit (kind : String) (size : ℕ)
  /-- The emitter goes on. -/
  | proceed
  /-- The receiver takes an event. -/
  | take
  /-- The receiver subtracts its size. -/
  | subtract
deriving DecidableEq

/-- A notifier's queue; a channel without capacity panics. -/
def addNotifier (capacity maxBytes : ℕ) : Option Outlet :=
  if capacity = 0 then none else some { capacity, maxBytes }

variable (n : Outlet)

def selects (kind : String) : Bool := n.select.all fun types => types.contains kind

/-- An event begins: one emission at a time, and none while types are selected. -/
def emit (kind : String) (size : ℕ) : Outlet :=
  let e : Emission := ⟨n.seq + 1, kind, size⟩
  let n := { n with seq := n.seq + 1 }
  if n.selects kind then
    { n with
      bytes := n.bytes + size
      sending := if (n.maxBytes : ℤ) < n.bytes + size then .refused e else .counted e
      selected := n.selected ++ [e] }
  else n

def step : Step → Outlet
  | .select types => if n.sending = .idle then { n with select := types } else n
  | .emit kind size => if n.sending = .idle then n.emit kind size else n
  | .proceed =>
    match n.sending with
    | .idle => n
    | .counted e =>
      if n.queue.length < n.capacity then { n with queue := n.queue ++ [e], sending := .idle }
      else { n with sending := .refused e }
    | .refused e =>
      { n with
        bytes := n.bytes - e.size
        dropped := n.dropped + 1
        sending := .idle
        lost := n.lost ++ [e] }
  | .take =>
    match n.receiving, n.queue with
    | none, e :: queue =>
      { n with queue, receiving := some e, delivered := n.delivered ++ [e] }
    | _, _ => n
  | .subtract =>
    match n.receiving with
    | some e => { n with bytes := n.bytes - e.size, receiving := none }
    | none => n

/-- What can be seen: the counter is that of the bytes queued, or taken and not subtracted; the
queue keeps its bounds; and every selected event was delivered, is queued or was dropped. -/
structure Accounted : Prop where
  bytes : n.sending = .idle → n.bytes = volume n.queue + volume n.receiving.toList
  nonneg : 0 ≤ n.bytes
  length_le : n.queue.length ≤ n.capacity
  volume_le : volume n.queue ≤ n.maxBytes
  /-- Events are numbered as they are emitted. -/
  numbered : n.selected.Pairwise fun e e' => e.seq < e'.seq
  exactly : n.sending = .idle → n.delivered ++ n.queue = n.selected.filter (· ∉ n.lost)
  lost : n.lost.Sublist n.selected
  dropped : n.dropped = n.lost.length
  inOrder : (n.delivered ++ n.queue).Sublist n.selected

/-- How the counter, the queue and the history are related. -/
structure Sound : Prop where
  bytes : n.bytes = volume n.queue + volume n.receiving.toList + volume n.sending.held
  length_le : n.queue.length ≤ n.capacity
  volume_le : volume n.queue ≤ n.maxBytes
  fits : ∀ e, n.sending = .counted e → volume n.queue + e.size ≤ n.maxBytes
  seq_le : ∀ e ∈ n.selected, e.seq ≤ n.seq
  numbered : n.selected.Pairwise fun e e' => e.seq < e'.seq
  last : ∀ e ∈ n.sending.held, ∃ before, n.selected = before ++ [e]
  gone : (n.lost ++ n.sending.held).Sublist n.selected
  exactly : n.delivered ++ n.queue = n.selected.filter (· ∉ n.lost ++ n.sending.held)
  dropped : n.dropped = n.lost.length

variable {n}

@[simp] theorem volume_nil : volume [] = 0 := rfl

@[simp] theorem volume_cons (e : Emission) (es : List Emission) :
    volume (e :: es) = e.size + volume es := by simp [volume]

@[simp] theorem volume_append (es es' : List Emission) :
    volume (es ++ es') = volume es + volume es' := by simp [volume]

theorem volume_nonneg (es : List Emission) : 0 ≤ volume es := by
  induction es with
  | nil => exact le_rfl
  | cons e es ih =>
    rw [volume_cons]
    omega

theorem Sound.nodup (h : n.Sound) : n.selected.Nodup :=
  h.numbered.imp fun hlt heq => absurd (congrArg Emission.seq heq) hlt.ne

theorem Sound.accounts (h : n.Sound) : n.Accounted where
  bytes hidle := by simpa [hidle, Sending.held] using h.bytes
  nonneg := by
    rw [h.bytes]
    have hqueue := volume_nonneg n.queue
    have hreceiving := volume_nonneg n.receiving.toList
    have hheld := volume_nonneg n.sending.held
    omega
  length_le := h.length_le
  volume_le := h.volume_le
  numbered := h.numbered
  exactly hidle := by simpa [hidle, Sending.held] using h.exactly
  lost := (List.sublist_append_left _ _).trans h.gone
  dropped := h.dropped
  inOrder := by
    rw [h.exactly]
    exact List.filter_sublist

/-! ## Steps -/

theorem Sound.start {capacity maxBytes : ℕ} (h : addNotifier capacity maxBytes = some n) :
    n.Sound := by
  obtain ⟨-, hn⟩ := Option.ite_none_left_eq_some.mp h
  obtain rfl := Option.some.inj hn
  exact ⟨rfl, Nat.zero_le _, Int.natCast_nonneg _, fun _ h => (by cases h), fun _ h => (by cases h),
    List.Pairwise.nil, fun _ h => (by cases h), List.Sublist.refl _, rfl, rfl⟩

/-- The last event is left out of the others. -/
theorem filter_concat {before gone : List Emission} {e : Emission} (he : e ∉ before) :
    (before ++ [e]).filter (· ∉ gone ++ [e]) = before.filter (· ∉ gone) := by
  have hlast : [e].filter (· ∉ gone ++ [e]) = [] := by simp
  rw [List.filter_append, hlast, List.append_nil]
  refine List.filter_congr fun x hx => ?_
  have hne : x ≠ e := fun heq => he (heq ▸ hx)
  simp [hne]

/-- An emission begins. -/
theorem Sound.emit (h : n.Sound) (hidle : n.sending = .idle) (kind : String) (size : ℕ) :
    (n.emit kind size).Sound := by
  have hbytes := h.bytes
  have hgone := h.gone
  have hexactly := h.exactly
  simp only [hidle, Sending.held, List.append_nil, volume_nil, add_zero] at hbytes hgone hexactly
  have hseq : ∀ e ∈ n.selected, e.seq < n.seq + 1 := fun e he => Nat.lt_succ_of_le (h.seq_le e he)
  simp only [Outlet.emit]
  split
  · generalize he : (⟨n.seq + 1, kind, size⟩ : Emission) = e
    have hsize : e.size = size := by rw [← he]
    have hheld : (if (n.maxBytes : ℤ) < n.bytes + size then Sending.refused e
        else .counted e).held = [e] := by
      split <;> rfl
    have hnew : e ∉ n.selected := by
      intro hmem
      have hlt := hseq e hmem
      rw [← he] at hlt
      exact Nat.lt_irrefl _ hlt
    refine ⟨?_, h.length_le, h.volume_le, fun e' he' => ?_, fun e' he' => ?_, ?_, fun e' he' => ?_,
      ?_, ?_, h.dropped⟩
    · dsimp only
      rw [hheld, hbytes, volume_cons, volume_nil, hsize, add_zero]
    · -- It fits beside all that is counted.
      dsimp only at he' ⊢
      split at he'
      · cases he'
      · next hle =>
          obtain rfl := Sending.counted.inj he'
          have hreceiving := volume_nonneg n.receiving.toList
          omega
    · rcases List.mem_append.mp he' with he' | he'
      · exact (hseq e' he').le
      · rw [List.mem_singleton.mp he', ← he]
    · refine List.pairwise_append.mpr ⟨h.numbered, List.pairwise_singleton _ _, fun x hx y hy => ?_⟩
      rw [List.mem_singleton.mp hy, ← he]
      exact hseq x hx
    · dsimp only at he'
      rw [hheld] at he'
      exact ⟨n.selected, by rw [List.mem_singleton.mp he']⟩
    · dsimp only
      rw [hheld]
      exact hgone.append (List.Sublist.refl _)
    · dsimp only
      rw [hheld, filter_concat hnew]
      exact hexactly
  · exact ⟨h.bytes, h.length_le, h.volume_le, h.fits, fun e he => (hseq e he).le, h.numbered,
      h.last, h.gone, h.exactly, h.dropped⟩

/-- The event is sent. -/
theorem Sound.send (h : n.Sound) {e : Emission} (hcounted : n.sending = .counted e)
    (hroom : n.queue.length < n.capacity) :
    Sound { n with queue := n.queue ++ [e], sending := .idle } := by
  have hbytes := h.bytes
  have hgone := h.gone
  have hexactly := h.exactly
  obtain ⟨before, hselected⟩ := h.last e (by simp [hcounted, Sending.held])
  simp only [hcounted, Sending.held] at hbytes hgone hexactly
  refine ⟨?_, ?_, ?_, fun _ he => (by cases he), h.seq_le, h.numbered, fun _ he => (by cases he),
    ?_, ?_, h.dropped⟩
  · simp only [Sending.held, volume_append, volume_cons, volume_nil] at hbytes ⊢
    omega
  · rw [List.length_append, List.length_singleton]
    exact hroom
  · have hfits := h.fits e hcounted
    simpa using hfits
  · simpa [Sending.held] using (List.sublist_append_left _ _).trans hgone
  · -- The last of the selected events joins the queue.
    have hnodup := h.nodup
    have hlost : e ∉ n.lost := by
      have := hnodup.sublist hgone
      rw [List.nodup_append] at this
      exact fun hmem => this.2.2 e hmem e (List.mem_singleton_self e) rfl
    rw [hselected] at hnodup hexactly ⊢
    have hbefore : e ∉ before := by
      rw [List.nodup_append] at hnodup
      exact fun hmem => hnodup.2.2 e hmem e (List.mem_singleton_self e) rfl
    rw [filter_concat hbefore] at hexactly
    rw [← List.append_assoc, hexactly, List.filter_append]
    simp [Sending.held, hlost]

/-- The size of a refused event is taken back. -/
theorem Sound.drop (h : n.Sound) {e : Emission} (hrefused : n.sending = .refused e) :
    Sound { n with
      bytes := n.bytes - e.size
      dropped := n.dropped + 1
      sending := .idle
      lost := n.lost ++ [e] } := by
  have hbytes := h.bytes
  have hgone := h.gone
  have hexactly := h.exactly
  simp only [hrefused, Sending.held] at hbytes hgone hexactly
  refine ⟨?_, h.length_le, h.volume_le, fun _ he => (by cases he), h.seq_le, h.numbered,
    fun _ he => (by cases he), ?_, ?_, ?_⟩
  · simp only [Sending.held, volume_cons, volume_nil] at hbytes ⊢
    omega
  · simpa [Sending.held] using hgone
  · simpa [Sending.held] using hexactly
  · simp [h.dropped]

/-- The receiver takes the first event. -/
theorem Sound.take (h : n.Sound) {e : Emission} {queue : List Emission}
    (hidle : n.receiving = none) (hqueue : n.queue = e :: queue) :
    Sound { n with queue, receiving := some e, delivered := n.delivered ++ [e] } := by
  have hbytes := h.bytes
  have hexactly := h.exactly
  have hlength := h.length_le
  have hvolume := h.volume_le
  rw [hqueue] at hbytes hexactly hlength hvolume
  rw [volume_cons] at hbytes hvolume
  refine ⟨?_, ?_, ?_, fun e' he' => ?_, h.seq_le, h.numbered, h.last, h.gone, ?_, h.dropped⟩
  · simp only [hidle, Option.toList_none, Option.toList_some, volume_cons, volume_nil]
      at hbytes ⊢
    omega
  · rw [List.length_cons] at hlength
    exact (Nat.le_succ _).trans hlength
  · dsimp only
    omega
  · have hfits := h.fits e' he'
    rw [hqueue, volume_cons] at hfits
    dsimp only
    omega
  · rw [List.append_assoc]
    exact hexactly

/-- The receiver subtracts the size of the event it took. -/
theorem Sound.subtract (h : n.Sound) {e : Emission} (htaken : n.receiving = some e) :
    Sound { n with bytes := n.bytes - e.size, receiving := none } := by
  have hbytes := h.bytes
  refine ⟨?_, h.length_le, h.volume_le, h.fits, h.seq_le, h.numbered, h.last, h.gone, h.exactly,
    h.dropped⟩
  simp only [htaken, Option.toList_none, Option.toList_some, volume_cons, volume_nil] at hbytes ⊢
  omega

/-- **Every step keeps the accounts.** -/
theorem Sound.step (h : n.Sound) (x : Step) : (n.step x).Sound := by
  cases x with
  | select types =>
    simp only [Outlet.step]
    split
    · exact ⟨h.bytes, h.length_le, h.volume_le, h.fits, h.seq_le, h.numbered, h.last, h.gone,
        h.exactly, h.dropped⟩
    · exact h
  | emit kind size =>
    simp only [Outlet.step]
    split
    · next hidle => exact h.emit hidle kind size
    · exact h
  | proceed =>
    simp only [Outlet.step]
    split
    · exact h
    · next e hcounted =>
        split
        · next hroom => exact h.send hcounted hroom
        · -- The queue is full.
          have hbytes := h.bytes
          have hlast := h.last
          have hgone := h.gone
          have hexactly := h.exactly
          rw [hcounted] at hbytes hlast hgone hexactly
          exact ⟨hbytes, h.length_le, h.volume_le, fun _ he => (by cases he), h.seq_le,
            h.numbered, hlast, hgone, hexactly, h.dropped⟩
    · next e hrefused => exact h.drop hrefused
  | take =>
    simp only [Outlet.step]
    split
    · next e queue hidle hqueue => exact h.take hidle hqueue
    · exact h
  | subtract =>
    simp only [Outlet.step]
    split
    · next e htaken => exact h.subtract htaken
    · exact h

/-- The bounds of the queue stay. -/
theorem bounds_step (n : Outlet) (x : Step) :
    (n.step x).capacity = n.capacity ∧ (n.step x).maxBytes = n.maxBytes := by
  cases x with
  | emit kind size =>
    simp only [Outlet.step, Outlet.emit]
    split
    · split <;> exact ⟨rfl, rfl⟩
    · exact ⟨rfl, rfl⟩
  | proceed =>
    simp only [Outlet.step]
    split
    · exact ⟨rfl, rfl⟩
    · split <;> exact ⟨rfl, rfl⟩
    · exact ⟨rfl, rfl⟩
  | _ =>
    simp only [Outlet.step]
    split <;> exact ⟨rfl, rfl⟩

/-- **A notifier's queue is accounted exactly**, for every bound and in every interleaving of
emissions, selections and receptions. -/
theorem accounted (capacity maxBytes : ℕ) (n : Outlet)
    (h : addNotifier capacity maxBytes = some n) (steps : List Step) :
    (steps.foldl step n).Accounted ∧ (steps.foldl step n).capacity = capacity ∧
      (steps.foldl step n).maxBytes = maxBytes := by
  have hrun : (steps.foldl step n).Sound ∧ (steps.foldl step n).capacity = capacity ∧
      (steps.foldl step n).maxBytes = maxBytes := by
    induction steps using List.reverseRecOn with
    | nil =>
      refine ⟨Sound.start h, ?_⟩
      obtain ⟨-, hn⟩ := Option.ite_none_left_eq_some.mp h
      obtain rfl := Option.some.inj hn
      exact ⟨rfl, rfl⟩
    | append_singleton steps x ih =>
      obtain ⟨hsound, hcapacity, hmax⟩ := ih
      obtain ⟨hcapacity', hmax'⟩ := (steps.foldl step n).bounds_step x
      rw [List.foldl_append]
      exact ⟨hsound.step x, hcapacity'.trans hcapacity, hmax'.trans hmax⟩
  exact ⟨hrun.1.accounts, hrun.2⟩

/-- Two events, of which the second is too large, with the receiver in between. -/
def crowded : List Step :=
  [.emit "path_state_changed" 60, .proceed, .take, .emit "gateway_changed" 60, .subtract, .proceed]

theorem accounted_crowded :
    ∃ n, addNotifier 1 100 = some n ∧ (crowded.foldl step n).dropped = 1 ∧
      (crowded.foldl step n).Accounted :=
  ⟨_, rfl, by decide, (accounted 1 100 _ rfl crowded).1⟩

end Outlet

end Polywan.Events
