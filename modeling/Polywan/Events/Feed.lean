import Mathlib.Data.List.Induction
import Polywan.Events
import Polywan.Lib.Until

/-!
# Following the events

A client asks again and again, with the instance of the last response and the last number
it received from it, while the daemon stores and publishes events, and restarts.  Storing
an event and publishing its number are two steps: a response may fall between them.

## Main definitions

* `Events.Feed`, `Events.Feed.step`, `Events.Feed.run` — the daemon and a client.
* `Events.Answer.Follows` — what a response has, after those before it.
* `Events.Feed.Inv` — what holds at every moment.
* `Events.Feed.Followed` — what the client has, and what the ring does.

## Main results

* `Events.Feed.followed` — the client receives the events in order, each once; it misses
  only events that were evicted, and the response says so once it has received one.
-/

namespace Polywan.Events

/-- A response that the client received, with how many events the instance had emitted and
evicted by then. -/
structure Answer where
  query : EventsQuery
  page : Page
  emitted : ℕ
  evicted : ℕ
deriving DecidableEq

/-- The events of some responses. -/
def received (answers : List Answer) : List Json := answers.flatMap fun a => a.page.events

/-- The number of the last event of some responses, zero without one. -/
def cursor (answers : List Answer) : ℕ := (received answers).getLast?.elim 0 Json.seq

/-- The daemon and a client that follows its events. -/
structure Feed where
  bus : Bus
  /-- Every event of this instance. -/
  log : List Json := []
  client : Follower := {}
  /-- The request that waits. -/
  waiting : Option EventsQuery := none
  /-- The responses of this instance that the client received. -/
  answers : List Answer := []
  /-- The instances so far. -/
  used : List String := [bus.instanceId]
deriving DecidableEq

namespace Feed

inductive Event where
  | store (size : ℕ)
  | publish
  | request (limit wait : ℕ)
  /-- The wait of a request ends, woken or not. -/
  | ends
  | restart (instanceId : String)
deriving DecidableEq

variable (f : Feed)

/-- The query of a client. -/
def query (limit wait : ℕ) : EventsQuery :=
  parseEventsQuery (f.client.cursor ++ [.limit limit, .wait wait])

/-- The client receives its page. -/
def respond (q : EventsQuery) : Feed :=
  { f with
    client := f.client.advance (f.bus.answer q)
    waiting := none
    answers := f.answers ++ [⟨q, f.bus.answer q, f.log.length, f.bus.ring.evicted f.log⟩] }

def step : Event → Feed
  | .store size => { f with bus := f.bus.store size, log := f.log ++ [f.bus.next size] }
  | .publish => { f with bus := f.bus.publish }
  | .request limit wait =>
    if f.bus.Waits (f.query limit wait) then { f with waiting := some (f.query limit wait) }
    else f.respond (f.query limit wait)
  | .ends => f.waiting.elim f f.respond
  | .restart instanceId =>
    { f with
      bus := { instanceId }
      log := []
      waiting := none
      answers := []
      used := f.used ++ [instanceId] }

/-- Events fit into the ring and are emitted one after another; a client has one request
at a time, for at least one event; instances are new. -/
def Admits : Event → Prop
  | .store size => size ≤ ringBytes ∧ f.bus.latest = f.bus.seq
  | .publish => True
  | .request limit _ => f.waiting = none ∧ 1 ≤ limit
  | .ends => f.waiting ≠ none
  | .restart instanceId => instanceId ∉ f.used

instance : (e : Event) → Decidable (f.Admits e)
  | .store _ => inferInstanceAs (Decidable (_ ∧ _))
  | .publish => .isTrue trivial
  | .request _ _ => inferInstanceAs (Decidable (_ ∧ _))
  | .ends => inferInstanceAs (Decidable (_ ≠ _))
  | .restart _ => inferInstanceAs (Decidable (_ ∉ _))

def run (events : List Event) : Feed := events.foldl step f

end Feed

/-! ## What a response has -/

/-- A response of an instance, after others of it. -/
structure Answer.Follows (instanceId : String) (log : List Json) (before : List Answer)
    (a : Answer) : Prop where
  emitted : a.emitted ≤ log.length
  /-- Its events are the next ones, from the oldest one kept on. -/
  events : a.page.events = (log.drop (max a.evicted (cursor before))).take a.page.events.length
  bound : max a.evicted (cursor before) + a.page.events.length ≤ a.emitted
  /-- It has one if there is a newer one. -/
  newer : cursor before < a.emitted → a.page.events ≠ []
  reset : a.page.reset = true ↔ (∃ i, a.query.instanceId = some i ∧ i ≠ instanceId) ∨
    ∃ n, a.query.after = some n ∧ a.emitted < n
  /-- It reports the events that were evicted after the last one received. -/
  truncated : a.page.truncated = true ↔ received before ≠ [] ∧ cursor before < a.evicted

theorem received_append (answers answers' : List Answer) :
    received (answers ++ answers') = received answers ++ received answers' :=
  List.flatMap_append

theorem received_concat (answers : List Answer) (a : Answer) :
    received (answers ++ [a]) = received answers ++ a.page.events := by
  rw [received_append, received, received, List.flatMap_singleton]

/-- A response follows the same ones when the instance emits more. -/
theorem Answer.Follows.append {instanceId : String} {log : List Json} {before : List Answer}
    {a : Answer} (h : a.Follows instanceId log before) (json : Json) :
    a.Follows instanceId (log ++ [json]) before := by
  have hbound := h.bound
  have hemitted := h.emitted
  refine ⟨by rw [List.length_append]; omega, ?_, h.bound, h.newer, h.reset, h.truncated⟩
  rw [List.drop_append_of_le_length (by omega),
    List.take_append_of_le_length (by rw [List.length_drop]; omega)]
  exact h.events

/-- What holds at every moment. -/
structure Feed.Inv (f : Feed) : Prop where
  numbers : Lib.Numbered Json.seq 1 f.log
  holds : f.bus.ring.Holds f.log
  ring : f.bus.ring.instanceId = f.bus.instanceId
  seq : f.bus.seq = f.log.length
  latest : f.bus.latest ≤ f.bus.seq
  used : f.bus.instanceId ∈ f.used ∧ ∀ i, f.client.instanceId = some i → i ∈ f.used
  /-- The cursor of a client that has a response is its place. -/
  place : f.client.instanceId = some f.bus.instanceId →
    f.client.after = (received f.answers).getLast?.map Json.seq
  /-- A client without a response of this instance has nothing of it. -/
  outside : f.client.instanceId ≠ some f.bus.instanceId → f.answers = []
  unknown : f.client.instanceId = none → f.client.after = none
  waiting : ∀ q, f.waiting = some q →
    q.instanceId = f.client.instanceId ∧ q.after = f.client.after ∧ 1 ≤ q.limit
  inside : cursor f.answers ≤ f.log.length
  follows : ∀ before a after, f.answers = before ++ a :: after →
    a.Follows f.bus.instanceId f.log before

namespace Feed

variable {f : Feed}

theorem query_spec (f : Feed) (limit wait : ℕ) :
    (f.query limit wait).instanceId = f.client.instanceId ∧
      (f.query limit wait).after = f.client.after ∧ 1 ≤ (f.query limit wait).limit := by
  rw [query]
  generalize f.client = c
  obtain ⟨i, a⟩ := c
  cases i <;> cases a <;> exact ⟨rfl, rfl, Nat.le_max_left _ _⟩

/-- The requests of the command are those of a client. -/
theorem query_eq_parameters (f : Feed) (follow : Bool) :
    f.query ringEvents (f.client.wait follow)
      = parseEventsQuery (f.client.parameters follow) := by
  rw [query]
  generalize f.client = c
  obtain ⟨i, a⟩ := c
  cases i <;> cases a <;> cases follow <;> rfl

/-- Storing an event and publishing it is to emit it. -/
theorem bus_emit (f : Feed) (size : ℕ) :
    ((f.step (.store size)).step .publish).bus = f.bus.emit size := rfl

theorem Inv.start (instanceId : String) : ({ bus := { instanceId } } : Feed).Inv where
  numbers := Lib.numbered_nil
  holds := Ring.Holds.nil instanceId
  ring := rfl
  seq := rfl
  latest := Nat.le_refl _
  used := ⟨List.mem_singleton_self _, nofun⟩
  place := nofun
  outside _ := rfl
  unknown _ := rfl
  waiting := nofun
  inside := Nat.le_refl _
  follows before a after h := by
    have hnil : before ++ a :: after = [] := h.symm
    simp at hnil

theorem Inv.store (h : f.Inv) {size : ℕ} (hsize : size ≤ ringBytes) :
    (f.step (.store size)).Inv where
  numbers := by
    have hseq : (f.bus.next size).seq = 1 + f.log.length := by
      rw [Bus.next, h.seq, Nat.add_comm]
    exact Lib.numbered_append.mpr ⟨h.numbers, Lib.numbered_cons.mpr ⟨hseq, Lib.numbered_nil⟩⟩
  holds := h.holds.push hsize
  ring := h.ring
  seq := by
    have hseq := h.seq
    simp only [step, Bus.store, List.length_append, List.length_singleton, hseq]
  latest := Nat.le_succ_of_le h.latest
  used := h.used
  place := h.place
  outside := h.outside
  unknown := h.unknown
  waiting := h.waiting
  inside := by
    have hinside := h.inside
    simp only [step, List.length_append, List.length_singleton]
    omega
  follows before a after hanswers := (h.follows before a after hanswers).append _

theorem Inv.publish (h : f.Inv) : (f.step .publish).Inv where
  numbers := h.numbers
  holds := h.holds
  ring := h.ring
  seq := h.seq
  latest := Nat.le_refl _
  used := h.used
  place := h.place
  outside := h.outside
  unknown := h.unknown
  waiting := h.waiting
  inside := h.inside
  follows := h.follows

/-- A restart begins a new history: the instance is new. -/
theorem Inv.restart (h : f.Inv) {instanceId : String} (hnew : instanceId ∉ f.used) :
    (f.step (.restart instanceId)).Inv where
  numbers := Lib.numbered_nil
  holds := Ring.Holds.nil instanceId
  ring := rfl
  seq := rfl
  latest := Nat.le_refl _
  used := by
    refine ⟨List.mem_append_right _ (List.mem_singleton_self _), fun i hi => ?_⟩
    exact List.mem_append_left _ (h.used.2 i hi)
  place hsame := absurd (h.used.2 instanceId hsame) hnew
  outside _ := rfl
  unknown := h.unknown
  waiting := nofun
  inside := Nat.le_refl _
  follows before a after hanswers := by
    have hnil : before ++ a :: after = [] := hanswers.symm
    simp at hnil

theorem Inv.getD_after (h : f.Inv) (hsame : f.client.instanceId = some f.bus.instanceId) :
    f.client.after.getD 0 = cursor f.answers := by
  rw [h.place hsame, cursor]
  cases (received f.answers).getLast? <;> rfl

/-- The place of a client that has a response never resets. -/
theorem Inv.resets_eq_false (h : f.Inv)
    (hsame : f.client.instanceId = some f.bus.instanceId) :
    f.bus.ring.resets f.client.instanceId f.client.after = false := by
  have hgetD := h.getD_after hsame
  have hinside := h.inside
  rw [Ring.resets, hsame, h.ring, h.holds.latest_eq h.numbers]
  cases hafter : f.client.after with
  | none => simp
  | some a =>
    rw [hafter, Option.getD_some] at hgetD
    have hle : a ≤ f.log.length := by omega
    simpa using hle

theorem Inv.resets_eq_true (h : f.Inv) {i : String} (hi : f.client.instanceId = some i)
    (hne : i ≠ f.bus.instanceId) (after : Option ℕ) :
    f.bus.ring.resets f.client.instanceId after = true := by
  simp [Ring.resets, h.ring, hi, hne]

/-- **The page of a client starts at its place.** -/
theorem Inv.position_eq (h : f.Inv) :
    f.bus.ring.position f.client.instanceId f.client.after = cursor f.answers := by
  rw [Ring.position]
  by_cases hsame : f.client.instanceId = some f.bus.instanceId
  · rw [h.resets_eq_false hsame, if_neg Bool.false_ne_true, h.getD_after hsame]
  · have hzero : cursor f.answers = 0 := by
      rw [h.outside hsame]
      rfl
    rw [hzero]
    cases hknown : f.client.instanceId with
    | none =>
      rw [h.unknown hknown]
      split <;> rfl
    | some i =>
      have hne : i ≠ f.bus.instanceId := fun hi => hsame (hi ▸ hknown)
      rw [← hknown, h.resets_eq_true hknown hne, if_pos rfl]

/-- A page is truncated when events after the last one received were evicted. -/
theorem Inv.truncated_iff (h : f.Inv) (limit maxBytes : ℕ) :
    (f.bus.ring.page f.client.instanceId f.client.after limit maxBytes).truncated = true ↔
      received f.answers ≠ [] ∧ cursor f.answers < f.bus.ring.evicted f.log := by
  rw [h.holds.truncated_iff h.numbers]
  by_cases hsame : f.client.instanceId = some f.bus.instanceId
  · rw [h.resets_eq_false hsame, h.place hsame, cursor]
    cases hlast : (received f.answers).getLast? with
    | none => simp [List.getLast?_eq_none_iff.mp hlast]
    | some json =>
      have hne : received f.answers ≠ [] := by
        intro hnil
        rw [hnil] at hlast
        cases hlast
      simp [hne]
  · -- Nothing was received, and the request has no number or resets.
    have hnone : received f.answers = [] := by
      rw [h.outside hsame]
      rfl
    simp only [hnone, ne_eq, not_true_eq_false, false_and, iff_false, not_and, not_exists]
    intro hreset a ha
    cases hknown : f.client.instanceId with
    | none =>
      rw [h.unknown hknown] at ha
      cases ha
    | some i =>
      have hne : i ≠ f.bus.instanceId := fun hi => hsame (hi ▸ hknown)
      rw [h.resets_eq_true hknown hne] at hreset
      cases hreset

/-- **A response follows those before it.** -/
theorem Inv.answer_follows (h : f.Inv) {q : EventsQuery}
    (hi : q.instanceId = f.client.instanceId) (ha : q.after = f.client.after)
    (hlimit : 1 ≤ q.limit) :
    (⟨q, f.bus.answer q, f.log.length, f.bus.ring.evicted f.log⟩ : Answer).Follows
      f.bus.instanceId f.log f.answers := by
  obtain ⟨instanceId, after, limit, wait⟩ := q
  obtain rfl : instanceId = f.client.instanceId := hi
  obtain rfl : after = f.client.after := ha
  have hposition := h.position_eq
  have hprefix := h.holds.page_prefix h.numbers f.client.instanceId f.client.after limit ringBytes
  rw [hposition] at hprefix
  have hinside := h.inside
  have hevicted : f.bus.ring.evicted f.log ≤ f.log.length := Nat.sub_le _ _
  refine ⟨Nat.le_refl _, List.prefix_iff_eq_take.mp hprefix, ?_, ?_, ?_,
    h.truncated_iff limit ringBytes⟩
  · have hlength := hprefix.length_le
    rw [List.length_drop] at hlength
    simp only [Bus.answer]
    omega
  · intro hnewer
    exact h.holds.page_ne_nil h.numbers hlimit (hposition ▸ hnewer)
  · rw [← h.ring]
    exact h.holds.reset_iff h.numbers f.client.instanceId f.client.after limit ringBytes

end Feed

/-- **The place after a response** is its last event. -/
theorem Answer.Follows.cursor_concat {instanceId : String} {log : List Json}
    {before : List Answer} {a : Answer} (h : a.Follows instanceId log before)
    (hnumbers : Lib.Numbered Json.seq 1 log) :
    cursor (before ++ [a]) = if a.page.events = [] then cursor before
      else max a.evicted (cursor before) + a.page.events.length := by
  rw [cursor, received_concat, List.getLast?_append]
  by_cases hnil : a.page.events = []
  · rw [if_pos hnil, hnil]
    rfl
  · have hsegment := (hnumbers.drop (max a.evicted (cursor before))).take a.page.events.length
    rw [← h.events] at hsegment
    obtain ⟨json, hjson, hseq⟩ := Option.map_eq_some_iff.mp (hsegment.getLast? hnil)
    rw [if_neg hnil, hjson, Option.some_or, Option.elim_some, hseq]
    omega

namespace Feed

variable {f : Feed}

theorem Inv.respond (h : f.Inv) {q : EventsQuery} (hi : q.instanceId = f.client.instanceId)
    (ha : q.after = f.client.after) (hlimit : 1 ≤ q.limit) : (f.respond q).Inv := by
  have hfollows := h.answer_follows hi ha hlimit
  have hpage : (f.bus.answer q).instanceId = f.bus.instanceId := h.ring
  refine ⟨h.numbers, h.holds, h.ring, h.seq, h.latest, ⟨h.used.1, ?_⟩, ?_, ?_, nofun, nofun, ?_, ?_⟩
  · intro i hi
    obtain rfl : (f.bus.answer q).instanceId = i := Option.some.inj hi
    exact hpage ▸ h.used.1
  · intro _
    simp only [Feed.respond, Follower.advance, received_concat, List.getLast?_append, hpage]
    by_cases hsame : f.client.instanceId = some f.bus.instanceId
    · rw [if_pos hsame, h.place hsame]
      cases (f.bus.answer q).events.getLast? <;> rfl
    · rw [if_neg hsame, h.outside hsame]
      cases (f.bus.answer q).events.getLast? <;> rfl
  · intro hne
    exact absurd (congrArg some hpage) hne
  · have hinside := h.inside
    have hbound := hfollows.bound
    simp only [Feed.respond, hfollows.cursor_concat h.numbers]
    split
    · exact hinside
    · exact Nat.le_trans hbound hfollows.emitted
  · intro before a after hanswers
    rcases List.eq_nil_or_concat after with rfl | ⟨rest, last, rfl⟩
    · obtain ⟨rfl, hlast⟩ := List.append_inj' hanswers rfl
      obtain rfl := List.singleton_inj.mp hlast
      exact hfollows
    · rw [List.concat_eq_append] at hanswers
      have hsplit : f.answers ++ [⟨q, f.bus.answer q, f.log.length, f.bus.ring.evicted f.log⟩]
          = (before ++ a :: rest) ++ [last] := by
        rw [List.append_assoc, List.cons_append]
        exact hanswers
      exact h.follows before a rest (List.append_inj' hsplit rfl).1

theorem Inv.step {e : Event} (h : f.Inv) (hadmits : f.Admits e) : (f.step e).Inv := by
  cases e with
  | store size => exact h.store hadmits.1
  | publish => exact h.publish
  | request limit wait =>
    obtain ⟨hi, ha, hlimit⟩ := f.query_spec limit wait
    simp only [Feed.step]
    split
    · refine ⟨h.numbers, h.holds, h.ring, h.seq, h.latest, h.used, h.place, h.outside, h.unknown,
        ?_, h.inside, h.follows⟩
      intro q hq
      obtain rfl := Option.some.inj hq
      exact ⟨hi, ha, hlimit⟩
    · exact h.respond hi ha hlimit
  | ends =>
    simp only [Feed.step]
    cases hq : f.waiting with
    | none => exact absurd hq hadmits
    | some q =>
      obtain ⟨hi, ha, hlimit⟩ := h.waiting q hq
      exact h.respond hi ha hlimit
  | restart instanceId => exact h.restart hadmits

theorem Inv.run {instanceId : String} {events : List Event}
    (h : Lib.Along Feed.step Admits { bus := { instanceId } } events) :
    (run { bus := { instanceId } } events).Inv := by
  have hstep : ∀ (f : Feed) (e : Event), f.Inv → f.Admits e → (f.step e).Inv :=
    fun f e hf he => hf.step he
  exact h.invariant hstep (Inv.start instanceId)

end Feed

/-! ## What the client has received -/

section Received

variable {instanceId : String} {log : List Json} {answers : List Answer}
variable (hnumbers : Lib.Numbered Json.seq 1 log)
include hnumbers

/-- **The events are received in order, each at most once.** -/
theorem received_sublist
    (h : ∀ before a after, answers = before ++ a :: after → a.Follows instanceId log before) :
    (received answers).Sublist (log.take (cursor answers)) := by
  induction answers using List.reverseRecOn with
  | nil => exact List.nil_sublist _
  | append_singleton answers a ih =>
    have ha := h answers a [] rfl
    have hbefore := ih fun before b after hb => h before b (after ++ [a]) (by simp [hb])
    rw [received_concat, ha.cursor_concat hnumbers]
    split
    · next hnil => rwa [hnil, List.append_nil]
    · have hle : cursor answers ≤ max a.evicted (cursor answers) := Nat.le_max_right _ _
      rw [List.take_add, ← ha.events]
      exact (hbefore.trans (List.take_sublist_take_left hle)).append (List.Sublist.refl _)

/-- **An event up to the place of the client** was received, or a response skipped it. -/
theorem received_or_skipped
    (h : ∀ before a after, answers = before ++ a :: after → a.Follows instanceId log before)
    {json : Json} (hjson : json ∈ log) (hseq : json.seq ≤ cursor answers) :
    json ∈ received answers ∨ ∃ before a after, answers = before ++ a :: after ∧
      cursor before < json.seq ∧ json.seq ≤ a.evicted := by
  induction answers using List.reverseRecOn with
  | nil =>
    have hpos := (hnumbers.getElem? hjson).1
    have hzero : json.seq ≤ 0 := hseq
    omega
  | append_singleton answers a ih =>
    have ha := h answers a [] rfl
    have hbefore := ih fun before b after hb => h before b (after ++ [a]) (by simp [hb])
    have hlift : json.seq ≤ cursor answers → json ∈ received (answers ++ [a]) ∨
        ∃ before b after, answers ++ [a] = before ++ b :: after ∧
          cursor before < json.seq ∧ json.seq ≤ b.evicted := by
      intro hle
      rcases hbefore hle with hmem | ⟨before, b, after, hb, hskip⟩
      · exact .inl (received_concat answers a ▸ List.mem_append_left _ hmem)
      · exact .inr ⟨before, b, after ++ [a], by simp [hb], hskip⟩
    by_cases hold : json.seq ≤ cursor answers
    · exact hlift hold
    · rw [ha.cursor_concat hnumbers] at hseq
      split at hseq
      · exact absurd hseq hold
      · by_cases hskipped : json.seq ≤ a.evicted
        · exact .inr ⟨answers, a, [], rfl, by omega, hskipped⟩
        · have hsegment := hnumbers.mem_segment hjson
            (show 1 + max a.evicted (cursor answers) ≤ json.seq by omega)
            (show json.seq < 1 + max a.evicted (cursor answers) + a.page.events.length by omega)
          rw [← ha.events] at hsegment
          exact .inl (received_concat answers a ▸ List.mem_append_right _ hsegment)

end Received

namespace Feed

/-- A response says that it skips an event, which was evicted before. -/
def Reported (f : Feed) (json : Json) : Prop :=
  ∃ before a after, f.answers = before ++ a :: after ∧ cursor before < json.seq ∧
    json.seq ≤ a.evicted ∧ a.page.truncated = true

/-- An event was evicted before the first response that has an event of this instance. -/
def Preceding (f : Feed) (json : Json) : Prop :=
  ∃ before a after, f.answers = before ++ a :: after ∧ received before = [] ∧
    json.seq ≤ a.evicted ∧ a.page.events ≠ []

/-- The client follows the events. -/
structure Followed (f : Feed) : Prop where
  /-- The ring has consecutive events, within its bounds. -/
  consecutive : Lib.Numbered Json.seq (f.bus.ring.evicted f.log + 1) f.bus.ring.events
  count : f.bus.ring.events.length ≤ ringEvents
  fits : f.bus.ring.bytes ≤ ringBytes
  bytes : f.bus.ring.bytes = (f.bus.ring.events.map Json.size).sum
  /-- The client has events of this instance in order, each once. -/
  order : Lib.Numbered Json.seq 1 f.log ∧ (received f.answers).Sublist f.log
  /-- It has every event up to the last one it received, except for evicted ones. -/
  complete : ∀ json ∈ f.log, json.seq ≤ cursor f.answers →
    json ∈ received f.answers ∨ f.Reported json ∨ f.Preceding json
  /-- Each response starts with the next event or the oldest one kept, and is truncated if
  events were evicted in between, but for the first one with an event. -/
  follows : ∀ before a after, f.answers = before ++ a :: after →
    a.Follows f.bus.instanceId f.log before
  reset : ∀ a ∈ f.answers, a.page.reset = true ↔
    (∃ i, a.query.instanceId = some i ∧ i ≠ f.bus.instanceId) ∨
      ∃ n, a.query.after = some n ∧ a.emitted < n
  /-- A request gets an event if there is a newer one. -/
  newer : ∀ limit wait, cursor f.answers < f.log.length →
    (f.bus.answer (f.query limit wait)).events ≠ []
  /-- A wait that is woken finds an event. -/
  woken : ∀ q, f.waiting = some q → f.bus.Wakes q → (f.bus.answer q).events ≠ []

/-- **The feed has no silent gaps.**  The client receives the events of the instance in
order, each once.  It misses only events that were evicted before it asked: the response
says so, or is the first one with an event of this instance and starts with the oldest
event kept. -/
theorem followed (instanceId : String) {events : List Event}
    (h : Lib.Along step Admits { bus := { instanceId } } events) :
    (run { bus := { instanceId } } events).Followed := by
  have hinv := Inv.run h
  generalize run { bus := { instanceId } } events = f at hinv
  have hnewer : ∀ q : EventsQuery, q.instanceId = f.client.instanceId →
      q.after = f.client.after → 1 ≤ q.limit → cursor f.answers < f.log.length →
      (f.bus.answer q).events ≠ [] :=
    fun q hi ha hlimit hlt => (hinv.answer_follows hi ha hlimit).newer hlt
  refine ⟨?_, hinv.holds.count, hinv.holds.fits, hinv.holds.bytes, ⟨hinv.numbers, ?_⟩, ?_,
    hinv.follows, ?_, ?_, ?_⟩
  · have hdrop := hinv.numbers.drop (f.bus.ring.evicted f.log)
    rwa [← hinv.holds.events_eq, Nat.add_comm] at hdrop
  · exact (received_sublist hinv.numbers hinv.follows).trans (List.take_sublist _ _)
  · intro json hjson hseq
    rcases received_or_skipped hinv.numbers hinv.follows hjson hseq with
      hmem | ⟨before, a, after, hanswers, hlt, hle⟩
    · exact .inl hmem
    · have ha := hinv.follows before a after hanswers
      by_cases hfirst : received before = []
      · have hbound := ha.bound
        have hnonempty := ha.newer (by omega)
        exact .inr (.inr ⟨before, a, after, hanswers, hfirst, hle, hnonempty⟩)
      · exact .inr (.inl ⟨before, a, after, hanswers, hlt, hle,
          ha.truncated.mpr ⟨hfirst, by omega⟩⟩)
  · intro a ha
    obtain ⟨before, after, hanswers⟩ := List.append_of_mem ha
    exact (hinv.follows before a after hanswers).reset
  · intro limit wait hlt
    obtain ⟨hi, ha, hlimit⟩ := f.query_spec limit wait
    exact hnewer _ hi ha hlimit hlt
  · intro q hq hwakes
    obtain ⟨hi, ha, hlimit⟩ := hinv.waiting q hq
    refine hnewer q hi ha hlimit ?_
    have hposition := hinv.position_eq
    have hle := f.bus.ring.position_le f.client.instanceId f.client.after
    have hlatest := hinv.latest
    have hseq := hinv.seq
    have hwakes : f.client.after.getD 0 < f.bus.latest := ha ▸ hwakes
    omega

/-- The client receives an event; the daemon restarts and emits two events, of which the
ring keeps the second. -/
def evictingRestart : List Event :=
  [ .store 100, .publish, .request 1000 0, .restart "b", .store (3 <<< 20), .publish,
    .store (3 <<< 20), .publish, .request 1000 60 ]

theorem evictingRestart_facts :
    Lib.Along step Admits { bus := { instanceId := "a" } } evictingRestart ∧
    (run { bus := { instanceId := "a" } } evictingRestart).log.map Json.seq = [1, 2] ∧
    (received (run { bus := { instanceId := "a" } } evictingRestart).answers).map Json.seq = [2] ∧
    (run { bus := { instanceId := "a" } } evictingRestart).answers.map
      (fun a => (a.evicted, a.page.reset, a.page.truncated)) = [(1, true, false)] := by
  decide +kernel

/-- After the restart the first event of the daemon is evicted: the response skips it, and
is reset but not truncated. -/
theorem evictingRestart_unreported :
    Lib.Along step Admits { bus := { instanceId := "a" } } evictingRestart ∧
    ∃ json ∈ (run { bus := { instanceId := "a" } } evictingRestart).log,
      json.seq ≤ cursor (run { bus := { instanceId := "a" } } evictingRestart).answers ∧
      json ∉ received (run { bus := { instanceId := "a" } } evictingRestart).answers ∧
      ¬ (run { bus := { instanceId := "a" } } evictingRestart).Reported json := by
  obtain ⟨hrun, -, -, hflags⟩ := evictingRestart_facts
  refine ⟨hrun, ⟨1, "b", 3 <<< 20⟩, by decide +kernel, by decide +kernel, by decide +kernel, ?_⟩
  rintro ⟨before, a, after, hanswers, -, -, htruncated⟩
  have hmem : (a.evicted, a.page.reset, a.page.truncated) ∈ [(1, true, false)] := by
    rw [← hflags, hanswers]
    simp
  simp [htruncated] at hmem

/-- The client of that run follows the events. -/
theorem followed_evictingRestart :
    (run { bus := { instanceId := "a" } } evictingRestart).Followed :=
  followed "a" evictingRestart_facts.1

end Feed

end Polywan.Events
