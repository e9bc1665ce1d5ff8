import Mathlib.Algebra.BigOperators.Group.List.Defs
import Mathlib.Algebra.GroupWithZero.Nat
import Polywan.Lib.Numbered

/-!
# Events and their history

The daemon numbers its events from one on.  It stores each of them, serialised, in a ring
that is bounded in events and in bytes, and then publishes its number, which ends the waits
of readers.  A reader asks for the events after the last one it received; another instance,
or a number beyond the latest event, makes it start again.

A serialised event is known here by the fields that clients read and by its length.

## Main definitions

* `Events.Ring`, `Events.Ring.push`, `Events.Ring.page` — the history, and a response.
* `Events.Bus`, `Events.Bus.store`, `Events.Bus.publish` — the emitter.
* `Events.parseEventsQuery`, `Events.Bus.answer`, `Events.Bus.Waits` — requests.
* `Events.Follower` — the command that follows the events.

## Main results

* `Events.Ring.Holds.push` — the ring holds the end of what was pushed, within its bounds.
* `Events.Ring.Holds.page_prefix`, `Events.Ring.Holds.page_ne_nil` — what a page has.
* `Events.Follower.receive_eq_advance_iff` — when the command keeps its place.
-/

namespace Polywan.Events

/-- Bounds of the ring and of one response. -/
def ringEvents : ℕ := 1000

def ringBytes : ℕ := 4 <<< 20

/-- A serialised event. -/
structure Json where
  seq : ℕ
  instanceId : String
  /-- The length in bytes. -/
  size : ℕ
deriving DecidableEq

/-! ## The ring -/

/-- The history, the oldest event first. -/
structure Ring where
  instanceId : String
  events : List Json := []
  bytes : ℕ := 0
deriving DecidableEq

/-- One response. -/
structure Page where
  instanceId : String
  reset : Bool
  truncated : Bool
  events : List Json
deriving DecidableEq

namespace Ring

/-- Evicts the oldest events while a bound is exceeded. -/
def evict : List Json → ℕ → List Json × ℕ
  | [], bytes => ([], bytes)
  | old :: rest, bytes =>
    if ringEvents < (old :: rest).length || ringBytes < bytes then
      evict rest (bytes - old.size)
    else (old :: rest, bytes)

variable (r : Ring)

def push (json : Json) : Ring :=
  let (events, bytes) := evict (r.events ++ [json]) (r.bytes + json.size)
  { r with events, bytes }

def latest : ℕ := r.events.getLast?.elim 0 Json.seq

/-- The events of a page: at most `limit`, and at most `maxBytes` except for the first one;
`count` and `bytes` are those of the events taken so far. -/
def collect (after : Option ℕ) (limit maxBytes : ℕ) : List Json → (count bytes : ℕ) → List Json
  | [], _, _ => []
  | json :: rest, count, bytes =>
    if after.any fun a => json.seq ≤ a then collect after limit maxBytes rest count bytes
    else if min limit ringEvents ≤ count || (count ≠ 0 && maxBytes < bytes + json.size) then []
    else json :: collect after limit maxBytes rest (count + 1) (bytes + json.size)

/-- Whether a cursor is of another instance, or beyond the latest event. -/
def resets (instanceId : Option String) (after : Option ℕ) : Bool :=
  (instanceId.any fun i => i ≠ r.instanceId) || after.any fun a => r.latest < a

/-- The events after a cursor. -/
def page (instanceId : Option String) (after : Option ℕ) (limit maxBytes : ℕ) : Page :=
  let reset := r.resets instanceId after
  let after := if reset then none else after
  let oldest := r.events.head?.elim (r.latest + 1) Json.seq
  { instanceId := r.instanceId
    reset
    truncated := after.any fun a => a + 1 < oldest
    events := collect after limit maxBytes r.events 0 0 }

end Ring

/-! ### What the ring holds -/

/-- The ring holds the end of a log, within its bounds. -/
structure Ring.Holds (r : Ring) (log : List Json) : Prop where
  suffix : r.events <:+ log
  ne_nil : log ≠ [] → r.events ≠ []
  bytes : r.bytes = (r.events.map Json.size).sum
  count : r.events.length ≤ ringEvents
  fits : r.bytes ≤ ringBytes

namespace Ring

/-- Evicting leaves the end of a list, within the bounds. -/
theorem evict_spec (l : List Json) :
    (evict l (l.map Json.size).sum).1 <:+ l ∧
      (evict l (l.map Json.size).sum).2
        = ((evict l (l.map Json.size).sum).1.map Json.size).sum ∧
      (evict l (l.map Json.size).sum).1.length ≤ ringEvents ∧
      (evict l (l.map Json.size).sum).2 ≤ ringBytes := by
  induction l with
  | nil => exact ⟨List.suffix_rfl, rfl, Nat.zero_le _, Nat.zero_le _⟩
  | cons old rest ih =>
    have hrest : ((old :: rest).map Json.size).sum - old.size = (rest.map Json.size).sum := by
      simp
    rw [evict]
    split
    · rw [hrest]
      exact ⟨ih.1.trans (List.suffix_cons old rest), ih.2⟩
    · next hfits =>
        simp only [Bool.or_eq_true, decide_eq_true_eq, not_or, Nat.not_lt] at hfits
        exact ⟨List.suffix_rfl, rfl, hfits⟩

/-- The newest event stays, if it fits at all. -/
theorem evict_ne_nil (l : List Json) {json : Json} (hfits : json.size ≤ ringBytes) :
    (evict (l ++ [json]) ((l ++ [json]).map Json.size).sum).1 ≠ [] := by
  induction l with
  | nil =>
    have hsize : ¬ ringBytes < json.size := by omega
    simp [evict, hsize, ringEvents]
  | cons old rest ih =>
    have hrest : ((old :: rest ++ [json]).map Json.size).sum - old.size
        = ((rest ++ [json]).map Json.size).sum := by simp
    rw [List.cons_append, evict]
    split
    · rw [← List.cons_append, hrest]
      exact ih
    · simp

variable {r : Ring} {log : List Json}

theorem Holds.nil (instanceId : String) : ({ instanceId } : Ring).Holds [] :=
  ⟨List.suffix_rfl, fun h => absurd rfl h, rfl, Nat.zero_le _, Nat.zero_le _⟩

/-- **The ring holds the end of what was pushed.** -/
theorem Holds.push (h : r.Holds log) {json : Json} (hfits : json.size ≤ ringBytes) :
    (r.push json).Holds (log ++ [json]) := by
  have hbytes : r.bytes + json.size = ((r.events ++ [json]).map Json.size).sum := by
    simp [h.bytes]
  have hspec := evict_spec (r.events ++ [json])
  have hne := evict_ne_nil r.events hfits
  rw [← hbytes] at hspec hne
  obtain ⟨hsuffix, hsum, hcount, hsize⟩ := hspec
  obtain ⟨old, hold⟩ := h.suffix
  refine ⟨hsuffix.trans ⟨old, ?_⟩, fun _ => hne, hsum, hcount, hsize⟩
  rw [← List.append_assoc, hold]

/-- How many events of a log the ring has evicted. -/
def evicted (r : Ring) (log : List Json) : ℕ := log.length - r.events.length

theorem Holds.events_eq (h : r.Holds log) : r.events = log.drop (r.evicted log) :=
  List.suffix_iff_eq_drop.mp h.suffix

theorem Holds.evicted_lt (h : r.Holds log) (hlog : log ≠ []) : r.evicted log < log.length := by
  have hevents := List.length_pos_iff.mpr (h.ne_nil hlog)
  have hpos := List.length_pos_iff.mpr hlog
  simp only [evicted]
  omega

variable (hnumbers : Lib.Numbered Json.seq 1 log)
include hnumbers

theorem Holds.latest_eq (h : r.Holds log) : r.latest = log.length := by
  by_cases hlog : log = []
  · subst hlog
    simp [latest, List.suffix_nil.mp h.suffix]
  · have hlast := (hnumbers.drop (r.evicted log)).getLast? (h.events_eq ▸ h.ne_nil hlog)
    have hlt := h.evicted_lt hlog
    rw [← h.events_eq] at hlast
    obtain ⟨json, hjson, hseq⟩ := Option.map_eq_some_iff.mp hlast
    rw [latest, hjson, Option.elim_some, hseq, h.events_eq, List.length_drop]
    omega

theorem Holds.oldest_eq (h : r.Holds log) :
    r.events.head?.elim (r.latest + 1) Json.seq = r.evicted log + 1 := by
  by_cases hlog : log = []
  · rw [h.latest_eq hnumbers]
    subst hlog
    simp [evicted, List.suffix_nil.mp h.suffix]
  · have hhead := (hnumbers.drop (r.evicted log)).head? (h.events_eq ▸ h.ne_nil hlog)
    rw [← h.events_eq] at hhead
    obtain ⟨json, hjson, hseq⟩ := Option.map_eq_some_iff.mp hhead
    rw [hjson, Option.elim_some, hseq, Nat.add_comm]

end Ring

/-! ### What a page has -/

namespace Ring

/-- The events of a page are the first ones after the cursor. -/
theorem collect_prefix (after : Option ℕ) (limit maxBytes : ℕ) (l : List Json) (count bytes : ℕ) :
    collect after limit maxBytes l count bytes
      <+: l.filter fun json => !after.any fun a => json.seq ≤ a := by
  induction l generalizing count bytes with
  | nil => exact List.prefix_rfl
  | cons json rest ih =>
    rw [collect]
    split
    · next hskip =>
        rw [List.filter_cons_of_neg (by rw [hskip]; simp)]
        exact ih count bytes
    · next hkeep =>
        rw [List.filter_cons_of_pos (by simpa using hkeep)]
        split
        · exact List.nil_prefix
        · exact (List.prefix_cons_inj json).mpr (ih _ _)

/-- **A page has an event if there is one**, whatever its size. -/
theorem collect_ne_nil {after : Option ℕ} {limit : ℕ} (hlimit : 1 ≤ limit) (maxBytes : ℕ)
    {l : List Json} (h : (l.filter fun json => !after.any fun a => json.seq ≤ a) ≠ []) :
    collect after limit maxBytes l 0 0 ≠ [] := by
  induction l with
  | nil => exact absurd rfl h
  | cons json rest ih =>
    rw [collect]
    split
    · next hskip =>
        rw [List.filter_cons_of_neg (by rw [hskip]; simp)] at h
        exact ih h
    · have hroom : ¬ min limit ringEvents ≤ 0 := by
        simp only [ringEvents]
        omega
      simp [hroom]

/-- The number after which a page starts. -/
def position (r : Ring) (instanceId : Option String) (after : Option ℕ) : ℕ :=
  if r.resets instanceId after then 0 else after.getD 0

theorem getD_after (r : Ring) (instanceId : Option String) (after : Option ℕ) :
    (if r.resets instanceId after then none else after).getD 0 = r.position instanceId after := by
  rw [position]
  split <;> rfl

theorem position_le (r : Ring) (instanceId : Option String) (after : Option ℕ) :
    r.position instanceId after ≤ after.getD 0 := by
  rw [position]
  split
  · exact Nat.zero_le _
  · exact Nat.le_refl _

variable {r : Ring} {log : List Json}

/-- What the ring holds after a cursor. -/
theorem Holds.filter_eq (h : r.Holds log) (hnumbers : Lib.Numbered Json.seq 1 log)
    (after : Option ℕ) :
    (r.events.filter fun json => !after.any fun a => json.seq ≤ a)
      = log.drop (max (r.evicted log) (after.getD 0)) := by
  have hdrop := hnumbers.drop (r.evicted log)
  cases after with
  | none => simpa using h.events_eq
  | some a =>
    have hkeeps : (fun json : Json => !(some a).any fun a => decide (json.seq ≤ a))
        = fun json => decide (a < json.seq) := by
      funext json
      rw [Option.any_some, ← decide_not]
      exact decide_eq_decide.mpr Nat.not_le
    rw [hkeeps, h.events_eq, hdrop.filter_lt, List.drop_drop, Option.getD_some]
    congr 1
    omega

/-- **The events of a page** are those after its position, from the oldest event kept on. -/
theorem Holds.page_prefix (h : r.Holds log) (hnumbers : Lib.Numbered Json.seq 1 log)
    (instanceId : Option String) (after : Option ℕ) (limit maxBytes : ℕ) :
    (r.page instanceId after limit maxBytes).events
      <+: log.drop (max (r.evicted log) (r.position instanceId after)) := by
  rw [← getD_after, ← h.filter_eq hnumbers]
  exact collect_prefix _ _ _ _ _ _

/-- **A page has an event** if there is one after its position. -/
theorem Holds.page_ne_nil (h : r.Holds log) (hnumbers : Lib.Numbered Json.seq 1 log)
    {instanceId : Option String} {after : Option ℕ} {limit maxBytes : ℕ} (hlimit : 1 ≤ limit)
    (hnewer : r.position instanceId after < log.length) :
    (r.page instanceId after limit maxBytes).events ≠ [] := by
  have hlog : log ≠ [] := List.length_pos_iff.mp (by omega)
  refine collect_ne_nil hlimit maxBytes ?_
  rw [h.filter_eq hnumbers, getD_after, Ne, List.drop_eq_nil_iff]
  have hlt := h.evicted_lt hlog
  omega

/-- A page is truncated when it does not reset and events after its cursor were evicted. -/
theorem Holds.truncated_iff (h : r.Holds log) (hnumbers : Lib.Numbered Json.seq 1 log)
    (instanceId : Option String) (after : Option ℕ) (limit maxBytes : ℕ) :
    (r.page instanceId after limit maxBytes).truncated = true ↔
      r.resets instanceId after = false ∧ ∃ a, after = some a ∧ a < r.evicted log := by
  simp only [page, h.oldest_eq hnumbers]
  cases hreset : r.resets instanceId after with
  | true => simp
  | false => cases after <;> simp

/-- A page resets when its cursor is of another instance or beyond the latest event. -/
theorem Holds.reset_iff (h : r.Holds log) (hnumbers : Lib.Numbered Json.seq 1 log)
    (instanceId : Option String) (after : Option ℕ) (limit maxBytes : ℕ) :
    (r.page instanceId after limit maxBytes).reset = true ↔
      (∃ i, instanceId = some i ∧ i ≠ r.instanceId) ∨ ∃ a, after = some a ∧ log.length < a := by
  simp only [page, resets, h.latest_eq hnumbers]
  cases instanceId <;> cases after <;> simp

end Ring

/-! ## The bus -/

/-- The emitter; the number published last is what waits look at. -/
structure Bus where
  instanceId : String
  seq : ℕ := 0
  ring : Ring := { instanceId }
  latest : ℕ := 0
deriving DecidableEq

namespace Bus

variable (b : Bus)

/-- The next event, serialised. -/
def next (size : ℕ) : Json := ⟨b.seq + 1, b.instanceId, size⟩

/-- Numbers an event and stores it in the ring. -/
def store (size : ℕ) : Bus :=
  { b with seq := b.seq + 1, ring := b.ring.push (b.next size) }

/-- Publishes the number of the event that was stored. -/
def publish : Bus := { b with latest := b.seq }

def emit (size : ℕ) : Bus := (b.store size).publish

end Bus

/-! ## Requests -/

/-- The longest wait of a request, in seconds. -/
def maxWait : ℕ := 60

structure EventsQuery where
  instanceId : Option String := none
  after : Option ℕ := none
  limit : ℕ := ringEvents
  wait : ℕ := 0
deriving DecidableEq

/-- A parameter of a request. -/
inductive Parameter where
  | instanceId (value : String)
  | after (value : ℕ)
  | limit (value : ℕ)
  | wait (seconds : ℕ)
deriving DecidableEq

/-- The query of a request; what does not parse is left out. -/
def parseEventsQuery (parameters : List Parameter) : EventsQuery :=
  parameters.foldl
    (fun q parameter => match parameter with
      | .instanceId value => { q with instanceId := some value }
      | .after value => { q with after := some value }
      | .limit value => { q with limit := max 1 (min value ringEvents) }
      | .wait seconds => { q with wait := min seconds maxWait })
    {}

namespace Bus

variable (b : Bus)

/-- The page that a query gets now. -/
def answer (q : EventsQuery) : Page := b.ring.page q.instanceId q.after q.limit ringBytes

/-- A request waits when it would get nothing. -/
def Waits (q : EventsQuery) : Prop :=
  (b.answer q).events = [] ∧ (b.answer q).reset = false ∧ q.wait ≠ 0

instance (q : EventsQuery) : Decidable (b.Waits q) :=
  inferInstanceAs (Decidable (_ ∧ _ ∧ _))

/-- The published number ends the wait of a query. -/
def Wakes (q : EventsQuery) : Prop := q.after.getD 0 < b.latest

end Bus

/-! ## The follower -/

/-- The state of the command that prints the events. -/
structure Follower where
  instanceId : Option String := none
  after : Option ℕ := none
deriving DecidableEq

namespace Follower

variable (f : Follower)

/-- The parameters that say where the next request starts. -/
def cursor : List Parameter :=
  f.instanceId.toList.map .instanceId ++ f.after.toList.map .after

/-- The wait of the next request. -/
def wait (follow : Bool) : ℕ := if follow && f.instanceId.isSome then maxWait else 0

/-- The parameters of the next request. -/
def parameters (follow : Bool) : List Parameter :=
  f.cursor ++ if f.wait follow = 0 then [] else [.wait (f.wait follow)]

/-- What the command takes from a page. -/
def receive (p : Page) : Follower :=
  { instanceId := some p.instanceId
    after := p.events.foldl (fun _ json => some json.seq) f.after }

/-- The cursor of a client that follows the events: the instance of the last response, and
the last number that it received from this instance. -/
def advance (p : Page) : Follower :=
  { instanceId := some p.instanceId
    after := (p.events.getLast?.map Json.seq).or
      (if f.instanceId = some p.instanceId then f.after else none) }

theorem foldl_seq (l : List Json) (after : Option ℕ) :
    l.foldl (fun _ json => some json.seq) after = (l.getLast?.map Json.seq).or after := by
  induction l generalizing after with
  | nil => rfl
  | cons json l ih =>
    rw [List.foldl_cons, ih, List.getLast?_cons]
    cases l.getLast? <;> rfl

/-- **The command follows the events** unless the page has none and is of another instance:
it then keeps a number of the previous one. -/
theorem receive_eq_advance_iff (p : Page) :
    f.receive p = f.advance p ↔
      p.events ≠ [] ∨ f.instanceId = some p.instanceId ∨ f.after = none := by
  rw [receive, advance, Follower.mk.injEq, foldl_seq]
  cases hlast : p.events.getLast? with
  | none =>
    have hnil : p.events = [] := List.getLast?_eq_none_iff.mp hlast
    by_cases hsame : f.instanceId = some p.instanceId
    · simp [hsame]
    · simp [hsame, hnil]
  | some json =>
    have hne : p.events ≠ [] := by
      rintro hnil
      rw [hnil] at hlast
      cases hlast
    simp [hne]

end Follower

end Polywan.Events
