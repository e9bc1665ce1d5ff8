import Mathlib.Data.BitVec
import Mathlib.Data.List.Induction
import Polywan.Probe.Icmp

/-!
# Matching replies to attempts

The attempts of a path share one raw socket.  An attempt registers a waiter under the next
sequence number and removes what stands there when it ends; a packet that matches a waiter
removes it and sends the round-trip time to its attempt.  Starting, delivering and ending
happen in any order, in different tasks, each under the lock of the socket's state.

Numbers are 16 bits wide and come back after 65536 attempts, so that all of this rests on
no attempt staying open for that long.

## Main definitions

* `Probe.Icmp` — the state of the socket, with `register`, `deliver` and `unregister`.
* `Probe.Exchange` — the socket with its attempts and a log of the resolutions.
* `Probe.Exchange.Spaced` — no attempt has been open for 65536 others.

## Main results

* `Probe.Exchange.Sound.step` — the waiters stay the open unresolved attempts.
* `Probe.Exchange.replies_matched` — every run matches replies safely.
-/

namespace Polywan.Probe

open Lib (Byte)

/-! ## The socket -/

/-- An attempt that waits for a reply; `reply` is the attempt that its channel leads to. -/
structure Waiter where
  target : IpAddr
  token : Token
  sent : ℕ
  reply : ℕ
deriving DecidableEq

/-- The raw socket of a path: the last sequence number and the waiting attempts. -/
structure Icmp where
  v6 : Bool
  id : BitVec 16
  seq : BitVec 16
  waiters : Std.ExtTreeMap (BitVec 16) Waiter := ∅

namespace Icmp

/-- Registers an attempt under the next sequence number. -/
def register (s : Icmp) (w : Waiter) : Icmp :=
  { s with seq := s.seq + 1, waiters := s.waiters.insert (s.seq + 1) w }

/-- A packet that arrives at an instant; a match is sent to its attempt. -/
def deliver (s : Icmp) (packet : List Byte) (sender : IpAddr) (now : ℕ) :
    Icmp × Option (ℕ × ℕ) :=
  match parseEchoReply s.v6 packet sender with
  | some (some reply) =>
    if reply.id ≠ s.id then (s, none)
    else
      match s.waiters[reply.seq]? with
      | some w =>
        if w.target = reply.source ∧ w.token = reply.token then
          ({ s with waiters := s.waiters.erase reply.seq }, some (w.reply, now - w.sent))
        else (s, none)
      | none => (s, none)
  | _ => (s, none)

/-- Removes what waits under a sequence number. -/
def unregister (s : Icmp) (seq : BitVec 16) : Icmp :=
  { s with waiters := s.waiters.erase seq }

end Icmp

/-! ## Attempts -/

/-- What an attempt sends, and when. -/
structure Request where
  target : IpAddr
  token : Token
  sent : ℕ
  seq : BitVec 16
deriving DecidableEq

/-- What the attempt of a number registers. -/
def Request.waiter (r : Request) (i : ℕ) : Waiter := ⟨r.target, r.token, r.sent, i⟩

/-- An attempt: its request, what its channel holds, what it returned and whether it removed
its waiter. -/
structure Attempt where
  request : Request
  reply : Option ℕ := none
  result : Option (Option ℕ) := none
  ended : Bool := false

namespace Attempt

variable (a : Attempt)

/-- A round-trip time arrives; one that comes after the result is lost. -/
def send (rtt : ℕ) : Attempt := if a.result.isNone then { a with reply := some rtt } else a

/-- The attempt returns: with what its channel holds, or with nothing when it could not
send or was canceled. -/
def close (read : Bool) : Attempt :=
  if a.result.isNone then { a with result := some (if read then a.reply else none) } else a

end Attempt

/-- What can happen at a socket. -/
inductive Exchange.Event where
  | start (target : IpAddr) (token : Token) (now : ℕ)
  | deliver (packet : List Byte) (sender : IpAddr) (now : ℕ)
  | close (attempt : ℕ) (read : Bool)
  | finish (attempt : ℕ)

/-- A socket with its attempts in the order of their start, the number of packets that
arrived, and which packet resolved which attempt. -/
structure Exchange where
  icmp : Icmp
  attempts : List Attempt := []
  packets : ℕ := 0
  resolutions : List (ℕ × ℕ) := []

namespace Exchange

/-- A new socket, with a random identifier and first number. -/
def new (v6 : Bool) (id seq : BitVec 16) : Exchange := { icmp := { v6, id, seq } }

variable (x : Exchange)

def step : Event → Exchange
  | .start target token now =>
    let request : Request := { target, token, sent := now, seq := x.icmp.seq + 1 }
    { x with
      icmp := x.icmp.register (request.waiter x.attempts.length)
      attempts := x.attempts ++ [{ request }] }
  | .deliver packet sender now =>
    match x.icmp.deliver packet sender now with
    | (icmp, none) => { x with icmp, packets := x.packets + 1 }
    | (icmp, some (i, rtt)) =>
      { icmp
        attempts := x.attempts.modify i (Attempt.send · rtt)
        packets := x.packets + 1
        resolutions := x.resolutions ++ [(x.packets, i)] }
  | .close i read => { x with attempts := x.attempts.modify i (Attempt.close · read) }
  | .finish i =>
    match x.attempts[i]? with
    | some a =>
      if a.result.isSome ∧ a.ended = false then
        { x with
          icmp := x.icmp.unregister a.request.seq
          attempts := x.attempts.modify i fun a => { a with ended := true } }
      else x
    | none => x

def run (events : List Event) : Exchange := events.foldl step x

theorem run_concat (events : List Event) (e : Event) :
    x.run (events ++ [e]) = (x.run events).step e := by
  rw [run, List.foldl_concat]
  rfl

/-- The request of an attempt that is open: it has started and not removed its waiter. -/
def live (i : ℕ) : Option Request :=
  (x.attempts[i]?).bind fun a => if a.ended then none else some a.request

def resolved : List ℕ := x.resolutions.map Prod.snd

/-- Fewer than 65536 further attempts have started since any open one. -/
def Spaced : Prop := ∀ i r, x.live i = some r → x.attempts.length - 1 - i < 65536

end Exchange

/-! ## What one step does -/

/-- A packet is ignored, or matches a waiter and removes it. -/
theorem Icmp.deliver_cases (s : Icmp) (packet : List Byte) (sender : IpAddr) (now : ℕ) :
    s.deliver packet sender now = (s, none) ∨
    ∃ seq w, s.waiters[seq]? = some w ∧
      parseEchoReply s.v6 packet sender = some (some ⟨w.target, s.id, seq, w.token⟩) ∧
      s.deliver packet sender now = (s.unregister seq, some (w.reply, now - w.sent)) := by
  rw [deliver]
  split
  · next reply hparse =>
      by_cases hid : reply.id = s.id
      · rw [if_neg (not_not.mpr hid)]
        split
        · next w hw =>
            by_cases hmatch : w.target = reply.source ∧ w.token = reply.token
            · rw [if_pos hmatch]
              refine .inr ⟨reply.seq, w, hw, ?_, rfl⟩
              rw [hparse, hmatch.1, hmatch.2, ← hid]
            · rw [if_neg hmatch]
              exact .inl rfl
        · exact .inl rfl
      · rw [if_pos hid]
        exact .inl rfl
  · exact .inl rfl

namespace Attempt

variable {a : Attempt}

@[simp] theorem request_send (rtt : ℕ) : (a.send rtt).request = a.request := by
  rw [send]
  split <;> rfl

@[simp] theorem ended_send (rtt : ℕ) : (a.send rtt).ended = a.ended := by
  rw [send]
  split <;> rfl

@[simp] theorem request_close (read : Bool) : (a.close read).request = a.request := by
  rw [close]
  split <;> rfl

@[simp] theorem ended_close (read : Bool) : (a.close read).ended = a.ended := by
  rw [close]
  split <;> rfl

/-- A round-trip time has reached the attempt, or is its result. -/
def Heard (a : Attempt) : Prop := ∃ rtt, a.reply = some rtt ∨ a.result = some (some rtt)

theorem heard_of_close {read : Bool} (h : (a.close read).Heard) : a.Heard := by
  rw [close] at h
  split at h
  · obtain ⟨rtt, hreply | hresult⟩ := h
    · exact ⟨rtt, .inl hreply⟩
    · refine ⟨rtt, .inl ?_⟩
      cases read with
      | true => exact Option.some.inj hresult
      | false => cases Option.some.inj hresult
  · exact h

end Attempt

namespace Exchange

section Live

variable {x : Exchange} {i j : ℕ} {r : Request}

theorem lt_length_of_live (h : x.live i = some r) : i < x.attempts.length := by
  rw [live, Option.bind_eq_some_iff] at h
  obtain ⟨a, ha, -⟩ := h
  exact (List.getElem?_eq_some_iff.mp ha).1

/-- Changing what an attempt holds keeps the open ones. -/
theorem live_modify {f : Attempt → Attempt} (hrequest : ∀ a, (f a).request = a.request)
    (hended : ∀ a, (f a).ended = a.ended) {x' : Exchange}
    (hattempts : x'.attempts = x.attempts.modify i f) : x'.live = x.live := by
  funext j
  rw [live, live, hattempts, List.getElem?_modify]
  cases x.attempts[j]? with
  | none => rfl
  | some a =>
    by_cases hij : i = j
    · simp [hij, hrequest, hended]
    · simp [hij]

theorem live_finish {x' : Exchange}
    (hattempts : x'.attempts = x.attempts.modify i fun a => { a with ended := true }) :
    x'.live j = if i = j then none else x.live j := by
  rw [live, live, hattempts, List.getElem?_modify]
  cases x.attempts[j]? with
  | none => simp
  | some a =>
    by_cases hij : i = j
    · simp [hij]
    · simp [hij]

theorem live_start {x' : Exchange} (hattempts : x'.attempts = x.attempts ++ [{ request := r }]) :
    x'.live j = if x.attempts.length = j then some r else x.live j := by
  rw [live, live, hattempts, List.getElem?_append]
  by_cases hlt : j < x.attempts.length
  · rw [if_pos hlt, if_neg (by omega)]
  · rw [if_neg hlt]
    by_cases heq : x.attempts.length = j
    · simp [heq]
    · have hbeyond : x.attempts[j]? = none := List.getElem?_eq_none (by omega)
      rw [if_neg heq, hbeyond, List.getElem?_eq_none (by simp; omega)]

end Live

/-! ## The waiters are the open unresolved attempts -/

/-- Requests are numbered in the order of their start, the waiters are those of the open
attempts that are not resolved, and no packet and no attempt is resolved twice. -/
structure Sound (first : BitVec 16) (x : Exchange) : Prop where
  counter : x.icmp.seq = first + BitVec.ofNat 16 x.attempts.length
  numbered : ∀ i r, x.live i = some r → r.seq = first + BitVec.ofNat 16 (i + 1)
  waiting : ∀ seq w, x.icmp.waiters[seq]? = some w ↔
    ∃ i r, x.live i = some r ∧ i ∉ x.resolved ∧ r.seq = seq ∧ w = r.waiter i
  started : ∀ i ∈ x.resolved, i < x.attempts.length
  arrived : ∀ n ∈ x.resolutions.map Prod.fst, n < x.packets
  packets : (x.resolutions.map Prod.fst).Nodup
  once : x.resolved.Nodup

section Sound

variable {x : Exchange} {first : BitVec 16} {i j : ℕ} {r r' : Request}

/-- Numbers come back after 65536 attempts, not earlier. -/
theorem number_inj {n : ℕ} (hi : i < n) (hj : j < n) (hwide : n - 1 - i < 65536)
    (hwide' : n - 1 - j < 65536)
    (hseq : first + BitVec.ofNat 16 (i + 1) = first + BitVec.ofNat 16 (j + 1)) : i = j := by
  have hnat := congrArg BitVec.toNat (add_left_cancel hseq)
  simp only [BitVec.toNat_ofNat] at hnat
  omega

/-- Open attempts have different numbers. -/
theorem Sound.seq_inj (h : Sound first x) (hspaced : x.Spaced) (hi : x.live i = some r)
    (hj : x.live j = some r') (hseq : r.seq = r'.seq) : i = j := by
  rw [h.numbered i r hi, h.numbered j r' hj] at hseq
  exact number_inj (lt_length_of_live hi) (lt_length_of_live hj) (hspaced i r hi)
    (hspaced j r' hj) hseq

theorem sound_new (v6 : Bool) (id first : BitVec 16) : Sound first (new v6 id first) where
  counter := by simp [new]
  numbered i r h := by simp [live, new] at h
  waiting seq w := by simp [live, new]
  started := by simp [resolved, new]
  arrived := by simp [new]
  packets := List.nodup_nil
  once := List.nodup_nil

/-- A new attempt takes a number that no open one has. -/
theorem Sound.start (h : Sound first x) (target : IpAddr) (token : Token) (now : ℕ)
    (hspaced : (x.step (.start target token now)).Spaced) :
    Sound first (x.step (.start target token now)) := by
  have hlive : ∀ j, (x.step (.start target token now)).live j =
      if x.attempts.length = j then some ⟨target, token, now, x.icmp.seq + 1⟩
      else x.live j := fun j => live_start rfl
  have hlength : (x.step (.start target token now)).attempts.length = x.attempts.length + 1 :=
    List.length_append
  have hnext : x.icmp.seq + 1 = first + BitVec.ofNat 16 (x.attempts.length + 1) := by
    rw [h.counter, BitVec.ofNat_add, add_assoc]
    rfl
  have hnumbered : ∀ i r, (x.step (.start target token now)).live i = some r →
      r.seq = first + BitVec.ofNat 16 (i + 1) := by
    intro i r hi
    rw [hlive] at hi
    split at hi
    · next heq =>
        cases hi
        rw [← heq]
        exact hnext
    · exact h.numbered i r hi
  refine ⟨?_, hnumbered, fun seq w => ?_, fun i hi => ?_, h.arrived, h.packets, h.once⟩
  · rw [hlength]
    exact hnext
  · change (x.icmp.waiters.insert (x.icmp.seq + 1) _)[seq]? = some w ↔ _
    rw [Std.ExtTreeMap.getElem?_insert]
    simp only [Std.compare_eq_iff_eq]
    split
    · next hseq =>
        constructor
        · intro hw
          cases hw
          refine ⟨x.attempts.length, _, by rw [hlive, if_pos rfl], ?_, hseq, rfl⟩
          exact fun hmem => (h.started _ hmem).false
        · rintro ⟨i, r, hi, -, hr, rfl⟩
          -- Only the new attempt has the number.
          have hnumber : first + BitVec.ofNat 16 (i + 1) =
              first + BitVec.ofNat 16 (x.attempts.length + 1) := by
            rw [← hnumbered i r hi, hr, ← hseq, hnext]
          have hnew : i = x.attempts.length :=
            number_inj (lt_length_of_live hi) (by omega) (hspaced i r hi) (by omega) hnumber
          rw [hlive, if_pos hnew.symm] at hi
          cases hi
          rw [hnew]
    · next hseq =>
        rw [h.waiting]
        refine exists_congr fun i => exists_congr fun r => ?_
        rw [hlive]
        split
        · next heq =>
            constructor
            · rintro ⟨hi, -⟩
              exact absurd (lt_length_of_live hi) (by omega)
            · rintro ⟨hi, -, hr, -⟩
              cases hi
              exact absurd hr hseq
        · rfl
  · rw [hlength]
    exact (h.started i hi).trans (Nat.lt_succ_self _)

/-- A packet that matches takes its attempt out of the waiting ones. -/
theorem Sound.deliver (h : Sound first x) (hspaced : x.Spaced) (packet : List Byte)
    (sender : IpAddr) (now : ℕ) : Sound first (x.step (.deliver packet sender now)) := by
  rw [step]
  obtain hignored | ⟨seq, w, hw, -, hmatch⟩ := x.icmp.deliver_cases packet sender now
  · rw [hignored]
    exact ⟨h.counter, h.numbered, h.waiting, h.started,
      fun n hn => (h.arrived n hn).trans (Nat.lt_succ_self _), h.packets, h.once⟩
  · obtain ⟨i, r, hi, hopen, hseq, rfl⟩ := (h.waiting seq w).mp hw
    rw [hmatch]
    dsimp only [Request.waiter]
    generalize hx' : ({ icmp := _, attempts := _, packets := _, resolutions := _ } : Exchange) = x'
    have hlive : x'.live = x.live := by
      rw [← hx']
      exact live_modify (fun _ => Attempt.request_send _) (fun _ => Attempt.ended_send _) rfl
    have hresolved : x'.resolved = x.resolved ++ [i] := by
      rw [← hx', resolved, List.map_append]
      rfl
    have hlength : x'.attempts.length = x.attempts.length := by
      rw [← hx', List.length_modify]
    refine ⟨?_, ?_, fun seq' w' => ?_, fun j hj => ?_, ?_, ?_, ?_⟩
    · rw [hlength, ← hx']
      exact h.counter
    · rw [hlive]
      exact h.numbered
    · have hwaiters : x'.icmp.waiters = x.icmp.waiters.erase seq := by rw [← hx']; rfl
      rw [hwaiters, Std.ExtTreeMap.getElem?_erase, hlive, hresolved]
      simp only [Std.compare_eq_iff_eq, List.mem_append, List.mem_singleton, not_or]
      split
      · next heq =>
          refine iff_of_false (by simp) ?_
          rintro ⟨j, r', hj, ⟨-, hne⟩, hr', -⟩
          exact hne (h.seq_inj hspaced hj hi (by rw [hr', hseq, heq]))
      · next hne =>
          rw [h.waiting]
          refine exists_congr fun j => exists_congr fun r' => ?_
          constructor
          · rintro ⟨hj, hjopen, hr', rfl⟩
            refine ⟨hj, ⟨hjopen, ?_⟩, hr', rfl⟩
            rintro rfl
            rw [hi] at hj
            cases hj
            exact hne (hseq.symm.trans hr')
          · rintro ⟨hj, ⟨hjopen, -⟩, hr', rfl⟩
            exact ⟨hj, hjopen, hr', rfl⟩
    · rw [hresolved, List.mem_append, List.mem_singleton] at hj
      rw [hlength]
      obtain hj | rfl := hj
      · exact h.started j hj
      · exact lt_length_of_live hi
    · rw [← hx']
      intro n hn
      simp only [List.map_append, List.map_cons, List.map_nil, List.mem_append,
        List.mem_singleton] at hn
      obtain hn | rfl := hn
      · exact (h.arrived n hn).trans (Nat.lt_succ_self _)
      · exact Nat.lt_succ_self _
    · rw [← hx', List.map_append, List.nodup_append']
      refine ⟨h.packets, by simp, ?_⟩
      exact List.disjoint_singleton.mpr fun hn => (h.arrived _ hn).false
    · rw [hresolved, List.nodup_append']
      exact ⟨h.once, by simp, by simpa using hopen⟩

theorem Sound.close (h : Sound first x) (i : ℕ) (read : Bool) :
    Sound first (x.step (.close i read)) := by
  have hlive : (x.step (.close i read)).live = x.live :=
    live_modify (fun _ => Attempt.request_close _) (fun _ => Attempt.ended_close _) rfl
  have hlength : (x.step (.close i read)).attempts.length = x.attempts.length :=
    List.length_modify ..
  refine ⟨?_, ?_, ?_, ?_, h.arrived, h.packets, h.once⟩
  · rw [hlength]
    exact h.counter
  · rw [hlive]
    exact h.numbered
  · rw [hlive]
    exact h.waiting
  · rw [hlength]
    exact h.started

/-- An attempt that ends removes its own waiter, if any. -/
theorem Sound.finish (h : Sound first x) (hspaced : x.Spaced) (i : ℕ) :
    Sound first (x.step (.finish i)) := by
  rw [step]
  split
  · next a ha =>
      split
      · next hends =>
          have hi : x.live i = some a.request := by simp [live, ha, hends.2]
          generalize hx' : ({ x with icmp := _, attempts := _ } : Exchange) = x'
          have hlive : ∀ j, x'.live j = if i = j then none else x.live j := by
            intro j
            rw [← hx']
            exact live_finish rfl
          have hlength : x'.attempts.length = x.attempts.length := by
            rw [← hx', List.length_modify]
          have hlog : x'.resolutions = x.resolutions ∧ x'.packets = x.packets := by
            rw [← hx']
            exact ⟨rfl, rfl⟩
          refine ⟨?_, fun j r hj => ?_, fun seq w => ?_, ?_, ?_, ?_, ?_⟩
          · rw [hlength, ← hx']
            exact h.counter
          · rw [hlive] at hj
            split at hj
            · cases hj
            · exact h.numbered j r hj
          · have hwaiters : x'.icmp.waiters = x.icmp.waiters.erase a.request.seq := by
              rw [← hx']
              rfl
            rw [hwaiters, Std.ExtTreeMap.getElem?_erase, resolved, hlog.1, ← resolved]
            simp only [Std.compare_eq_iff_eq, hlive]
            split
            · next heq =>
                refine iff_of_false (by simp) ?_
                rintro ⟨j, r, hj, -, hr, -⟩
                split at hj
                · cases hj
                · next hne => exact hne (h.seq_inj hspaced hi hj (by rw [hr, heq]))
            · next hne =>
                rw [h.waiting]
                refine exists_congr fun j => exists_congr fun r => ?_
                split
                · next heq =>
                    refine iff_of_false ?_ (by simp)
                    rintro ⟨hj, -, hr, -⟩
                    rw [← heq, hi] at hj
                    cases hj
                    exact hne hr
                · rfl
          · rw [hlength, resolved, hlog.1]
            exact h.started
          · rw [hlog.1, hlog.2]
            exact h.arrived
          · rw [hlog.1]
            exact h.packets
          · rw [resolved, hlog.1]
            exact h.once
      · exact h
  · exact h

/-- **One step keeps the waiters the open unresolved attempts**, as long as no attempt is open
for 65536 others. -/
theorem Sound.step (h : Sound first x) (hspaced : x.Spaced) (e : Event)
    (hspaced' : (x.step e).Spaced) : Sound first (x.step e) := by
  cases e with
  | start target token now => exact h.start target token now hspaced'
  | deliver packet sender now => exact h.deliver hspaced packet sender now
  | close i read => exact h.close i read
  | finish i => exact h.finish hspaced i

theorem sound_run {v6 : Bool} {id first : BitVec 16} {events : List Event}
    (hspaced : ∀ before, before <+: events → ((new v6 id first).run before).Spaced) :
    Sound first ((new v6 id first).run events) := by
  induction events using List.reverseRecOn with
  | nil => exact sound_new v6 id first
  | append_singleton events e ih =>
    rw [run_concat]
    refine (ih fun before hbefore => hspaced before (hbefore.trans ⟨[e], rfl⟩)).step
      (hspaced events ⟨[e], rfl⟩) e ?_
    rw [← run_concat]
    exact hspaced _ List.prefix_rfl

end Sound

/-! ## Where a round-trip time comes from -/

section Heard

variable {x : Exchange} {first : BitVec 16} {i : ℕ} {e : Event} {a' : Attempt}

theorem icmp_step (x : Exchange) (e : Event) :
    (x.step e).icmp.v6 = x.icmp.v6 ∧ (x.step e).icmp.id = x.icmp.id := by
  cases e with
  | start target token now => exact ⟨rfl, rfl⟩
  | deliver packet sender now =>
    rw [step]
    obtain hignored | ⟨seq, w, -, -, hmatch⟩ := x.icmp.deliver_cases packet sender now
    · rw [hignored]
      exact ⟨rfl, rfl⟩
    · rw [hmatch]
      exact ⟨rfl, rfl⟩
  | close i read => exact ⟨rfl, rfl⟩
  | finish i =>
    rw [step]
    split
    · split <;> exact ⟨rfl, rfl⟩
    · exact ⟨rfl, rfl⟩

theorem icmp_run (x : Exchange) (events : List Event) :
    (x.run events).icmp.v6 = x.icmp.v6 ∧ (x.run events).icmp.id = x.icmp.id := by
  induction events using List.reverseRecOn with
  | nil => exact ⟨rfl, rfl⟩
  | append_singleton events e ih =>
    rw [run_concat]
    have hstep := icmp_step (x.run events) e
    exact ⟨hstep.1.trans ih.1, hstep.2.trans ih.2⟩

theorem getElem?_modify_eq_some {f : Attempt → Attempt} {attempts : List Attempt} {j : ℕ}
    (h : (attempts.modify i f)[j]? = some a') :
    ∃ a, attempts[j]? = some a ∧ (i = j ∧ a' = f a ∨ a' = a) := by
  rw [List.getElem?_modify] at h
  cases ha : attempts[j]? with
  | none => simp [ha] at h
  | some a =>
    refine ⟨a, rfl, ?_⟩
    by_cases hij : i = j
    · exact .inl ⟨hij, by simpa [ha, hij] using h.symm⟩
    · exact .inr (by simpa [ha, hij] using h.symm)

/-- A round-trip time reaches an attempt by a packet that matches it while it is open. -/
theorem Sound.heard_step (h : Sound first x) (ha' : (x.step e).attempts[i]? = some a')
    (hheard : a'.Heard) :
    (∃ a, x.attempts[i]? = some a ∧ a.request = a'.request ∧ a.Heard) ∨
    ∃ packet sender now, e = .deliver packet sender now ∧ x.live i = some a'.request ∧
      parseEchoReply x.icmp.v6 packet sender =
        some (some ⟨a'.request.target, x.icmp.id, a'.request.seq, a'.request.token⟩) := by
  cases e with
  | start target token now =>
    change (x.attempts ++ [_])[i]? = some a' at ha'
    rw [List.getElem?_append] at ha'
    split at ha'
    · exact .inl ⟨a', ha', rfl, hheard⟩
    · rw [List.getElem?_singleton] at ha'
      split at ha'
      · cases ha'
        obtain ⟨rtt, hreply | hresult⟩ := hheard
        · cases hreply
        · cases hresult
      · cases ha'
  | deliver packet sender now =>
    rw [Exchange.step] at ha'
    obtain hignored | ⟨seq, w, hw, hparse, hmatch⟩ :=
      x.icmp.deliver_cases packet sender now
    · rw [hignored] at ha'
      exact .inl ⟨a', ha', rfl, hheard⟩
    · rw [hmatch] at ha'
      obtain ⟨a, ha, ⟨hi, rfl⟩ | rfl⟩ := getElem?_modify_eq_some ha'
      · obtain ⟨j, r, hlive, -, hseq, rfl⟩ := (h.waiting seq w).mp hw
        have hj : j = i := hi
        subst hj
        have hrequest : a.request = r := by
          rw [live, ha, Option.bind_some] at hlive
          split at hlive
          · cases hlive
          · exact Option.some.inj hlive
        refine .inr ⟨packet, sender, now, rfl, ?_, ?_⟩
        · rw [Attempt.request_send, hrequest]
          exact hlive
        · rw [Attempt.request_send, hrequest, hparse, ← hseq]
          rfl
      · exact .inl ⟨_, ha, rfl, hheard⟩
  | close j read =>
    obtain ⟨a, ha, ⟨-, rfl⟩ | rfl⟩ := getElem?_modify_eq_some ha'
    · exact .inl ⟨a, ha, (Attempt.request_close read).symm, Attempt.heard_of_close hheard⟩
    · exact .inl ⟨_, ha, rfl, hheard⟩
  | finish j =>
    rw [Exchange.step] at ha'
    split at ha'
    · split at ha'
      · obtain ⟨a, ha, ⟨-, rfl⟩ | rfl⟩ := getElem?_modify_eq_some ha'
        · exact .inl ⟨a, ha, rfl, hheard⟩
        · exact .inl ⟨_, ha, rfl, hheard⟩
      · exact .inl ⟨a', ha', rfl, hheard⟩
    · exact .inl ⟨a', ha', rfl, hheard⟩

/-- A packet that matches the attempt was delivered while it was open. -/
theorem exists_reply_of_heard {v6 : Bool} {id first : BitVec 16} {events : List Event}
    (hspaced : ∀ before, before <+: events → ((new v6 id first).run before).Spaced)
    (ha' : ((new v6 id first).run events).attempts[i]? = some a') (hheard : a'.Heard) :
    ∃ before packet sender now after, events = before ++ .deliver packet sender now :: after ∧
      ((new v6 id first).run before).live i = some a'.request ∧
      parseEchoReply v6 packet sender =
        some (some ⟨a'.request.target, id, a'.request.seq, a'.request.token⟩) := by
  induction events using List.reverseRecOn generalizing a' with
  | nil => simp [run, new] at ha'
  | append_singleton events e ih =>
    have hbefore : ∀ before, before <+: events → ((new v6 id first).run before).Spaced :=
      fun before hle => hspaced before (hle.trans ⟨[e], rfl⟩)
    have hicmp := icmp_run (new v6 id first) events
    rw [run_concat] at ha'
    obtain ⟨a, ha, hrequest, hheard⟩ | ⟨packet, sender, now, rfl, hlive, hparse⟩ :=
      (sound_run hbefore).heard_step ha' hheard
    · obtain ⟨before, packet, sender, now, after, rfl, hlive, hparse⟩ := ih hbefore ha hheard
      rw [hrequest] at hlive hparse
      exact ⟨before, packet, sender, now, after ++ [e], by simp, hlive, hparse⟩
    · rw [hicmp.1, hicmp.2] at hparse
      exact ⟨events, packet, sender, now, [], rfl, hlive, hparse⟩

end Heard

/-! ## Every run -/

/-- **Replies are matched safely.**  In every run in which fewer than 65536 further attempts
start while one is open, an attempt returns a round-trip time only when a packet with the
identifier of the socket and its own number and token came from its target while it was
open; no packet resolves two attempts and no attempt is resolved twice; and the waiters are
exactly the open attempts that are not resolved. -/
theorem replies_matched (v6 : Bool) (id first : BitVec 16) (events : List Event)
    (hspaced : ∀ before, before <+: events → ((new v6 id first).run before).Spaced) :
    (∀ i a rtt, ((new v6 id first).run events).attempts[i]? = some a →
      a.result = some (some rtt) →
      ∃ before packet sender now after, events = before ++ .deliver packet sender now :: after ∧
        ((new v6 id first).run before).live i = some a.request ∧
        parseEchoReply v6 packet sender =
          some (some ⟨a.request.target, id, a.request.seq, a.request.token⟩)) ∧
    (((new v6 id first).run events).resolutions.map Prod.fst).Nodup ∧
    (((new v6 id first).run events).resolutions.map Prod.snd).Nodup ∧
    (∀ seq w, ((new v6 id first).run events).icmp.waiters[seq]? = some w ↔
      ∃ i r, ((new v6 id first).run events).live i = some r ∧
        i ∉ ((new v6 id first).run events).resolved ∧ r.seq = seq ∧ w = r.waiter i) ∧
    ((∀ i, ((new v6 id first).run events).live i = none) →
      ((new v6 id first).run events).icmp.waiters = ∅) := by
  have hsound := sound_run hspaced
  refine ⟨fun i a rtt ha hresult => exists_reply_of_heard hspaced ha ⟨rtt, .inr hresult⟩,
    hsound.packets, hsound.once, hsound.waiting, fun hnone => ?_⟩
  refine Std.ExtTreeMap.ext_getElem? fun seq => ?_
  rw [Std.ExtTreeMap.getElem?_empty, Option.eq_none_iff_forall_not_mem]
  intro w hw
  obtain ⟨i, r, hlive, -⟩ := (hsound.waiting seq w).mp hw
  rw [hnone i] at hlive
  cases hlive

theorem length_attempts_run_le (x : Exchange) (events : List Event) :
    (x.run events).attempts.length ≤ x.attempts.length + events.length := by
  induction events using List.reverseRecOn with
  | nil => exact le_rfl
  | append_singleton events e ih =>
    have hstep : ∀ y : Exchange, (y.step e).attempts.length ≤ y.attempts.length + 1 := by
      intro y
      cases e with
      | start target token now => exact List.length_append.le
      | deliver packet sender now =>
        rw [step]
        split <;> simp
      | close i read => simp [step]
      | finish i =>
        rw [step]
        split
        · split <;> simp
        · simp
    rw [run_concat, List.length_append, List.length_singleton]
    have := hstep (x.run events)
    omega

/-- An echo and a duplicate of it, with the number that follows a wrap. -/
def echoes : List Event :=
  let token : Token := ⟨List.replicate 16 7, rfl⟩
  [.start (.v6 1) token 10, .deliver (replyMessage true 0 0 5 0 token []) (.v6 1) 30,
    .deliver (replyMessage true 0 0 5 0 token []) (.v6 1) 40, .close 0 true, .finish 0]

theorem replies_matched_echoes :
    (((new true 5 0xffff).run echoes).attempts.map Attempt.result = [some (some 20)]) ∧
    ((new true 5 0xffff).run echoes).resolutions = [(0, 0)] ∧
    ((new true 5 0xffff).run echoes).icmp.waiters = ∅ := by
  refine ⟨by decide +kernel, by decide +kernel,
    (replies_matched true 5 0xffff echoes ?_).2.2.2.2 ?_⟩
  · intro before hbefore i r hlive
    have hlength := length_attempts_run_le (new true 5 0xffff) before
    have hshort : before.length ≤ 5 := hbefore.length_le
    have hnew : (new true 5 0xffff).attempts.length = 0 := rfl
    omega
  · have hended : ((new true 5 0xffff).run echoes).attempts.all Attempt.ended = true := by
      decide +kernel
    intro i
    rw [live]
    cases ha : ((new true 5 0xffff).run echoes).attempts[i]? with
    | none => rfl
    | some a =>
      have := List.all_eq_true.mp hended a (List.mem_of_getElem? ha)
      simp [this]

end Exchange

end Polywan.Probe
