import Polywan.Lib.Told

/-!
# Systemd notifications

`READY=1` is sent once and `STATUS=` when the summary changed.  A message that found the queue
full is pending; one that failed otherwise is given up.

## Main results

* `Notifications.State.settled_run` — nothing is pending exactly when the current state was settled.
-/

namespace Polywan.Notifications

/-- What the socket does with a message: only a full queue is tried again. -/
inductive Outcome
  | sent
  | full
  | failed
  deriving DecidableEq

structure Message where
  ready : Bool
  status : Option String

/-- The text of a message. -/
def Message.text (m : Message) : String :=
  (if m.ready then "READY=1\n" else "") ++ (m.status.elim "" fun s => "STATUS=" ++ s ++ "\n")

/-- The notifications, with the messages that were taken or given up. -/
structure State where
  readySent : Bool := false
  statusSent : String := ""
  settled : List Message := []

/-- The state of the daemon, and what happens to a message about it. -/
structure Update where
  ready : Bool
  status : String
  outcome : Outcome

namespace State

def message (n : State) (u : Update) : Message where
  ready := u.ready && !n.readySent
  status := if u.status ≠ n.statusSent then some u.status else none

/-- Sends what changed; the result says whether a message is pending. -/
def update (n : State) (u : Update) : Bool × State :=
  let m := n.message u
  if m.text = "" then (false, n)
  else if u.outcome = .full then (true, n)
  else (false, ⟨n.readySent || m.ready, u.status, n.settled ++ [m]⟩)

def run (updates : List Update) : State := updates.foldl (fun n u => (n.update u).2) {}

/-- The flags say what the settled messages told. -/
structure Records (n : State) : Prop where
  ready : n.settled.countP Message.ready = n.readySent.toNat
  status : (Lib.lastTold Message.status n.settled).getD "" = n.statusSent

variable {n : State} (u : Update)

theorem text_message :
    (n.message u).text = "" ↔ (u.ready → n.readySent) ∧ u.status = n.statusSent := by
  by_cases hs : u.status = n.statusSent <;> cases hr : u.ready <;> cases hn : n.readySent <;>
    simp [message, Message.text, hs, hr, hn, String.append_eq_empty_iff]

theorem records_update (h : n.Records) : (n.update u).2.Records := by
  simp only [update]
  split_ifs
  · exact h
  · exact h
  · constructor
    · cases hr : u.ready <;> cases hn : n.readySent <;>
        simp [List.countP_append, h.ready, message, hr, hn]
    · have hstatus := h.status
      by_cases hs : u.status = n.statusSent <;>
        simp [Lib.lastTold_append, Lib.lastTold_cons, message, hs, hstatus]

/-- Nothing is pending exactly when the flags agree with the daemon. -/
theorem update_eq_false_iff : (n.update u).1 = false ↔
    (u.ready → (n.update u).2.readySent) ∧ u.status = (n.update u).2.statusSent := by
  have htext := text_message (n := n) u
  simp only [update]
  split_ifs with hempty hfull
  · simpa using htext.mp hempty
  · simpa using htext.not.mp hempty
  · cases hr : u.ready <;> cases hn : n.readySent <;> simp [message, hr, hn]

/-- **Nothing is pending exactly when the current state was settled.**  After any updates,
whatever the socket did: readiness was in at most one settled message; and the next update
leaves nothing pending iff readiness, if reached, and the current summary are what the settled
messages told last. -/
theorem settled_run (updates : List Update) :
    (run updates).settled.countP Message.ready ≤ 1 ∧
    (((run updates).update u).1 = false ↔
      (u.ready → 0 < ((run updates).update u).2.settled.countP Message.ready) ∧
      (Lib.lastTold Message.status ((run updates).update u).2.settled).getD "" = u.status) := by
  have h : (run updates).Records :=
    List.foldlRecOn updates _ ⟨rfl, rfl⟩ fun n hn u _ => records_update u hn
  have h' := records_update u h
  refine ⟨h.ready ▸ Bool.toNat_le _, ?_⟩
  rw [update_eq_false_iff, h'.ready, h'.status, eq_comm (a := u.status)]
  cases ((run updates).update u).2.readySent <;> simp

end State

end Polywan.Notifications
