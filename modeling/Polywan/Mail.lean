import Mathlib.Data.List.MinMax
import Polywan.Config.Settings
import Polywan.Duration

/-!
# Email notifications

Selected events are coalesced into a batch, which is closed after a while: its message is
admitted by a limit over a rolling hour, or suppressed.  Admitted messages wait for the
sendmail interface, which takes one at a time, and are retried after a failure.  Headers,
dates and the encoding of messages are left out.

## Main definitions

* `Mail.Batch`, `Mail.Admission`, `Mail.Message` — the open batch, the limit and a message.
* `Mail` — the decisions of the notifier.
* `Mail.Notifier`, `Mail.Notifier.step` — the notifier, and what it selects on.
-/

namespace Polywan

namespace Events

/-- An event, as notifications show it. -/
structure Event where
  timestamp : String
  kind : String
  uplink : Option String := none
  family : Option String := none
  message : String
deriving DecidableEq

end Events

/-- The durations of email: a minute of the retries and of the rolling hour, and the deadline
of a submission. -/
structure Mail.Times where
  minute : ℕ := Duration.ofSecs 60
  deadline : ℕ := Duration.ofSecs 60
deriving DecidableEq

namespace Mail

namespace Times

def hour (t : Times) : ℕ := t.minute * 60

/-- Minutes after the preceding failure. -/
def retryMinutes : List ℕ := [1, 5, 15]

/-- The delay before a retry, if there is one. -/
def retry (t : Times) (n : ℕ) : Option ℕ := (retryMinutes[n]?).map (t.minute * ·)

end Times

/-- What a message is. -/
inductive Kind where
  | notification
  | suppressed
  | test
deriving DecidableEq

/-! ## Batches -/

def isControl (c : Char) : Bool := c.toNat < 0x20 || (0x7f ≤ c.toNat && c.toNat < 0xa0)

/-- A control character, escaped. -/
def escapeUnicode (c : Char) : String :=
  "\\u\x7b" ++ String.ofList (Nat.toDigits 16 c.toNat) ++ "\x7d"

/-- One line of a batch; a message never adds lines. -/
def changeLine (e : Events.Event) : String :=
  let parts := [e.uplink, e.family].filterMap id
  s!"{e.timestamp} {e.kind}" ++ String.join (parts.map (" " ++ ·)) ++ ": "
    ++ String.join (e.message.toList.map fun c =>
      if isControl c then escapeUnicode c else String.singleton c)
    ++ "\n"

/-- Retained changes of a batch, and their text. -/
def batchChanges : ℕ := 200

def batchBytes : ℕ := 64 <<< 10

/-- The changes coalesced into the next message. -/
structure Batch where
  deadline : ℕ
  text : String := ""
  changes : ℕ := 0
  omitted : ℕ := 0
deriving DecidableEq

/-- Retains a change within the bounds, or counts it. -/
def Batch.add (b : Batch) (e : Events.Event) : Batch :=
  let line := changeLine e
  if b.changes < batchChanges ∧ b.text.utf8ByteSize + line.utf8ByteSize ≤ batchBytes then
    { b with text := b.text ++ line, changes := b.changes + 1 }
  else { b with omitted := b.omitted + 1 }

def onHost (host : Option String) : String := host.elim "" (" on " ++ ·)

/-- The body of the batch's message, after `suppressed` ones. -/
def Batch.body (b : Batch) (host : Option String) (suppressed : ℕ) : String :=
  let total := b.changes + b.omitted
  "PolyWAN" ++ onHost host ++ s!" reports {total} change" ++ (if total = 1 then "" else "s")
    ++ ":\n\n" ++ b.text
    ++ (if b.omitted = 0 then "" else
      s!"\n{b.omitted} further change" ++ (if b.omitted = 1 then " was" else "s were")
        ++ s!" omitted (a message lists at most {batchChanges} changes and "
        ++ s!"{batchBytes >>> 10} KiB).\n")
    ++ (if suppressed = 0 then "" else
      s!"\n{suppressed} notification" ++ (if suppressed = 1 then " was" else "s were")
        ++ " suppressed by notify.email.max_per_hour before this one.\n")

/-- The body of a suppression notice. -/
def suppressionBody (host : Option String) (maxPerHour : ℕ) : String :=
  "PolyWAN" ++ onHost host ++ s!" reached its limit of {maxPerHour} notification"
    ++ (if maxPerHour = 1 then "" else "s")
    ++ " per hour (notify.email.max_per_hour).\n\nFurther notifications are suppressed until the "
    ++ "rolling hour leaves room; the next notification reports how many were suppressed. At "
    ++ "most one such notice is sent per hour.\n"

/-! ## The limit -/

/-- The limit over a rolling hour. -/
structure Admission where
  /-- The admissions of the last hour, oldest first. -/
  admitted : List ℕ := []
  notice : Option ℕ := none
  /-- Messages suppressed since the last admitted one. -/
  suppressed : ℕ := 0
deriving DecidableEq

inductive Admit where
  /-- Admitted, after `suppressed` messages that were not. -/
  | yes (suppressed : ℕ)
  /-- Suppressed; whether the suppression notice is due. -/
  | no (notice : Bool)
deriving DecidableEq

def Admission.tryAdmit (a : Admission) (now maxPerHour hour : ℕ) : Admit × Admission :=
  let admitted := a.admitted.dropWhile fun t => hour ≤ now - t
  if admitted.length < maxPerHour then
    (.yes a.suppressed, { a with admitted := admitted ++ [now], suppressed := 0 })
  else
    let notice := a.notice.all fun t => hour ≤ now - t
    (.no notice,
      { admitted
        notice := if notice then some now else a.notice
        suppressed := a.suppressed + 1 })

/-! ## Messages -/

/-- A message awaiting submission or retry. -/
structure Message where
  kind : Kind
  id : String
  body : String
  /-- Failed submissions so far. -/
  failures : ℕ
  due : ℕ
deriving DecidableEq

/-- A Message-ID, unique by instance and counter. -/
def messageId (instanceId : String) (n : ℕ) (sender : String) : String :=
  let domain :=
    if sender.contains '@' then
      String.ofList (sender.toList.reverse.takeWhile (· ≠ '@')).reverse
    else "localhost"
  s!"<{n}.{instanceId}@{domain}>"

/-- Messages that wait, and their retained bodies. -/
def waitingMax : ℕ := 8

def waitingBytes : ℕ := 4 <<< 20

/-- Evicts the oldest messages beyond the bounds. -/
def evict : List Message → List Message
  | [] => []
  | old :: rest =>
    if waitingMax < (old :: rest).length
        || waitingBytes < ((old :: rest).map fun m => m.body.utf8ByteSize).sum then evict rest
    else old :: rest

/-- How a submission ended. -/
inductive Submitted where
  | accepted
  | failed
  /-- No conforming message could be built. -/
  | unbuildable
deriving DecidableEq

end Mail

/-- The decisions of the email notifier. -/
structure Mail where
  times : Mail.Times := {}
  instanceId : String
  /-- The number of the last Message-ID. -/
  ids : ℕ := 0
  batch : Option Mail.Batch := none
  admission : Mail.Admission := {}
  /-- Oldest first. -/
  waiting : List Mail.Message := []
deriving DecidableEq

namespace Mail

variable (m : Mail)

/-- The open batch, or a new one that closes `coalesce` from now. -/
def openBatch (now coalesce : ℕ) : Option Batch :=
  match m.batch with
  | some b => some b
  | none => (Instant.checkedAdd now coalesce).map fun deadline => { deadline }

/-- A selected event, into the batch. -/
def add (now coalesce : ℕ) (e : Events.Event) : Option Mail :=
  (m.openBatch now coalesce).map fun b => { m with batch := some (b.add e) }

/-- Queues a message, evicting the oldest beyond the bounds. -/
def wait (msg : Message) : Mail := { m with waiting := evict (m.waiting ++ [msg]) }

/-- Queues a new message. -/
def send (kind : Kind) (body : String) (email : Email) (now : ℕ) : Mail :=
  let ids := m.ids + 1
  wait { m with ids }
    { kind, id := messageId m.instanceId ids email.sender, body, failures := 0, due := now }

/-- Closes the open batch: an admitted message, or a suppression, with its notice once an
hour. -/
def closeBatch (now : ℕ) (email : Email) (host : Option String) : Mail :=
  match m.batch with
  | none => m
  | some batch =>
    let (outcome, admission) := m.admission.tryAdmit now email.maxPerHour m.times.hour
    let m := { m with batch := none, admission }
    match outcome with
    | .yes suppressed => m.send .notification (batch.body host suppressed) email now
    | .no true => m.send .suppressed (suppressionBody host email.maxPerHour) email now
    | .no false => m

/-- When the next waiting message is due. -/
def nextDue : Option ℕ := (m.waiting.map Message.due).min?

/-- The first waiting message due. -/
def takeDue (now : ℕ) : Option Message × Mail :=
  match (m.waiting.zipIdx.filter fun e => e.1.due ≤ now).argmin fun e => e.1.due with
  | none => (none, m)
  | some (msg, i) => (some msg, { m with waiting := m.waiting.eraseIdx i })

/-- A failed submission: retried after its delay, or dropped after the last retry. -/
def failed (msg : Message) (now : ℕ) : Mail :=
  match m.times.retry msg.failures with
  | some delay => m.wait { msg with failures := msg.failures + 1, due := now + delay }
  | none => m

/-- Email removed: what is pending is discarded; the accounting of the limit stays. -/
def discard : Mail := { m with waiting := [], batch := none }

/-- A submission's end. -/
def finished (msg : Message) (result : Submitted) (now : ℕ) (retry : Bool) : Mail :=
  match result, retry with
  | .failed, true => m.failed msg now
  | _, _ => m

/-! ## The notifier -/

/-- The notifier: its settings, its decisions and the message being submitted. -/
structure Notifier where
  notify : Notify
  mail : Mail
  running : Option Message := none
  stopped : Bool := false
deriving DecidableEq

/-- What the notifier selects on. -/
inductive Action where
  /-- A reload. -/
  | config (next : Notify)
  /-- The daemon stops; the events still queued come first. -/
  | stop (now : ℕ) (queued : List (ℕ × Events.Event)) (host : Option String)
  | ended (result : Submitted) (now : ℕ)
  /-- A message is due and it is its turn. -/
  | turn (now : ℕ)
  /-- The open batch closes. -/
  | close (now : ℕ) (host : Option String)
  | event (now : ℕ) (e : Events.Event)
deriving DecidableEq

namespace Notifier

variable (n : Notifier)

/-- An event of the bus. -/
def event (now : ℕ) (e : Events.Event) : Option Notifier :=
  if n.notify.email.isSome then
    (n.mail.add now n.notify.coalesce e).map fun mail => { n with mail }
  else some n

/-- The events still queued. -/
def events (queued : List (ℕ × Events.Event)) : Option Notifier :=
  queued.foldlM (fun n e => event n e.1 e.2) n

/-- The last submissions of a stopping daemon. -/
def flush (now : ℕ) (host : Option String) : Notifier :=
  match n.notify.email with
  | some email =>
    { n with
      mail := { n.mail.closeBatch now email host with waiting := [] }
      running := none
      stopped := true }
  | none => { n with running := none, stopped := true }

/-- One turn of the notifier's loop; `none` when it aborts. -/
def step : Action → Option Notifier
  | .config next =>
    some { n with
      notify := next
      mail := if n.notify.email.isSome && next.email.isNone then n.mail.discard else n.mail }
  | .stop now queued host => (n.events queued).map fun n => n.flush now host
  | .ended result now =>
    match n.running with
    | some msg =>
      some { n with
        running := none
        mail := n.mail.finished msg result now n.notify.email.isSome }
    | none => some n
  | .turn now =>
    if n.running.isSome || n.mail.nextDue.isNone then some n
    else match n.notify.email with
      | some _ =>
        let (msg, mail) := n.mail.takeDue now
        some { n with mail, running := msg }
      | none => some { n with mail := n.mail.discard }
  | .close now host =>
    if n.mail.batch.isNone then some n
    else match n.notify.email with
      | some email => some { n with mail := n.mail.closeBatch now email host }
      | none => some { n with mail := n.mail.discard }
  | .event now e => n.event now e

/-- A run of the notifier; a stopped one does nothing more. -/
def run (actions : List Action) : Option Notifier :=
  actions.foldlM (fun n a => if n.stopped then some n else n.step a) n

end Notifier

end Mail

end Polywan
