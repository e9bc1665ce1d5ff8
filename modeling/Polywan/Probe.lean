import Mathlib.Data.List.Sort
import Mathlib.Data.Rat.Defs
import Polywan.Daemon.Pass

/-!
# Probers and their reports

A prober runs while its path is ready; any change of interface, source or settings is a new
generation, unique across paths, and starts an empty window.  The rounds that a prober
reports are judged by the samples of the last rounds of its generation.  The loss ratio is
exact here.

## Main definitions

* `Probe.Spec`, `Probe.Report` — what a prober is started with, and what it reports.
* `Quality.Window`, `Quality.violations` — the samples of the last rounds, and the gates that
  they violate.
* `Probers`, `Probers.managePath` — the probers of all paths, and what an evaluation does to
  one of them.
* `Daemon.report` — the daemon takes a report.
-/

namespace Polywan

namespace Probe

/-- What a prober is started with. -/
structure Spec where
  path : PathKey
  generation : ℕ
  interface : String
  ifindex : ℕ
  source : IpAddr
  mark : BitVec 32
  targets : List Target
  interval : ℕ
  timeout : ℕ
  attempts : ℕ
  requiredReachable : ℕ
  /-- With quality gates every started attempt runs to its end. -/
  runToCompletion : Bool
deriving DecidableEq

/-- One completed attempt; a lost one has no round-trip time. -/
structure Sample where
  target : Target
  rtt : Option ℕ
deriving DecidableEq

structure RoundReport where
  path : PathKey
  generation : ℕ
  passed : Bool
  samples : List Sample
deriving DecidableEq

inductive Report where
  | round (r : RoundReport)
  /-- The prober could not start. -/
  | failed (path : PathKey) (generation : ℕ)
deriving DecidableEq

/-- The path and the generation that a report names. -/
def Report.origin : Report → PathKey × ℕ
  | .round r => (r.path, r.generation)
  | .failed path generation => (path, generation)

end Probe

/-! ## Quality gates -/

namespace Quality

/-- The samples of the last rounds, oldest first. -/
structure Window where
  rounds : List (List Probe.Sample) := []
deriving DecidableEq

namespace Window

/-- Adds the samples of a round, keeping the last rounds. -/
def push (w : Window) (samples : List Probe.Sample) (capacity : ℕ) : Window :=
  let rounds := w.rounds ++ [samples]
  ⟨rounds.drop (rounds.length - max capacity 1)⟩

def samples (w : Window) : List Probe.Sample := w.rounds.flatten

end Window

structure Stats where
  samples : ℕ := 0
  lost : ℕ := 0
  loss : Option ℚ := none
  /-- Median of the replied samples. -/
  rtt : Option ℕ := none
  replies : ℕ := 0
  /-- Median absolute difference between consecutive round-trip times of a target. -/
  jitter : Option ℕ := none
  differences : ℕ := 0
deriving DecidableEq

/-- The median; the mean of the two middle values for an even count. -/
def median (values : List ℕ) : Option ℕ :=
  let sorted := values.mergeSort
  if sorted.length % 2 = 1 then sorted[sorted.length / 2]?
  else match sorted[sorted.length / 2 - 1]?, sorted[sorted.length / 2]? with
    | some a, some b => some ((a + b) / 2)
    | _, _ => none

/-- The differences between consecutive round-trip times of the same target, in the order
they completed; `last` has the last one of each target. -/
def differences (last : Target → Option ℕ) : List Probe.Sample → List ℕ
  | [] => []
  | s :: rest => match s.rtt with
    | none => differences last rest
    | some rtt =>
      let next := Function.update last s.target (some rtt)
      match last s.target with
      | some prev => (max rtt prev - min rtt prev) :: differences next rest
      | none => differences next rest

def Window.stats (w : Window) : Stats :=
  let all := w.samples
  let lost := (all.filter fun s => s.rtt.isNone).length
  let rtts := all.filterMap Probe.Sample.rtt
  let diffs := differences (fun _ => none) all
  { samples := all.length
    lost
    loss := if 0 < all.length then some ((lost : ℚ) / all.length) else none
    replies := rtts.length
    rtt := median rtts
    differences := diffs.length
    jitter := median diffs }

inductive Violation where
  | loss (value limit : ℚ)
  | rtt (value limit : ℕ)
  | jitter (value limit : ℕ)
deriving DecidableEq

/-- Replied samples or differences that a gate needs. -/
def minRttInputs : ℕ := 5

/-- The gates that some statistics violate. -/
def violations (q : Quality) (stats : Stats) (minSamples : ℕ) : List Violation :=
  (match q.maxLoss, stats.loss with
    | some limit, some value =>
      if minSamples ≤ stats.samples && limit < value then [.loss value limit] else []
    | _, _ => [])
  ++ (match q.maxRtt, stats.rtt with
    | some limit, some value =>
      if minRttInputs ≤ stats.replies && limit < value then [.rtt value limit] else []
    | _, _ => [])
  ++ (match q.maxJitter, stats.jitter with
    | some limit, some value =>
      if minRttInputs ≤ stats.differences && limit < value then [.jitter value limit] else []
    | _, _ => [])

end Quality

/-! ## Probers -/

namespace Daemon

variable (d : Daemon)

/-- The prober that a path wants, whatever its generation. -/
def proberWanted (k : PathKey) (p : PathRuntime) : Option Probe.Spec :=
  match d.cfg.uplink k.uplink, p.discovered.bind fun raw => raw.ready.toOption with
  | some u, some r =>
    if p.machine.ready then
      some
        { path := k
          generation := 0
          interface := u.interface
          ifindex := r.ifindex
          source := r.source
          mark := d.cfg.routing.fwmarkMask.encode (.probe k.uplink)
          targets := u.health.targets k.family
          interval := u.health.interval
          timeout := u.health.timeout
          attempts := u.health.attempts
          requiredReachable := u.health.requiredReachable
          runToCompletion := u.health.quality.enabled }
    else none
  | _, _ => none

/-- The daemon once a pass has evaluated its paths, unless the pass waits. -/
def evaluation (e : PassEnv) : Option Daemon :=
  let d := d.dispatched e
  if d.awaitsInstallation then none
  else if d.installed.awaitsGlobal then some (d.installed.evaluate e.now)
  else some ((d.installed.refreshed e).evaluate e.now)

end Daemon

/-- The probing side of a path. -/
structure Probing where
  generation : ℕ := 0
  prober : Option Probe.Spec := none
  window : Quality.Window := {}
deriving DecidableEq

/-- The probers of the paths; a path without an entry is new. -/
structure Probers where
  paths : Std.ExtTreeMap PathKey Probing := ∅
  /-- The last generation of any path. -/
  generation : ℕ := 0

namespace Probers

variable (ps : Probers)

def path (k : PathKey) : Probing := (ps.paths[k]?).getD {}

/-- Drops paths, and stops their probers. -/
def prune (keep : PathKey → Bool) : Probers :=
  { ps with paths := ps.paths.filter fun k _ => keep k }

/-- Starts, restarts or stops the prober of a path. -/
def managePath (k : PathKey) (wanted : Option Probe.Spec) : Probers :=
  if wanted = (ps.path k).prober.map fun s => { s with generation := 0 } then ps
  else
    let generation := ps.generation + 1
    { paths := ps.paths.insert k
        { generation, prober := wanted.map fun s => { s with generation } }
      generation }

/-- The window of a path after a round. -/
def record (k : PathKey) (w : Quality.Window) : Probers :=
  { ps with paths := ps.paths.insert k { ps.path k with window := w } }

/-- The path of a failed prober. -/
def failed (k : PathKey) : Probers :=
  { ps with paths := ps.paths.insert k { ps.path k with prober := none } }

end Probers

/-! ## Reports -/

/-- The window of a path after a round, and what the round counts as. -/
def Health.judge (h : Health) (w : Quality.Window) (r : Probe.RoundReport) :
    Quality.Window × Health.Round :=
  let w := w.push r.samples h.qualityWindow
  let violations := h.quality.violations w.stats h.qualityMinSamples
  (w, if !r.passed then .failed else if violations.isEmpty then .passed else .degraded)

/-- The daemon takes a report; one of an older generation is dropped. -/
def Daemon.report (d : Daemon) (ps : Probers) : Probe.Report → Daemon × Probers
  | .failed k generation =>
    if d.paths.contains k && (ps.path k).generation = generation then
      ({ d with dirty := true }, ps.failed k)
    else (d, ps)
  | .round r =>
    if d.paths.contains r.path && (ps.path r.path).generation = r.generation then
      match d.cfg.uplink r.path.uplink with
      | none => (d, ps)
      | some u =>
        let (w, round) := u.health.judge (ps.path r.path).window r
        (d.round r.path round, ps.record r.path w)
    else (d, ps)

end Polywan
