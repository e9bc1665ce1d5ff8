import Polywan.Daemon.Restart

/-!
# The reason a path is not ready

A path that is not ready is down, and its machine reports the reason of its last
transition: that of the evaluation which took its readiness away.  As long as it stays
not ready the reason stays too, also when a later evaluation finds the path not ready for
another one.

## Main definitions

* `Daemon.Judges` — a pass evaluates the readiness of a path.
* `Daemon.Loses`, `Daemon.Adds` — it takes the readiness of a path away; it meets the path
  for the first time.

## Main results

* `Daemon.reason_of_last_transition` — the reason reported in every run.
-/

namespace Polywan

namespace Daemon

variable (k : PathKey)

/-- A pass evaluates the readiness of a path, with a result. -/
def Judges (result : Except Health.Reason ReadyPath) (d : Daemon) : Event → Prop
  | .pass e => ∃ x raw, d.evaluating e = some x ∧ (x.discovered e.now)[k]? = some raw ∧
      x.pathReady k raw = result
  | _ => False

/-- A pass takes the readiness of a path away, for a reason. -/
def Loses (reason : Health.Reason) (d : Daemon) (ev : Event) : Prop :=
  d.Judges k (.error reason) ev ∧ ∃ p, d.paths[k]? = some p ∧ p.machine.ready = true

/-- A pass meets a path for the first time, after a reload added it. -/
def Adds (d : Daemon) (ev : Event) : Prop :=
  (∃ result, d.Judges k result ev) ∧ d.paths[k]? = none

/-- A path is not ready. -/
def Unready (d : Daemon) : Prop := ∃ p, d.paths[k]? = some p ∧ p.machine.ready = false

variable {k} {d : Daemon}

/-! ## One event -/

/-- Where the machine of a path that is not ready comes from. -/
inductive Kept (k : PathKey) (d : Daemon) (ev : Event) (m : Health.Machine) : Prop
  /-- It was the same before. -/
  | same (p : PathRuntime) (hp : d.paths[k]? = some p) (hm : p.machine = m)
  | lost (h : d.Loses k m.reason ev)
  | added (h : d.Adds k ev)

/-- A machine that is not ready ignores rounds. -/
theorem round_of_not_ready {m : Health.Machine} {r : Health.Round} {h : Health.Hysteresis}
    (hm : (m.round r h).1.ready = false) : (m.round r h).1 = m := by
  rw [Health.Machine.ready_round] at hm
  rw [Health.Machine.round, dif_neg (by simp [hm])]

theorem kept_round {path : PathKey} {r : Health.Round} {p : PathRuntime}
    (hp : (d.round path r).paths[k]? = some p) (hready : p.machine.ready = false) :
    Kept k d (.round path r) p.machine := by
  simp only [round] at hp
  split at hp
  · next q h hq hh =>
      rw [Std.ExtTreeMap.getElem?_insert] at hp
      split at hp
      · next hk =>
          obtain rfl := Option.some.inj hp
          obtain rfl : path = k := Std.LawfulEqCmp.compare_eq_iff_eq.mp hk
          exact .same q hq (round_of_not_ready hready).symm
      · exact .same p hp rfl
  · exact .same p hp rfl

/-- An evaluation of a path that is not ready afterwards. -/
theorem kept_pass {e : PassEnv} {p : PathRuntime} (hp : (d.step e).paths[k]? = some p)
    (hready : p.machine.ready = false) : Kept k d (.pass e) p.machine := by
  rw [paths_step] at hp
  cases hx : d.evaluating e with
  | none =>
    rw [hx] at hp
    exact .same p hp rfl
  | some x =>
    rw [hx] at hp
    simp only [Option.elim_some, evaluate, Std.ExtTreeMap.getElem?_map] at hp
    obtain ⟨raw, hraw, rfl⟩ := Option.map_eq_some_iff.mp hp
    have hpaths := paths_evaluating hx
    have hjudges : d.Judges k (x.pathReady k raw) (.pass e) := ⟨x, raw, hx, hraw, rfl⟩
    simp only [evaluateMachine] at hready ⊢
    cases hresult : x.pathReady k raw with
    | ok r => simp [hresult] at hready
    | error reason =>
      rw [hresult] at hjudges
      simp only [machineOf, hpaths]
      cases hq : d.paths[k]? with
      | none => exact .added ⟨⟨_, hjudges⟩, hq⟩
      | some q =>
        dsimp only
        by_cases hbefore : q.machine.ready = true
        · refine .lost ?_
          rw [Health.Machine.setReady, if_neg (by simp [hbefore])]
          exact ⟨hjudges, q, hq, hbefore⟩
        · have hsame := q.machine.setReady_self reason
          rw [Bool.eq_false_iff.mpr hbefore] at hsame
          rw [hsame]
          exact .same q hq rfl

theorem kept_handle {ev : Event} {p : PathRuntime} (hp : (d.handle ev).paths[k]? = some p)
    (hready : p.machine.ready = false) : Kept k d ev p.machine := by
  cases ev with
  | round path r => exact kept_round hp hready
  | pass e => exact kept_pass hp hready
  | _ => exact .same p (paths_handle (by simp) (by simp) hp) rfl

/-- A path found not ready is down. -/
theorem down_of_judges {ev : Event} {reason : Health.Reason} (h : d.Judges k (.error reason) ev) :
    ∃ p, (d.handle ev).paths[k]? = some p ∧ p.machine.ready = false ∧ p.machine.state = .down := by
  cases ev with
  | pass e =>
    obtain ⟨x, raw, hx, hraw, hresult⟩ := h
    have hready : (x.evaluateMachine k raw).ready = false := by
      simp [evaluateMachine, hresult]
    refine ⟨⟨some raw, x.evaluateMachine k raw⟩, ?_, hready,
      (x.evaluateMachine k raw).down_of_not_ready hready⟩
    simp [handle, paths_step, hx, evaluate, hraw]
  | _ => exact h.elim

/-! ## Runs -/

/-- Since when, and why, a path is not ready after a run: since startup, or since a pass took
its readiness away, with the reason found there, or since a pass met it first. -/
inductive Reported (k : PathKey) (found : Std.ExtTreeMap PathKey Discovered) (d : Daemon)
    (events : List Event) (reason : Health.Reason) : Prop
  | startup (raw : Discovered) (hraw : found[k]? = some raw) (hreason : raw.ready = .error reason)
      (hsince : ∀ before after, events = before ++ after → Unready k (d.run before))
  | lost (h : Lib.Since handle (Loses k reason) (Unready k) d events)
  | added (h : Lib.Since handle (Adds k) (Unready k) d events)

section Run

variable {found : Std.ExtTreeMap PathKey Discovered} {events : List Event} {ev : Event}
  {reason : Health.Reason}

/-- What is reported stays as long as the path is not ready. -/
theorem Reported.extend (h : Reported k found d events reason)
    (hunready : Unready k (d.run (events ++ [ev]))) :
    Reported k found d (events ++ [ev]) reason := by
  cases h with
  | startup raw hraw hreason hsince =>
    refine .startup raw hraw hreason fun before after hsplit => ?_
    rcases List.eq_nil_or_concat after with rfl | ⟨after, x, rfl⟩
    · rw [List.append_nil] at hsplit
      rwa [← hsplit]
    · rw [List.concat_eq_append, ← List.append_assoc] at hsplit
      exact hsince before after (List.append_inj' hsplit rfl).1
  | lost h => exact .lost (h.extend hunready)
  | added h => exact .added (h.extend hunready)

/-- The reason of every path that is not ready is reported, once it is at the start. -/
theorem reported_run
    (hstart : ∀ p, d.paths[k]? = some p → p.machine.ready = false →
      ∃ raw, found[k]? = some raw ∧ raw.ready = .error p.machine.reason)
    (events : List Event) {p : PathRuntime} (hp : (d.run events).paths[k]? = some p)
    (hready : p.machine.ready = false) : Reported k found d events p.machine.reason := by
  induction events using List.reverseRecOn generalizing p with
  | nil =>
    obtain ⟨raw, hraw, hreason⟩ := hstart p hp hready
    refine .startup raw hraw hreason fun before after hsplit => ?_
    obtain ⟨rfl, -⟩ := List.append_eq_nil_iff.mp hsplit.symm
    exact ⟨p, hp, hready⟩
  | append_singleton events ev ih =>
    have hunready : Unready k (d.run (events ++ [ev])) := ⟨p, hp, hready⟩
    rw [run_concat] at hp
    cases kept_handle hp hready with
    | same q hq hm =>
      rw [← hm] at hready ⊢
      exact (ih hq hready).extend hunready
    | lost h => exact .lost (.start h hunready)
    | added h => exact .added (.start h hunready)

end Run

/-- At startup a path that is not ready has the reason of its discovery. -/
theorem reason_startFrom {file : Option Checkpoint} {bootId : String} {c : Config} {port now : ℕ}
    {system : System} {listing : Option Nft.Table} {drained : Std.ExtTreeSet UplinkId}
    {p : PathRuntime}
    (hp : (startFrom file bootId c port now system listing drained).paths[k]? = some p)
    (hready : p.machine.ready = false) :
    ∃ raw, (discover c system c.routing.routeProtocol now)[k]? = some raw ∧
      raw.ready = .error p.machine.reason := by
  simp only [startFrom, Std.ExtTreeMap.getElem?_map] at hp
  obtain ⟨raw, hraw, rfl⟩ := Option.map_eq_some_iff.mp hp
  refine ⟨raw, hraw, ?_⟩
  simp only [loadCheckpoint] at hready ⊢
  generalize (file.filter fun c' => c'.valid bootId (now / 1000000) c.structural).bind
    (fun c' => c'.warm k raw) = warm at hready ⊢
  cases hraw : raw.ready with
  | ok r => cases warm <;> simp [hraw, Health.Machine.new] at hready
  | error reason => simp [Health.Machine.new]

end Daemon

/-- **A path that is not ready is down**, after every evaluation that finds it so, and the
reason reported is that of its last transition: of the evaluation which took its readiness
away, or of the discovery at startup. -/
theorem Daemon.reason_of_last_transition (file : Option Checkpoint) (bootId : String) (c : Config)
    (port now : ℕ) (system : System) (listing : Option Nft.Table)
    (drained : Std.ExtTreeSet UplinkId) (events : List Daemon.Event) (k : PathKey) :
    let d := startFrom file bootId c port now system listing drained
    (∀ before ev after reason, events = before ++ ev :: after →
      (d.run before).Judges k (.error reason) ev →
      ∃ p, (d.run (before ++ [ev])).paths[k]? = some p ∧ p.machine.ready = false ∧
        p.machine.state = .down) ∧
    ∀ p, (d.run events).paths[k]? = some p → p.machine.ready = false →
      p.machine.state = .down ∧
        Reported k (discover c system c.routing.routeProtocol now) d events p.machine.reason := by
  intro d
  refine ⟨fun before ev after reason _ hjudges => ?_, fun p hp hready => ?_⟩
  · rw [run_concat]
    exact down_of_judges hjudges
  · exact ⟨p.machine.down_of_not_ready hready,
      reported_run (fun _ hq hr => reason_startFrom hq hr) events hp hready⟩

namespace Sample

/-- The first interface of the sample without carrier. -/
def darkLink : LinkMessage := { link 3 "wan1" with lowerUp := false }

def darkNetwork : View (Scope.of single) :=
  [ .newLink darkLink, .newAddress (address 3 (.v4 0x0a000002)),
    .newRoute (defaultRoute 3 (.v4 0x0a000001)) ].foldl (View.apply 0) (View.empty _)

def darkStart : Daemon := Daemon.startFrom none "" single 7 0 darkNetwork.system none ∅

/-- The settings are applied, a pass finds no carrier, and then the interface is removed. -/
def darkened : List Daemon.Event :=
  [ .pass quiet, .sysctlsDone 0 1 (.interface "wan1") (.ok ()) [],
    .sysctlsDone 0 2 .global (.ok ()) [], .pass quiet,
    .notification 0 (.route (.delLink darkLink)) 0 0 ]

/-- The reason an evaluation after a list of events finds, and the one reported then. -/
def reasonsAfter (events : List Daemon.Event) (k : PathKey) :
    Option (Option Health.Reason × Health.Reason) := do
  let x ← (darkStart.run events).evaluating quiet
  let raw ← (x.discovered quiet.now)[k]?
  let p ← (darkStart.run (events ++ [.pass quiet])).paths[k]?
  return (match x.pathReady k raw with | .error reason => some reason | .ok _ => none,
    p.machine.reason)

end Sample

/-- The interface of a path without carrier is removed: the path is evaluated for the
removal, and its reason is still the loss of the carrier. -/
theorem Daemon.reason_stale :
    ∃ p, (Sample.darkStart.run Sample.darkened).Judges ⟨Sample.id1, .v4⟩
        (.error .interfaceRemoved) (.pass Sample.quiet) ∧
      (Sample.darkStart.run (Sample.darkened ++ [.pass Sample.quiet])).paths[
        (⟨Sample.id1, .v4⟩ : PathKey)]? = some p ∧
      p.machine.reason = .carrierLost := by
  have hreasons : Sample.reasonsAfter Sample.darkened ⟨Sample.id1, .v4⟩ =
      some (some .interfaceRemoved, .carrierLost) := by decide +kernel
  simp only [Sample.reasonsAfter, Option.bind_eq_bind, Option.bind_eq_some_iff] at hreasons
  obtain ⟨x, hx, raw, hraw, p, hp, hboth⟩ := hreasons
  obtain ⟨hresult, hreason⟩ := Prod.mk.inj (Option.some.inj hboth)
  refine ⟨p, ⟨x, raw, hx, hraw, ?_⟩, hp, hreason⟩
  cases hready : x.pathReady ⟨Sample.id1, .v4⟩ raw with
  | ok r => simp [hready] at hresult
  | error reason => simpa [hready] using hresult

end Polywan
