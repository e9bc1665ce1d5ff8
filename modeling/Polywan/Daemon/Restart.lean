import Polywan.Daemon.Checkpoint
import Polywan.Daemon.Evaluate
import Polywan.Health.History
import Polywan.Lib.Until

/-!
# Restarts from a checkpoint

What a new process makes of the checkpoint of the one before.  A ready path whose
identity is the recorded one resumes its state and its counters, any other ready path
starts cold, and a path that is not ready is down.  The active sets recorded are the
previous ones of the first selection.

## Main definitions

* `Daemon.startFrom` — the daemon a process starts with, after a checkpoint.
* `PathRuntime.Identifies` — the recorded identity is that of a ready path.

## Main results

* `Daemon.restart_resumes` — the round trip.
-/

namespace Polywan

namespace Daemon

/-- The daemon a process starts with, from the checkpoint found. -/
def startFrom (file : Option Checkpoint) (bootId : String) (c : Config) (port now : ℕ)
    (system : System) (listing : Option Nft.Table) (drained : Std.ExtTreeSet UplinkId) : Daemon :=
  let d := start c port now system listing drained
  { d with
    paths := (discover c system c.routing.routeProtocol now).map fun k raw =>
      ⟨some raw, loadCheckpoint file bootId (now / 1000000) c.structural k raw⟩
    active :=
      match file.filter fun f => f.valid bootId (now / 1000000) c.structural with
      | some f => (d.active.insert .v4 (Std.ExtTreeSet.ofList f.activeV4)).insert .v6
          (Std.ExtTreeSet.ofList f.activeV6)
      | none => d.active }

theorem run_concat {d : Daemon} {events : List Event} {ev : Event} :
    d.run (events ++ [ev]) = (d.run events).handle ev := List.foldl_concat ..

end Daemon

/-- The interface, source and gateway of a ready path are those a checkpoint has. -/
def PathRuntime.Identifies (p : PathRuntime) (k : PathKey) (raw : Discovered) (r : ReadyPath) :
    Prop :=
  (p.checkpoint k).ifindex = raw.ifindex ∧ (p.checkpoint k).source = some r.source
    ∧ (p.checkpoint k).gateway = r.gateway

/-- What discovery found before identifies the path as long as it finds the same. -/
theorem PathRuntime.identifies_of_discovered {p : PathRuntime} {raw : Discovered} {r : ReadyPath}
    (hp : p.discovered = some raw) (hr : raw.ready = .ok r) (k : PathKey) :
    p.Identifies k raw r := by
  simp [Identifies, checkpoint, hp, hr, Except.toOption]

/-! ## What a path resumes -/

section Resume

variable {d : Daemon} {bootId : String} {written : ℕ} {k : PathKey} {raw : Discovered}

theorem PathRuntime.snapshot_checkpoint (p : PathRuntime) :
    ({ state := if (p.checkpoint k).up then .up else .down, passes := (p.checkpoint k).passes,
       failures := (p.checkpoint k).failures } : Health.Snapshot) = p.machine.snapshot := by
  cases hstate : p.machine.state <;>
    simp [checkpoint, Health.Machine.isUp, Health.Machine.snapshot, hstate]

/-- A path whose identity is the recorded one resumes what was recorded. -/
theorem Daemon.warm_checkpoint {p : PathRuntime} (hp : d.paths[k]? = some p) {r : ReadyPath}
    (hr : raw.ready = .ok r) (hsame : p.Identifies k raw r) :
    (d.checkpoint bootId written).warm k raw = some p.machine.snapshot := by
  have hfind := d.find?_checkpoint bootId written k
  rw [hp, Option.map_some] at hfind
  obtain ⟨hindex, hsource, hgateway⟩ := hsame
  simp only [Checkpoint.warm, hfind, Option.bind_some, hr, Except.toOption, Option.map_some,
    hindex, hsource, hgateway, and_self, if_true, p.snapshot_checkpoint]

/-- Any other ready path resumes nothing. -/
theorem Daemon.warm_checkpoint_eq_none {r : ReadyPath} (hr : raw.ready = .ok r)
    (hother : ∀ p, d.paths[k]? = some p → ¬ p.Identifies k raw r) :
    (d.checkpoint bootId written).warm k raw = none := by
  have hfind := d.find?_checkpoint bootId written k
  cases hp : d.paths[k]? with
  | none =>
    rw [hp, Option.map_none] at hfind
    simp only [Checkpoint.warm, hfind, Option.bind_none]
  | some p =>
    rw [hp, Option.map_some] at hfind
    simp only [Checkpoint.warm, hfind, Option.bind_some, hr, Except.toOption, Option.map_some]
    rw [if_neg]
    rintro ⟨hindex, hsource, hgateway⟩
    exact hother p hp ⟨hindex, hsource, hgateway⟩

end Resume

/-- **A path that resumes down** goes up only with `rise` passed rounds in a row, those
recorded included. -/
theorem Health.Start.rise_of_up {s : Start} (hdown : (s.run []).state = .down)
    {inputs : List Health.Input} (hup : (s.run inputs).state = .up) :
    ∃ h earlier, .round .passed h :: earlier <:+ inputs ∧
      h.rise ≤ s.passedInRow (.round .passed h :: earlier) := by
  induction inputs with
  | nil => rw [hdown] at hup; cases hup
  | cons i earlier ih =>
    by_cases hbefore : (s.run earlier).state = .up
    · obtain ⟨h, earlier', hsuffix, hrise⟩ := ih hbefore
      exact ⟨h, earlier', hsuffix.trans (List.suffix_cons i earlier), hrise⟩
    · have hbefore : (s.run earlier).state = .down := by
        cases hs : (s.run earlier).state with
        | up => exact absurd hs hbefore
        | down => rfl
      have hdet := s.determined earlier
      cases i with
      | round r h =>
        cases hready : s.readyAfter earlier with
        | false =>
          rw [hdet.ignored r h hready, hbefore] at hup
          cases hup
        | true =>
          obtain ⟨rfl, hrise⟩ := (hdet.rises r h hready hbefore).mp hup
          exact ⟨h, earlier, List.suffix_refl _, hrise⟩
      | setReady ready reason =>
        have hafter : (s.run (.setReady ready reason :: earlier)).state = .down := by
          by_cases hready : ready = s.readyAfter earlier
          · rw [hready, hdet.same reason]
            exact hbefore
          · cases ready with
            | false => exact (s.determined (.setReady false reason :: earlier)).down rfl
            | true => exact hdet.again reason (by simpa using hready)
        rw [hafter] at hup
        cases hup

/-! ## The active sets until the first evaluation -/

namespace Daemon

variable {d : Daemon}

theorem active_dispatched (e : PassEnv) : (d.dispatched e).active = d.active :=
  congrArg Prod.fst (d.standing_dispatched e)

theorem active_evaluating {e : PassEnv} {x : Daemon} (hx : d.evaluating e = some x) :
    x.active = d.active := by
  simp only [evaluating] at hx
  split at hx
  · cases hx
  · split at hx
    · obtain rfl := Option.some.inj hx
      exact active_dispatched e
    · obtain rfl := Option.some.inj hx
      exact active_dispatched e

/-- The event is no pass that evaluates. -/
def Unevaluated (d : Daemon) : Event → Prop
  | .pass e => d.evaluating e = none
  | _ => True

/-- Only evaluations select active sets. -/
theorem active_handle {ev : Event} (h : d.Unevaluated ev) : (d.handle ev).active = d.active := by
  by_cases hpass : ∃ e, ev = .pass e
  · obtain ⟨e, rfl⟩ := hpass
    simp only [Unevaluated, evaluating] at h
    simp only [handle, step]
    split at h
    · next hwaits =>
        rw [if_pos hwaits]
        exact active_dispatched e
    · split at h <;> cases h
  · exact congrArg Prod.fst (d.standing_handle fun e he => hpass ⟨e, he⟩)

theorem active_run {events : List Event} (h : Lib.Along handle Unevaluated d events) :
    (d.run events).active = d.active := by
  have hstep : ∀ (d' : Daemon) ev, d'.active = d.active → d'.Unevaluated ev →
      (d'.handle ev).active = d.active := fun d' ev heq hev => (active_handle hev).trans heq
  exact h.invariant hstep rfl

/-- Without a healthy candidate, the policy `keep` selects previous members only. -/
theorem mem_previous_of_keep {now : ℕ} {f : Family} (hkeep : d.cfg.routing.allDownPolicy = .keep)
    (hnone : ∀ x ∈ d.candidates (d.evaluateInput now).paths f, x.healthy = false) {id : UplinkId}
    (hid : id ∈ ((d.evaluate now).active[f]?).getD ∅) : id ∈ (d.active[f]?).getD ∅ := by
  have hactive : (d.evaluate now).active = d.evaluateActive (d.evaluateInput now).paths := rfl
  rw [hactive] at hid
  cases hf : d.cfg.manages f with
  | false => rwa [getElem?_evaluateActive_of_unmanaged d _ hf] at hid
  | true =>
    have hany : (d.candidates (d.evaluateInput now).paths f).any Candidate.healthy = false := by
      simpa using hnone
    rw [getD_evaluateActive d _ hf] at hid
    simp only [select, activeSet, hany, hkeep, Bool.false_eq_true, if_false,
      Std.ExtTreeSet.mem_ofList, List.contains_eq_mem, decide_eq_true_eq, List.mem_filter]
      at hid
    exact Std.ExtTreeSet.contains_iff_mem.mp hid.2

/-! ## The round trip -/

section RoundTrip

variable {bootId : String} {written now : ℕ} {c : Config}

/-- A checkpoint is valid for less than 10 minutes of the same boot. -/
theorem valid_checkpoint (hlater : written ≤ now)
    (hage : now / 1000000 < written / 1000000 + checkpointMaxAgeMs)
    (hstructural : c.structural = d.cfg.structural) :
    (d.checkpoint bootId written).valid bootId (now / 1000000) c.structural = true := by
  have hms : written / 1000000 ≤ now / 1000000 := Nat.div_le_div_right hlater
  have hyoung : now / 1000000 - written / 1000000 < checkpointMaxAgeMs := by omega
  simp [Checkpoint.valid, checkpoint, hstructural, hms, hyoung]

/-- The active sets are loaded as recorded. -/
theorem active_startFrom
    (hvalid : (d.checkpoint bootId written).valid bootId (now / 1000000) c.structural = true)
    (port : ℕ) (system : System) (listing : Option Nft.Table)
    (drained : Std.ExtTreeSet UplinkId) (f : Family) :
    ((startFrom (some (d.checkpoint bootId written)) bootId c port now system listing
      drained).active[f]?).getD ∅ = (d.active[f]?).getD ∅ := by
  have hset : ∀ x : Std.ExtTreeSet UplinkId, Std.ExtTreeSet.ofList x.toList = x := by
    intro x
    apply Std.ExtTreeSet.ext_mem
    intro id
    simp [Std.ExtTreeSet.mem_ofList]
  simp only [startFrom, Option.filter_some, hvalid, if_true, Std.ExtTreeMap.getElem?_insert]
  cases f with
  | v4 => exact hset _
  | v6 => exact hset _

/-- **Restart round trip.**  A process started in the same boot, less than 10 minutes
after the checkpoint of any state, with the same structural settings and whatever
discovery finds, resumes each ready path with the recorded identity in exactly the
recorded state, so that a path that was down is up only after `rise` passed rounds in a
row, those recorded included; it starts every other ready path cold and every path that
is not ready down.  Under the policy `keep` the first active sets have recorded members
only, unless a candidate is healthy. -/
theorem restart_resumes (d : Daemon) (bootId : String) {written now : ℕ} (hlater : written ≤ now)
    (hage : now / 1000000 < written / 1000000 + checkpointMaxAgeMs) {c : Config}
    (hstructural : c.structural = d.cfg.structural) (port : ℕ) (system : System)
    (listing : Option Nft.Table) (drained : Std.ExtTreeSet UplinkId) {d' : Daemon}
    (hd' : startFrom (some (d.checkpoint bootId written)) bootId c port now system listing
      drained = d') :
    (∀ (k : PathKey) (raw : Discovered) (r : ReadyPath),
      (discover c system c.routing.routeProtocol now)[k]? = some raw → raw.ready = .ok r →
      (∀ p, d.paths[k]? = some p → p.Identifies k raw r →
        ∃ m, d'.paths[k]? = some ⟨some raw, m⟩ ∧ m.ready = true ∧
          m.snapshot = p.machine.snapshot ∧
          m = (Health.Start.mk true .startup (some p.machine.snapshot)).run [] ∧
          (p.machine.state = .down → ∀ inputs : List Health.Input,
            ((Health.Start.mk true .startup (some p.machine.snapshot)).run inputs).state = .up →
            ∃ h earlier, .round .passed h :: earlier <:+ inputs ∧
              h.rise ≤ (Health.Start.mk true .startup (some p.machine.snapshot)).passedInRow
                (.round .passed h :: earlier))) ∧
      ((∀ p, d.paths[k]? = some p → ¬ p.Identifies k raw r) →
        d'.paths[k]? = some ⟨some raw, .new true .startup none⟩)) ∧
    (∀ (k : PathKey) (raw : Discovered) (reason : Health.Reason),
      (discover c system c.routing.routeProtocol now)[k]? = some raw →
      raw.ready = .error reason →
      ∃ m, d'.paths[k]? = some ⟨some raw, m⟩ ∧ m.ready = false ∧ m.state = .down) ∧
    ∀ (events : List Event) (e : PassEnv) (x : Daemon),
      Lib.Along handle Unevaluated d' events → (d'.run events).evaluating e = some x →
      x.cfg.routing.allDownPolicy = .keep → ∀ f : Family,
      (∀ y ∈ x.candidates (x.evaluateInput e.now).paths f, y.healthy = false) →
      ∀ id ∈ ((x.evaluate e.now).active[f]?).getD ∅, id ∈ (d.active[f]?).getD ∅ := by
  subst hd'
  have hvalid : (d.checkpoint bootId written).valid bootId (now / 1000000) c.structural = true :=
    valid_checkpoint hlater hage hstructural
  have hpaths : ∀ (k : PathKey) (raw : Discovered),
      (discover c system c.routing.routeProtocol now)[k]? = some raw →
      (startFrom (some (d.checkpoint bootId written)) bootId c port now system listing
        drained).paths[k]? = some ⟨some raw, loadCheckpoint (some (d.checkpoint bootId written))
          bootId (now / 1000000) c.structural k raw⟩ := by
    intro k raw hraw
    simp only [startFrom, Std.ExtTreeMap.getElem?_map, hraw, Option.map_some]
  refine ⟨fun k raw r hraw hr => ⟨fun p hp hsame => ?_, fun hother => ?_⟩,
    fun k raw reason hraw hr => ?_, ?_⟩
  · have hload : loadCheckpoint (some (d.checkpoint bootId written)) bootId (now / 1000000)
        c.structural k raw = .new true .startup (some p.machine.snapshot) := by
      simp only [loadCheckpoint, Option.filter_some, hvalid, if_true, Option.bind_some, hr,
        warm_checkpoint hp hr hsame]
    refine ⟨_, hpaths k raw hraw, ?_⟩
    rw [hload]
    refine ⟨rfl, rfl, rfl, fun hdown inputs hup => Health.Start.rise_of_up ?_ hup⟩
    exact hdown
  · rw [hpaths k raw hraw]
    simp only [loadCheckpoint, Option.filter_some, hvalid, if_true, Option.bind_some, hr,
      warm_checkpoint_eq_none hr hother]
  · refine ⟨_, hpaths k raw hraw, ?_⟩
    simp only [loadCheckpoint, hr, Health.Machine.new]
    exact ⟨trivial, trivial⟩
  · intro events e x hevents hx hkeep f hnone id hid
    have hmem := mem_previous_of_keep hkeep hnone hid
    rwa [active_evaluating hx, active_run hevents, active_startFrom hvalid] at hmem

end RoundTrip

end Daemon

namespace Sample

/-- A second later, discovery finds the first uplink as the daemon had it. -/
theorem resumed_facts :
    ((recorder.daemon.paths[(⟨id1, .v4⟩ : PathKey)]?).bind fun p => p.discovered)
      = (discover standby network.system 249 1000000000)[(⟨id1, .v4⟩ : PathKey)]? ∧
    ((discover standby network.system 249 1000000000)[(⟨id1, .v4⟩ : PathKey)]?.bind fun raw =>
      raw.ready.toOption).isSome = true := by
  decide +kernel

end Sample

open Sample in
/-- The first uplink resumes what the checkpoint of a second before has. -/
theorem Daemon.restart_resumes_sample :
    ∃ raw p m, recorder.daemon.paths[(⟨id1, .v4⟩ : PathKey)]? = some p ∧
      (startFrom (some (recorder.daemon.checkpoint "boot" 0)) "boot" standby 7 1000000000
        network.system none ∅).paths[(⟨id1, .v4⟩ : PathKey)]? = some ⟨some raw, m⟩ ∧
      m.snapshot = p.machine.snapshot := by
  obtain ⟨hsame, hready⟩ := resumed_facts
  obtain ⟨r, hr⟩ := Option.isSome_iff_exists.mp hready
  obtain ⟨raw, hraw, hr⟩ := Option.bind_eq_some_iff.mp hr
  rw [hraw] at hsame
  obtain ⟨p, hp, hfound⟩ := Option.bind_eq_some_iff.mp hsame
  have hok : raw.ready = .ok r := by
    cases h : raw.ready with
    | ok r' => rw [h] at hr; exact congrArg _ (Option.some.inj hr)
    | error _ => rw [h] at hr; cases hr
  obtain ⟨hresume, -⟩ := restart_resumes recorder.daemon "boot" (Nat.zero_le 1000000000)
    (by decide) (c := standby) (by decide +kernel) 7 network.system none ∅ rfl
  obtain ⟨m, hm, -, hsnapshot, -⟩ :=
    (hresume ⟨id1, .v4⟩ raw r hraw hok).1 p hp (PathRuntime.identifies_of_discovered hfound hok _)
  exact ⟨raw, p, m, hp, hm, hsnapshot⟩

end Polywan
