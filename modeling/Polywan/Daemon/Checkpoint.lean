import Polywan.Checkpoint
import Polywan.Daemon.Run
import Polywan.Health.History
import Polywan.Lib.Until

/-!
# Health checkpoints

The checkpoints the daemon submits to the persistence lane, and what a restart resumes
from one.  A round that changes the state of a path is followed by a checkpoint at once; a
pass submits one for each active set it changes, so that a path that loses its readiness
without changing an active set waits for the timer.

## Main definitions

* `Daemon.checkpoint` — the checkpoint of a state.
* `Recorder` — the daemon with the checkpoints it has submitted.
* `Recorder.Checkpointed` — the changes of an event are in the latest checkpoint.
* `Recorder.Covered` — when a pass finds a path down, it changes an active set.

## Main results

* `Recorder.checkpointed_iff_covered` — exactly then every change is checkpointed.
-/

namespace Polywan

/-- A path as checkpoints have it. -/
def PathRuntime.checkpoint (k : PathKey) (p : PathRuntime) : PathCheckpoint :=
  let ready := p.discovered.bind fun d => d.ready.toOption
  { uplink := k.uplink
    family := k.family
    ifindex := p.discovered.bind Discovered.ifindex
    source := ready.map ReadyPath.source
    gateway := ready.bind ReadyPath.gateway
    up := p.machine.isUp
    passes := p.machine.snapshot.passes
    failures := p.machine.snapshot.failures }

namespace Daemon

variable (d : Daemon)

def checkpoint (bootId : String) (now : ℕ) : Checkpoint where
  bootId := bootId
  boottimeMs := now / 1000000
  structural := d.cfg.structural
  paths := d.paths.toList.map fun e => e.2.checkpoint e.1
  activeV4 := ((d.active[Family.v4]?).getD ∅).toList
  activeV6 := ((d.active[Family.v6]?).getD ∅).toList

/-- The active set of a family during an evaluation: a change is followed by a
checkpoint. -/
def checkpointFamily (bootId : String) (now : ℕ)
    (acc : Std.ExtTreeMap Family (Std.ExtTreeSet UplinkId) × List Checkpoint) (f : Family) :
    Std.ExtTreeMap Family (Std.ExtTreeSet UplinkId) × List Checkpoint :=
  let set := d.select (d.evaluateInput now).paths f
  if set = (d.active[f]?).getD ∅ then acc
  else
    let active := acc.1.insert f set
    (active, acc.2 ++ [{ d.evaluate now with active }.checkpoint bootId now])

/-- The checkpoints of an evaluation. -/
def evaluateCheckpoints (bootId : String) (now : ℕ) : List Checkpoint :=
  ((Family.all.filter d.cfg.manages).foldl (d.checkpointFamily bootId now) (d.active, [])).2

/-- The state in which a pass evaluates, unless it stops before. -/
def evaluating (e : PassEnv) : Option Daemon :=
  if (d.dispatched e).awaitsInstallation then none
  else if (d.dispatched e).installed.awaitsGlobal then some (d.dispatched e).installed
  else some ((d.dispatched e).installed.refreshed e)

/-- The transition a round makes. -/
def roundTransition (k : PathKey) (r : Health.Round) : Option Health.Transition :=
  match d.paths[k]?, d.hysteresis k.uplink with
  | some p, some h => (p.machine.round r h).2
  | _, _ => none

end Daemon

/-- The daemon with the checkpoints submitted to the persistence lane, the latest last. -/
structure Recorder where
  daemon : Daemon
  bootId : String
  submitted : List Checkpoint := []

namespace Recorder

/-- What the daemon handles, and the timer of the checkpoints. -/
inductive Event where
  | daemon (now : ℕ) (e : Daemon.Event)
  | timer (now : ℕ)

variable (r : Recorder)

/-- The checkpoints submitted while an event is handled. -/
def submissions : Event → List Checkpoint
  | .timer now => [r.daemon.checkpoint r.bootId now]
  | .daemon now (.round k x) =>
    if (r.daemon.roundTransition k x).isSome then [(r.daemon.round k x).checkpoint r.bootId now]
    else []
  | .daemon _ (.pass e) =>
    (r.daemon.evaluating e).elim [] fun d => d.evaluateCheckpoints r.bootId e.now
  | .daemon _ _ => []

/-- The daemon after an event. -/
def handle : Event → Daemon
  | .daemon _ e => r.daemon.handle e
  | .timer _ => r.daemon

def step (e : Event) : Recorder :=
  { r with daemon := r.handle e, submitted := r.submitted ++ r.submissions e }

/-- Every path whose state an event changed is in the latest checkpoint submitted
meanwhile, with its new state; no restart resumes the previous one from it. -/
def Checkpointed (e : Event) : Prop :=
  ∀ (k : PathKey) (p q : PathRuntime), r.daemon.paths[k]? = some p →
    (r.step e).daemon.paths[k]? = some q → p.machine.state ≠ q.machine.state →
    ∃ c, (r.submissions e).getLast? = some c ∧ q.checkpoint k ∈ c.paths ∧
      ∀ raw snapshot, c.warm k raw = some snapshot → snapshot.state = q.machine.state

/-- When a pass finds that a path which is up is not ready, it changes an active set. -/
def Covered : Event → Prop
  | .daemon _ (.pass e) => ∀ d, r.daemon.evaluating e = some d →
    (∃ (k : PathKey) (p : PathRuntime) (raw : Discovered) (reason : Health.Reason),
      d.paths[k]? = some p ∧ p.machine.state = .up ∧ (d.discovered e.now)[k]? = some raw ∧
      d.pathReady k raw = .error reason) →
    ∃ f, d.cfg.manages f = true ∧
      d.select (d.evaluateInput e.now).paths f ≠ (d.active[f]?).getD ∅
  | _ => True

end Recorder

/-! ## The content of a checkpoint -/

/-- The entry of a path in a checkpoint. -/
theorem Daemon.find?_checkpoint (d : Daemon) (bootId : String) (now : ℕ) (k : PathKey) :
    ((d.checkpoint bootId now).paths.find? fun p => p.uplink = k.uplink && p.family = k.family) =
      d.paths[k]?.map fun p => p.checkpoint k := by
  have hkey : ∀ e : PathKey × PathRuntime,
      ((e.2.checkpoint e.1).uplink = k.uplink && (e.2.checkpoint e.1).family = k.family) = true ↔
        e.1 = k := by
    rintro ⟨⟨uplink, family⟩, p⟩
    obtain ⟨uplink', family'⟩ := k
    simp [PathRuntime.checkpoint]
  rw [checkpoint, List.find?_map]
  cases hp : d.paths[k]? with
  | none =>
    rw [Option.map_none, Option.map_eq_none_iff, List.find?_eq_none]
    intro e he hsame
    rw [Function.comp_apply, hkey] at hsame
    obtain ⟨k', p⟩ := e
    obtain rfl : k' = k := hsame
    rw [Std.ExtTreeMap.mem_toList_iff_getElem?_eq_some, hp] at he
    cases he
  | some p =>
    have hmem : (k, p) ∈ d.paths.toList := Std.ExtTreeMap.mem_toList_iff_getElem?_eq_some.mpr hp
    cases hfind : d.paths.toList.find? _ with
    | none =>
      have hnone := List.find?_eq_none.mp hfind (k, p) hmem
      rw [Function.comp_apply, hkey] at hnone
      exact absurd rfl hnone
    | some e =>
      obtain ⟨k', q⟩ := e
      have hsame := List.find?_some hfind
      rw [Function.comp_apply, hkey] at hsame
      obtain rfl : k' = k := hsame
      have hq := List.mem_of_find?_eq_some hfind
      rw [Std.ExtTreeMap.mem_toList_iff_getElem?_eq_some, hp] at hq
      obtain rfl := Option.some.inj hq
      rfl

/-- A checkpoint of a state has each of its paths; only the state of a path then can be
resumed from it. -/
theorem Daemon.checkpoint_spec {d : Daemon} {k : PathKey} {p : PathRuntime}
    (hp : d.paths[k]? = some p) (bootId : String) (now : ℕ) :
    p.checkpoint k ∈ (d.checkpoint bootId now).paths ∧
      ∀ raw snapshot, (d.checkpoint bootId now).warm k raw = some snapshot →
        snapshot.state = p.machine.state := by
  have hfind := d.find?_checkpoint bootId now k
  rw [hp, Option.map_some] at hfind
  refine ⟨List.mem_of_find?_eq_some hfind, ?_⟩
  intro raw snapshot hwarm
  simp only [Checkpoint.warm, hfind, Option.bind_some, Option.ite_none_right_eq_some,
    Option.some.injEq] at hwarm
  obtain ⟨-, rfl⟩ := hwarm
  cases hstate : p.machine.state <;>
    simp [PathRuntime.checkpoint, Health.Machine.isUp, hstate]

/-! ## Which events change paths -/

namespace Daemon

section Paths

variable {d : Daemon}

theorem paths_interfaceChanged (ifindex : ℕ) (link : Bool) :
    (d.interfaceChanged ifindex link).paths = d.paths := by
  unfold interfaceChanged
  split
  · rfl
  · dsimp only
    split <;> rfl

theorem paths_react (change : Change) : (d.react change).paths = d.paths := by
  cases change <;> first | rfl | exact paths_interfaceChanged _ _

theorem paths_notification (now : ℕ) (m : Message) (port : ℕ) (flags : BitVec 16) :
    (d.notification now m port flags).paths = d.paths := by
  have hrule : ∀ (d : Daemon) (o : Option ObservedRule),
      (o.elim d (d.ruleRemoved now)).paths = d.paths := by
    intro d o
    cases o with
    | none => rfl
    | some o =>
      simp only [Option.elim_some, ruleRemoved]
      split <;> rfl
  have hroute : ∀ (d : Daemon) (o : Option TableKey),
      (o.elim d (d.routeRemoved now)).paths = d.paths := by
    intro d o
    cases o with
    | none => rfl
    | some o =>
      simp only [Option.elim_some, routeRemoved]
      split <;> rfl
  have hnexthop : ∀ id deleted m, (d.nexthopNotification now id deleted m).paths = d.paths := by
    intro id deleted m
    simp only [nexthopNotification]
    split <;> rfl
  cases m with
  | route r =>
    simp only [notification, routeNotification]
    rw [paths_react, hroute, hrule]
  | newNexthop n => exact hnexthop n.id false _
  | delNexthop n => exact hnexthop n.id true _
  | getNexthops => rfl

/-- Events other than rounds, passes and reloads leave the paths alone. -/
theorem paths_kept {e : Event} (hround : ∀ k r, e ≠ .round k r) (hpass : ∀ env, e ≠ .pass env)
    (hreload : ∀ c, e ≠ .reload c) : (d.handle e).paths = d.paths := by
  cases e with
  | notification now m port flags => exact paths_notification now m port flags
  | routerAdvertisement i =>
    simp only [handle, routerAdvertisement]
    repeat' split
    all_goals rfl
  | round k r => exact absurd rfl (hround k r)
  | drain u drain => rfl
  | reload c => exact absurd rfl (hreload c)
  | fullReconciliation env view =>
    simp only [handle, fullReconciliation]
    repeat' split
    all_goals rfl
  | nftApplied now seq result =>
    simp only [handle, nftApplied]
    repeat' split
    all_goals rfl
  | nftInspected now seq listing =>
    simp only [handle, nftInspected, checkNft]
    repeat' split
    all_goals rfl
  | sysctlsDone now seq scope result recorded =>
    simp only [handle, sysctlsDone]
    repeat' split
    all_goals rfl
  | handedBack now seq result recorded =>
    simp only [handle, handedBack]
    repeat' split
    all_goals rfl
  | pass env => exact absurd rfl (hpass env)

/-- Only rounds and passes change the health of a path that stays. -/
theorem paths_handle {e : Event} (hround : ∀ k r, e ≠ .round k r) (hpass : ∀ env, e ≠ .pass env)
    {k : PathKey} {q : PathRuntime} (hq : (d.handle e).paths[k]? = some q) :
    d.paths[k]? = some q := by
  by_cases hreload : ∃ c, e = .reload c
  · obtain ⟨c, rfl⟩ := hreload
    simp only [handle, reload] at hq
    split at hq
    · simp only [commitReload, Std.ExtTreeMap.getElem?_filter'] at hq
      exact (Option.filter_eq_some_iff.mp hq).1
    · exact hq
  · rwa [paths_kept hround hpass fun c hc => hreload ⟨c, hc⟩] at hq

theorem paths_reconcile (e : PassEnv) (waiting : Option Attempt) (input : Input) :
    (d.reconcile e waiting input).paths = d.paths := by
  have hlaunch : ∀ (d : Daemon) attempt, (d.launch e attempt).paths = d.paths := by
    intro d attempt
    simp only [launch]
    split <;> rfl
  have hfinish : ∀ (d : Daemon) attempt, (d.finish e attempt).paths = d.paths := by
    intro d attempt
    simp only [finish]
    split
    · rfl
    · split
      · split <;> rfl
      · rfl
  simp only [reconcile]
  split
  · rfl
  · split
    · exact hfinish _ _
    · simp only [perform]
      split
      · exact hlaunch _ _
      · rfl
      · rfl

theorem paths_dispatched (e : PassEnv) : (d.dispatched e).paths = d.paths := by
  refine d.dispatched_induction (P := fun d' => d'.paths = d.paths) e ?_ rfl
  intro d' scope h
  rw [← h]
  simp only [dispatchScope]
  split <;> rfl

/-- The paths after a pass are those of its evaluation. -/
theorem paths_step (e : PassEnv) :
    (d.step e).paths = (d.evaluating e).elim d.paths fun x => (x.evaluate e.now).paths := by
  simp only [step, evaluating]
  split
  · exact paths_dispatched e
  · split
    · rfl
    · exact paths_reconcile e _ _

theorem paths_evaluating {e : PassEnv} {x : Daemon} (hx : d.evaluating e = some x) :
    x.paths = d.paths := by
  simp only [evaluating] at hx
  split at hx
  · cases hx
  · split at hx
    · obtain rfl := Option.some.inj hx
      exact paths_dispatched e
    · obtain rfl := Option.some.inj hx
      exact paths_dispatched e

end Paths

/-! ## Evaluations -/

section Evaluation

variable {d : Daemon} {now : ℕ}

/-- An evaluation changes the state of a path only down, when the path is not ready. -/
theorem state_evaluate_ne_iff {k : PathKey} {p : PathRuntime} {raw : Discovered}
    (hp : d.paths[k]? = some p) :
    p.machine.state ≠ (d.evaluateMachine k raw).state ↔
      p.machine.state = .up ∧ ∃ reason, d.pathReady k raw = .error reason := by
  have hmachine : d.machineOf k = p.machine := by simp [machineOf, hp]
  unfold evaluateMachine
  cases d.pathReady k raw with
  | ok r =>
    by_cases hr : true = p.machine.ready
    · simp [hmachine, Health.Machine.setReady, hr]
    · simp [hmachine, Health.Machine.setReady, hr]
  | error reason =>
    by_cases hr : false = p.machine.ready
    · have hdown := p.machine.down_of_not_ready hr.symm
      simp [hmachine, Health.Machine.setReady, hr, hdown]
    · cases hstate : p.machine.state <;> simp [hmachine, Health.Machine.setReady, hr]

/-- The checkpoints of an evaluation have its paths. -/
theorem mem_evaluateCheckpoints {bootId : String} {c : Checkpoint}
    (hc : c ∈ d.evaluateCheckpoints bootId now) :
    ∃ active, c = { d.evaluate now with active }.checkpoint bootId now := by
  have hfold : ∀ fs acc, c ∈ (List.foldl (d.checkpointFamily bootId now) acc fs).2 →
      c ∈ acc.2 ∨ ∃ active, c = { d.evaluate now with active }.checkpoint bootId now := by
    intro fs
    induction fs with
    | nil => exact fun acc hmem => Or.inl hmem
    | cons f fs ih =>
      intro acc hmem
      obtain hmem | hmem := ih _ hmem
      · simp only [checkpointFamily] at hmem
        split at hmem
        · exact Or.inl hmem
        · obtain hmem | hmem := List.mem_append.mp hmem
          · exact Or.inl hmem
          · exact Or.inr ⟨_, List.mem_singleton.mp hmem⟩
      · exact Or.inr hmem
  obtain hmem | hmem := hfold _ _ hc
  · cases hmem
  · exact hmem

/-- There is a checkpoint exactly when an active set changes. -/
theorem evaluateCheckpoints_ne_nil_iff (bootId : String) :
    d.evaluateCheckpoints bootId now ≠ [] ↔ ∃ f, d.cfg.manages f = true ∧
      d.select (d.evaluateInput now).paths f ≠ (d.active[f]?).getD ∅ := by
  have hfold : ∀ fs acc, (List.foldl (d.checkpointFamily bootId now) acc fs).2 ≠ [] ↔
      acc.2 ≠ [] ∨ ∃ f ∈ fs,
        d.select (d.evaluateInput now).paths f ≠ (d.active[f]?).getD ∅ := by
    intro fs
    induction fs with
    | nil => simp
    | cons f fs ih =>
      intro acc
      rw [List.foldl_cons, ih]
      by_cases hsame : d.select (d.evaluateInput now).paths f = (d.active[f]?).getD ∅ <;>
        simp [checkpointFamily, hsame]
  have h := hfold (Family.all.filter d.cfg.manages) (d.active, [])
  simpa [evaluateCheckpoints, Family.mem_all] using h

end Evaluation

end Daemon

namespace Recorder

variable (r : Recorder)

/-- A round's transition is checkpointed at once. -/
theorem checkpointed_round (now : ℕ) (k : PathKey) (x : Health.Round) :
    r.Checkpointed (.daemon now (.round k x)) := by
  intro k' p q hp hq hne
  have hround : (r.daemon.round k x).paths[k']? = some q := hq
  have hsome : (r.daemon.roundTransition k x).isSome = true := by
    unfold Daemon.round at hround
    unfold Daemon.roundTransition
    split at hround
    · next p' h hp' hh =>
        rw [Std.ExtTreeMap.getElem?_insert] at hround
        split at hround
        · next hk =>
            obtain rfl : k = k' := by simpa using hk
            obtain rfl := Option.some.inj (hp.symm.trans hp')
            obtain rfl := Option.some.inj hround
            have hsome := (Health.Machine.isSome_round_iff p.machine x h).mpr hne
            simpa only [hp', hh] using hsome
        · rw [hp] at hround
          exact absurd (congrArg (fun p => p.machine.state) (Option.some.inj hround)) hne
    · rw [hp] at hround
      exact absurd (congrArg (fun p => p.machine.state) (Option.some.inj hround)) hne
  refine ⟨(r.daemon.round k x).checkpoint r.bootId now, ?_, Daemon.checkpoint_spec hround _ _⟩
  simp [submissions, hsome]

/-- A pass is checkpointed exactly when the states it changes go with an active set. -/
theorem checkpointed_pass (now : ℕ) (e : PassEnv) :
    r.Checkpointed (.daemon now (.pass e)) ↔ r.Covered (.daemon now (.pass e)) := by
  have hpaths : (r.step (.daemon now (.pass e))).daemon.paths =
      (r.daemon.evaluating e).elim r.daemon.paths fun x => (x.evaluate e.now).paths :=
    Daemon.paths_step e
  simp only [Checkpointed, Covered, hpaths, submissions]
  cases hx : r.daemon.evaluating e with
  | none =>
    simp only [Option.elim_none, reduceCtorEq, false_implies, implies_true, iff_true]
    intro k p q hp hq hne
    rw [hp] at hq
    exact absurd (congrArg (fun p => p.machine.state) (Option.some.inj hq)) hne
  | some d =>
    have hsame : d.paths = r.daemon.paths := Daemon.paths_evaluating hx
    have hevaluated : ∀ (k : PathKey) (q : PathRuntime), (d.evaluate e.now).paths[k]? = some q ↔
        ∃ raw, (d.discovered e.now)[k]? = some raw ∧ q = ⟨some raw, d.evaluateMachine k raw⟩ := by
      intro k q
      simp only [Daemon.evaluate, Std.ExtTreeMap.getElem?_map, Option.map_eq_some_iff,
        @eq_comm _ q]
    simp only [Option.elim_some, Option.some.injEq, forall_eq', ← hsame]
    constructor
    · rintro h ⟨k, p, raw, reason, hp, hup, hraw, hready⟩
      obtain ⟨c, hc, -⟩ := h k p ⟨some raw, d.evaluateMachine k raw⟩ hp
        ((hevaluated k _).mpr ⟨raw, hraw, rfl⟩)
        ((Daemon.state_evaluate_ne_iff hp).mpr ⟨hup, reason, hready⟩)
      refine (Daemon.evaluateCheckpoints_ne_nil_iff r.bootId).mp ?_
      intro hnil
      simp [hnil] at hc
    · intro h k p q hp hq hne
      obtain ⟨raw, hraw, rfl⟩ := (hevaluated k q).mp hq
      obtain ⟨hup, reason, hready⟩ := (Daemon.state_evaluate_ne_iff hp).mp hne
      have hnil := (Daemon.evaluateCheckpoints_ne_nil_iff r.bootId).mpr
        (h ⟨k, p, raw, reason, hp, hup, hraw, hready⟩)
      obtain ⟨active, hactive⟩ := Daemon.mem_evaluateCheckpoints (List.getLast_mem hnil)
      refine ⟨_, List.getLast?_eq_getLast_of_ne_nil hnil, ?_⟩
      rw [hactive]
      exact Daemon.checkpoint_spec (d := { d.evaluate e.now with active }) hq _ _

/-- **Every health transition is checkpointed** in exactly the runs in which no pass finds
a path down without changing an active set. -/
theorem checkpointed_iff_covered (events : List Event) :
    Lib.Along step Checkpointed r events ↔ Lib.Along step Covered r events := by
  have hstep : ∀ (r : Recorder) (e : Event), r.Checkpointed e ↔ r.Covered e := by
    intro r e
    cases e with
    | timer now =>
      simp only [Covered, iff_true]
      intro k p q hp hq hne
      rw [step, handle, hp] at hq
      exact absurd (congrArg (fun p => p.machine.state) (Option.some.inj hq)) hne
    | daemon now e =>
      by_cases hround : ∃ k x, e = .round k x
      · obtain ⟨k, x, rfl⟩ := hround
        simpa [Covered] using r.checkpointed_round now k x
      · by_cases hpass : ∃ env, e = .pass env
        · obtain ⟨env, rfl⟩ := hpass
          exact r.checkpointed_pass now env
        · have hcovered : r.Covered (.daemon now e) := by
            cases e <;> first | trivial | exact absurd ⟨_, rfl⟩ hpass
          simp only [hcovered, iff_true]
          intro k p q hp hq hne
          have hkept := Daemon.paths_handle (fun k x h => hround ⟨k, x, h⟩)
            (fun env h => hpass ⟨env, h⟩) hq
          rw [hp] at hkept
          exact absurd (congrArg (fun p => p.machine.state) (Option.some.inj hkept)) hne
  induction events generalizing r with
  | nil => simp [Lib.Along]
  | cons e events ih => simp only [Lib.Along, hstep, ih]

end Recorder

namespace Sample

/-- Both uplinks, the second as a standby, with a table of the administrator's. -/
def standby : Config :=
  { config with
    uplinks := [uplink id1 "fibre" "wan1", { uplink id2 "radio" "wan2" with priority := some 2 }]
    firewall := { firewall with mode := .external } }

/-- Both uplinks up, their settings applied, and a checkpoint of the timer. -/
def recorder : Recorder :=
  { daemon := (Daemon.start standby 7 0 network.system none ∅).run
      [ .pass quiet, .sysctlsDone 0 1 (.interface "wan1") (.ok ()) [],
        .sysctlsDone 0 2 (.interface "wan2") (.ok ()) [], .sysctlsDone 0 3 .global (.ok ()) [],
        .pass quiet ]
    bootId := "boot" : Recorder }.step (.timer 0)

/-- The address of the standby goes away. -/
def addressGone : Recorder.Event :=
  .daemon 0 (.notification 0 (.route (.delAddress (address 4 (.v4 0x0a010002)))) 0 0)

/-- The standby goes down in the next pass, which submits nothing; its address back, a
restart resumes it as up. -/
theorem standby_facts :
    ((recorder.step addressGone).daemon.paths[(⟨id2, .v4⟩ : PathKey)]?).map
        (fun p => p.machine.state) = some .up ∧
    (((recorder.step addressGone).step (.daemon 0 (.pass quiet))).daemon.paths[
        (⟨id2, .v4⟩ : PathKey)]?).map (fun p => p.machine.state) = some .down ∧
    ((recorder.step addressGone).submissions (.daemon 0 (.pass quiet))).isEmpty = true ∧
    ((discover standby network.system 249 0)[(⟨id2, .v4⟩ : PathKey)]?).map
        (fun raw => (loadCheckpoint
          ((recorder.step addressGone).step (.daemon 0 (.pass quiet))).submitted.getLast? "boot" 0
          standby.structural ⟨id2, .v4⟩ raw).state) = some .up := by
  decide +kernel

end Sample

open Sample in
/-- The standby loses its address: the pass that takes it down submits no checkpoint, and a
restart resumes it as up from the previous one. -/
theorem Recorder.standby_unrecorded :
    ¬ (recorder.step addressGone).Checkpointed (.daemon 0 (.pass quiet)) ∧
    ((discover standby network.system 249 0)[(⟨id2, .v4⟩ : PathKey)]?).map
        (fun raw => (loadCheckpoint
          ((recorder.step addressGone).step (.daemon 0 (.pass quiet))).submitted.getLast? "boot" 0
          standby.structural ⟨id2, .v4⟩ raw).state) = some .up := by
  obtain ⟨hbefore, hafter, hnone, hresumed⟩ := standby_facts
  refine ⟨?_, hresumed⟩
  intro hcheckpointed
  obtain ⟨p, hp, hup⟩ := Option.map_eq_some_iff.mp hbefore
  obtain ⟨q, hq, hdown⟩ := Option.map_eq_some_iff.mp hafter
  obtain ⟨c, hc, -⟩ := hcheckpointed ⟨id2, .v4⟩ p q hp hq (by simp [hup, hdown])
  simp [List.isEmpty_iff.mp hnone] at hc

end Polywan
