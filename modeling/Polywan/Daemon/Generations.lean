import Polywan.Daemon.Reread
import Polywan.Reconcile.Converge

/-!
# Generations

Each desired state has a generation; the pass that finds nothing to do reports the last
one as applied, and the kinds of artifacts that third parties removed as repaired.  It
looks at the operations without the repairs that wait for a full reconciliation, so that
artifacts still missing are reported as restored.

## Main definitions

* `Reporting` — the daemon with what it reports.
* `Reporting.Applies`, `Reporting.repaired` — what a pass reports.
* `Reporting.InForce` — a pass finds the desired state in the view.
* `Reporting.Truthful` — along a run, what is reported holds.
-/

namespace Polywan

/-- The daemon with the generations and the repairs to report. -/
structure Reporting where
  daemon : Daemon
  desiredGeneration : ℕ := 0
  appliedGeneration : ℕ := 0
  /-- The desired state, the transaction and the configuration of the last generation. -/
  lastDesired : Option (Desired × Nft.Table × Config) := none
  /-- Kinds of artifacts removed by a third party since the last report. -/
  repairs : List ArtifactKind := []

namespace Daemon

variable (d : Daemon)

/-- The kinds of artifacts whose removal by a third party an event counts. -/
def removedKinds : Event → List ArtifactKind
  | .notification now (.route m) port _ =>
    if port ≠ 0 && port ≠ d.port then
      (d.removedRule m).toList.map (fun _ => .rules)
        ++ (d.removedRoute now m).toList.map fun _ => .routes
    else []
  | .nftInspected _ seq (.ok listing) =>
    let differs := listing.isNone || (d.nft.listing.isSome && listing ≠ d.nft.listing)
    if d.inspection = some seq && d.managed && differs && d.nft.applied.isSome then [.nftables]
    else []
  | _ => []

/-- The desired state of a pass, with the transaction and the configuration. -/
def desiredState (now : ℕ) : Desired × Nft.Table × Config :=
  (plan d.cfg (d.evaluateInput now), d.transaction, d.cfg)

/-- Whether the comparison of a pass finds nothing to do and nothing in progress. -/
def completes (waiting : Option Attempt) (input : Input) : Bool :=
  waiting ≠ some (.ops (d.released.passOps input)) && (d.released.dueOps input).isEmpty
    && !(d.nft.flight.isSome || d.handBack.isSome)
    && !(!(Sysctl.departed d.sysctls.recorded d.cfg).isEmpty && d.cfg.routing.manageSysctls)

end Daemon

namespace Reporting

variable (r : Reporting)

/-- Whether a pass finds nothing to do. -/
def completes (e : PassEnv) : Bool :=
  (r.daemon.prepared e).any fun p =>
    (p.evaluate e.now).completes (r.daemon.waiting e.now) (p.evaluateInput e.now)

/-- Whether a pass reports the desired generation as applied. -/
def Applies (e : PassEnv) : Prop :=
  r.completes e = true ∧ ∀ p ∈ r.daemon.prepared e, p.sysctls.pending.isEmpty = true

/-- The kinds of artifacts that a pass reports as repaired. -/
def repaired (e : PassEnv) : List ArtifactKind := if r.completes e then r.repairs else []

/-- A pass: the desired state gets a new generation when it changed. -/
def planned (p : Daemon) (now : ℕ) : Reporting :=
  if r.lastDesired = some (p.desiredState now) then r
  else { r with
    desiredGeneration := r.desiredGeneration + 1
    lastDesired := some (p.desiredState now) }

/-- One reconciliation pass. -/
def pass (e : PassEnv) : Reporting :=
  match r.daemon.prepared e with
  | none => { r with daemon := r.daemon.step e }
  | some p =>
    let next := { r.planned p e.now with daemon := r.daemon.step e }
    if r.completes e then
      { next with
        appliedGeneration :=
          if p.sysctls.pending.isEmpty then next.desiredGeneration else r.appliedGeneration
        repairs := [] }
    else next

/-- The state after an event. -/
def step : Daemon.Event → Reporting
  | .pass e => r.pass e
  | ev => { r with
      daemon := r.daemon.handle ev
      repairs := r.repairs ∪ r.daemon.removedKinds ev }

/-- The state after a list of events. -/
def run (events : List Daemon.Event) : Reporting := events.foldl step r

/-- A pass finds the desired state in its view: the comparison has no operation, every
desired rule and route is there, and nothing else of the program's. -/
def InForce (e : PassEnv) : Prop :=
  ∃ p, r.daemon.prepared e = some p ∧
    diff p.system (p.pass (p.evaluateInput e.now)).diffInput = [] ∧
    Converged p.layout p.protocol (plan p.cfg (p.evaluateInput e.now)) p.system

/-- **What is reported holds.**  The applied generation never exceeds the desired one; a
pass that reports it, or a repair, finds the desired state in force; and every generation
reported since the start was in force when a pass reported it or a later one. -/
structure Truthful (events : List Daemon.Event) : Prop where
  applied_le : ∀ before after, events = before ++ after →
    (r.run before).appliedGeneration ≤ (r.run before).desiredGeneration
  inForce : ∀ before e after, events = before ++ .pass e :: after →
    (r.run before).Applies e ∨ (r.run before).repaired e ≠ [] → (r.run before).InForce e
  answered : ∀ before after target, events = before ++ after → r.appliedGeneration < target →
    target ≤ (r.run before).appliedGeneration →
    ∃ a e b, before = a ++ .pass e :: b ∧ (r.run a).Applies e ∧ (r.run a).InForce e ∧
      target ≤ (r.run (a ++ [.pass e])).appliedGeneration

/-- A new view is made of the kernel's messages. -/
def Genuine : Daemon.Event → Prop
  | .fullReconciliation _ view => ∀ s ∈ view, s.WellFormed r.daemon.scope
  | _ => True

/-- A pass holds no repair back, or is part of a full reconciliation. -/
def Unheld : Daemon.Event → Prop
  | .pass _ => r.daemon.fullPass = true ∨ r.daemon.heldRules = [] ∧ r.daemon.heldRoutes = ∅
  | _ => True

end Reporting

/-! ## One pass -/

namespace Daemon

variable {d p : Daemon} {e : PassEnv} (hp : d.prepared e = some p)
include hp

theorem fullPass_of_prepared : p.fullPass = d.fullPass := by
  have hdispatched : (d.dispatched e).fullPass = d.fullPass := by
    refine d.dispatched_induction (P := fun d' => d'.fullPass = d.fullPass) e ?_ rfl
    intro d' scope h
    unfold dispatchScope
    dsimp only
    split <;> exact h
  unfold prepared at hp
  split at hp
  · cases hp
  · split at hp
    · cases hp
    · obtain rfl := Option.some.inj hp
      exact hdispatched

/-- A pass that holds nothing back and finds nothing to do has an empty comparison. -/
theorem diff_eq_nil_of_completes
    (hfree : d.fullPass = true ∨ d.heldRules = [] ∧ d.heldRoutes = ∅)
    (h : (p.evaluate e.now).completes (d.waiting e.now) (p.evaluateInput e.now) = true) :
    diff p.system (p.pass (p.evaluateInput e.now)).diffInput = [] := by
  simp only [completes, Bool.and_eq_true, Bool.not_eq_true', Bool.or_eq_false_iff] at h
  obtain ⟨⟨⟨-, hops⟩, hflight, -⟩, -⟩ := h
  have hdue : (p.evaluate e.now).released.dueOps (p.evaluateInput e.now) =
      (p.evaluate e.now).released.passOps (p.evaluateInput e.now) := by
    rw [dueOps, if_neg]
    rw [show (p.evaluate e.now).released.nft.flight.isSome = false from hflight]
    exact Bool.false_ne_true
  obtain ⟨tables, hcore⟩ := d.prepared_spec hp
  have hheld : (p.evaluate e.now).released.heldRules = [] ∧
      (p.evaluate e.now).released.heldRoutes = ∅ := by
    rcases hfree with hfull | ⟨hrules, hroutes⟩
    · have hfull : (p.evaluate e.now).fullPass = true := (fullPass_of_prepared hp).trans hfull
      simp [released, hfull]
    · have hrules : (p.evaluate e.now).heldRules = [] :=
        (congrArg Core.heldRules hcore).trans hrules
      have hroutes : (p.evaluate e.now).heldRoutes = ∅ :=
        (congrArg Core.heldRoutes hcore).trans hroutes
      simp [released, hrules, hroutes]
  have hpass := passOps_of_unheld hheld.1 hheld.2 (p.evaluateInput e.now)
  rw [List.isEmpty_iff, hdue, hpass] at hops
  exact hops

end Daemon

namespace Reporting

/-- What the daemon counts on. -/
structure Sound (r : Reporting) : Prop where
  valid : r.daemon.cfg.Valid
  wellFormed : r.daemon.system.WellFormed r.daemon.scope

variable {r : Reporting}

/-- **A pass that holds nothing back and finds nothing to do finds the desired state.** -/
theorem Sound.inForce (hs : r.Sound) {e : PassEnv} (hfree : r.Unheld (.pass e))
    (h : r.completes e = true) : r.InForce e := by
  obtain ⟨p, hp, hcompletes⟩ : ∃ p, r.daemon.prepared e = some p ∧
      (p.evaluate e.now).completes (r.daemon.waiting e.now) (p.evaluateInput e.now) = true := by
    cases hp : r.daemon.prepared e with
    | none => simp [completes, hp] at h
    | some p => exact ⟨p, rfl, by simpa [completes, hp] using h⟩
  have hdiff := Daemon.diff_eq_nil_of_completes hp hfree hcompletes
  have hvalid : (p.pass (p.evaluateInput e.now)).config.Valid := by
    rw [show (p.pass (p.evaluateInput e.now)).config = r.daemon.cfg from
      (r.daemon.reread_of_prepared hp).1]
    exact hs.valid
  have hcovers : r.daemon.scope.Covers (p.pass (p.evaluateInput e.now)).diffInput.layout := by
    rw [← Daemon.scope_of_prepared hp]
    exact Scope.covers_of p.cfg
  refine ⟨p, hp, hdiff, ?_⟩
  exact converged_of_diff_eq_nil (Daemon.wellFormed_of_prepared hp hs.wellFormed) hcovers
    (Pass.proper hvalid) Pass.governs (fun _ _ => plan_of_without) hdiff

/-- A pass, as far as the daemon is concerned. -/
theorem daemon_step (ev : Daemon.Event) : (r.step ev).daemon = r.daemon.handle ev := by
  cases ev with
  | pass e =>
    simp only [step, pass, Daemon.handle]
    split
    · rfl
    · split <;> rfl
  | notification _ _ _ _ | reload _ | fullReconciliation _ _ | routerAdvertisement _ | round _ _
  | drain _ _ | nftApplied _ _ _ | nftInspected _ _ _ | sysctlsDone _ _ _ _ _
  | handedBack _ _ _ _ => rfl

theorem Sound.step (hs : r.Sound) {ev : Daemon.Event} (hgenuine : r.Genuine ev) :
    (r.step ev).Sound := by
  suffices h : (r.daemon.handle ev).cfg.Valid ∧
      (r.daemon.handle ev).system.WellFormed (r.daemon.handle ev).scope by
    refine ⟨?_, ?_⟩
    · rw [daemon_step]
      exact h.1
    · rw [daemon_step]
      exact h.2
  have hsame : ∀ {d : Daemon}, d.cfg = r.daemon.cfg → d.system.WellFormed r.daemon.scope →
      d.cfg.Valid ∧ d.system.WellFormed d.scope := by
    intro d hcfg hw
    rw [show d.scope = r.daemon.scope from congrArg Scope.of hcfg, hcfg]
    exact ⟨hs.valid, hw⟩
  have hidle : ev.Idle → (r.daemon.handle ev).cfg.Valid ∧
      (r.daemon.handle ev).system.WellFormed (r.daemon.handle ev).scope := by
    intro h
    obtain ⟨hcfg, hsystem⟩ := r.daemon.view_of_idle h
    exact hsame hcfg (hsystem ▸ hs.wellFormed)
  cases ev with
  | pass e =>
    refine hsame (r.daemon.lane_step e).1 ?_
    cases hp : r.daemon.prepared e with
    | none =>
      have hsystem : (r.daemon.step e).system = r.daemon.system :=
        congrArg Core.system (r.daemon.step_of_not_prepared hp)
      rw [Daemon.handle, hsystem]
      exact hs.wellFormed
    | some p =>
      rw [Daemon.handle, Daemon.system_of_prepared hp, Daemon.scope_of_prepared hp]
      exact (Daemon.wellFormed_of_prepared hp hs.wellFormed).applyOps _ _ _
  | notification now m port flags =>
    obtain ⟨_, _, hcore⟩ := r.daemon.core_notification_of_any now m port flags
    have hsystem : (r.daemon.notification now m port flags).system =
        (r.daemon.system.applyMessage now r.daemon.scope m).1 := congrArg Core.system hcore
    refine hsame (congrArg Core.cfg hcore) ?_
    rw [Daemon.handle, hsystem]
    exact hs.wellFormed.applyMessage now m
  | reload c =>
    simp only [Daemon.handle, Daemon.reload]
    split
    · next hcommit =>
        refine ⟨hcommit.1, hs.wellFormed.of_isPolywan fun t => ?_⟩
        change (Scope.of c).isPolywan t = r.daemon.scope.isPolywan t
        rw [Scope.covers_of c, Layout.of_structural hcommit.2]
        exact (Scope.covers_of r.daemon.cfg t).symm
    · exact ⟨hs.valid, hs.wellFormed⟩
  | fullReconciliation e view =>
    have hcore := r.daemon.core_fullReconciliation e view
    have hsystem : (r.daemon.fullReconciliation e view).system = view.getD r.daemon.system :=
      congrArg Core.system hcore
    refine hsame (congrArg Core.cfg hcore) ?_
    rw [Daemon.handle, hsystem]
    cases view with
    | none => exact hs.wellFormed
    | some s => exact hgenuine s rfl
  | routerAdvertisement _ | round _ _ | drain _ _ | nftApplied _ _ _ | nftInspected _ _ _
  | sysctlsDone _ _ _ _ _ | handedBack _ _ _ _ => exact hidle trivial

/-- The generations after an event: the applied one stays, or becomes the desired one in a
pass that reports it. -/
theorem generation_step (ev : Daemon.Event) :
    r.desiredGeneration ≤ (r.step ev).desiredGeneration ∧
      ((r.step ev).appliedGeneration = r.appliedGeneration ∨
        ∃ e, ev = .pass e ∧ r.Applies e ∧
          (r.step ev).appliedGeneration = (r.step ev).desiredGeneration) := by
  cases ev with
  | pass e =>
    have hplanned : ∀ (p : Daemon), r.desiredGeneration ≤ (r.planned p e.now).desiredGeneration ∧
        (r.planned p e.now).appliedGeneration = r.appliedGeneration := by
      intro p
      unfold planned
      split
      · exact ⟨Nat.le_refl _, rfl⟩
      · exact ⟨Nat.le_succ _, rfl⟩
    simp only [step, pass]
    split
    · exact ⟨Nat.le_refl _, .inl rfl⟩
    · next p hp =>
        split
        · next hcompletes =>
            refine ⟨(hplanned p).1, ?_⟩
            cases hpending : p.sysctls.pending.isEmpty with
            | false => exact .inl (by simp)
            | true =>
              refine .inr ⟨e, rfl, ⟨hcompletes, ?_⟩, by simp⟩
              rintro p' hp'
              obtain rfl := Option.some.inj (hp.symm.trans hp')
              exact hpending
        · exact ⟨(hplanned p).1, .inl (hplanned p).2⟩
  | notification _ _ _ _ | reload _ | fullReconciliation _ _ | routerAdvertisement _ | round _ _
  | drain _ _ | nftApplied _ _ _ | nftInspected _ _ _ | sysctlsDone _ _ _ _ _
  | handedBack _ _ _ _ => exact ⟨Nat.le_refl _, .inl rfl⟩

/-! ## Runs -/

/-- **In every run whose passes hold no repair back, what is reported holds.** -/
theorem truthful_run (r : Reporting) (hvalid : r.daemon.cfg.Valid)
    (hwell : r.daemon.system.WellFormed r.daemon.scope)
    (hle : r.appliedGeneration ≤ r.desiredGeneration) {events : List Daemon.Event}
    (hgenuine : Lib.Along step Genuine r events) (hunheld : Lib.Along step Unheld r events) :
    r.Truthful events := by
  have hinForce : ∀ before e after, events = before ++ .pass e :: after →
      (r.run before).completes e = true → (r.run before).InForce e := by
    rintro before e after rfl hcompletes
    obtain ⟨hbefore, -⟩ := Lib.along_append.mp hgenuine
    obtain ⟨-, hpass, -⟩ := Lib.along_append.mp hunheld
    have hs : (r.run before).Sound :=
      hbefore.invariant (fun r ev hs hev => hs.step hev) ⟨hvalid, hwell⟩
    exact hs.inForce hpass hcompletes
  refine ⟨?_, ?_, ?_⟩
  · rintro before after -
    induction before using List.reverseRecOn with
    | nil => exact hle
    | append_singleton before ev ih =>
      obtain ⟨hdesired, happlied⟩ := (r.run before).generation_step ev
      rw [run, List.foldl_append, List.foldl_cons, List.foldl_nil]
      rcases happlied with hsame | ⟨-, -, -, hnow⟩
      · exact hsame ▸ ih.trans hdesired
      · exact hnow.le
  · intro before e after hevents hreports
    refine hinForce before e after hevents ?_
    rcases hreports with happlies | hrepaired
    · exact happlies.1
    · by_contra hnot
      exact hrepaired (if_neg hnot)
  · intro before
    induction before using List.reverseRecOn with
    | nil =>
      intro after target _ hlt hle
      exact absurd hle (Nat.not_le.mpr hlt)
    | append_singleton before ev ih =>
      intro after target hevents hlt hreached
      have hsplit : events = before ++ ev :: after := by
        rw [hevents, List.append_assoc]
        rfl
      by_cases hearlier : target ≤ (r.run before).appliedGeneration
      · obtain ⟨a, e, b, rfl, hlater⟩ := ih (ev :: after) target hsplit hlt hearlier
        exact ⟨a, e, b ++ [ev], by simp, hlater⟩
      · rcases ((r.run before).generation_step ev).2 with hsame | ⟨e, rfl, happlies, -⟩
        · rw [run, List.foldl_append, List.foldl_cons, List.foldl_nil] at hreached
          exact absurd (hsame ▸ hreached) hearlier
        · exact ⟨before, e, [], rfl, happlies, hinForce before e after hsplit happlies.1, hreached⟩

end Reporting

namespace Sample

/-- One uplink whose settings are applied, before its first generation. -/
def reporting : Reporting where
  daemon := (Daemon.start plain 7 0 network.system none ∅).run
    [ .pass quiet, .sysctlsDone 0 1 (.interface "wan1") (.ok ()) [],
      .sysctlsDone 0 2 .global (.ok ()) [] ]

/-- The rules are installed, then the uplink is drained. -/
def drained : List Daemon.Event :=
  [.pass quiet, .pass quiet, .drain id1 true, .pass quiet, .pass quiet]

/-- A third party removes a rule. -/
def ruleRemoval : Daemon.Event :=
  .notification 0 (.route (.delRule (ruleMessage (Role.balance.rule (Layout.of plain) .v4) 249)))
    9 0

/-- The rules are installed, one is removed four times, then the uplink is drained. -/
def contested : List Daemon.Event :=
  [ .pass quiet, .pass quiet, ruleRemoval, ruleRemoval, ruleRemoval, ruleRemoval,
    .drain id1 true, .pass quiet ]

theorem reporting_sound : reporting.Sound := by
  have hfacts : reporting.daemon.cfg.Valid ∧
      (∀ e ∈ reporting.daemon.system.routes.toList,
        routeKey reporting.daemon.scope e.2 = e.1) ∧
      (∀ o ∈ reporting.daemon.system.rules, ObservedRule.parse o.message = some o) ∧
      reporting.daemon.system.rules.Pairwise fun a b => sameRule a b = false := by
    decide +kernel
  obtain ⟨hvalid, hkeys, hparsed, hdistinct⟩ := hfacts
  exact ⟨hvalid, fun κ r hr =>
    hkeys (κ, r) (Std.ExtTreeMap.mem_toList_iff_getElem?_eq_some.mpr hr), hparsed, hdistinct⟩

/-- No repair is held back before any pass. -/
theorem drain_facts :
    (reporting.run drained).appliedGeneration = 2 ∧
      ∀ n < 5, (reporting.run (drained.take n)).daemon.heldRules = [] ∧
        (reporting.run (drained.take n)).daemon.heldRoutes = ∅ := by
  decide +kernel

/-- The last pass finds an operation and runs none. -/
theorem contested_facts :
    (reporting.run contested).completes quiet = true ∧
      ((reporting.run contested).daemon.prepared quiet).all (fun p =>
        p.sysctls.pending.isEmpty &&
          !(diff p.system (p.pass (p.evaluateInput quiet.now)).diffInput).isEmpty) = true ∧
      (reporting.run contested).repaired quiet = [.rules] ∧
      (reporting.run (contested ++ [.pass quiet])).appliedGeneration = 2 := by
  decide +kernel

end Sample

open Sample in
/-- The generation with the drained uplink is reported. -/
theorem Reporting.truthful_run_sample :
    reporting.Truthful drained ∧ (reporting.run drained).appliedGeneration = 2 := by
  obtain ⟨happlied, hheld⟩ := drain_facts
  refine ⟨truthful_run reporting reporting_sound.valid reporting_sound.wellFormed (Nat.le_refl _)
    ⟨trivial, trivial, trivial, trivial, trivial, trivial⟩ ?_, happlied⟩
  exact ⟨.inr (hheld 0 (by decide)), .inr (hheld 1 (by decide)), trivial,
    .inr (hheld 3 (by decide)), .inr (hheld 4 (by decide)), trivial⟩

open Sample in
/-- **A repair held back is reported as made**: the generation of the drained uplink is
reported as applied and the rules as repaired, and a rule is missing. -/
theorem Reporting.held_repair_untruthful :
    reporting.Sound ∧ Lib.Along step Genuine reporting (contested ++ [.pass quiet]) ∧
      (reporting.run contested).Applies quiet ∧
      (reporting.run contested).repaired quiet = [.rules] ∧
      (reporting.run (contested ++ [.pass quiet])).appliedGeneration = 2 ∧
      ¬ (reporting.run contested).InForce quiet ∧
      ¬ reporting.Truthful (contested ++ [.pass quiet]) := by
  obtain ⟨hcompletes, hpass, hrepaired, hgeneration⟩ := contested_facts
  have happlies : (reporting.run contested).Applies quiet := by
    refine ⟨hcompletes, fun p hp => ?_⟩
    rw [hp] at hpass
    exact ((Bool.and_eq_true _ _).mp hpass).1
  have hmissing : ¬ (reporting.run contested).InForce quiet := by
    rintro ⟨p, hp, hdiff, -⟩
    rw [hp] at hpass
    simp [hdiff] at hpass
  refine ⟨reporting_sound, ?_, happlies, hrepaired, hgeneration, hmissing,
    fun htruthful => hmissing (htruthful.inForce contested quiet [] rfl (.inl happlies))⟩
  exact ⟨trivial, trivial, trivial, trivial, trivial, trivial, trivial, trivial, trivial, trivial⟩

end Polywan
