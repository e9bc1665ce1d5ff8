import Polywan.Daemon.Pass
import Polywan.Lib.Prefix
import Polywan.Reconcile.Execute

/-!
# What the events of the daemon change

Most events leave the configuration, the state of the nftables table and the repairs
held back alone; this module says so once, and what a pass does otherwise.

## Main definitions

* `Daemon.core` — the part of the state that only few events change.
* `Daemon.prepared` — the state a pass compares in.
* `Daemon.executed` — the operations that a pass runs.
* `Daemon.Event.Passive` — an event that neither drains nor reloads.
-/

namespace Polywan

/-- The layout is structural. -/
theorem Layout.of_structural {c c' : Config} (h : c.structural = c'.structural) :
    Layout.of c = Layout.of c' :=
  congrArg (fun s : Structural => Layout.mk s.tableBase s.rulePriorityBase s.fwmarkMask) h

/-! ## The core of the state -/

/-- The part of the state that only few events change. -/
structure Core where
  cfg : Config
  system : System
  nft : NftState
  heldRules : List ObservedRule
  heldRoutes : Std.ExtTreeSet TableKey

namespace Daemon

variable (d : Daemon)

def core : Core where
  cfg := d.cfg
  system := d.system
  nft := d.nft
  heldRules := d.heldRules
  heldRoutes := d.heldRoutes

@[simp] theorem core_dispatchScope (e : PassEnv) (scope : SysctlScope) :
    (d.dispatchScope e scope).core = d.core := by
  unfold dispatchScope
  dsimp only
  split <;> rfl

/-- A fact that giving settings to the lane keeps holds after a pass did so. -/
theorem dispatched_induction {P : Daemon → Prop} (e : PassEnv)
    (hstep : ∀ d scope, P d → P (d.dispatchScope e scope)) (h : P d) : P (d.dispatched e) := by
  have hfold : ∀ (global : Bool) (scopes : List SysctlScope) (d : Daemon), P d →
      P (scopes.foldl (fun d scope =>
        if d.sysctlDue e.now global scope then d.dispatchScope e scope else d) d) := by
    intro global scopes
    induction scopes with
    | nil => exact fun d hd => hd
    | cons scope scopes ih =>
      intro d hd
      refine ih _ ?_
      dsimp only
      split
      · exact hstep d scope hd
      · exact hd
  unfold dispatched
  split
  · exact h
  · exact hfold _ _ d h

@[simp] theorem core_dispatched (e : PassEnv) : (d.dispatched e).core = d.core :=
  d.dispatched_induction (P := fun d' => d'.core = d.core) e
    (fun d' scope h => (core_dispatchScope d' e scope).trans h) rfl

@[simp] theorem core_interfaceChanged (ifindex : ℕ) (link : Bool) :
    (d.interfaceChanged ifindex link).core = d.core := by
  unfold interfaceChanged
  split
  · rfl
  · dsimp only
    split <;> rfl

@[simp] theorem core_react (change : Change) : (d.react change).core = d.core := by
  cases change <;> first | rfl | exact core_interfaceChanged d _ _

@[simp] theorem core_nexthopNotification (now id : ℕ) (deleted : Bool) (m : Message) :
    (d.nexthopNotification now id deleted m).core =
      { d.core with system := (d.system.applyMessage now d.scope m).1 } := by
  unfold nexthopNotification
  dsimp only
  split <;> rfl

@[simp] theorem core_routerAdvertisement (ifindex : ℕ) :
    (d.routerAdvertisement ifindex).core = d.core := by
  unfold routerAdvertisement
  split
  · rfl
  · dsimp only
    split <;> rfl

@[simp] theorem core_round (k : PathKey) (r : Health.Round) : (d.round k r).core = d.core := by
  unfold round
  split <;> rfl

@[simp] theorem core_finish (e : PassEnv) (attempt : List Op) :
    (d.finish e attempt).core = d.core := by
  unfold finish
  split
  · rfl
  · split
    · dsimp only
      split <;> rfl
    · rfl

@[simp] theorem core_sysctlsDone (now seq : ℕ) (scope : SysctlScope)
    (result : Except String Unit) (recorded : List String) :
    (d.sysctlsDone now seq scope result recorded).core = d.core := by
  unfold sysctlsDone
  dsimp only
  split
  · rfl
  · split <;> rfl

@[simp] theorem core_handedBack (now seq : ℕ) (result : Except String Unit)
    (recorded : List String) : (d.handedBack now seq result recorded).core = d.core := by
  unfold handedBack
  dsimp only
  split
  · rfl
  · split <;> rfl

@[simp] theorem core_fullReconciliation (e : PassEnv) (view : Option System) :
    (d.fullReconciliation e view).core = { d.core with system := view.getD d.system } := by
  unfold fullReconciliation
  dsimp only
  split
  · rfl
  · split <;> rfl

/-- A notification that removes no rule or route of the program. -/
def Harmless (now : ℕ) (m : Message) (port : ℕ) : Prop :=
  ∀ r, m = .route r →
    port = 0 ∨ port = d.port ∨ d.removedRule r = none ∧ d.removedRoute now r = none

/-- Such a notification holds no repair back. -/
theorem core_notification {now : ℕ} {m : Message} {port : ℕ} (h : d.Harmless now m port)
    (flags : BitVec 16) :
    (d.notification now m port flags).core =
      { d.core with system := (d.system.applyMessage now d.scope m).1 } := by
  unfold notification
  split
  · next r =>
      have hrule : (if port ≠ 0 && port ≠ d.port then d.removedRule r else none) = none := by
        rcases h r rfl with h | h | h <;> simp [h]
      have hroute : (if port ≠ 0 && port ≠ d.port then d.removedRoute now r else none) = none := by
        rcases h r rfl with h | h | h <;> simp [h]
      unfold routeNotification
      dsimp only
      rw [hrule, hroute]
      exact core_react _ _
  · exact core_nexthopNotification ..
  · exact core_nexthopNotification ..
  · rfl

/-- Any notification: the view changes, and repairs may be held back. -/
theorem core_notification_of_any (now : ℕ) (m : Message) (port : ℕ) (flags : BitVec 16) :
    ∃ heldRules heldRoutes, (d.notification now m port flags).core =
      { d.core with
        system := (d.system.applyMessage now d.scope m).1, heldRules, heldRoutes } := by
  have hrule : ∀ (d : Daemon) (r : Option ObservedRule), ∃ heldRules,
      (r.elim d (d.ruleRemoved now)).core = { d.core with heldRules } := by
    intro d r
    cases r with
    | none => exact ⟨d.heldRules, rfl⟩
    | some r =>
      simp only [Option.elim_some, ruleRemoved]
      split <;> exact ⟨_, rfl⟩
  have hroute : ∀ (d : Daemon) (k : Option TableKey), ∃ heldRoutes,
      (k.elim d (d.routeRemoved now)).core = { d.core with heldRoutes } := by
    intro d k
    cases k with
    | none => exact ⟨d.heldRoutes, rfl⟩
    | some k =>
      simp only [Option.elim_some, routeRemoved]
      split <;> exact ⟨_, rfl⟩
  unfold notification
  split
  · unfold routeNotification
    dsimp only
    rw [core_react]
    obtain ⟨heldRules, hr⟩ := hrule _ _
    obtain ⟨heldRoutes, hk⟩ := hroute _ _
    refine ⟨heldRules, heldRoutes, hk.trans ?_⟩
    rw [hr]
    rfl
  · exact ⟨d.heldRules, d.heldRoutes, core_nexthopNotification ..⟩
  · exact ⟨d.heldRules, d.heldRoutes, core_nexthopNotification ..⟩
  · exact ⟨d.heldRules, d.heldRoutes, rfl⟩

theorem core_nftInspected (now seq : ℕ) (listing : Except String (Option Nft.Table)) :
    ∃ missing, (d.nftInspected now seq listing).core =
      { d.core with nft := { d.nft with missing } } := by
  unfold nftInspected checkNft
  split
  · split
    · exact ⟨d.nft.missing, rfl⟩
    · split
      · exact ⟨d.nft.missing, rfl⟩
      · dsimp only
        split <;> exact ⟨_, rfl⟩
  · exact ⟨d.nft.missing, rfl⟩

/-- A completion of the nftables lane counts when it is that of the application in
flight. -/
theorem core_nftApplied_of_ne {now seq : ℕ} {result : Except String (Option Nft.Table)}
    (h : ∀ f ∈ d.nft.flight, f.seq ≠ seq) : (d.nftApplied now seq result).core = d.core := by
  have hnone : d.nft.flight.filter (fun f => decide (f.seq = seq)) = none :=
    Option.filter_eq_none_iff.mpr (by simpa using h)
  rw [nftApplied, hnone]

theorem core_nftApplied {f : NftFlight} (h : d.nft.flight = some f) (now : ℕ)
    (result : Except String (Option Nft.Table)) :
    (d.nftApplied now f.seq result).core = { d.core with nft := match result with
      | .ok listing => { d.nft with
          flight := none, applied := some (f.transaction, f.configured), missing := false
          listing }
      | .error _ => { d.nft with flight := none } } := by
  have hsome : d.nft.flight.filter (fun g => decide (g.seq = f.seq)) = some f := by
    simp [h]
  rw [nftApplied, hsome]
  cases result <;> rfl

/-- An event that changes neither the configuration nor the view. -/
def Event.Idle : Event → Prop
  | .notification _ _ _ _ | .reload _ | .fullReconciliation _ _ | .pass _ => False
  | .routerAdvertisement _ | .round _ _ | .drain _ _ | .nftApplied _ _ _ | .nftInspected _ _ _
  | .sysctlsDone _ _ _ _ _ | .handedBack _ _ _ _ => True

theorem view_of_idle {ev : Event} (h : ev.Idle) :
    (d.handle ev).cfg = d.cfg ∧ (d.handle ev).system = d.system := by
  have hcore : (d.handle ev).core = d.core →
      (d.handle ev).cfg = d.cfg ∧ (d.handle ev).system = d.system :=
    fun hcore => ⟨congrArg Core.cfg hcore, congrArg Core.system hcore⟩
  cases ev with
  | notification _ _ _ _ | reload _ | fullReconciliation _ _ | pass _ => cases h
  | routerAdvertisement i => exact hcore (d.core_routerAdvertisement i)
  | round k r => exact hcore (d.core_round k r)
  | drain u drain => exact hcore rfl
  | nftApplied now seq result =>
    simp only [handle, nftApplied]
    split
    · exact ⟨rfl, rfl⟩
    · cases result <;> exact ⟨rfl, rfl⟩
  | nftInspected now seq listing =>
    obtain ⟨missing, hinspected⟩ := d.core_nftInspected now seq listing
    exact ⟨congrArg Core.cfg hinspected, congrArg Core.system hinspected⟩
  | sysctlsDone now seq scope result recorded =>
    exact hcore (d.core_sysctlsDone now seq scope result recorded)
  | handedBack now seq result recorded => exact hcore (d.core_handedBack now seq result recorded)

/-! ## Passes -/

theorem sysctlsUnapplied_of_not_pending {scope : SysctlScope} (h : scope ∉ d.sysctls.pending)
    (family : Option Family) : d.sysctlsUnapplied scope family = false := by
  have hcontains : d.sysctls.pending.contains scope = false := by
    rw [← Bool.not_eq_true, Std.ExtTreeSet.contains_iff_mem]
    exact h
  rw [sysctlsUnapplied, hcontains, if_pos (by simp)]

/-- The state a pass compares in, unless it stops before. -/
def prepared (e : PassEnv) : Option Daemon :=
  if (d.dispatched e).awaitsInstallation then none
  else if (d.dispatched e).installed.awaitsGlobal then none
  else some ((d.dispatched e).installed.refreshed e)

/-- A pass that stops early. -/
theorem step_of_not_prepared {e : PassEnv} (h : d.prepared e = none) :
    (d.step e).core = d.core := by
  rw [← d.core_dispatched e]
  unfold prepared at h
  unfold step
  dsimp only
  split at h
  · next hi => rw [if_pos hi]
  · next hi =>
      rw [if_neg hi]
      split at h
      · next hg =>
          rw [if_pos hg]
          rfl
      · cases h

/-- A pass that compares. -/
theorem step_of_prepared {e : PassEnv} {p : Daemon} (h : d.prepared e = some p) :
    d.step e = (p.evaluate e.now).reconcile e (d.waiting e.now) (p.evaluateInput e.now) := by
  unfold prepared at h
  split at h
  · cases h
  · next hi =>
      split at h
      · cases h
      · next hg =>
          obtain rfl := Option.some.inj h
          unfold step
          dsimp only
          rw [if_neg hi, if_neg hg]

/-- Preparing a pass changes the view by re-reads only. -/
theorem prepared_spec {e : PassEnv} {p : Daemon} (h : d.prepared e = some p) :
    ∃ tables, p.core =
      { d.core with system := (Polywan.reread e.now d.scope e.dumps d.system tables).1 } := by
  have hcore := d.core_dispatched e
  have hscope : (d.dispatched e).scope = d.scope := congrArg (Scope.of ∘ Core.cfg) hcore
  have hsystem : (d.dispatched e).system = d.system := congrArg Core.system hcore
  unfold prepared at h
  split at h
  · cases h
  · split at h
    · cases h
    · obtain rfl := Option.some.inj h
      refine ⟨((d.dispatched e).installed.rereadExpired e.now).reread.toList, ?_⟩
      rw [← hscope, ← hsystem, ← hcore]
      rfl

section Reconcile

variable (e : PassEnv) (attempt : List Op)

/-- Reaching the nftables step. -/
theorem core_launch :
    (d.launch e attempt).core = d.core ∨
      ∃ seq, (d.launch e attempt).core =
        { d.core with nft := d.inFlight seq attempt } := by
  unfold launch
  dsimp only
  split
  · exact .inr ⟨_, rfl⟩
  · exact .inl rfl
  · exact .inl rfl

/-- What running operations leads to. -/
theorem perform_spec (ops : List Op) (s : System)
    (hs : s = applyOps e.now d.scope d.protocol d.system (performed e.succeeds ops)) :
    (d.perform e attempt ops).core = { d.core with system := s } ∨
      Op.applyNft ∈ ops ∧ performed e.succeeds ops = beforeStep ops ∧
        ∃ seq, (d.perform e attempt ops).core =
          { d.core with system := s, nft := d.inFlight seq attempt } := by
  subst hs
  unfold perform
  rw [execute_eq]
  dsimp only
  by_cases hall : (beforeStep ops).all e.succeeds = true
  · rw [if_pos hall]
    by_cases hmem : Op.applyNft ∈ ops
    · rw [decide_eq_true hmem]
      rcases core_launch { d with
          system := applyOps e.now d.scope d.protocol d.system (performed e.succeeds ops) }
        e attempt with hcore | ⟨seq, hcore⟩
      · exact .inl hcore
      · exact .inr ⟨hmem, List.takeWhile_eq_self_iff.mpr (List.all_eq_true.mp hall), seq, hcore⟩
    · rw [decide_eq_false hmem]
      exact .inl rfl
  · rw [if_neg hall]
    exact .inl rfl

theorem dueOps_spec (input : Input) :
    beforeStep (d.dueOps input) = beforeStep (d.passOps input) ∧
      (Op.applyNft ∈ d.dueOps input → d.nft.flight = none ∧ Op.applyNft ∈ d.passOps input) := by
  unfold dueOps
  by_cases hf : d.nft.flight.isSome = true
  · rw [if_pos hf]
    refine ⟨beforeStep_beforeStep _, fun h => ?_⟩
    simpa using List.mem_takeWhile_imp h
  · rw [if_neg hf]
    exact ⟨rfl, fun h => ⟨by simpa using hf, h⟩⟩

/-- The operations that a comparison runs. -/
def ran (waiting : Option Attempt) (input : Input) : List Op :=
  if waiting = some (.ops (d.released.passOps input)) then []
  else performed e.succeeds (d.released.passOps input)

/-- What the comparison of a pass leads to: its operations run, and when the nftables
step is reached the transaction is in flight. -/
theorem reconcile_spec (waiting : Option Attempt) (input : Input) (s : System)
    (hs : s = applyOps e.now d.scope d.protocol d.system (d.ran e waiting input)) :
    (d.reconcile e waiting input).core = { d.released.core with system := s } ∨
      d.nft.flight = none ∧ Op.applyNft ∈ d.released.passOps input ∧
        d.ran e waiting input = beforeStep (d.released.passOps input) ∧
        ∃ seq, (d.reconcile e waiting input).core =
          { d.released.core with
            system := s, nft := d.inFlight seq (d.released.passOps input) } := by
  obtain ⟨hbefore, hmem⟩ := d.released.dueOps_spec input
  have hperformed : performed e.succeeds (d.released.dueOps input) =
      performed e.succeeds (d.released.passOps input) := by
    rw [performed, hbefore, performed]
  unfold ran at hs ⊢
  unfold reconcile
  dsimp only
  split
  · next hwait =>
      rw [if_pos hwait] at hs
      exact .inl (hs ▸ rfl)
  · next hwait =>
      rw [if_neg hwait, ← hperformed] at hs
      split
      · next hempty =>
          rw [List.isEmpty_iff.mp hempty] at hs
          exact .inl ((core_finish _ e _).trans (hs ▸ rfl))
      · rcases d.released.perform_spec e (d.released.passOps input) (d.released.dueOps input) s hs
          with hcore | ⟨happly, hran, hseq⟩
        · exact .inl hcore
        · rw [hperformed, hbefore] at hran
          exact .inr ⟨(hmem happly).1, (hmem happly).2, hran, hseq⟩

end Reconcile

/-- Repairs held back are left out on each side of the nftables step. -/
theorem beforeStep_unheld (ops : List Op) :
    beforeStep (d.unheld ops) = d.unheld (beforeStep ops) := by
  refine Lib.takeWhile_filter (fun op hop => ?_) ops
  obtain rfl : op = .applyNft := by simpa using hop
  rfl

/-- Without repairs held back, the operations are those of the comparison. -/
theorem passOps_of_unheld {d : Daemon} (hrules : d.heldRules = []) (hroutes : d.heldRoutes = ∅)
    (input : Input) : d.passOps input = diff d.system (d.pass input).diffInput := by
  refine List.filter_eq_self.mpr fun op _ => ?_
  cases op with
  | addRule r => simp [hrules]
  | replaceRoute r => simp [hroutes]
  | applyNft | deleteRule _ | deleteRoute _ _ _ => rfl

/-- The operations that a pass runs. -/
def executed (e : PassEnv) : List Op :=
  match d.prepared e with
  | none => []
  | some p => (p.evaluate e.now).ran e (d.waiting e.now) (p.evaluateInput e.now)

section Step

variable {d} {e : PassEnv} {p : Daemon} (h : d.prepared e = some p)
include h

theorem executed_of_prepared :
    d.executed e = (p.evaluate e.now).ran e (d.waiting e.now) (p.evaluateInput e.now) := by
  rw [executed, h]

/-- Whatever is held back, a pass changes the state of the table by a transaction in
flight only. -/
theorem lane_of_prepared :
    (d.step e).cfg = d.cfg ∧ ∃ flight, (d.step e).nft = { d.nft with flight } := by
  obtain ⟨tables, hp⟩ := d.prepared_spec h
  have hcfg : p.cfg = d.cfg := congrArg Core.cfg hp
  have hnft : p.nft = d.nft := congrArg Core.nft hp
  rw [step_of_prepared d h, ← hcfg, ← hnft]
  rcases reconcile_spec (p.evaluate e.now) e (d.waiting e.now) (p.evaluateInput e.now) _ rfl
    with hrec | ⟨-, -, -, seq, hrec⟩
  · exact ⟨congrArg Core.cfg hrec, p.nft.flight, congrArg Core.nft hrec⟩
  · exact ⟨congrArg Core.cfg hrec, _, congrArg Core.nft hrec⟩

/-- Whatever is held back, the view after a pass is that of its operations. -/
theorem system_of_prepared :
    (d.step e).system = applyOps e.now p.scope p.protocol p.system (d.executed e) := by
  rw [step_of_prepared d h, executed_of_prepared h]
  rcases reconcile_spec (p.evaluate e.now) e (d.waiting e.now) (p.evaluateInput e.now) _ rfl
    with hrec | ⟨-, -, -, seq, hrec⟩
  · exact congrArg Core.system hrec
  · exact congrArg Core.system hrec

/-- Whatever is held back, the operations that a pass runs are those of its comparison
before the nftables step. -/
theorem mem_of_mem_executed {op : Op} (hop : op ∈ d.executed e) :
    op ∈ beforeStep (diff p.system (p.pass (p.evaluateInput e.now)).diffInput) := by
  rw [executed_of_prepared h, ran] at hop
  split at hop
  · cases hop
  · have hmem := (List.takeWhile_prefix _).subset hop
    rw [passOps, beforeStep_unheld] at hmem
    exact List.mem_of_mem_filter hmem

variable (hrules : d.heldRules = []) (hroutes : d.heldRoutes = ∅)
include hrules hroutes

/-- Without repairs held back, a pass runs the operations of its comparison. -/
theorem released_of_prepared :
    (p.evaluate e.now).released.core = p.core ∧
      (p.evaluate e.now).released.passOps (p.evaluateInput e.now) =
        diff p.system (p.pass (p.evaluateInput e.now)).diffInput := by
  obtain ⟨tables, hp⟩ := d.prepared_spec h
  have hr : p.heldRules = [] := (congrArg Core.heldRules hp).trans hrules
  have hk : p.heldRoutes = ∅ := (congrArg Core.heldRoutes hp).trans hroutes
  have hcore : (p.evaluate e.now).released.core = p.core := by
    simp [released, core, evaluate, hr, hk]
  exact ⟨hcore, passOps_of_unheld ((congrArg Core.heldRules hcore).trans hr)
    ((congrArg Core.heldRoutes hcore).trans hk) _⟩

/-- The operations a pass runs stand before the nftables step. -/
theorem executed_prefix :
    d.executed e <+: beforeStep (diff p.system (p.pass (p.evaluateInput e.now)).diffInput) := by
  obtain ⟨-, hops⟩ := released_of_prepared h hrules hroutes
  rw [executed_of_prepared h, ran, hops]
  split
  · exact List.nil_prefix
  · exact List.takeWhile_prefix _

/-- **A pass that compares.**  Its operations run; when all before the nftables step did,
the transaction may be in flight. -/
theorem step_spec (s : System)
    (hs : s = applyOps e.now p.scope p.protocol p.system (d.executed e)) :
    (d.step e).core = { p.core with system := s } ∨
      p.nft.flight = none ∧ p.nftPending = true ∧
        d.executed e = beforeStep (diff p.system (p.pass (p.evaluateInput e.now)).diffInput) ∧
        ∃ seq attempt, (d.step e).core =
          { p.core with system := s, nft := p.inFlight seq attempt } := by
  obtain ⟨hcore, hops⟩ := released_of_prepared h hrules hroutes
  rw [executed_of_prepared h] at hs ⊢
  rw [step_of_prepared d h, ← hcore]
  rcases reconcile_spec (p.evaluate e.now) e (d.waiting e.now) (p.evaluateInput e.now) s hs
    with hrec | ⟨hflight, hmem, hran, seq, hrec⟩
  · exact .inl hrec
  · rw [hops] at hmem hran
    exact .inr ⟨hflight, (applyNft_mem_diff p.system).mp hmem, hran, seq, _, hrec⟩

end Step

/-- The state of the table after any pass. -/
theorem lane_step (e : PassEnv) :
    (d.step e).cfg = d.cfg ∧ ∃ flight, (d.step e).nft = { d.nft with flight } := by
  cases h : d.prepared e with
  | none =>
    have hcore := d.step_of_not_prepared h
    exact ⟨congrArg Core.cfg hcore, d.nft.flight, congrArg Core.nft hcore⟩
  | some p => exact lane_of_prepared h

/-! ## The configuration and the drained uplinks -/

/-- An event that neither drains nor reloads. -/
def Event.Passive : Event → Prop
  | .drain _ _ | .reload _ => False
  | _ => True

theorem cfg_handle {ev : Event} (h : ev.Passive) : (d.handle ev).cfg = d.cfg := by
  cases ev with
  | drain _ _ | reload _ => exact h.elim
  | notification now m port flags =>
    obtain ⟨rules, routes, hcore⟩ := d.core_notification_of_any now m port flags
    exact congrArg Core.cfg hcore
  | pass e => exact (d.lane_step e).1
  | fullReconciliation e view => exact congrArg Core.cfg (d.core_fullReconciliation e view)
  | routerAdvertisement _ | round _ _ | nftApplied _ _ _ | nftInspected _ _ _
  | sysctlsDone _ _ _ _ _ | handedBack _ _ _ _ =>
    refine And.left (d.view_of_idle ?_)
    trivial

/-! ## What only passes change -/

/-- The active sets, and whether the first settings are being applied. -/
def standing : Std.ExtTreeMap Family (Std.ExtTreeSet UplinkId) × Bool := (d.active, d.installing)

theorem standing_dispatched (e : PassEnv) : (d.dispatched e).standing = d.standing := by
  refine d.dispatched_induction (P := fun d' => d'.standing = d.standing) e ?_ rfl
  intro d' scope h
  rw [← h]
  simp only [dispatchScope]
  split <;> rfl

theorem standing_notification (now : ℕ) (m : Message) (port : ℕ) (flags : BitVec 16) :
    (d.notification now m port flags).standing = d.standing := by
  have hreact : ∀ (d : Daemon) change, (d.react change).standing = d.standing := by
    intro d change
    cases change <;> simp only [react, interfaceChanged] <;> repeat' split
    all_goals rfl
  have hrule : ∀ (d : Daemon) (o : Option ObservedRule),
      (o.elim d (d.ruleRemoved now)).standing = d.standing := by
    intro d o
    cases o with
    | none => rfl
    | some o =>
      simp only [Option.elim_some, ruleRemoved]
      split <;> rfl
  have hroute : ∀ (d : Daemon) (k : Option TableKey),
      (k.elim d (d.routeRemoved now)).standing = d.standing := by
    intro d k
    cases k with
    | none => rfl
    | some k =>
      simp only [Option.elim_some, routeRemoved]
      split <;> rfl
  simp only [notification]
  split
  · simp only [routeNotification]
    rw [hreact, hroute, hrule]
    rfl
  · simp only [nexthopNotification]
    split <;> rfl
  · simp only [nexthopNotification]
    split <;> rfl
  · rfl

theorem standing_handle {ev : Event} (h : ∀ e, ev ≠ .pass e) :
    (d.handle ev).standing = d.standing := by
  cases ev with
  | notification now m port flags => exact d.standing_notification now m port flags
  | pass e => exact absurd rfl (h e)
  | drain _ _ => rfl
  | reload c =>
    simp only [handle, reload]
    split <;> rfl
  | routerAdvertisement i =>
    simp only [handle, routerAdvertisement]
    repeat' split
    all_goals rfl
  | round k r =>
    simp only [handle, round]
    split <;> rfl
  | fullReconciliation e view =>
    simp only [handle, fullReconciliation]
    repeat' split
    all_goals rfl
  | nftApplied now seq result =>
    simp only [handle, nftApplied]
    repeat' split
    all_goals rfl
  | nftInspected now seq listing =>
    simp only [handle, nftInspected, checkNft]
    repeat' split
    all_goals rfl
  | sysctlsDone now seq scope result recorded =>
    simp only [handle, sysctlsDone]
    repeat' split
    all_goals rfl
  | handedBack now seq result recorded =>
    simp only [handle, handedBack]
    repeat' split
    all_goals rfl

end Daemon

end Polywan
