import Polywan.Daemon.Marks

/-!
# Uncertain outcomes

An application of the nftables table that is reported as failed may have been taken by
the kernel all the same: the tool was killed at its deadline, or its exit status was
lost.  Until a later application succeeds or an inspection compares the table, passes
keep the nftables step pending and use only paths that every table in question assigns,
provided that no reload goes back to the table last applied and none enables a path
again that a failed table left out.

## Main definitions

* `Outcomes` — the daemon and the transactions whose outcome is uncertain.
* `Outcomes.Distrusts` — a pass does not rely on the table last applied.
* `Outcomes.Cautious` — the condition on reloads and passes.
-/

namespace Polywan

/-- The assignments of the table last applied, or of the one found at startup. -/
def NftState.known (n : NftState) : Option (Std.ExtTreeSet Assignment) :=
  (n.applied.map Prod.snd).or n.adopted

/-- Paths that a pass does not hold back are assigned in the table last applied. -/
theorem Daemon.mem_known_of_not_new {d : Daemon} (hm : d.managed = true) {a : Assignment}
    (ha : a ∈ d.cfg.assignments) (hnew : a.path ∉ d.newPaths)
    {known : Std.ExtTreeSet Assignment compare} (hknown : known ∈ d.nft.known) : a ∈ known := by
  rw [newPaths, if_pos hm] at hnew
  have hinstalled : (d.nft.applied.map Prod.snd).or d.nft.adopted = some known := hknown
  unfold surviving at hnew
  rw [hinstalled] at hnew
  cases hf : d.nft.flight with
  | none =>
    rw [hf] at hnew
    exact mem_of_not_unassigned ha hnew
  | some f =>
    rw [hf] at hnew
    have hmem := mem_of_not_unassigned ha hnew
    rw [Std.ExtTreeSet.mem_filter] at hmem
    exact hmem.1

/-- The daemon, with the transactions reported as failed since the table in force was
last known. -/
structure Outcomes where
  daemon : Daemon
  failed : List NftFlight := []

namespace Outcomes

variable (w : Outcomes)

/-- What is uncertain after an event: an outcome reported as failed is, until an
application succeeds or an inspection compares the table. -/
def failedAfter : Daemon.Event → List NftFlight
  | .nftApplied _ seq result =>
    match w.daemon.nft.flight.filter fun f => f.seq = seq, result with
    | none, _ => w.failed
    | some _, .ok _ => []
    | some f, .error _ => w.failed ++ [f]
  | .nftInspected _ seq (.ok _) => if w.daemon.inspection = some seq then [] else w.failed
  | _ => w.failed

def step (ev : Daemon.Event) : Outcomes where
  daemon := w.daemon.handle ev
  failed := w.failedAfter ev

def run (events : List Daemon.Event) : Outcomes := events.foldl step w

/-- A pass with uncertain outcomes keeps the nftables step pending, runs operations before
it only, and uses paths that the table last applied and all uncertain ones assign. -/
def Distrusts (e : PassEnv) : Prop :=
  w.failed ≠ [] → ∀ p ∈ w.daemon.prepared e,
    p.nftPending = true ∧
    (∀ op ∈ w.daemon.executed e,
      op ∈ (p.pass (p.evaluateInput e.now)).diffInput.firstOps p.system) ∧
    ∀ known ∈ p.nft.known, ∀ r, Op.replaceRoute r ∈ w.daemon.executed e →
      p.layout.isTrafficTable r.table = true → ∀ h ∈ r.nexthops,
        ∃ m ∈ plannedMembers p.cfg (without (p.evaluateInput e.now) p.newPaths) r.key,
          h.unweighted = m.hop ∧ m.assignment ∈ known ∧ ∀ f ∈ w.failed, m.assignment ∈ f.configured

/-- Reloads and passes around an uncertain outcome: neither when it is reported nor by a
reload since is the configuration's table the one last applied, unless that is known to
be gone; and passes run with configurations whose paths, as far as the table last applied
assigns them, are also assigned by the uncertain ones. -/
def Cautious : Daemon.Event → Prop
  | .nftApplied _ seq (.error _) =>
    ∀ f ∈ w.daemon.nft.flight, f.seq = seq →
      w.daemon.nft.missing = true ∨
        w.daemon.nft.applied.map Prod.fst ≠ some w.daemon.transaction
  | .reload new =>
    w.failed ≠ [] → w.daemon.nft.missing = true ∨
      w.daemon.nft.applied.map Prod.fst ≠ some (Nft.ruleset new)
  | .pass _ =>
    ∀ known ∈ w.daemon.nft.known, ∀ f ∈ w.failed, ∀ a ∈ w.daemon.cfg.assignments,
      a ∈ known → a ∈ f.configured
  | _ => True

/-- Every event of a run meets the condition. -/
def CautiousRun : Outcomes → List Daemon.Event → Prop
  | _, [] => True
  | w, ev :: events => w.Cautious ev ∧ CautiousRun (w.step ev) events

/-! ## The invariant -/

/-- With uncertain outcomes, the nftables step is pending. -/
structure Inv : Prop where
  valid : w.daemon.cfg.Valid
  managed : w.daemon.cfg.firewall.mode = .managed
  pending : w.failed ≠ [] → w.daemon.nft.missing = true ∨
    w.daemon.nft.applied.map Prod.fst ≠ some w.daemon.transaction

variable {w}

/-- Events that leave the configuration and the state of the table alone. -/
theorem Inv.quiet (h : w.Inv) {ev : Daemon.Event} (hcfg : (w.daemon.handle ev).cfg = w.daemon.cfg)
    (hmissing : (w.daemon.handle ev).nft.missing = w.daemon.nft.missing)
    (happlied : (w.daemon.handle ev).nft.applied = w.daemon.nft.applied)
    (hfailed : w.failedAfter ev = w.failed) : (w.step ev).Inv where
  valid := hcfg ▸ h.valid
  managed := hcfg ▸ h.managed
  pending := by
    simp only [step, hfailed, hmissing, happlied, Daemon.transaction, hcfg]
    exact h.pending

/-- Most events do not even touch the core of the state. -/
theorem Inv.of_core (h : w.Inv) {ev : Daemon.Event}
    (hcore : (w.daemon.handle ev).core = w.daemon.core)
    (hfailed : w.failedAfter ev = w.failed) : (w.step ev).Inv :=
  h.quiet (congrArg Core.cfg hcore) (congrArg (NftState.missing ∘ Core.nft) hcore)
    (congrArg (NftState.applied ∘ Core.nft) hcore) hfailed

theorem Inv.nftApplied (h : w.Inv) {now seq : ℕ} {result : Except String (Option Nft.Table)}
    (hc : w.Cautious (.nftApplied now seq result)) :
    (w.step (.nftApplied now seq result)).Inv := by
  by_cases hseq : ∀ f ∈ w.daemon.nft.flight, f.seq ≠ seq
  · have hnone : w.daemon.nft.flight.filter (fun f => decide (f.seq = seq)) = none :=
      Option.filter_eq_none_iff.mpr (by simpa using hseq)
    refine h.of_core (w.daemon.core_nftApplied_of_ne hseq) ?_
    simp only [failedAfter, hnone]
  · simp only [not_forall, not_not] at hseq
    obtain ⟨f, hf, rfl⟩ := hseq
    have hsome : w.daemon.nft.flight.filter (fun g => decide (g.seq = f.seq)) = some f := by
      simp [Option.mem_def.mp hf]
    have hcore := w.daemon.core_nftApplied hf now result
    cases result with
    | ok listing =>
      have hcfg : (w.daemon.handle (.nftApplied now f.seq (.ok listing))).cfg = w.daemon.cfg :=
        congrArg Core.cfg hcore
      refine ⟨hcfg ▸ h.valid, hcfg ▸ h.managed, fun hne => absurd ?_ hne⟩
      simp only [step, failedAfter, hsome]
    | error e =>
      have hcfg : (w.daemon.handle (.nftApplied now f.seq (.error e))).cfg = w.daemon.cfg :=
        congrArg Core.cfg hcore
      have hmissing : (w.daemon.handle (.nftApplied now f.seq (.error e))).nft.missing =
          w.daemon.nft.missing := congrArg (NftState.missing ∘ Core.nft) hcore
      have happlied : (w.daemon.handle (.nftApplied now f.seq (.error e))).nft.applied =
          w.daemon.nft.applied := congrArg (NftState.applied ∘ Core.nft) hcore
      refine ⟨hcfg ▸ h.valid, hcfg ▸ h.managed, fun _ => ?_⟩
      simp only [step, hmissing, happlied, Daemon.transaction, hcfg]
      exact hc f hf rfl

theorem Inv.nftInspected (h : w.Inv) (now seq : ℕ) (listing : Except String (Option Nft.Table)) :
    (w.step (.nftInspected now seq listing)).Inv := by
  by_cases hseq : w.daemon.inspection = some seq
  · cases listing with
    | error e =>
      have hunchanged : (w.daemon.handle (.nftInspected now seq (.error e))).core =
          w.daemon.core := by
        simp only [Daemon.handle, Daemon.nftInspected, if_pos hseq, Daemon.checkNft]
        split <;> rfl
      exact h.of_core hunchanged rfl
    | ok listing =>
      obtain ⟨missing, hcore⟩ := w.daemon.core_nftInspected now seq (.ok listing)
      have hcfg : (w.daemon.handle (.nftInspected now seq (.ok listing))).cfg = w.daemon.cfg :=
        congrArg Core.cfg hcore
      refine ⟨hcfg ▸ h.valid, hcfg ▸ h.managed, fun hne => absurd ?_ hne⟩
      simp only [step, failedAfter, if_pos hseq]
  · have hunchanged : (w.daemon.handle (.nftInspected now seq listing)).core = w.daemon.core := by
      simp only [Daemon.handle, Daemon.nftInspected, if_neg hseq]
    refine h.of_core hunchanged ?_
    cases listing with
    | error e => rfl
    | ok listing => simp only [failedAfter, if_neg hseq]

theorem Inv.reload (h : w.Inv) {new : Config} (hc : w.Cautious (.reload new)) :
    (w.step (.reload new)).Inv := by
  by_cases hnew : new.Valid ∧ new.structural = w.daemon.cfg.structural
  · have hcommit : w.daemon.handle (.reload new) = w.daemon.commitReload new := if_pos hnew
    refine ⟨?_, ?_, fun hne => ?_⟩
    · rw [step, hcommit]
      exact hnew.1
    · rw [step, hcommit]
      exact (congrArg Structural.firewallMode hnew.2).trans h.managed
    · rw [step, hcommit]
      exact hc hne
  · have hkept : w.daemon.handle (.reload new) = w.daemon := if_neg hnew
    exact h.of_core (congrArg Daemon.core hkept) rfl

/-- **Every event keeps the invariant.** -/
theorem Inv.step (h : w.Inv) {ev : Daemon.Event} (hc : w.Cautious ev) : (w.step ev).Inv := by
  cases ev with
  | nftApplied now seq result => exact h.nftApplied hc
  | nftInspected now seq listing => exact h.nftInspected now seq listing
  | reload new => exact h.reload hc
  | pass e =>
    obtain ⟨hcfg, flight, hnft⟩ := w.daemon.lane_step e
    refine h.quiet hcfg ?_ ?_ rfl
    · rw [Daemon.handle, hnft]
    · rw [Daemon.handle, hnft]
  | notification now m port flags =>
    obtain ⟨heldRules, heldRoutes, hcore⟩ := w.daemon.core_notification_of_any now m port flags
    exact h.quiet (congrArg Core.cfg hcore) (congrArg (NftState.missing ∘ Core.nft) hcore)
      (congrArg (NftState.applied ∘ Core.nft) hcore) rfl
  | fullReconciliation e view =>
    have hcore := w.daemon.core_fullReconciliation e view
    exact h.quiet (congrArg Core.cfg hcore) (congrArg (NftState.missing ∘ Core.nft) hcore)
      (congrArg (NftState.applied ∘ Core.nft) hcore) rfl
  | routerAdvertisement ifindex => exact h.of_core (w.daemon.core_routerAdvertisement ifindex) rfl
  | round k r => exact h.of_core (w.daemon.core_round k r) rfl
  | drain u drain => exact h.of_core rfl rfl
  | sysctlsDone now seq scope result recorded => exact h.of_core (w.daemon.core_sysctlsDone ..) rfl
  | handedBack now seq result recorded => exact h.of_core (w.daemon.core_handedBack ..) rfl

theorem Inv.run (h : w.Inv) {events : List Daemon.Event} (hc : w.CautiousRun events) :
    (w.run events).Inv := by
  induction events generalizing w with
  | nil => exact h
  | cons ev events ih => exact ih (h.step hc.1) hc.2

/-! ## Passes -/

/-- A pass with uncertain outcomes. -/
theorem Inv.distrusts (h : w.Inv) {e : PassEnv} (hc : w.Cautious (.pass e)) : w.Distrusts e := by
  intro hne p hp
  obtain ⟨tables, hcore⟩ := w.daemon.prepared_spec hp
  have hcfg : p.cfg = w.daemon.cfg := congrArg Core.cfg hcore
  have hnft : p.nft = w.daemon.nft := congrArg Core.nft hcore
  have hvalid : p.cfg.Valid := hcfg ▸ h.valid
  have hmanaged : p.managed = true := decide_eq_true (hcfg ▸ h.managed)
  have hpending : p.nftPending = true := by
    have hp := h.pending hne
    rw [← hnft, Daemon.transaction, ← hcfg] at hp
    simp only [Daemon.nftPending, hmanaged, Bool.true_and, Bool.or_eq_true, decide_eq_true_iff]
    rcases hp with hp | hp
    · exact .inl (.inl hp)
    · exact .inr hp
  have hfirst : ∀ op ∈ w.daemon.executed e,
      op ∈ (p.pass (p.evaluateInput e.now)).diffInput.firstOps p.system := by
    intro op hop
    have hmem := Daemon.mem_of_mem_executed hp hop
    rwa [beforeStep_diff p.system (d := (p.pass (p.evaluateInput e.now)).diffInput) hpending]
      at hmem
  refine ⟨hpending, hfirst, fun known hknown r hr htable hop hhop => ?_⟩
  have hroute := DiffInput.replaceRoute_mem_firstOps
    (Pass.beforeNft_proper (p := p.pass (p.evaluateInput e.now)) hvalid) (hfirst _ hr)
  obtain ⟨m, hm, heq⟩ := exists_member (k := r.key) htable hroute hhop
  have hassigned := mem_assignments_of_member hm
  have hin := Daemon.mem_known_of_not_new hmanaged hassigned (not_mem_of_member hm) hknown
  refine ⟨m, hm, heq, hin, fun f hf => ?_⟩
  rw [hnft] at hknown
  rw [hcfg] at hassigned
  exact hc known hknown f hf _ hassigned hin

/-- **Uncertain outcomes are not trusted.**  In every run whose reloads and passes are
cautious, every pass between an outcome reported as failed and the next success or
inspection keeps the nftables step pending and relies on no table in particular. -/
theorem distrusts_run {w : Outcomes} (hv : w.daemon.cfg.Valid) (hm : w.daemon.managed = true)
    (hcertain : w.failed = []) (events : List Daemon.Event) (e : PassEnv)
    (hrun : w.CautiousRun (events ++ [.pass e])) : (w.run events).Distrusts e := by
  have hsplit : ∀ (events : List Daemon.Event) (w : Outcomes), w.CautiousRun (events ++ [.pass e]) →
      w.CautiousRun events ∧ (w.run events).Cautious (.pass e) := by
    intro events
    induction events with
    | nil => exact fun w h => ⟨trivial, h.1⟩
    | cons ev events ih =>
      intro w h
      obtain ⟨hevents, hpass⟩ := ih _ h.2
      exact ⟨⟨h.1, hevents⟩, hpass⟩
  obtain ⟨hevents, hpass⟩ := hsplit events w hrun
  have hinv : w.Inv := ⟨hv, of_decide_eq_true hm, fun hne => absurd hcertain hne⟩
  exact (hinv.run hevents).distrusts hpass

/-- Nothing is asked of a pass without uncertain outcomes. -/
theorem cautious_of_certain (h : w.failed = []) (e : PassEnv) : w.Cautious (.pass e) := by
  intro known _ f hf
  cases h ▸ hf

end Outcomes

namespace Sample

def begun : Outcomes := { daemon := Daemon.start single 7 0 network.system none ∅ }

/-- The table of the sample is applied; then the path moves to the other interface, but
the application of its table is reported as failed. -/
def doubtful : List Daemon.Event :=
  [ .pass quiet, .sysctlsDone 0 1 (.interface "wan1") (.ok ()) [],
    .sysctlsDone 0 2 .global (.ok ()) [],
    .pass quiet, .nftApplied 0 3 (.ok none), .reload moved, .pass quiet,
    .nftApplied 0 6 (.error "killed at its deadline") ]

/-- A reload moves the path back, and its settings are applied. -/
def movedBack : List Daemon.Event :=
  doubtful ++ [.reload single, .pass quiet, .sysctlsDone 0 7 (.interface "wan1") (.ok ()) []]

/-- What evaluation finds along the failed application, in one computation. -/
theorem doubtful_facts :
    (begun.run (doubtful.take 5)).failed = [] ∧
      (∀ f ∈ (begun.run (doubtful.take 7)).daemon.nft.flight, f.seq = 6 →
        (begun.run (doubtful.take 7)).daemon.nft.missing = true ∨
          (begun.run (doubtful.take 7)).daemon.nft.applied.map Prod.fst ≠
            some (begun.run (doubtful.take 7)).daemon.transaction) ∧
      (∀ f ∈ (begun.run doubtful).failed,
        f.configured = (begun.run doubtful).daemon.cfg.assignments) ∧
      (begun.run doubtful).failed.map NftFlight.seq = [6] ∧
      ((begun.run doubtful).daemon.prepared quiet).isSome := by
  decide +kernel

theorem movedBack_facts :
    (begun.run movedBack).failed.map NftFlight.transaction = [Nft.ruleset moved] ∧
      ((begun.run movedBack).daemon.prepared quiet).map Daemon.nftPending = some false ∧
      (((begun.run movedBack).daemon.executed quiet).map fun op => match op with
        | .replaceRoute r => (r.table, r.nexthops.map NextHop.ifindex)
        | _ => (0, [])) = [(1000, [3]), (1001, [3])] ∧
      (Nft.ruleset moved).assigns moved.routing.fwmarkMask ⟨⟨id1, .v4⟩, "wan1"⟩ = false := by
  decide +kernel

end Sample

open Sample in
/-- After the failed application the sample keeps the step pending. -/
theorem Outcomes.distrusts_run_sample :
    ((begun.run doubtful).failed.map NftFlight.seq = [6] ∧
      ((begun.run doubtful).daemon.prepared quiet).isSome) ∧
      (begun.run doubtful).Distrusts quiet := by
  obtain ⟨hcertain, hreported, hconfigured, hfacts⟩ := doubtful_facts
  refine ⟨hfacts, Outcomes.distrusts_run (by decide) (by decide) rfl doubtful quiet ?_⟩
  refine ⟨cautious_of_certain rfl _, trivial, trivial, cautious_of_certain rfl _, trivial,
    fun hne => absurd hcertain hne,
    cautious_of_certain (w := begun.run (doubtful.take 6)) hcertain _, hreported, ?_, trivial⟩
  intro known _ f hf a ha _
  rw [hconfigured f hf]
  exact ha

open Sample in
/-- Back at the configuration last applied, a pass takes its table for installed: it has
no nftables step and balances over an interface that the table reported as failed does
not assign. -/
theorem Outcomes.reload_back_trusted :
    ((begun.run movedBack).failed.map NftFlight.transaction = [Nft.ruleset moved] ∧
      ((begun.run movedBack).daemon.prepared quiet).map Daemon.nftPending = some false ∧
      (((begun.run movedBack).daemon.executed quiet).map fun op => match op with
        | .replaceRoute r => (r.table, r.nexthops.map NextHop.ifindex)
        | _ => (0, [])) = [(1000, [3]), (1001, [3])] ∧
      (Nft.ruleset moved).assigns moved.routing.fwmarkMask ⟨⟨id1, .v4⟩, "wan1"⟩ = false) ∧
      ¬ (begun.run movedBack).Distrusts quiet := by
  obtain ⟨hfailed, hpending, -⟩ := movedBack_facts
  refine ⟨movedBack_facts, fun hdistrusts => ?_⟩
  obtain ⟨p, hp, hnot⟩ := Option.map_eq_some_iff.mp hpending
  have hne : (begun.run movedBack).failed ≠ [] := by
    intro hnil
    rw [hnil] at hfailed
    cases hfailed
  rw [(hdistrusts hne p hp).1] at hnot
  cases hnot

end Polywan
