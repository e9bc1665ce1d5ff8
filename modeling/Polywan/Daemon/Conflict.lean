import Polywan.Daemon.Generations
import Polywan.Daemon.Restart
import Polywan.Lib.Window

/-!
# Ownership conflicts

Removals by third parties are counted for each kind of artifact.  A fourth one within five
minutes starts a conflict: repairs of that kind wait for full reconciliations, the second of
which without a removal in between ends the conflict.  The status is degraded meanwhile.

## Main definitions

* `Daemon.counts`, `Daemon.removal` — the removals that an event counts, and the artifact.
* `Ledger`, `Ledger.step`, `Ledger.run` — the daemon with its degradation reasons and with
  the history of removals and full reconciliations.
* `Daemon.Releases` — a pass that runs for a full reconciliation.

## Main results

* `Ledger.conflicts` — when conflicts start and end, and what they hold back.
-/

namespace Polywan

/-- The span in which removals are counted. -/
def removalSpan : ℕ := 300000000000

/-- An artifact of the program that a notification removes. -/
inductive Artifact where
  | rule (o : ObservedRule)
  | route (k : TableKey)

def Artifact.kind : Artifact → ArtifactKind
  | .rule _ => .rules
  | .route _ => .routes

/-- An operation adds or replaces an artifact. -/
def Op.Restores (protocol : ℕ) : Op → Artifact → Prop
  | .addRule r, .rule o => o.is r protocol = true
  | .replaceRoute r, .route k => r.key = k
  | _, _ => False

/-- One more removal of a kind. -/
def Ownership.counted (o : Ownership) (now : ℕ) : Ownership where
  removals := Lib.push removalSpan now o.removals
  cleanReconciliations := 0
  conflict := o.conflict || 3 < (Lib.push removalSpan now o.removals).length

def Daemon.Event.reconciles : Daemon.Event → Bool
  | .fullReconciliation _ _ => true
  | _ => false

/-! ## Removals -/

namespace Daemon

variable (d : Daemon)

/-- The artifact of which an event counts the removal. -/
def removal : Event → Option Artifact
  | .notification now (.route m) port _ =>
    if port ≠ 0 && port ≠ d.port then
      ((d.removedRule m).map Artifact.rule).or ((d.removedRoute now m).map Artifact.route)
    else none
  | _ => none

/-- A table that an inspection finds changed. -/
def tableChanged (listing : Option Nft.Table) : Bool :=
  d.managed && (listing.isNone || (d.nft.listing.isSome && listing ≠ d.nft.listing))
    && d.nft.applied.isSome

/-- The removal that an event counts, with its instant. -/
def counts : Event → Option (ArtifactKind × ℕ)
  | .nftInspected now seq (.ok listing) =>
    if d.inspection = some seq && d.tableChanged listing then some (.nftables, now) else none
  | .notification now m port flags =>
    (d.removal (.notification now m port flags)).map fun a => (a.kind, now)
  | _ => none

/-- The instant of the removal that an event counts for a kind. -/
def countedAt (ev : Event) (k : ArtifactKind) : Option ℕ :=
  ((d.counts ev).filter fun c => c.1 = k).map Prod.snd

/-- An artifact waits for a full reconciliation. -/
def Holds : Artifact → Prop
  | .rule o => o ∈ d.heldRules
  | .route k => k ∈ d.heldRoutes

/-- An artifact is not repaired until a pass runs for a full reconciliation. -/
def Waits (a : Artifact) : Prop := d.Holds a ∨ d.fullPass = true

/-- A pass runs for a full reconciliation: it is due and not postponed by a backoff. -/
def Releases (ev : Event) : Prop :=
  ∃ e p, ev = .pass e ∧ d.fullPass = true ∧ d.prepared e = some p ∧
    d.waiting e.now ≠ some (.ops ((p.evaluate e.now).released.passOps (p.evaluateInput e.now)))

/-- The kinds in conflict after a removal. -/
def countedOwnership (c : ArtifactKind × ℕ) (k : ArtifactKind) : Ownership :=
  if k = c.1 then (d.ownership k).counted c.2 else d.ownership k

theorem ownership_countRemoval (kind : ArtifactKind) (now : ℕ) :
    (d.countRemoval kind now).ownership = d.countedOwnership (kind, now) := by
  funext k
  simp only [countRemoval, countedOwnership]
  split
  · next hk => rw [hk]; rfl
  · rfl

/-! ## What events do to conflicts -/

theorem ownership_dispatched (e : PassEnv) : (d.dispatched e).ownership = d.ownership := by
  refine d.dispatched_induction (P := fun d' => d'.ownership = d.ownership) e ?_ rfl
  intro d' scope h
  rw [← h]
  simp only [dispatchScope]
  split <;> rfl

theorem ownership_reconcile (e : PassEnv) (waiting : Option Attempt) (input : Input) :
    (d.reconcile e waiting input).ownership = d.ownership := by
  simp only [reconcile, finish, perform, launch]
  repeat' split
  all_goals rfl

/-- Passes count nothing. -/
theorem ownership_step (e : PassEnv) : (d.step e).ownership = d.ownership := by
  rw [← d.ownership_dispatched e]
  simp only [step]
  split
  · rfl
  · split
    · rfl
    · rw [ownership_reconcile]
      rfl

theorem ownership_react (change : Change) : (d.react change).ownership = d.ownership := by
  cases change <;> simp only [react, interfaceChanged] <;> repeat' split
  all_goals rfl

theorem ownership_ruleRemoved (now : ℕ) (o : ObservedRule) :
    (d.ruleRemoved now o).ownership = d.countedOwnership (.rules, now) := by
  rw [← ownership_countRemoval]
  simp only [ruleRemoved]
  split <;> rfl

theorem ownership_routeRemoved (now : ℕ) (k : TableKey) :
    (d.routeRemoved now k).ownership = d.countedOwnership (.routes, now) := by
  rw [← ownership_countRemoval]
  simp only [routeRemoved]
  split <;> rfl

/-- A message removes a rule or a route. -/
theorem removedRoute_eq_none {m : RouteNetlinkMessage} {o : ObservedRule}
    (h : d.removedRule m = some o) (now : ℕ) : d.removedRoute now m = none := by
  cases m with
  | delRule m => rfl
  | _ => cases h

/-- A notification counts the removal of an artifact. -/
theorem ownership_notification (now : ℕ) (m : Message) (port : ℕ) (flags : BitVec 16) :
    (d.notification now m port flags).ownership =
      (d.counts (.notification now m port flags)).elim d.ownership d.countedOwnership := by
  cases m with
  | newNexthop n | delNexthop n =>
    simp only [notification, nexthopNotification]
    split <;> rfl
  | getNexthops => rfl
  | route m =>
    simp only [notification, routeNotification, counts, removal, ownership_react]
    by_cases hthird : (port ≠ 0 && port ≠ d.port) = true
    · simp only [hthird, if_true]
      cases hrule : d.removedRule m with
      | some o =>
        rw [d.removedRoute_eq_none hrule]
        exact ownership_ruleRemoved _ now o
      | none =>
        cases hroute : d.removedRoute now m with
        | none => rfl
        | some k => exact ownership_routeRemoved _ now k
    · rw [if_neg hthird, if_neg hthird, if_neg hthird]
      rfl

/-- An inspection counts a table that a third party changed. -/
theorem ownership_checkNft (now : ℕ) (listing : Option Nft.Table) :
    (d.checkNft now (.ok listing)).ownership =
      if d.tableChanged listing then d.countedOwnership (.nftables, now) else d.ownership := by
  cases hmanaged : d.managed with
  | false => simp [checkNft, tableChanged, hmanaged]
  | true =>
    simp only [checkNft, tableChanged, hmanaged, Bool.not_true, Bool.false_eq_true, if_false,
      Bool.true_and]
    split
    · exact d.ownership_countRemoval .nftables now
    · rfl

theorem ownership_handle (ev : Event) (h : ∀ e view, ev ≠ .fullReconciliation e view) :
    (d.handle ev).ownership = (d.counts ev).elim d.ownership d.countedOwnership := by
  cases ev with
  | notification now m port flags => exact d.ownership_notification now m port flags
  | pass e => exact d.ownership_step e
  | drain _ _ => rfl
  | reload c =>
    simp only [handle, reload]
    split <;> rfl
  | routerAdvertisement i =>
    simp only [handle, routerAdvertisement]
    repeat' split
    all_goals rfl
  | round k r =>
    simp only [handle, round]
    split <;> rfl
  | fullReconciliation e view => exact absurd rfl (h e view)
  | nftApplied now seq result =>
    simp only [handle, nftApplied]
    repeat' split
    all_goals rfl
  | nftInspected now seq listing =>
    by_cases hseq : d.inspection = some seq
    · cases listing with
      | error e =>
        simp only [handle, nftInspected, if_pos hseq, checkNft, counts]
        split <;> rfl
      | ok listing =>
        simp only [handle, nftInspected, counts, hseq, decide_true, Bool.true_and]
        refine (ownership_checkNft _ now listing).trans ?_
        rw [show ({ d with inspection := none } : Daemon).tableChanged listing
          = d.tableChanged listing from rfl]
        split <;> rfl
    · cases listing with
      | error e => simp only [handle, nftInspected, if_neg hseq, counts, Option.elim_none]
      | ok listing =>
        simp only [handle, nftInspected, counts, hseq, decide_false, Bool.false_and,
          Bool.false_eq_true, if_false, Option.elim_none]
  | sysctlsDone now seq scope result recorded =>
    simp only [handle, sysctlsDone]
    repeat' split
    all_goals rfl
  | handedBack now seq result recorded =>
    simp only [handle, handedBack]
    repeat' split
    all_goals rfl

theorem countedAt_of_reconciles {ev : Event} (h : ev.reconciles = true) (k : ArtifactKind) :
    d.countedAt ev k = none := by
  cases ev with
  | fullReconciliation e view => rfl
  | _ => cases h

theorem ownership_fullReconciliation (e : PassEnv) (view : Option System) :
    (d.fullReconciliation e view).ownership = fun k => cleared (d.ownership k) := by
  simp only [fullReconciliation]
  repeat' split
  all_goals rfl

/-- **What an event does to a kind**: full reconciliations may clear its conflict, and the
others count a removal at most. -/
theorem ownership_of_kind (ev : Event) (k : ArtifactKind) :
    (d.handle ev).ownership k =
      if ev.reconciles then cleared (d.ownership k)
      else ((d.countedAt ev k).map (d.ownership k).counted).getD (d.ownership k) := by
  cases hfull : ev.reconciles with
  | true =>
    cases ev with
    | fullReconciliation e view => exact congrFun (d.ownership_fullReconciliation e view) k
    | _ => cases hfull
  | false =>
    rw [d.ownership_handle ev (by rintro e view rfl; cases hfull)]
    simp only [countedAt, Bool.false_eq_true, if_false]
    cases d.counts ev with
    | none => rfl
    | some c =>
      by_cases hk : k = c.1
      · simp [countedOwnership, Option.filter_some, hk]
      · simp [countedOwnership, Option.filter_some, hk, Ne.symm hk]

/-! ## What conflicts hold back -/

/-- What waits for a full reconciliation, and whether the next pass belongs to one. -/
def backlog : List ObservedRule × Std.ExtTreeSet TableKey × Bool :=
  (d.heldRules, d.heldRoutes, d.fullPass)

theorem backlog_react (change : Change) : (d.react change).backlog = d.backlog := by
  cases change <;> simp only [react, interfaceChanged] <;> repeat' split
  all_goals rfl

theorem backlog_dispatched (e : PassEnv) : (d.dispatched e).backlog = d.backlog := by
  refine d.dispatched_induction (P := fun d' => d'.backlog = d.backlog) e ?_ rfl
  intro d' scope h
  rw [← h]
  simp only [dispatchScope]
  split <;> rfl

theorem backlog_of_not_prepared {e : PassEnv} (h : d.prepared e = none) :
    (d.step e).backlog = d.backlog := by
  rw [← d.backlog_dispatched e]
  simp only [prepared] at h
  simp only [step]
  split
  · rfl
  · split
    · rfl
    · next hinstalling hglobal =>
        rw [if_neg hinstalling, if_neg hglobal] at h
        cases h

theorem backlog_reload (c : Config) : (d.reload c).backlog = d.backlog := by
  simp only [reload]
  split <;> rfl

theorem backlog_of_idle {ev : Event} (h : ev.Idle) : (d.handle ev).backlog = d.backlog := by
  cases ev with
  | pass _ | notification _ _ _ _ | fullReconciliation _ _ | reload _ => cases h
  | drain _ _ => rfl
  | routerAdvertisement i =>
    simp only [handle, routerAdvertisement]
    repeat' split
    all_goals rfl
  | round k r =>
    simp only [handle, round]
    split <;> rfl
  | nftApplied now seq result =>
    simp only [handle, nftApplied]
    repeat' split
    all_goals rfl
  | nftInspected now seq listing =>
    simp only [handle, nftInspected, checkNft]
    repeat' split
    all_goals rfl
  | sysctlsDone now seq scope result recorded =>
    simp only [handle, sysctlsDone]
    repeat' split
    all_goals rfl
  | handedBack now seq result recorded =>
    simp only [handle, handedBack]
    repeat' split
    all_goals rfl

section Waits

variable {d} {a : Artifact}

theorem Holds.congr {d' : Daemon} (h : d.Holds a) (hrules : d'.heldRules = d.heldRules)
    (hroutes : d'.heldRoutes = d.heldRoutes) : d'.Holds a := by
  cases a with
  | rule o =>
    rw [Holds, hrules]
    exact h
  | route k =>
    rw [Holds, hroutes]
    exact h

theorem Waits.congr {d' : Daemon} (h : d.Waits a) (hbacklog : d'.backlog = d.backlog) :
    d'.Waits a := by
  obtain ⟨hrules, hroutes, hfull⟩ : d'.heldRules = d.heldRules ∧ d'.heldRoutes = d.heldRoutes ∧
      d'.fullPass = d.fullPass := by simpa [backlog] using hbacklog
  exact h.imp (Holds.congr · hrules hroutes) hfull.trans

/-- A rule removed by a third party joins those that wait, at most. -/
theorem Waits.ruleRemoved (h : d.Waits a) (now : ℕ) (o : ObservedRule) :
    (d.ruleRemoved now o).Waits a := by
  simp only [Daemon.ruleRemoved]
  split
  · exact h
  · cases a with
    | rule o' => exact h.imp_left (List.mem_append_left _)
    | route k => exact h

theorem Waits.routeRemoved (h : d.Waits a) (now : ℕ) (k : TableKey) :
    (d.routeRemoved now k).Waits a := by
  simp only [Daemon.routeRemoved]
  split
  · exact h
  · cases a with
    | rule o => exact h
    | route k' => exact h.imp_left fun hk => Std.ExtTreeSet.mem_insert.mpr (.inr hk)

theorem Waits.notification (h : d.Waits a) (now : ℕ) (m : Message) (port : ℕ)
    (flags : BitVec 16) : (d.notification now m port flags).Waits a := by
  cases m with
  | newNexthop n | delNexthop n =>
    simp only [Daemon.notification, nexthopNotification]
    split <;> exact h.congr rfl
  | getNexthops => exact h
  | route m =>
    simp only [Daemon.notification, routeNotification]
    refine Waits.congr ?_ (backlog_react _ _)
    generalize hd : ({ d with
      system := (d.system.apply now d.scope m).1
      reread := d.reread.insertMany (d.staleTable now m flags).toList } : Daemon) = d'
    generalize (if (port ≠ 0 && port ≠ d.port) = true then d.removedRule m else none) = o
    generalize (if (port ≠ 0 && port ≠ d.port) = true then d.removedRoute now m else none) = k
    have hd' : d'.Waits a := by
      rw [← hd]
      exact h.congr rfl
    have ho : (o.elim d' (d'.ruleRemoved now)).Waits a := by
      cases o with
      | none => exact hd'
      | some o => exact hd'.ruleRemoved now o
    cases k with
    | none => exact ho
    | some k => exact ho.routeRemoved now k

/-- What a pass that belongs to no full reconciliation compares, it holds back. -/
theorem held_of_prepared {e : PassEnv} {p : Daemon} (hp : d.prepared e = some p)
    (hfull : d.fullPass = false) :
    (p.evaluate e.now).released.heldRules = d.heldRules ∧
      (p.evaluate e.now).released.heldRoutes = d.heldRoutes ∧
      (p.evaluate e.now).released.protocol = d.protocol := by
  obtain ⟨tables, hcore⟩ := d.prepared_spec hp
  have hfull' : (p.evaluate e.now).fullPass = false := (fullPass_of_prepared hp).trans hfull
  have hrules : p.heldRules = d.heldRules := congrArg Core.heldRules hcore
  have hroutes : p.heldRoutes = d.heldRoutes := congrArg Core.heldRoutes hcore
  have hcfg : p.cfg = d.cfg := congrArg Core.cfg hcore
  simp only [released, hfull', Bool.false_eq_true, if_false]
  exact ⟨hrules, hroutes, congrArg (fun c : Config => c.routing.routeProtocol) hcfg⟩

/-- A pass keeps what waits unless it runs for a full reconciliation: a postponed one
leaves the next pass to it. -/
theorem Waits.step (h : d.Waits a) (e : PassEnv) : (d.step e).Waits a ∨ d.Releases (.pass e) := by
  cases hp : d.prepared e with
  | none => exact .inl (h.congr (d.backlog_of_not_prepared hp))
  | some p =>
    rw [step_of_prepared d hp]
    cases hfull : d.fullPass with
    | true =>
      by_cases hwait : d.waiting e.now =
          some (.ops ((p.evaluate e.now).released.passOps (p.evaluateInput e.now)))
      · simp only [reconcile, if_pos hwait]
        exact .inl (.inr ((fullPass_of_prepared hp).trans hfull))
      · exact .inr ⟨e, p, rfl, hfull, hp, hwait⟩
    | false =>
      left
      have hheld : d.Holds a := h.resolve_right (by simp [hfull])
      obtain ⟨hrules, hroutes, -⟩ := held_of_prepared hp hfull
      rcases reconcile_spec (p.evaluate e.now) e (d.waiting e.now)
        (p.evaluateInput e.now) _ rfl with hcore | ⟨-, -, -, seq, hcore⟩
      · exact .inl (hheld.congr ((congrArg Core.heldRules hcore).trans hrules)
          ((congrArg Core.heldRoutes hcore).trans hroutes))
      · exact .inl (hheld.congr ((congrArg Core.heldRules hcore).trans hrules)
          ((congrArg Core.heldRoutes hcore).trans hroutes))

/-- **What waits goes on waiting** until a pass runs for a full reconciliation. -/
theorem Waits.handle (h : d.Waits a) (ev : Event) : (d.handle ev).Waits a ∨ d.Releases ev := by
  cases ev with
  | notification now m port flags => exact .inl (h.notification now m port flags)
  | pass e => exact h.step e
  | fullReconciliation e view => exact .inl (.inr rfl)
  | reload c => exact .inl (h.congr (d.backlog_reload c))
  | drain _ _ | routerAdvertisement _ | round _ _ | nftApplied _ _ _ | nftInspected _ _ _
  | sysctlsDone _ _ _ _ _ | handedBack _ _ _ _ =>
    refine .inl (h.congr (d.backlog_of_idle ?_))
    trivial

/-- **What waits is not repaired** by a pass that does not run for a full reconciliation. -/
theorem Waits.not_restores (h : d.Waits a) {e : PassEnv} (hpass : ¬ d.Releases (.pass e)) :
    ∀ op ∈ d.executed e, ¬ op.Restores d.protocol a := by
  intro op hop hrestores
  cases hp : d.prepared e with
  | none =>
    rw [executed, hp] at hop
    cases hop
  | some p =>
    rw [executed_of_prepared hp, ran] at hop
    split at hop
    · cases hop
    · next hwait =>
        have hfull : d.fullPass = false := by
          rw [← Bool.not_eq_true]
          exact fun hfull => hpass ⟨e, p, rfl, hfull, hp, hwait⟩
        have hheld : d.Holds a := h.resolve_right (by simp [hfull])
        obtain ⟨hrules, hroutes, hprotocol⟩ := held_of_prepared hp hfull
        have hmem := (List.takeWhile_prefix _).subset ((List.takeWhile_prefix _).subset hop)
        have hkept := (List.mem_filter.mp hmem).2
        simp only [hrules, hroutes, hprotocol] at hkept
        cases op with
        | addRule r =>
          cases a with
          | rule o =>
            have hany : (d.heldRules.any fun x => x.is r d.protocol) = true :=
              List.any_eq_true.mpr ⟨o, hheld, hrestores⟩
            simp [hany] at hkept
          | route k => exact hrestores
        | replaceRoute r =>
          cases a with
          | rule o => exact hrestores
          | route k =>
            obtain rfl : r.key = k := hrestores
            have hcontains : d.heldRoutes.contains r.key = true :=
              Std.ExtTreeSet.contains_iff_mem.mpr hheld
            simp [hcontains] at hkept
        | applyNft | deleteRule _ | deleteRoute _ _ _ => exact hrestores

theorem waits_ruleRemoved {now : ℕ} {o : ObservedRule}
    (h : ((d.ruleRemoved now o).ownership .rules).conflict = true) :
    (d.ruleRemoved now o).Waits (.rule o) := by
  have hconflict : ((d.countRemoval .rules now).ownership .rules).conflict = true := by
    rw [ownership_countRemoval, ← ownership_ruleRemoved d now o]
    exact h
  simp only [ruleRemoved, immediateRepairs, hconflict, Bool.not_true, Bool.false_eq_true, if_false]
  exact .inl (List.mem_append_right _ (List.mem_singleton_self o))

theorem waits_routeRemoved {now : ℕ} {k : TableKey}
    (h : ((d.routeRemoved now k).ownership .routes).conflict = true) :
    (d.routeRemoved now k).Waits (.route k) := by
  have hconflict : ((d.countRemoval .routes now).ownership .routes).conflict = true := by
    rw [ownership_countRemoval, ← ownership_routeRemoved d now k]
    exact h
  simp only [routeRemoved, immediateRepairs, hconflict, Bool.not_true, Bool.false_eq_true, if_false]
  exact .inl Std.ExtTreeSet.mem_insert_self

/-- **A removal counted during a conflict waits.** -/
theorem waits_of_removal {ev : Event} (hremoval : d.removal ev = some a)
    (hconflict : ((d.handle ev).ownership a.kind).conflict = true) : (d.handle ev).Waits a := by
  cases ev with
  | notification now m port flags =>
    cases m with
    | newNexthop _ | delNexthop _ | getNexthops => cases hremoval
    | route m =>
      simp only [removal] at hremoval
      split at hremoval
      · next hthird =>
          simp only [Daemon.handle, notification, routeNotification, if_pos hthird,
            ownership_react] at hconflict ⊢
          refine Waits.congr ?_ (backlog_react _ _)
          cases hrule : d.removedRule m with
          | some o =>
            obtain rfl : Artifact.rule o = a := by simpa [hrule] using hremoval
            rw [hrule, d.removedRoute_eq_none hrule] at hconflict
            rw [d.removedRoute_eq_none hrule]
            exact waits_ruleRemoved hconflict
          | none =>
            obtain ⟨k, hroute, rfl⟩ : ∃ k, d.removedRoute now m = some k ∧
                Artifact.route k = a := by simpa [hrule] using hremoval
            rw [hrule, hroute] at hconflict
            rw [hroute]
            exact waits_routeRemoved hconflict
      · cases hremoval
  | _ => cases hremoval

end Waits

end Daemon

/-! ## One kind -/

/-- What is known of a kind follows its counted removals and the number of full
reconciliations since the last one. -/
structure Ownership.Tracks (o : Ownership) (counted : List ℕ) (reconciled : ℕ) : Prop where
  sorted : counted.Pairwise (· ≤ ·)
  window : Lib.Window removalSpan counted o.removals
  clean : o.conflict = true → o.cleanReconciliations = reconciled ∧ reconciled < 2

namespace Ownership.Tracks

variable {o : Ownership} {counted : List ℕ} {reconciled now : ℕ}

theorem start : Tracks {} [] 0 where
  sorted := .nil
  window := Lib.Window.nil _
  clean := nofun

theorem counts (h : o.Tracks counted reconciled) (hnow : ∀ t ∈ counted, t ≤ now) :
    (o.counted now).Tracks (counted ++ [now]) 0 where
  sorted := Lib.pairwise_concat h.sorted hnow
  window := h.window.push
  clean := fun _ => ⟨rfl, Nat.two_pos⟩

theorem reconciles (h : o.Tracks counted reconciled) :
    (Daemon.cleared o).Tracks counted (reconciled + 1) := by
  simp only [Daemon.cleared]
  split
  · next hconflict =>
      obtain ⟨hclean, hlt⟩ := h.clean hconflict
      refine ⟨h.sorted, h.window, fun hafter => ⟨congrArg (· + 1) hclean, ?_⟩⟩
      have hafter : o.cleanReconciliations + 1 < 2 := of_decide_eq_true hafter
      omega
  · next hconflict => exact ⟨h.sorted, h.window, fun hafter => absurd hafter hconflict⟩

/-- A removal starts a conflict when it is at least the fourth in the span. -/
theorem enters_iff (h : o.Tracks counted reconciled) (hnow : ∀ t ∈ counted, t ≤ now)
    (hconflict : o.conflict = false) :
    (o.counted now).conflict = true ↔
      4 ≤ ((counted ++ [now]).filter fun t => now - t ≤ removalSpan).length := by
  have hpush : Lib.push removalSpan now o.removals =
      (counted ++ [now]).filter fun t => now - t ≤ removalSpan := by
    rw [h.window.push_eq_filter h.sorted hnow]
    refine List.filter_congr fun t _ => ?_
    simp only [Lib.stale, ← decide_not, not_lt]
  simp only [Ownership.counted, hconflict, Bool.false_or, hpush, decide_eq_true_eq]
  exact Iff.rfl

/-- A full reconciliation ends a conflict when it is the second one in a row. -/
theorem leaves_iff (h : o.Tracks counted reconciled) (hconflict : o.conflict = true) :
    (Daemon.cleared o).conflict = false ↔ reconciled + 1 = 2 := by
  obtain ⟨hclean, hlt⟩ := h.clean hconflict
  simp only [Daemon.cleared, if_pos hconflict, decide_eq_false_iff_not, hclean]
  omega

end Ownership.Tracks

/-! ## Runs -/

/-- Why the status is degraded. -/
inductive Degradation where
  | ownershipConflict
  | flowOffload
  | externalRulesetMissing
  | applyFailed
deriving DecidableEq

/-- The daemon with its degradation reasons, and with the history of each kind: its counted
removals and the number of full reconciliations since the last one. -/
structure Ledger where
  daemon : Daemon
  degraded : Degradation → Bool := fun _ => false
  counted : ArtifactKind → List ℕ := fun _ => []
  reconciled : ArtifactKind → ℕ := fun _ => 0

namespace Ledger

/-- Other reasons come and go by themselves. -/
inductive Event where
  | daemon (ev : Daemon.Event)
  | degrade (reason : Degradation) (other : reason ≠ .ownershipConflict)
  | recover (reason : Degradation) (other : reason ≠ .ownershipConflict)

variable (l : Ledger)

def degrade (reason : Degradation) : Ledger :=
  { l with degraded := fun r => r = reason || l.degraded r }

def recover (reason : Degradation) : Ledger :=
  { l with degraded := fun r => r ≠ reason && l.degraded r }

/-- The removal that an event counts starts a conflict. -/
def enters (ev : Daemon.Event) : Bool :=
  (l.daemon.counts ev).any fun c =>
    3 < ((l.daemon.countRemoval c.1 c.2).ownership c.1).removals.length
      && !(l.daemon.ownership c.1).conflict

/-- No kind is in conflict. -/
def peaceful : Bool :=
  [ArtifactKind.rules, .routes, .nftables].all fun k => !(l.daemon.ownership k).conflict

/-- The daemon handles an event, which joins the history. -/
def handle (ev : Daemon.Event) : Ledger :=
  { l with
    daemon := l.daemon.handle ev
    counted := fun k => l.counted k ++ (l.daemon.countedAt ev k).toList
    reconciled := fun k =>
      if ev.reconciles then l.reconciled k + 1
      else if (l.daemon.countedAt ev k).isSome then 0
      else l.reconciled k }

def step : Event → Ledger
  | .daemon ev =>
    if ev.reconciles then
      if (l.handle ev).peaceful then (l.handle ev).recover .ownershipConflict else l.handle ev
    else if l.enters ev then (l.handle ev).degrade .ownershipConflict
    else l.handle ev
  | .degrade reason _ => l.degrade reason
  | .recover reason _ => l.recover reason

def run (events : List Event) : Ledger := events.foldl step l

/-- Time does not go back. -/
def Admits : Event → Prop
  | .daemon ev => ∀ c ∈ l.daemon.counts ev, ∀ t ∈ l.counted c.1, t ≤ c.2
  | _ => True

instance : DecidablePred l.Admits
  | .daemon ev =>
    inferInstanceAs (Decidable (∀ c ∈ l.daemon.counts ev, ∀ t ∈ l.counted c.1, t ≤ c.2))
  | .degrade _ _ | .recover _ _ => .isTrue trivial

/-- A kind is in conflict. -/
def InConflict (k : ArtifactKind) : Prop := (l.daemon.ownership k).conflict = true

/-! ## What holds in every run -/

/-- What is known of each kind follows its history, and conflicts degrade the status. -/
structure Sound : Prop where
  tracks : ∀ k, (l.daemon.ownership k).Tracks (l.counted k) (l.reconciled k)
  degraded : l.degraded .ownershipConflict = true ↔ ∃ k, l.InConflict k

variable {l}

theorem Admits.le {ev : Daemon.Event} (h : l.Admits (.daemon ev)) {k : ArtifactKind} {now : ℕ}
    (hcounted : l.daemon.countedAt ev k = some now) : ∀ t ∈ l.counted k, t ≤ now := by
  obtain ⟨c, hc, rfl⟩ := Option.map_eq_some_iff.mp hcounted
  obtain ⟨hcounts, hk⟩ := Option.filter_eq_some_iff.mp hc
  obtain rfl : c.1 = k := of_decide_eq_true hk
  exact h c hcounts

theorem tracks_handle (h : ∀ k, (l.daemon.ownership k).Tracks (l.counted k) (l.reconciled k))
    {ev : Daemon.Event} (htime : l.Admits (.daemon ev)) (k : ArtifactKind) :
    ((l.handle ev).daemon.ownership k).Tracks ((l.handle ev).counted k)
      ((l.handle ev).reconciled k) := by
  simp only [handle, Daemon.ownership_of_kind]
  cases hfull : ev.reconciles with
  | true =>
    simpa [l.daemon.countedAt_of_reconciles hfull] using (h k).reconciles
  | false =>
    cases hcounted : l.daemon.countedAt ev k with
    | none => simpa using h k
    | some now => simpa using (h k).counts (htime.le hcounted)

/-- A kind not in conflict enters one by a removal that is at least the fourth in the
span. -/
theorem Sound.enters_iff (h : l.Sound) {ev : Daemon.Event} (htime : l.Admits (.daemon ev))
    {k : ArtifactKind} (hk : ¬ l.InConflict k) :
    (l.handle ev).InConflict k ↔ ∃ now ∈ l.daemon.countedAt ev k,
      4 ≤ ((l.counted k ++ [now]).filter fun t => now - t ≤ removalSpan).length := by
  have hk : (l.daemon.ownership k).conflict = false := by simpa [InConflict] using hk
  simp only [InConflict, handle, Daemon.ownership_of_kind]
  cases hfull : ev.reconciles with
  | true =>
    simp [l.daemon.countedAt_of_reconciles hfull, Daemon.cleared, hk]
  | false =>
    cases hcounted : l.daemon.countedAt ev k with
    | none => simp [hk]
    | some now => simpa using (h.tracks k).enters_iff (htime.le hcounted) hk

/-- A kind in conflict leaves it by the second full reconciliation since its last removal. -/
theorem Sound.leaves_iff (h : l.Sound) {ev : Daemon.Event} {k : ArtifactKind}
    (hk : l.InConflict k) :
    ¬ (l.handle ev).InConflict k ↔ ev.reconciles = true ∧ l.reconciled k + 1 = 2 := by
  simp only [InConflict, handle, Daemon.ownership_of_kind, Bool.not_eq_true]
  cases hfull : ev.reconciles with
  | true => simpa using (h.tracks k).leaves_iff hk
  | false =>
    have hk : (l.daemon.ownership k).conflict = true := hk
    cases hcounted : l.daemon.countedAt ev k with
    | none => simp [hk]
    | some now => simp [Ownership.counted, hk]

theorem peaceful_iff : l.peaceful = true ↔ ∀ k, ¬ l.InConflict k := by
  simp only [peaceful, InConflict, List.all_eq_true, Bool.not_eq_true']
  constructor
  · intro h k
    rw [Bool.not_eq_true]
    exact h k (by cases k <;> simp)
  · intro h k _
    exact Bool.not_eq_true _ ▸ h k

/-- The status degrades exactly when a kind enters a conflict. -/
theorem enters_eq_true_iff {ev : Daemon.Event} (hfull : ev.reconciles = false) :
    l.enters ev = true ↔ ∃ k, ¬ l.InConflict k ∧ (l.handle ev).InConflict k := by
  simp only [enters, InConflict, handle, Daemon.ownership_of_kind, hfull, Bool.false_eq_true,
    if_false, Daemon.countedAt]
  cases l.daemon.counts ev with
  | none => simp
  | some c =>
    simp only [Option.any_some, Daemon.ownership_countRemoval, Daemon.countedOwnership, if_true,
      Option.filter_some]
    constructor
    · intro h
      obtain ⟨hlength, hconflict⟩ : 3 < ((l.daemon.ownership c.1).counted c.2).removals.length ∧
          (l.daemon.ownership c.1).conflict = false := by simpa using h
      refine ⟨c.1, by simp [hconflict], ?_⟩
      simpa [Ownership.counted, hconflict] using hlength
    · rintro ⟨k, hbefore, hafter⟩
      by_cases hk : c.1 = k
      · subst hk
        simpa [Ownership.counted, hbefore] using hafter
      · simp [hk, hbefore] at hafter

/-- A full reconciliation starts no conflict, and other events end none. -/
theorem Sound.degraded_handle (h : l.Sound) {ev : Daemon.Event} (htime : l.Admits (.daemon ev))
    (hkept : if ev.reconciles then ¬ (l.handle ev).peaceful = true else ¬ l.enters ev = true) :
    l.degraded .ownershipConflict = true ↔ ∃ k, (l.handle ev).InConflict k := by
  rw [h.degraded]
  cases hfull : ev.reconciles with
  | true =>
    simp only [hfull, if_true, peaceful_iff, not_forall, not_not] at hkept
    refine iff_of_true ?_ hkept
    obtain ⟨k, hk⟩ := hkept
    by_contra hnone
    obtain ⟨now, hcounted, -⟩ := (h.enters_iff htime fun hbefore => hnone ⟨k, hbefore⟩).mp hk
    rw [l.daemon.countedAt_of_reconciles hfull] at hcounted
    cases hcounted
  | false =>
    simp only [hfull, Bool.false_eq_true, if_false, enters_eq_true_iff hfull, not_exists,
      not_and] at hkept
    refine exists_congr fun k => ⟨fun hk => ?_, fun hk => ?_⟩
    · by_contra hafter
      have hleaves := ((h.leaves_iff hk).mp hafter).1
      rw [hfull] at hleaves
      cases hleaves
    · by_contra hbefore
      exact hkept k hbefore hk

theorem Sound.step (h : l.Sound) {ev : Event} (htime : l.Admits ev) : (l.step ev).Sound := by
  cases ev with
  | degrade reason other =>
    have hkept : (l.degrade reason).degraded .ownershipConflict =
        l.degraded .ownershipConflict := by simp [degrade, other.symm]
    refine ⟨h.tracks, ?_⟩
    rw [Ledger.step, hkept]
    exact h.degraded
  | recover reason other =>
    have hkept : (l.recover reason).degraded .ownershipConflict =
        l.degraded .ownershipConflict := by simp [recover, other.symm]
    refine ⟨h.tracks, ?_⟩
    rw [Ledger.step, hkept]
    exact h.degraded
  | daemon ev =>
    have htracks := tracks_handle h.tracks htime
    have hkept := h.degraded_handle htime
    simp only [Ledger.step]
    split
    · next hfull =>
        simp only [hfull, if_true] at hkept
        split
        · next hpeace =>
            refine ⟨htracks, iff_of_false (by simp [recover]) ?_⟩
            rintro ⟨k, hk⟩
            exact peaceful_iff.mp hpeace k hk
        · next hpeace => exact ⟨htracks, hkept hpeace⟩
    · next hfull =>
        simp only [hfull, Bool.false_eq_true, if_false] at hkept
        split
        · next henters =>
            obtain ⟨k, -, hk⟩ := (enters_eq_true_iff (by simpa using hfull)).mp henters
            exact ⟨htracks, iff_of_true (by simp [degrade]) ⟨k, hk⟩⟩
        · next henters => exact ⟨htracks, hkept henters⟩

theorem Sound.run (h : l.Sound) {events : List Event}
    (htime : Lib.Along Ledger.step Admits l events) : (l.run events).Sound := by
  have hstep : ∀ (l : Ledger) ev, l.Sound → l.Admits ev → (l.step ev).Sound :=
    fun l ev h htime => h.step htime
  exact htime.invariant hstep h

/-- The ledger at startup. -/
def start (file : Option Checkpoint) (bootId : String) (c : Config) (port now : ℕ)
    (system : System) (listing : Option Nft.Table) (drained : Std.ExtTreeSet UplinkId) :
    Ledger where
  daemon := Daemon.startFrom file bootId c port now system listing drained

/-- Nothing was applied yet, so that the table found at startup counts as no removal. -/
theorem sound_start (file : Option Checkpoint) (bootId : String) (c : Config) (port now : ℕ)
    (system : System) (listing : Option Nft.Table) (drained : Std.ExtTreeSet UplinkId) :
    (start file bootId c port now system listing drained).Sound := by
  have hownership : (start file bootId c port now system listing drained).daemon.ownership =
      fun _ => {} := by
    simp only [start, Daemon.startFrom, Daemon.start, Daemon.ownership_checkNft,
      Daemon.tableChanged, Option.isSome_none, Bool.and_false, Bool.false_eq_true, if_false]
  refine ⟨fun k => ?_, iff_of_false (by simp [start]) ?_⟩
  · rw [hownership]
    exact .start
  · rintro ⟨k, hk⟩
    rw [InConflict, hownership] at hk
    cases hk

/-- **Ownership conflicts.**  In every run in which time does not go back, the status is
degraded for a conflict exactly while some kind is in conflict.  A kind enters one exactly
by a removal that is at least the fourth of its kind within five minutes, and leaves it
exactly by the second full reconciliation since its last removal.  An artifact removed
while its kind is in conflict is restored by no pass until one runs for a full
reconciliation. -/
theorem conflicts (file : Option Checkpoint) (bootId : String) (c : Config) (port now : ℕ)
    (system : System) (listing : Option Nft.Table) (drained : Std.ExtTreeSet UplinkId)
    (events : List Event) (l : Ledger)
    (hl : l = (start file bootId c port now system listing drained).run events)
    (htime : Lib.Along step Admits (start file bootId c port now system listing drained) events) :
    (l.degraded .ownershipConflict = true ↔ ∃ k, l.InConflict k) ∧
      ∀ ev, l.Admits (.daemon ev) →
        (∀ k, ¬ l.InConflict k →
          ((l.step (.daemon ev)).InConflict k ↔ ∃ now ∈ l.daemon.countedAt ev k,
            4 ≤ ((l.counted k ++ [now]).filter fun t => now - t ≤ removalSpan).length)) ∧
        (∀ k, l.InConflict k →
          (¬ (l.step (.daemon ev)).InConflict k ↔
            ev.reconciles = true ∧ l.reconciled k + 1 = 2)) ∧
        ∀ a, l.daemon.removal ev = some a → (l.step (.daemon ev)).InConflict a.kind →
          ∀ later e, ¬ Lib.EndedBy Daemon.handle Daemon.Releases (l.daemon.handle ev) later →
            ¬ ((l.daemon.handle ev).run later).Releases (.pass e) →
            ∀ op ∈ ((l.daemon.handle ev).run later).executed e,
              ¬ op.Restores ((l.daemon.handle ev).run later).protocol a := by
  have h : l.Sound := hl ▸ (sound_start file bootId c port now system listing drained).run htime
  have hstep : ∀ ev k, (l.step (.daemon ev)).InConflict k ↔ (l.handle ev).InConflict k := by
    intro ev k
    simp only [step]
    repeat' split
    all_goals exact Iff.rfl
  refine ⟨h.degraded, fun ev hev => ⟨fun k hk => ?_, fun k hk => ?_, ?_⟩⟩
  · rw [hstep]
    exact h.enters_iff hev hk
  · rw [hstep]
    exact h.leaves_iff hk
  · intro a hremoval hconflict later e hlater hpass
    have hwaits := Daemon.waits_of_removal hremoval ((hstep ev a.kind).mp hconflict)
    have hkept : ∀ (d : Daemon) ev, True → d.Waits a → (d.handle ev).Waits a ∨ d.Releases ev :=
      fun d ev _ hd => hd.handle ev
    have hpending := Lib.pending_or_endedBy hkept (l := later) (fun _ _ => trivial) hwaits
    exact (hpending.resolve_right hlater).not_restores hpass

end Ledger

namespace Sample

/-- The rules are installed and one is removed three times. -/
def removedThrice : List Ledger.Event :=
  [ .daemon (.pass quiet), .daemon (.sysctlsDone 0 1 (.interface "wan1") (.ok ()) []),
    .daemon (.sysctlsDone 0 2 .global (.ok ()) []), .daemon (.pass quiet), .daemon (.pass quiet),
    .daemon ruleRemoval, .daemon ruleRemoval, .daemon ruleRemoval ]

def disputed : Ledger := (Ledger.start none "" plain 7 0 network.system none ∅).run removedThrice

theorem disputed_facts :
    Lib.Along Ledger.step Ledger.Admits (Ledger.start none "" plain 7 0 network.system none ∅)
        removedThrice ∧
      disputed.Admits (.daemon ruleRemoval) ∧
      (disputed.daemon.ownership .rules).conflict = false ∧
      disputed.counted .rules = [0, 0, 0] ∧
      disputed.daemon.counts ruleRemoval = some (.rules, 0) ∧
      (disputed.daemon.removal ruleRemoval).any (fun a => a.kind = .rules) = true ∧
      (disputed.daemon.handle ruleRemoval).fullPass = false ∧
      (disputed.daemon.handle ruleRemoval).protocol = 249 := by
  decide +kernel

end Sample

/-- The fourth removal of a rule within five minutes starts a conflict, and the pass that
follows does not repair it. -/
theorem Ledger.conflicts_disputed :
    (Sample.disputed.step (.daemon Sample.ruleRemoval)).InConflict .rules ∧
      ∃ a, Sample.disputed.daemon.removal Sample.ruleRemoval = some a ∧
        ∀ op ∈ (Sample.disputed.daemon.handle Sample.ruleRemoval).executed Sample.quiet,
          ¬ op.Restores 249 a := by
  obtain ⟨htime, hadmits, hpeace, hcounted, hcounts, hremoval, hfull, hprotocol⟩ :=
    Sample.disputed_facts
  obtain ⟨-, h⟩ := conflicts none "" Sample.plain 7 0 Sample.network.system none ∅
    Sample.removedThrice Sample.disputed rfl htime
  obtain ⟨henters, -, hwaits⟩ := h Sample.ruleRemoval hadmits
  have hconflict := (henters .rules (by simp [InConflict, hpeace])).mpr
    ⟨0, by simp [Daemon.countedAt, Option.filter_some, hcounts], by rw [hcounted]; decide⟩
  obtain ⟨a, ha, hkind⟩ : ∃ a, Sample.disputed.daemon.removal Sample.ruleRemoval = some a ∧
      a.kind = .rules := by simpa [Option.any_eq_true] using hremoval
  refine ⟨hconflict, a, ha, ?_⟩
  have hnone := hwaits a ha (hkind ▸ hconflict) [] Sample.quiet (by simp [Lib.EndedBy]) ?_
  · rw [← hprotocol]
    exact hnone
  · rintro ⟨e, p, -, hpass, -⟩
    exact absurd hpass (by simp [Daemon.run, hfull])

end Polywan
