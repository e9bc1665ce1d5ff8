import Polywan.Daemon.Reread
import Polywan.Observer.Complete
import Polywan.Reconcile.Pass

/-!
# The daemon and the routes of its kernel

The kernel's routes change on their own, with a notification or without one, and by the
operations of the daemon.  A pass whose dumps are complete works on a view that agrees
with the kernel on every table that was scheduled for a re-read or agreed before, and
its operations change both alike.

## Main definitions

* `Op.onKernel` — what an operation does to the routes of the kernel.
* `Host` — a kernel and the daemon.
* `Host.step`, `Host.run` — what happens to them.
-/

namespace Polywan

/-- What a successful operation does to the routes of the kernel; deleting a route that
is gone succeeds too. -/
def Op.onKernel (scope : Scope) (protocol : ℕ) (K : Kernel) : Op → Kernel
  | .replaceRoute r =>
    insert (r.observed protocol)
      {x ∈ K | routeKey scope x ≠ routeKey scope (r.observed protocol)}
  | .deleteRoute f t p =>
    {x ∈ K | ¬ (x.tableKey = ⟨f, t⟩ ∧ x.destination = none ∧ x.metric = routeMetric
      ∧ x.protocol = p)}
  | .addRule _ | .applyNft | .deleteRule _ => K

/-- The routes of the kernel after a list of successful operations. -/
def Kernel.afterOps (scope : Scope) (protocol : ℕ) (K : Kernel) (ops : List Op) : Kernel :=
  ops.foldl (Op.onKernel scope protocol) K

/-- A kernel and the daemon, with the instant of the last notification or pass. -/
structure Host where
  kernel : Kernel
  daemon : Daemon
  now : ℕ

namespace Host

/-- What happens to them. -/
inductive Event where
  /-- A route of the kernel changes, and the change is notified. -/
  | changed (n : Notified) (m : RouteMessage) (port : ℕ)
  /-- A link or an address changes; the kernel drops routes without a notification. -/
  | interface (lost : Set ObservedRoute) (now : ℕ) (m : RouteNetlinkMessage) (port : ℕ)
      (flags : BitVec 16)
  | daemon (ev : Daemon.Event)

variable (h : Host)

/-- What happens in the daemon. -/
def handle : Daemon.Event → Host
  | .pass e =>
    { kernel := h.kernel.afterOps h.daemon.scope h.daemon.protocol (h.daemon.executed e)
      daemon := h.daemon.step e
      now := e.now }
  | ev => { h with daemon := h.daemon.handle ev }

/-- The host after an event. -/
def step : Event → Host
  | .changed n m port =>
    { kernel := n.change.after h.kernel
      daemon := h.daemon.notification n.now
        (.route (if n.change.deleted then .delRoute m else .newRoute m)) port n.flags
      now := n.now }
  | .interface lost now m port flags =>
    { kernel := h.kernel \ lost
      daemon := h.daemon.notification now (.route m) port flags
      now }
  | .daemon ev => h.handle ev

/-- The host after a list of events. -/
def run (events : List Event) : Host := events.foldl step h

end Host

/-! ## Operations -/

section Ops

variable {l : Layout} {scope : Scope} {now protocol : ℕ} {K : Kernel} {s : System} {k : TableKey}

/-- A deletion that meets a route of the program, if any. -/
def Op.Owned (protocol : ℕ) (s : System) : Op → Prop
  | .deleteRoute f t p =>
    p = protocol ∧ ∀ v, s.routes[TableKey.routeKey ⟨f, t⟩]? = some v → v.protocol = protocol
  | .replaceRoute _ | .addRule _ | .applyNft | .deleteRule _ => True

theorem Kernel.Distinct.onKernel (hd : K.Distinct scope) (op : Op) :
    (op.onKernel scope protocol K).Distinct scope := by
  cases op with
  | replaceRoute r =>
    rintro x (rfl | ⟨hx, hxkey⟩) y (rfl | ⟨hy, hykey⟩) hkey
    · rfl
    · exact absurd hkey.symm hykey
    · exact absurd hkey hxkey
    · exact hd hx hy hkey
  | deleteRoute f t p => exact hd.mono (Set.sep_subset _ _)
  | addRule _ | applyNft | deleteRule _ => exact hd

theorem Kernel.Distinct.afterOps (hd : K.Distinct scope) (ops : List Op) :
    (K.afterOps scope protocol ops).Distinct scope := by
  induction ops generalizing K with
  | nil => exact hd
  | cons op ops ih => exact ih (hd.onKernel op)

theorem ObservedRoute.Shows.protocol_eq {v r : ObservedRoute} (h : v.Shows now r) :
    v.protocol = r.protocol := by
  obtain ⟨t, ht⟩ := keepExpiry_eq now v.expiresAt r
  rw [show v = { r with expiresAt := t } from h.trans ht]

/-- **An operation changes the view as it changes the kernel.** -/
theorem Exact.onKernel (hc : scope.Covers l) {op : Op} (hop : op.Proper l)
    (hown : op.Owned protocol s) (h : Exact scope now K s k) :
    Exact scope now (op.onKernel scope protocol K) (applyOp now scope protocol s op) k := by
  cases op with
  | replaceRoute r =>
    have happly : applyOp now scope protocol s (.replaceRoute r) =
        (s.applyRoute now scope (r.observed protocol) false).1 := by
      simp [applyOp, netlinkOp, System.apply, parse_routeMessage]
    have hp : scope.isPolywan (r.observed protocol).table = true := (hc _).trans hop.1
    have hothers : ∀ x, routeKey scope x ≠ routeKey scope (r.observed protocol) →
        (x ∈ (Op.replaceRoute r).onKernel scope protocol K ↔ x ∈ K) := by
      intro x hx
      have hne : x ≠ r.observed protocol := fun heq => hx (heq ▸ rfl)
      simp [Op.onKernel, hne, hx]
    rw [happly]
    by_cases hk : k = (r.observed protocol).tableKey
    · subst hk
      refine h.added (keeps_of_isPolywan hp) (fun x _ hx => hothers x hx)
        (Set.mem_insert _ _) ?_
      rintro x (rfl | ⟨-, hx⟩) hkey
      · rfl
      · exact absurd hkey hx
    · refine h.frame (fun x hx _ => hothers x fun hkey => ?_) fun κ hκ => ?_
      · exact hk (hx.symm.trans (congrArg RouteKey.tableKey hkey))
      · rw [getElem?_applyRoute (keeps_of_isPolywan hp), if_neg]
        rintro rfl
        exact hk hκ.symm
  | deleteRoute f t p =>
    obtain ⟨rfl, hown⟩ := hown
    have hlookup := routes_deleteRoute (f := f) now p s hc p hop
    constructor
    · rintro x ⟨hx, hxnot⟩ hk hkeeps
      obtain ⟨v, hv, hshows⟩ := h.holds x hx hk hkeeps
      have hne : TableKey.routeKey ⟨f, t⟩ ≠ routeKey scope x := by
        intro hkey
        obtain ⟨hf, ht, hd, hm, -⟩ := RouteKey.mk.inj hkey
        rw [← hkey] at hv
        exact hxnot ⟨TableKey.ext hf.symm ht.symm, hd.symm, hm.symm,
          hshows.protocol_eq.symm.trans (hown v hv)⟩
      exact ⟨v, by rw [hlookup, if_neg hne, hv], hshows⟩
    · intro κ v hv hκ hkeeps
      rw [hlookup] at hv
      split at hv
      · cases hv
      · next hne =>
          obtain ⟨x, hx, hxkeeps, rfl⟩ := h.only κ v hv hκ hkeeps
          refine ⟨x, ⟨hx, ?_⟩, hxkeeps, rfl⟩
          rintro ⟨htable, hd, hm, -⟩
          obtain ⟨hf, ht⟩ := TableKey.mk.inj htable
          refine hne ?_
          rw [routeKey_of_isPolywan (by rw [hc, ht]; exact hop), hf, ht, hd, hm]
          rfl
  | addRule r => exact h.frame (fun _ _ _ => Iff.rfl) fun κ _ => by rw [routes_addRule]
  | deleteRule o => exact h.frame (fun _ _ _ => Iff.rfl) fun κ _ => by rw [routes_deleteRule]
  | applyNft => exact h

/-- What an operation leaves in a table is the program's. -/
theorem Op.Owned.applyOp (hc : scope.Covers l) {op op' : Op} (hop : op.Proper l)
    (h : op'.Owned protocol s) :
    op'.Owned protocol (Polywan.applyOp now scope protocol s op) := by
  cases op' with
  | deleteRoute f t p =>
    refine ⟨h.1, fun v hv => ?_⟩
    cases op with
    | replaceRoute r =>
      obtain ⟨t, hlookup⟩ := routes_replaceRoute now protocol s hc hop.1
      rw [hlookup] at hv
      split at hv
      · obtain rfl := Option.some.inj hv
        rfl
      · exact h.2 v hv
    | deleteRoute f' t' p' =>
      rw [routes_deleteRoute now protocol s hc p' hop] at hv
      split at hv
      · cases hv
      · exact h.2 v hv
    | addRule r =>
      rw [routes_addRule] at hv
      exact h.2 v hv
    | deleteRule o =>
      rw [routes_deleteRule] at hv
      exact h.2 v hv
    | applyNft => exact h.2 v hv
  | replaceRoute _ | addRule _ | applyNft | deleteRule _ => trivial

theorem Exact.afterOps (hc : scope.Covers l) {ops : List Op} (hops : ∀ op ∈ ops, op.Proper l)
    (hown : ∀ op ∈ ops, op.Owned protocol s) (h : Exact scope now K s k) :
    Exact scope now (K.afterOps scope protocol ops) (applyOps now scope protocol s ops) k := by
  induction ops generalizing K s with
  | nil => exact h
  | cons op ops ih =>
    obtain ⟨hop, hops⟩ := List.forall_mem_cons.mp hops
    obtain ⟨hopown, hown⟩ := List.forall_mem_cons.mp hown
    exact ih hops (fun op' hop' => (hown op' hop').applyOp hc hop) (h.onKernel hc hop hopown)

end Ops

/-! ## Passes -/

namespace Daemon

variable {d p : Daemon} {e : PassEnv} (hp : d.prepared e = some p) (hv : d.cfg.Valid)
include hp hv

theorem executed_proper : ∀ op ∈ d.executed e, op.Proper d.layout := by
  have hcfg := (d.reread_of_prepared hp).1
  intro op hop
  have hdiff := (List.takeWhile_prefix _).subset (mem_of_mem_executed hp hop)
  have hvalid : (p.pass (p.evaluateInput e.now)).config.Valid := by
    rw [show (p.pass (p.evaluateInput e.now)).config = d.cfg from hcfg]
    exact hv
  have hproper := diff_proper (Pass.beforeNft_proper hvalid) (Pass.desired_proper hvalid) op hdiff
  rwa [show (p.pass (p.evaluateInput e.now)).diffInput.layout = d.layout from
    congrArg Layout.of hcfg] at hproper

omit hv in
/-- The daemon deletes its own routes only. -/
theorem executed_owned (hw : d.system.WellFormed d.scope) :
    ∀ op ∈ d.executed e, op.Owned p.protocol p.system := by
  intro op hop
  have hdiff := (List.takeWhile_prefix _).subset (mem_of_mem_executed hp hop)
  have hcovers : d.scope.Covers (p.pass (p.evaluateInput e.now)).diffInput.layout := by
    rw [← scope_of_prepared hp]
    exact Scope.covers_of p.cfg
  cases op with
  | deleteRoute f t q =>
    obtain ⟨hq, hobserved⟩ := observed_of_deleteRoute_mem_diff hdiff
    obtain ⟨-, hplanned⟩ := (mem_observedTables (wellFormed_of_prepared hp hw) hcovers).mp
      hobserved
    obtain ⟨r, hr⟩ := Option.isSome_iff_exists.mp hplanned
    obtain ⟨o, ho, hprotocol, -⟩ := planned_eq_some.mp hr
    refine ⟨hq, fun v hv => ?_⟩
    obtain rfl := Option.some.inj (ho.symm.trans hv)
    exact hprotocol
  | replaceRoute _ | addRule _ | applyNft | deleteRule _ => trivial

variable {K : Kernel} {P : TableKey → Prop}

omit hv in
/-- **The re-reads of a pass make its view exact**, where it was or a re-read was
scheduled. -/
theorem exact_of_prepared (hd : K.Distinct d.scope) (hdumps : e.dumps.Complete e.now K P)
    (h : ∀ k, P k → Exact d.scope e.now K d.system k ∨ k ∈ d.reread) :
    ∀ k, P k → Exact d.scope e.now K p.system k := by
  rw [(d.reread_of_prepared hp).2.2]
  refine hdumps.exact_reread hd fun k hk hnot => (h k hk).resolve_right fun hreread => ?_
  exact hnot (Std.ExtTreeSet.mem_toList.mpr (d.mem_scheduled hreread e.now))

/-- **The operations of a pass keep the view exact.** -/
theorem exact_step (hw : d.system.WellFormed d.scope)
    (h : ∀ k, P k → Exact d.scope e.now K p.system k) :
    ∀ k, P k → Exact d.scope e.now (K.afterOps d.scope d.protocol (d.executed e))
      (d.step e).system k := by
  intro k hk
  rw [system_of_prepared hp, scope_of_prepared hp, ← protocol_of_prepared hp]
  exact (h k hk).afterOps (Scope.covers_of d.cfg) (executed_proper hp hv)
    (executed_owned hp hw)

end Daemon

/-! ## A kernel given by its messages -/

/-- The routes that messages tell of. -/
def Kernel.told (now : ℕ) (messages : List RouteMessage) : Kernel :=
  {r | r ∈ messages.filterMap (ObservedRoute.parse now)}

/-- Dumps that list them. -/
def Dumps.told (now : ℕ) (messages : List RouteMessage) : Dumps := fun k _ =>
  some ((messages.filter fun m =>
    (ObservedRoute.parse now m).map ObservedRoute.tableKey = some k).map .newRoute)

theorem Dumps.complete_told (now : ℕ) (messages : List RouteMessage) (P : TableKey → Prop) :
    (Dumps.told now messages).Complete now (Kernel.told now messages) P := by
  refine fun k n => ⟨_, rfl, fun _ r hr => ?_⟩
  simp only [Kernel.told, Set.mem_ofPred_eq, List.mem_filterMap, List.mem_map, List.mem_filter,
    decide_eq_true_eq, RouteNetlinkMessage.newRoute.injEq, exists_eq_right]
  refine exists_congr fun m => ⟨fun hm => ⟨⟨hm.1, ?_⟩, hm.2⟩, fun hm => ⟨hm.1.1, hm.2⟩⟩
  rw [hm.2, Option.map_some, hr]

section Told

variable {now : ℕ} {scope : Scope} {s : System} {messages : List RouteMessage}
  (hshown : ∀ r ∈ messages.filterMap (ObservedRoute.parse now),
    s.routes[routeKey scope r]? = some r)
include hshown

theorem Kernel.distinct_told : (Kernel.told now messages).Distinct scope := by
  intro r hr r' hr' hkey
  have hboth := (hshown r hr).symm.trans (hkey ▸ hshown r' hr')
  exact Option.some.inj hboth

theorem exact_told
    (honly : ∀ e ∈ s.routes.toList, e.2 ∈ messages.filterMap (ObservedRoute.parse now) ∧
      routeKey scope e.2 = e.1) (k : TableKey) :
    Exact scope now (Kernel.told now messages) s k where
  holds := by
    intro r hr _ _
    refine ⟨r, hshown r hr, ?_⟩
    unfold ObservedRoute.Shows keepExpiry
    cases r.expiresAt <;> rfl
  only := by
    intro κ v hv _ hkeeps
    obtain ⟨hmem, hkey⟩ := honly (κ, v) (Std.ExtTreeMap.mem_toList_iff_getElem?_eq_some.mpr hv)
    exact ⟨v, hmem, hkeeps, hkey⟩

end Told

end Polywan
