import Polywan.Reconcile.Execute
import Polywan.Reconcile.Pass

/-!
# Convergence

Two passes, one up to the nftables step and one after it, leave a view that needs
nothing more: the program's rules and routes are the desired ones and everything else
is as it was.

## Main definitions

* `Unowned` — rules and routes that are not the program's, left as they were.
* `Converged` — a view with exactly the desired rules and routes.
-/

namespace Polywan

/-! ## What is not the program's -/

/-- A rule of another protocol or priority range. -/
def ForeignRule (l : Layout) (protocol : ℕ) (o : ObservedRule) : Prop :=
  ¬ (o.protocol = protocol ∧ l.priorities o.priority = true)

instance (l : Layout) (protocol : ℕ) : DecidablePred (ForeignRule l protocol) :=
  fun o => inferInstanceAs (Decidable (¬ (o.protocol = protocol ∧ l.priorities o.priority = true)))

/-- A route of another protocol or table range. -/
def ForeignRoute (l : Layout) (protocol : ℕ) (o : ObservedRoute) : Prop :=
  ¬ (o.protocol = protocol ∧ l.tables o.table = true)

/-- Foreign rules and routes are unchanged, apart from a route under the key of a
desired one. -/
structure Unowned (l : Layout) (protocol : ℕ) (desired : Desired) (s s' : System) : Prop where
  rules : s'.rules.filter (ForeignRule l protocol ·) = s.rules.filter (ForeignRule l protocol ·)
  routes : ∀ (κ : RouteKey) (o : ObservedRoute), ForeignRoute l protocol o →
    (∀ (k : TableKey) r, desired.routes[k]? = some r → k.routeKey ≠ κ) →
    (s'.routes[κ]? = some o ↔ s.routes[κ]? = some o)

theorem Unowned.trans {l : Layout} {protocol : ℕ} {desired : Desired} {s s' s'' : System}
    (h : Unowned l protocol desired s s') (h' : Unowned l protocol desired s' s'') :
    Unowned l protocol desired s s'' where
  rules := h'.rules.trans h.rules
  routes κ o ho hne := (h'.routes κ o ho hne).trans (h.routes κ o ho hne)

section Frame

variable {d : DiffInput} {s s' : System} {scope : Scope}

/-- A pass leaves foreign rules alone, wherever it stops. -/
theorem DiffInput.Cut.foreign {A : List Rule} {D : List ObservedRule} (hcut : d.Cut s s' A D)
    (hd : d.desired.Proper d.layout) :
    s'.rules.filter (ForeignRule d.layout d.protocol ·) =
      s.rules.filter (ForeignRule d.layout d.protocol ·) := by
  have hadd : (A.map (Rule.observed · d.protocol)).filter (ForeignRule d.layout d.protocol ·) =
      [] := by
    refine List.filter_eq_nil_iff.mpr fun o ho => ?_
    obtain ⟨r, hr, rfl⟩ := List.mem_map.mp ho
    have hdes := ((DiffInput.mem_additions hd).mp (hcut.added.subset hr)).1
    rw [decide_eq_true_iff, ForeignRule, not_not]
    exact ⟨rfl, (hd.hasRule r hdes).priorities⟩
  rw [hcut.rules, List.filter_filter]
  have hcongr : ∀ o, (decide (ForeignRule d.layout d.protocol o) && decide (o ∉ D)) =
      decide (ForeignRule d.layout d.protocol o) := by
    intro o
    by_cases ho : o ∈ D
    · have hobs := (DiffInput.mem_deletions.mp (hcut.deleted.subset ho)).1
      have hown : ¬ ForeignRule d.layout d.protocol o := not_not.mpr (mem_observedRules.mp hobs).2
      simp [hown]
    · simp [ho]
  simp only [hcongr, List.filter_append, hadd, List.append_nil]

variable (hw : s.WellFormed scope) (hc : scope.Covers d.layout) (hd : d.Proper)
  (hsub : ∀ (k : TableKey) r, d.beforeNft.routes[k]? = some r → (d.desired.routes[k]?).isSome)
include hw hc hd hsub

omit hc hw in
/-- Routes are set under keys of desired routes only. -/
theorem replaceRoute_mem_diff {r : Route} (h : Op.replaceRoute r ∈ diff s d) :
    ∃ r', d.desired.routes[r.key]? = some r' := by
  simp only [diff, DiffInput.firstOps, DiffInput.lastOps, DiffInput.replacements,
    DiffInput.lateReplacements, DiffInput.deletion, List.mem_append, List.mem_map,
    List.mem_filter] at h
  rcases h with (((⟨r', ⟨⟨e, he, rfl⟩, -⟩, heq⟩ | ⟨k, -, heq⟩) | ⟨r', -, heq⟩) | h) |
    (⟨r', ⟨e, ⟨he, -⟩, rfl⟩, heq⟩ | ⟨o, -, heq⟩) | ⟨k, -, heq⟩
  · obtain rfl := Op.replaceRoute.inj heq
    have he := Std.ExtTreeMap.mem_toList_iff_getElem?_eq_some.mp he
    rw [hd.beforeNft.route_key _ _ he]
    exact Option.isSome_iff_exists.mp (hsub _ _ he)
  · cases heq
  · cases heq
  · split at h
    · cases List.mem_singleton.mp h
    · cases h
  · obtain rfl := Op.replaceRoute.inj heq
    have he := Std.ExtTreeMap.mem_toList_iff_getElem?_eq_some.mp he
    rw [hd.desired.route_key _ _ he]
    exact ⟨_, he⟩
  · cases heq
  · cases heq

omit hd hsub in
/-- Routes are deleted only where the program's own stand. -/
theorem deleteRoute_mem_diff {f : Family} {t p : ℕ} (h : Op.deleteRoute f t p ∈ diff s d) :
    d.layout.tables t = true ∧ (s.planned d.protocol ⟨f, t⟩).isSome := by
  exact (mem_observedTables hw hc).mp (observed_of_deleteRoute_mem_diff h).2

/-- **A pass leaves alone what is not the program's, wherever it stops.** -/
theorem unowned_of_prefix (now : ℕ) {ops : List Op} (hops : ops <+: diff s d) :
    Unowned d.layout d.protocol d.desired s (applyOps now scope d.protocol s ops) := by
  obtain ⟨A, D, hcut⟩ := DiffInput.exists_cut hw hd.desired now scope hops
  refine ⟨hcut.foreign hd.desired, fun κ o ho hne => ?_⟩
  have hproper : ∀ op ∈ ops, op.Proper d.layout := fun op hop =>
    diff_proper hd.beforeNft hd.desired op (hops.subset hop)
  have hkey : ∀ r, Op.replaceRoute r ∈ ops → r.key.routeKey ≠ κ := by
    intro r hr
    obtain ⟨r', hr'⟩ := replaceRoute_mem_diff hd hsub (hops.subset hr)
    exact hne _ r' hr'
  rcases routes_of_not_replaced hc now d.protocol s hproper hkey with h | ⟨h, f, t, p, hmem, rfl⟩
  · rw [h]
  · -- The key is deleted: the program's own route stood there.
    obtain ⟨ht, hsome⟩ := deleteRoute_mem_diff hw hc (hops.subset hmem)
    obtain ⟨r, hr⟩ := Option.isSome_iff_exists.mp hsome
    obtain ⟨o', ho', hp, hplan⟩ := planned_eq_some.mp hr
    have htab : o'.table = t := congrArg RouteKey.table (hw.route_key _ o' ho')
    rw [h, ho']
    constructor
    · intro hnone
      cases hnone
    · intro heq
      obtain rfl := Option.some.inj heq
      exact absurd ⟨hp, htab ▸ ht⟩ ho

end Frame

/-! ## The desired state -/

/-- A view with exactly the desired rules and routes. -/
structure Converged (l : Layout) (protocol : ℕ) (desired : Desired) (s : System) : Prop where
  /-- Every rule in the range is a desired one, -/
  rules : ∀ o ∈ observedRules s l protocol, ∃ r ∈ desired.rules, o.is r protocol = true
  /-- and every desired rule is there once. -/
  holds : ∀ r ∈ desired.rules, ∃! o, o ∈ s.rules ∧ o.is r protocol = true
  /-- The routes of the planned shape are the desired ones. -/
  routes : ∀ r : Route, l.tables r.table = true →
    (s.HoldsRoute protocol r ↔ desired.routes[r.key]? = some r)

section Settled

variable {d : DiffInput} {s : System} {scope : Scope} (hw : s.WellFormed scope)
  (hc : scope.Covers d.layout)
include hw hc

/-- Exactly the desired routes, table by table. -/
theorem converged_of_planned
    (hrules : ∀ o ∈ observedRules s d.layout d.protocol, ∃ r ∈ d.desired.rules,
      o.is r d.protocol = true)
    (hholds : ∀ r ∈ d.desired.rules, s.Holds d.protocol r)
    (hroutes : ∀ k : TableKey, d.layout.tables k.table = true →
      s.planned d.protocol k = d.desired.routes[k]?) :
    Converged d.layout d.protocol d.desired s where
  rules := hrules
  holds := by
    intro r hr
    obtain ⟨o, ho, his⟩ := hholds r hr
    exact ⟨o, ⟨ho, his⟩, fun o' ho' => hw.eq_of_is ho'.1 ho ho'.2 his⟩
  routes := by
    intro r ht
    rw [hw.holdsRoute_iff hc ht, hroutes r.key ht]

variable (hd : d.Proper)
include hd

/-- **A view that needs no operations is settled.** -/
theorem converged_of_diff_eq_nil (hgoverns : ∀ f, d.Governs f)
    (hsub : ∀ (k : TableKey) r, d.beforeNft.routes[k]? = some r → (d.desired.routes[k]?).isSome)
    (h : diff s d = []) : Converged d.layout d.protocol d.desired s := by
  simp only [diff, DiffInput.firstOps, DiffInput.lastOps, List.append_eq_nil_iff,
    List.map_eq_nil_iff] at h
  obtain ⟨⟨⟨⟨hreplacements, hearly, hwithdrawn⟩, hadditions⟩, -⟩, ⟨hlater, hdeletions⟩, hlate⟩ := h
  have hstale : ∀ k, k ∉ d.stale s := by
    intro k hk
    rcases DiffInput.mem_withdrawn_or_late.mpr hk with hk | hk
    · simp [hwithdrawn] at hk
    · simp [hlate] at hk
  -- What is wanted before the nftables step is there, and so is the rest.
  have hearlier : ∀ (k : TableKey) r, d.beforeNft.routes[k]? = some r →
      s.planned d.protocol k = some r := by
    intro k r hr
    have hpresent := List.filter_eq_nil_iff.mp (List.map_eq_nil_iff.mp hreplacements) r
      (List.mem_map.mpr ⟨(k, r), Std.ExtTreeMap.mem_toList_iff_getElem?_eq_some.mpr hr, rfl⟩)
    obtain rfl := hd.beforeNft.route_key k r hr
    exact (routePresent_iff hw hc (hd.beforeNft.route_table _ r hr)).mp (by simpa using hpresent)
  have hwanted : ∀ (k : TableKey) r, d.desired.routes[k]? = some r →
      s.planned d.protocol k = some r := by
    intro k r hr
    by_cases hsame : d.beforeNft.routes[k]? = some r
    · exact hearlier k r hsame
    · have hpresent := List.filter_eq_nil_iff.mp
        (List.map_eq_nil_iff.mp (List.map_eq_nil_iff.mp hlater)) (k, r)
        (Std.ExtTreeMap.mem_toList_iff_getElem?_eq_some.mpr hr)
      obtain rfl := hd.desired.route_key k r hr
      refine (routePresent_iff hw hc (hd.desired.route_table _ r hr)).mp ?_
      simp only [hsame, ne_eq, not_false_eq_true, decide_true, Bool.true_and, Bool.or_eq_true,
        not_or, Bool.not_eq_true'] at hpresent
      simpa using hpresent.2
  refine converged_of_planned hw hc (fun o ho => ?_) (fun r hr => ?_) fun k ht => ?_
  · by_contra hnone
    have hmem : o ∈ d.deletions s := DiffInput.mem_deletions.mpr
      ⟨ho, hgoverns _, fun r hr => Bool.eq_false_iff.mpr fun his => hnone ⟨r, hr, his⟩⟩
    simp [hdeletions] at hmem
  · by_contra hnot
    have hmem : r ∈ d.additions s := (DiffInput.mem_additions hd.desired).mpr ⟨hr, hnot⟩
    simp [hadditions] at hmem
  · cases hr : d.desired.routes[k]? with
    | some r => exact hwanted k r hr
    | none =>
      cases hplanned : s.planned d.protocol k with
      | none => rfl
      | some r =>
        have hobserved : k ∈ observedTables s d.layout d.protocol :=
          (mem_observedTables hw hc).mpr ⟨ht, by simp [hplanned]⟩
        cases hpath : d.layout.isPathTable k.table with
        | true => exact absurd (DiffInput.mem_stale.mpr ⟨hobserved, hpath, hr⟩) (hstale k)
        | false =>
          cases hbefore : d.beforeNft.routes[k]? with
          | none =>
            have hmem := DiffInput.mem_early.mpr ⟨hobserved, hpath, hbefore⟩
            simp [hearly] at hmem
          | some r' =>
            have hsome := hsub k r' hbefore
            simp [hr] at hsome

variable (hbefore : d.beforeNft = d.desired) (hpending : d.nftPending = false)
include hbefore hpending

/-- **A settled view needs no operations.** -/
theorem diff_eq_nil (h : Converged d.layout d.protocol d.desired s) : diff s d = [] := by
  have hheld : ∀ r ∈ d.desired.rules, s.Holds d.protocol r := fun r hr =>
    (h.holds r hr).exists
  have hplanned : ∀ k : TableKey, (s.planned d.protocol k).isSome →
      d.layout.tables k.table = true → d.desired.routes[k]? ≠ none := by
    intro k hsome ht
    obtain ⟨r, hr⟩ := Option.isSome_iff_exists.mp hsome
    obtain rfl := hw.planned_key hr
    rw [(h.routes r ht).mp ((hw.holdsRoute_iff hc ht).mpr hr)]
    exact Option.some_ne_none r
  have hrepl : d.replacements s = [] := by
    simp only [DiffInput.replacements, List.map_eq_nil_iff, List.filter_eq_nil_iff, List.mem_map]
    rintro r ⟨⟨k, r'⟩, he, rfl⟩
    have he := Std.ExtTreeMap.mem_toList_iff_getElem?_eq_some.mp he
    rw [hbefore] at he
    obtain rfl := hd.desired.route_key k r' he
    have ht := hd.desired.route_table _ r' he
    have hpres : routePresent s d.protocol r' = true :=
      (routePresent_iff hw hc ht).mpr ((hw.holdsRoute_iff hc ht).mp ((h.routes r' ht).mpr he))
    simp [hpres]
  have hearly : d.early s = [] := by
    refine List.eq_nil_iff_forall_not_mem.mpr fun k hk => ?_
    obtain ⟨hobs, -, hnone⟩ := DiffInput.mem_early.mp hk
    obtain ⟨ht, hsome⟩ := (mem_observedTables hw hc).mp hobs
    rw [hbefore] at hnone
    exact hplanned k hsome ht hnone
  have hstale : d.stale s = [] := by
    refine List.eq_nil_iff_forall_not_mem.mpr fun k hk => ?_
    obtain ⟨hobs, -, hnone⟩ := DiffInput.mem_stale.mp hk
    obtain ⟨ht, hsome⟩ := (mem_observedTables hw hc).mp hobs
    exact hplanned k hsome ht hnone
  have hadd : d.additions s = [] := by
    refine List.eq_nil_iff_forall_not_mem.mpr fun r hr => ?_
    obtain ⟨hdes, hnot⟩ := (DiffInput.mem_additions hd.desired).mp hr
    exact hnot (hheld r hdes)
  have hdel : d.deletions s = [] := by
    refine List.eq_nil_iff_forall_not_mem.mpr fun o ho => ?_
    obtain ⟨hobs, -, hnot⟩ := DiffInput.mem_deletions.mp ho
    obtain ⟨r, hr, his⟩ := h.rules o hobs
    rw [hnot r hr] at his
    cases his
  simp [diff, DiffInput.firstOps, DiffInput.lastOps, hrepl, hearly, DiffInput.withdrawn,
    DiffInput.late, hstale, hadd, hpending, DiffInput.lateReplacements_eq_nil hbefore, hdel]

end Settled

/-! ## Two passes -/

section Passes

variable {c : Config} (hv : c.Valid) (i : Input)
include hv

/-- One settled pass leaves exactly the desired rules and routes. -/
theorem converged_settled {s : System} (hw : s.WellFormed (Scope.of c)) (now : ℕ) :
    Converged (Layout.of c) c.routing.routeProtocol (plan c i)
      (applyOps now (Scope.of c) c.routing.routeProtocol s
        (diff s (Pass.settled c i false).diffInput)) := by
  have hd := Pass.proper (p := Pass.settled c i false) hv
  have hcut := DiffInput.cut_diff hw hd.desired now (Scope.of c)
  refine converged_of_planned (d := (Pass.settled c i false).diffInput) (hw.applyOps now _ _)
    (Scope.covers_of c) ?_ ?_ fun k ht =>
      DiffInput.planned_diff hw (Scope.covers_of c) now hd (Pass.settled_beforeNft c i false) ht
  · intro o ho
    obtain ⟨hmem, hown⟩ := mem_observedRules.mp ho
    have hrules : o ∈ (s.rules ++ ((Pass.settled c i false).diffInput.additions s).map
        (Rule.observed · (Pass.settled c i false).diffInput.protocol)).filter
          (· ∉ (Pass.settled c i false).diffInput.deletions s) := hcut.rules ▸ hmem
    rw [List.mem_filter, decide_eq_true_iff] at hrules
    rcases List.mem_append.mp hrules.1 with hold | hnew
    · -- A rule that stays is desired: the others of the range are deleted.
      by_contra hnone
      refine hrules.2 (DiffInput.mem_deletions.mpr
        ⟨mem_observedRules.mpr ⟨hold, hown⟩, Pass.governs _, fun r hr => ?_⟩)
      rw [← Bool.not_eq_true]
      exact fun his => hnone ⟨r, hr, his⟩
    · obtain ⟨r, hr, rfl⟩ := List.mem_map.mp hnew
      exact ⟨r, ((DiffInput.mem_additions hd.desired).mp hr).1, r.observed_is _⟩
  · intro r hr
    refine hcut.holds_of_desired hw hd.desired hr ?_
    rw [DiffInput.mem_additions hd.desired]
    tauto

end Passes

/-- The view after a pass up to the nftables step, with some paths held back, and a
pass after it. -/
def reconciled (now now' : ℕ) (c : Config) (i : Input) (newPaths : Std.ExtTreeSet PathKey)
    (s : System) : System :=
  let s := (execute now (Scope.of c) c.routing.routeProtocol (fun _ => true) s
    (diff s (Pass.mk c i newPaths true).diffInput)).1
  applyOps now' (Scope.of c) c.routing.routeProtocol s
    (diff s (Pass.settled c i false).diffInput)

/-- **Reconciliation converges.**  From every view, when every operation succeeds, the
first pass reaches the nftables step, and after the second nothing is left to do: the
rules and routes of the program are the desired ones, everything else is unchanged. -/
theorem reconciliation_converges {c : Config} (hv : c.Valid) (i : Input)
    (newPaths : Std.ExtTreeSet PathKey) (now now' : ℕ) (v : View (Scope.of c)) :
    (execute now (Scope.of c) c.routing.routeProtocol (fun _ => true) v.system
        (diff v.system (Pass.mk c i newPaths true).diffInput)).2 = some true ∧
      diff (reconciled now now' c i newPaths v.system) (Pass.settled c i false).diffInput = [] ∧
      Converged (Layout.of c) c.routing.routeProtocol (plan c i)
        (reconciled now now' c i newPaths v.system) ∧
      Unowned (Layout.of c) c.routing.routeProtocol (plan c i) v.system
        (reconciled now now' c i newPaths v.system) := by
  have hexec := execute_diff v.system now (Scope.of c) c.routing.routeProtocol
    (show (Pass.mk c i newPaths true).diffInput.nftPending = true from rfl)
  have hc := Scope.covers_of c
  have hd := Pass.proper (p := Pass.settled c i false) hv
  have hd' := Pass.proper (p := Pass.mk c i newPaths true) hv
  have hbefore := Pass.settled_beforeNft c i false
  have hw := v.wellFormed.applyOps now c.routing.routeProtocol
    ((Pass.mk c i newPaths true).diffInput.firstOps v.system)
  have hconv := converged_settled hv i hw now'
  have hfirst := unowned_of_prefix v.wellFormed hc hd' (fun _ _ => plan_of_without) now
    (DiffInput.firstOps_prefix v.system _)
  have hsecond := unowned_of_prefix hw hc hd
    (fun k r h => by rw [hbefore] at h; exact Option.isSome_iff_exists.mpr ⟨r, h⟩) now'
    List.prefix_rfl
  refine ⟨congrArg Prod.snd hexec, ?_⟩
  simp only [reconciled, hexec]
  exact ⟨diff_eq_nil (hw.applyOps now' _ _) hc hd hbefore rfl hconv, hconv,
    hfirst.trans hsecond⟩

namespace Sample

/-- A view with a leftover rule of the program, a leftover route in the table of a path
that is not configured, and another program's rule. -/
def staleView : View (Scope.of config) :=
  View.empty (Scope.of config)
    |>.apply 0 (.newRule (ruleMessage ((Role.pathLookup ⟨9, by decide, by decide⟩).rule
      (Layout.of config) .v4) 249))
    |>.apply 0 (.newRoute (routeMessage ((ready 9 (.v4 0x0a090002)).route .v4 1009) 249))
    |>.apply 0 (.newRule (ruleMessage (Role.balance.rule (Layout.of config) .v4) 3))

end Sample

/-- From the stale view the sample converges; both leftovers have to go. -/
theorem reconciliation_converges_sample :
    (diff Sample.staleView.system
        (Pass.settled Sample.config Sample.input false).diffInput).length = 32 ∧
      diff (reconciled 0 0 Sample.config Sample.input ∅ Sample.staleView.system)
        (Pass.settled Sample.config Sample.input false).diffInput = [] :=
  ⟨by decide +kernel, (reconciliation_converges Sample.config_valid Sample.input ∅ 0 0
    Sample.staleView).2.1⟩

end Polywan
