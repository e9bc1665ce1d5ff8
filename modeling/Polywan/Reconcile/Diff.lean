import Polywan.Lib.Prefix
import Polywan.Reconcile.Effect

/-!
# What a pass does

The rules and the routes of a view after the operations of `diff`, applied
entirely or up to some point.

## Main definitions

* `DiffInput.Cut` — the rules added and deleted when a pass is cut off.
* `System.planned` — the planned route of a table, as the view shows it.
-/

namespace Polywan

/-! ## Rules to add and to delete -/

section Rules

variable {s : System} {l : Layout} {protocol : ℕ}

theorem mem_observedRules {o : ObservedRule} :
    o ∈ observedRules s l protocol ↔
      o ∈ s.rules ∧ o.protocol = protocol ∧ l.priorities o.priority = true := by
  simp [observedRules]

theorem ObservedRule.priority_of_is {o : ObservedRule} {r : Rule} (h : o.is r protocol = true) :
    o.priority = r.priority :=
  congrArg RuleIdentity.priority ((ObservedRule.is_iff _ _ _).mp h).2

theorem ObservedRule.family_of_is {o : ObservedRule} {r : Rule} (h : o.is r protocol = true) :
    o.family = r.family :=
  congrArg RuleIdentity.family ((ObservedRule.is_iff _ _ _).mp h).2

theorem ObservedRule.source_of_is {o : ObservedRule} {r : Rule} (h : o.is r protocol = true) :
    o.source = r.source.map fun a => (a, hostLen a) :=
  congrArg RuleIdentity.source ((ObservedRule.is_iff _ _ _).mp h).2

theorem ObservedRule.protocol_of_is {o : ObservedRule} {r : Rule} (h : o.is r protocol = true) :
    o.protocol = protocol :=
  congrArg RuleIdentity.protocol ((ObservedRule.is_iff _ _ _).mp h).2

/-- A rule of the view is at most one rule of the layout. -/
theorem Layout.HasRule.eq_of_is {o : ObservedRule} {r r' : Rule} (hr : l.HasRule r)
    (hr' : l.HasRule r') (h : o.is r protocol = true) (h' : o.is r' protocol = true) : r = r' :=
  hr.eq_of_identity hr' (((ObservedRule.is_iff _ _ _).mp h).2.symm.trans
    ((ObservedRule.is_iff _ _ _).mp h').2)

/-- A rule of the layout is always among the observed ones. -/
theorem mem_observedRules_of_is {o : ObservedRule} {r : Rule} (ho : o ∈ s.rules)
    (hr : l.HasRule r) (h : o.is r protocol = true) : o ∈ observedRules s l protocol := by
  refine mem_observedRules.mpr ⟨ho, ObservedRule.protocol_of_is h, ?_⟩
  rw [ObservedRule.priority_of_is h]
  exact hr.priorities

end Rules

namespace DiffInput

section Lists

variable {d : DiffInput} {s : System}

theorem mem_additions (hd : d.desired.Proper d.layout) {r : Rule} :
    r ∈ d.additions s ↔ r ∈ d.desired.rules ∧ ¬ s.Holds d.protocol r := by
  rw [additions, (List.perm_insertionSort _ _).mem_iff, List.mem_filter,
    Std.ExtTreeSet.mem_toList]
  refine and_congr_right fun hr => ?_
  rw [Bool.not_eq_true', ← Bool.not_eq_true, List.any_eq_true]
  refine not_congr ⟨?_, ?_⟩
  · rintro ⟨o, ho, his⟩
    exact ⟨o, (mem_observedRules.mp ho).1, his⟩
  · rintro ⟨o, ho, his⟩
    exact ⟨o, mem_observedRules_of_is ho (hd.hasRule r hr) his, his⟩

theorem additions_sorted :
    (d.additions s).Pairwise fun r r' => installKey r ≤ installKey r' :=
  Lib.pairwise_insertionSort_key installKey _

theorem additions_nodup : (d.additions s).Nodup := by
  refine (List.perm_insertionSort _ _).nodup_iff.mpr (List.Nodup.filter _ ?_)
  refine Std.ExtTreeSet.distinct_toList.imp fun h heq => h ?_
  rw [heq]
  exact Std.LawfulEqCmp.compare_eq_iff_eq.mpr rfl

/-- The pass deletes rules of a family that is listed, or that has no desired rule. -/
def Governs (d : DiffInput) (f : Family) : Prop :=
  f ∈ d.families ∨ ∀ r ∈ d.desired.rules, r.family ≠ f

theorem mem_deletions {o : ObservedRule} :
    o ∈ d.deletions s ↔
      o ∈ observedRules s d.layout d.protocol ∧ d.Governs o.family ∧
        ∀ r ∈ d.desired.rules, o.is r d.protocol = false := by
  rw [deletions, (List.perm_insertionSort _ _).mem_iff, List.mem_filter, List.mem_filter, and_assoc]
  simp [Governs, Std.ExtTreeSet.mem_toList]

/-- A deleted rule is one of the view. -/
theorem mem_rules_of_deletion {o : ObservedRule} (ho : o ∈ d.deletions s) : o ∈ s.rules :=
  (mem_observedRules.mp (mem_deletions.mp ho).1).1

theorem deletions_sorted :
    (d.deletions s).Pairwise fun o o' => removalKey d.layout o ≤ removalKey d.layout o' :=
  Lib.pairwise_insertionSort_key (removalKey d.layout) _

theorem filter_isRule_replaceRoute (R : List Route) :
    (R.map Op.replaceRoute).filter Op.isRule = [] := by
  simp [List.filter_eq_nil_iff, Op.isRule]

theorem filter_isRule_deletion (K : List TableKey) : (K.map d.deletion).filter Op.isRule = [] := by
  simp [List.filter_eq_nil_iff, Op.isRule, deletion]

theorem filter_isRule_addRule (A : List Rule) :
    (A.map Op.addRule).filter Op.isRule = A.map Op.addRule := by
  simp [List.filter_eq_self, Op.isRule]

theorem filter_isRule_deleteRule (D : List ObservedRule) :
    (D.map Op.deleteRule).filter Op.isRule = D.map Op.deleteRule := by
  simp [List.filter_eq_self, Op.isRule]

/-- The rule operations before the nftables step, -/
theorem filter_isRule_firstOps :
    (d.firstOps s).filter Op.isRule = (d.additions s).map Op.addRule := by
  rw [firstOps, replacements, List.filter_append, List.filter_append, filter_isRule_replaceRoute,
    filter_isRule_deletion, filter_isRule_addRule, List.nil_append, List.nil_append]

/-- and of a whole pass. -/
theorem filter_isRule_diff :
    (diff s d).filter Op.isRule =
      (d.additions s).map Op.addRule ++ (d.deletions s).map Op.deleteRule := by
  have hnft : (if d.nftPending then [Op.applyNft] else []).filter Op.isRule = [] := by
    split <;> rfl
  rw [diff, List.filter_append, List.filter_append, filter_isRule_firstOps, hnft, lastOps,
    lateReplacements, List.filter_append, List.filter_append, filter_isRule_replaceRoute,
    filter_isRule_deleteRule, filter_isRule_deletion, List.append_nil, List.nil_append,
    List.append_nil]

end Lists

/-! ## The rules of a pass that is cut off -/

/-- What a pass that is cut off does to the rules: those in `A` are added, then
those in `D` deleted, each a prefix of what the pass would do. -/
structure Cut (d : DiffInput) (s s' : System) (A : List Rule) (D : List ObservedRule) : Prop where
  added : A <+: d.additions s
  deleted : D <+: d.deletions s
  order : D = [] ∨ A = d.additions s
  rules : s'.rules = (s.rules ++ A.map (Rule.observed · d.protocol)).filter (· ∉ D)

section Cut

variable {d : DiffInput} {s s' : System} {scope : Scope} (hw : s.WellFormed scope)
  (hd : d.desired.Proper d.layout)
include hw hd

/-- An added rule is none of those the view holds. -/
theorem sameRule_addition {r : Rule} (hr : r ∈ d.additions s) {o : ObservedRule}
    (ho : o ∈ s.rules) : sameRule o (r.observed d.protocol) = false := by
  rw [← Bool.not_eq_true, sameRule_observed (hw.rule_parsed o ho)]
  intro his
  exact ((mem_additions hd).mp hr).2 ⟨o, ho, his⟩

omit hw in
theorem sameRule_additions :
    (d.additions s).Pairwise fun r r' =>
      sameRule (r.observed d.protocol) (r'.observed d.protocol) = false := by
  refine additions_nodup.pairwise_of_forall_ne fun r hr r' hr' hne => ?_
  rw [← Bool.not_eq_true, sameRule_iff_identity rfl rfl]
  intro heq
  exact hne ((hd.hasRule r ((mem_additions hd).mp hr).1).eq_of_identity
    (hd.hasRule r' ((mem_additions hd).mp hr').1) heq)

theorem foldl_additions {A : List Rule} (hA : A <+: d.additions s) :
    (A.map Op.addRule).foldl (ruleStep d.protocol) s.rules =
      s.rules ++ A.map (Rule.observed · d.protocol) :=
  foldl_addRule (fun _ hr _ ho => sameRule_addition hw hd (hA.subset hr) ho)
    ((sameRule_additions hd).sublist hA.sublist)

theorem foldl_deletions {D : List ObservedRule} (hD : D <+: d.deletions s) :
    (D.map Op.deleteRule).foldl (ruleStep d.protocol)
        (s.rules ++ (d.additions s).map (Rule.observed · d.protocol)) =
      (s.rules ++ (d.additions s).map (Rule.observed · d.protocol)).filter (· ∉ D) := by
  have hmem : ∀ o ∈ D, o ∈ s.rules := fun o ho => mem_rules_of_deletion (hD.subset ho)
  refine foldl_deleteRule (fun o ho => hw.rule_parsed o (hmem o ho)) ?_
  intro o ho o' ho' hsame
  rcases List.mem_append.mp ho with ho | ho
  · exact hw.eq_of_sameRule ho (hmem o' ho') hsame
  · obtain ⟨r, hr, rfl⟩ := List.mem_map.mp ho
    rw [sameRule_comm, sameRule_addition hw hd hr (hmem o' ho')] at hsame
    cases hsame

/-- **Wherever a pass stops, it has added a prefix of its additions and, once they
are all there, deleted a prefix of its deletions.** -/
theorem exists_cut (now : ℕ) (scope' : Scope) {ops : List Op} (h : ops <+: diff s d) :
    ∃ A D, d.Cut s (applyOps now scope' d.protocol s ops) A D := by
  have hops : ops.filter Op.isRule <+:
      (d.additions s).map Op.addRule ++ (d.deletions s).map Op.deleteRule := by
    rw [← filter_isRule_diff]
    exact h.filter _
  rcases Lib.prefix_append_cases hops with hA | ⟨q, hq, heq⟩
  · obtain ⟨A, hA, heq⟩ := List.prefix_map_iff.mp hA
    refine ⟨A, [], hA, List.nil_prefix, .inl rfl, ?_⟩
    rw [applyOps_rules, heq, foldl_additions hw hd hA]
    simp
  · obtain ⟨D, hD, rfl⟩ := List.prefix_map_iff.mp hq
    refine ⟨d.additions s, D, List.prefix_rfl, hD, .inr rfl, ?_⟩
    rw [applyOps_rules, heq, List.foldl_append, foldl_additions hw hd List.prefix_rfl,
      foldl_deletions hw hd hD]

/-- The rules after a whole pass. -/
theorem cut_diff (now : ℕ) (scope' : Scope) :
    d.Cut s (applyOps now scope' d.protocol s (diff s d)) (d.additions s) (d.deletions s) := by
  refine ⟨List.prefix_rfl, List.prefix_rfl, .inr rfl, ?_⟩
  rw [applyOps_rules, filter_isRule_diff, List.foldl_append,
    foldl_additions hw hd List.prefix_rfl, foldl_deletions hw hd List.prefix_rfl]

/-- The rules before the nftables step. -/
theorem cut_firstOps (now : ℕ) (scope' : Scope) :
    d.Cut s (applyOps now scope' d.protocol s (d.firstOps s)) (d.additions s) [] := by
  refine ⟨List.prefix_rfl, List.nil_prefix, .inl rfl, ?_⟩
  rw [applyOps_rules, filter_isRule_firstOps, foldl_additions hw hd List.prefix_rfl]
  simp

variable {A : List Rule} {D : List ObservedRule}

/-- **Which planned rules stand when a pass is cut off.** -/
theorem Cut.holds_iff (hcut : d.Cut s s' A D) {r : Rule} (hr : d.layout.HasRule r) :
    s'.Holds d.protocol r ↔
      (s.Holds d.protocol r ∧ ∀ o ∈ D, o.is r d.protocol = false) ∨ r ∈ A := by
  have hmem : ∀ o ∈ D, o ∈ s.rules := fun o ho => mem_rules_of_deletion (hcut.deleted.subset ho)
  have hadd : ∀ r ∈ A, r ∈ d.desired.rules ∧ ¬ s.Holds d.protocol r := fun r hr =>
    (mem_additions hd).mp (hcut.added.subset hr)
  simp only [System.Holds, hcut.rules, List.mem_filter, List.mem_append, List.mem_map,
    decide_eq_true_eq]
  constructor
  · rintro ⟨o, ⟨ho | ⟨r', hr', rfl⟩, hnot⟩, his⟩
    · refine .inl ⟨⟨o, ho, his⟩, fun o' ho' => ?_⟩
      rw [← Bool.not_eq_true]
      intro his'
      exact hnot (hw.eq_of_is ho (hmem o' ho') his his' ▸ ho')
    · have heq := ((ObservedRule.is_iff _ _ _).mp his).2
      rw [Rule.observed_identity] at heq
      rw [← (hd.hasRule r' (hadd r' hr').1).eq_of_identity hr heq]
      exact .inr hr'
  · rintro (⟨⟨o, ho, his⟩, hnot⟩ | hrA)
    · refine ⟨o, ⟨.inl ho, fun hD => ?_⟩, his⟩
      rw [hnot o hD] at his
      cases his
    · refine ⟨r.observed d.protocol, ⟨.inr ⟨r, hrA, rfl⟩, fun hD => ?_⟩, r.observed_is _⟩
      exact (hadd r hrA).2 ⟨_, hmem _ hD, r.observed_is _⟩

/-- A desired rule is never deleted. -/
theorem Cut.holds_of_desired (hcut : d.Cut s s' A D) {r : Rule} (hr : r ∈ d.desired.rules)
    (h : s.Holds d.protocol r ∨ r ∈ A) : s'.Holds d.protocol r := by
  refine (hcut.holds_iff hw hd (hd.hasRule r hr)).mpr (h.imp_left fun hs => ⟨hs, fun o ho => ?_⟩)
  exact (mem_deletions.mp (hcut.deleted.subset ho)).2.2 r hr

omit hw in
/-- A desired rule that sorts before an added one stands as well. -/
theorem Cut.holds_or_added_of_lt (hcut : d.Cut s s' A D) {r r' : Rule} (hr : r ∈ d.desired.rules)
    (hr' : r' ∈ A) (hlt : installKey r < installKey r') : s.Holds d.protocol r ∨ r ∈ A := by
  by_cases hs : s.Holds d.protocol r
  · exact .inl hs
  · exact .inr (Lib.mem_prefix_of_key_lt additions_sorted hcut.added hr'
      ((mem_additions hd).mpr ⟨hr, hs⟩) hlt)

end Cut

end DiffInput

/-! ## Routes in the view -/

/-- The planned route of a table, as the view shows it: tagged with the protocol and
of the planned shape. -/
def System.planned (s : System) (protocol : ℕ) (k : TableKey) : Option Route :=
  s.routes[k.routeKey]?.bind fun o => if o.protocol = protocol then o.asPlanned else none

/-- A planned route stands in the view, tagged with the protocol. -/
def System.HoldsRoute (s : System) (protocol : ℕ) (r : Route) : Prop :=
  ∃ (κ : RouteKey) (o : ObservedRoute), s.routes[κ]? = some o ∧ o.protocol = protocol ∧
    o.asPlanned = some r

section Routes

variable {s : System} {l : Layout} {protocol : ℕ} {scope : Scope}

theorem System.planned_congr {s' : System} (h : s'.routes = s.routes) {k : TableKey} :
    s'.planned protocol k = s.planned protocol k := by
  rw [System.planned, h, System.planned]

theorem planned_eq_some {k : TableKey} {r : Route} :
    s.planned protocol k = some r ↔
      ∃ o, s.routes[k.routeKey]? = some o ∧ o.protocol = protocol ∧ o.asPlanned = some r := by
  simp [System.planned, Option.bind_eq_some_iff]

/-- A route that is set is the planned route of its table. -/
theorem planned_replaceRoute (now : ℕ) (hc : scope.Covers l) {r : Route}
    (ht : l.tables r.table = true) (hr : r.Shaped) (k : TableKey) :
    (applyOp now scope protocol s (.replaceRoute r)).planned protocol k =
      if r.key = k then some r else s.planned protocol k := by
  obtain ⟨t, h⟩ := routes_replaceRoute now protocol s hc ht
  rw [System.planned, h, System.planned]
  by_cases hk : r.key = k
  · simp [hk, Route.held, Route.observed, ← r.asPlanned_held hr protocol t]
  · simp [hk, TableKey.routeKey_injective.eq_iff]

theorem planned_deleteRoute (now : ℕ) (hc : scope.Covers l) {f : Family} {t : ℕ} (p : ℕ)
    (ht : l.tables t = true) (k : TableKey) :
    (applyOp now scope protocol s (.deleteRoute f t p)).planned protocol k =
      if ⟨f, t⟩ = k then none else s.planned protocol k := by
  rw [System.planned, routes_deleteRoute now protocol s hc p ht, System.planned]
  by_cases hk : (⟨f, t⟩ : TableKey) = k <;> simp [hk, TableKey.routeKey_injective.eq_iff]

theorem ObservedRoute.key_of_asPlanned {o : ObservedRoute} {r : Route}
    (h : o.asPlanned = some r) : r.key = ⟨o.family, o.table⟩ := by
  rw [(ObservedRoute.asPlanned_eq_some.mp h).2]
  rfl

theorem mem_observedTables_iff_exists {k : TableKey} :
    k ∈ observedTables s l protocol ↔
      ∃ (κ : RouteKey) (o : ObservedRoute), s.routes[κ]? = some o ∧ o.protocol = protocol ∧
        l.tables o.table = true ∧
        o.asPlanned.isSome ∧ k = ⟨o.family, o.table⟩ := by
  simp only [observedTables, Std.ExtTreeSet.mem_toList, Std.ExtTreeSet.mem_insertMany_list,
    List.contains_iff_mem, List.mem_map, List.mem_filter, Bool.and_eq_true, decide_eq_true_eq,
    Std.ExtTreeSet.not_mem_empty, false_or]
  constructor
  · rintro ⟨o, ⟨⟨⟨κ, o'⟩, hmem, rfl⟩, ⟨hp, ht⟩, hs⟩, rfl⟩
    exact ⟨κ, o', Std.ExtTreeMap.mem_toList_iff_getElem?_eq_some.mp hmem, hp, ht, hs, rfl⟩
  · rintro ⟨κ, o, ho, hp, ht, hs, rfl⟩
    exact ⟨o, ⟨⟨⟨κ, o⟩, Std.ExtTreeMap.mem_toList_iff_getElem?_eq_some.mpr ho, rfl⟩,
      ⟨hp, ht⟩, hs⟩, rfl⟩

variable (hw : s.WellFormed scope) (hc : scope.Covers l)
include hw hc

omit hc in
/-- A planned route of a table of the program stands under the key of its table. -/
theorem System.WellFormed.key_eq_of_isPolywan {κ : RouteKey} {o : ObservedRoute}
    (ho : s.routes[κ]? = some o) (ht : scope.isPolywan o.table = true)
    (hr : o.asPlanned.isSome = true) : κ = TableKey.routeKey ⟨o.family, o.table⟩ := by
  obtain ⟨r, hr⟩ := Option.isSome_iff_exists.mp hr
  obtain ⟨⟨hd, -, hm, -⟩, -⟩ := ObservedRoute.asPlanned_eq_some.mp hr
  rw [← hw.route_key κ o ho, routeKey_of_isPolywan ht, hd, hm]
  rfl

theorem System.WellFormed.key_eq {κ : RouteKey} {o : ObservedRoute} {r : Route}
    (ho : s.routes[κ]? = some o) (ht : l.tables o.table = true) (hr : o.asPlanned = some r) :
    κ = TableKey.routeKey ⟨o.family, o.table⟩ :=
  hw.key_eq_of_isPolywan ho ((hc o.table).trans ht) (Option.isSome_iff_exists.mpr ⟨r, hr⟩)

omit hc in
/-- The route of a table names the table. -/
theorem System.WellFormed.planned_key {k : TableKey} {r : Route}
    (h : s.planned protocol k = some r) : r.key = k := by
  obtain ⟨o, ho, -, hr⟩ := planned_eq_some.mp h
  have hkey := hw.route_key _ o ho
  rw [ObservedRoute.key_of_asPlanned hr]
  exact TableKey.ext (congrArg RouteKey.family hkey) (congrArg RouteKey.table hkey)

/-- A table of the program holds one planned route at most. -/
theorem System.WellFormed.holdsRoute_iff {r : Route} (ht : l.tables r.table = true) :
    s.HoldsRoute protocol r ↔ s.planned protocol r.key = some r := by
  constructor
  · rintro ⟨κ, o, ho, hp, hr⟩
    have hkey := ObservedRoute.key_of_asPlanned hr
    have htab : r.table = o.table := congrArg TableKey.table hkey
    rw [hw.key_eq hc ho (htab ▸ ht) hr, ← hkey] at ho
    exact planned_eq_some.mpr ⟨o, ho, hp, hr⟩
  · intro h
    obtain ⟨o, ho, hp, hr⟩ := planned_eq_some.mp h
    exact ⟨_, o, ho, hp, hr⟩

theorem mem_observedTables {k : TableKey} :
    k ∈ observedTables s l protocol ↔
      l.tables k.table = true ∧ (s.planned protocol k).isSome := by
  rw [mem_observedTables_iff_exists]
  constructor
  · rintro ⟨κ, o, ho, hp, ht, hs, rfl⟩
    obtain ⟨r, hr⟩ := Option.isSome_iff_exists.mp hs
    rw [hw.key_eq hc ho ht hr] at ho
    exact ⟨ht, Option.isSome_iff_exists.mpr ⟨r, planned_eq_some.mpr ⟨o, ho, hp, hr⟩⟩⟩
  · rintro ⟨ht, hs⟩
    obtain ⟨r, hr⟩ := Option.isSome_iff_exists.mp hs
    have hkey := hw.planned_key hr
    obtain ⟨o, ho, hp, hplan⟩ := planned_eq_some.mp hr
    rw [ObservedRoute.key_of_asPlanned hplan] at hkey
    obtain rfl := hkey
    exact ⟨_, o, ho, hp, ht, Option.isSome_iff_exists.mpr ⟨r, hplan⟩, rfl⟩

theorem routePresent_iff {r : Route} (ht : l.tables r.table = true) :
    routePresent s protocol r = true ↔ s.planned protocol r.key = some r := by
  simp only [routePresent, System.routesIn, List.any_eq_true, List.mem_filter, List.mem_map,
    Bool.and_eq_true, decide_eq_true_eq]
  constructor
  · rintro ⟨o, ⟨⟨⟨κ, o'⟩, hmem, rfl⟩, hf, htab⟩, hp, hr⟩
    have ho := Std.ExtTreeMap.mem_toList_iff_getElem?_eq_some.mp hmem
    rw [hw.key_eq hc ho (htab ▸ ht) hr, hf, htab] at ho
    exact planned_eq_some.mpr ⟨o', ho, hp, hr⟩
  · intro h
    obtain ⟨o, ho, hp, hr⟩ := planned_eq_some.mp h
    have hkey := TableKey.mk.inj (ObservedRoute.key_of_asPlanned hr)
    exact ⟨o, ⟨⟨_, Std.ExtTreeMap.mem_toList_iff_getElem?_eq_some.mpr ho, rfl⟩,
      hkey.1.symm, hkey.2.symm⟩, hp, hr⟩

end Routes

namespace DiffInput

variable {s : System} {d : DiffInput}

theorem mem_early {k : TableKey} :
    k ∈ d.early s ↔ k ∈ observedTables s d.layout d.protocol ∧
      d.layout.isPathTable k.table = false ∧ d.beforeNft.routes[k]? = none := by
  simp only [early, List.mem_filter, and_assoc, Bool.not_eq_true',
    Std.ExtTreeMap.contains_eq_isSome_getElem?, Option.isSome_eq_false_iff,
    Option.isNone_iff_eq_none]

theorem mem_stale {k : TableKey} :
    k ∈ d.stale s ↔ k ∈ observedTables s d.layout d.protocol ∧
      d.layout.isPathTable k.table = true ∧ d.desired.routes[k]? = none := by
  simp only [stale, List.mem_filter, and_assoc, Bool.not_eq_true',
    Std.ExtTreeMap.contains_eq_isSome_getElem?, Option.isSome_eq_false_iff,
    Option.isNone_iff_eq_none]

theorem mem_withdrawn_or_late {k : TableKey} :
    k ∈ d.withdrawn s ∨ k ∈ d.late s ↔ k ∈ d.stale s := by
  simp only [withdrawn, late, List.mem_filter, ← and_or_left, Bool.not_eq_true']
  cases d.lookedUp k <;> simp

end DiffInput

/-- A pass deletes routes from tables that hold one of the program. -/
theorem observed_of_deleteRoute_mem_diff {s : System} {d : DiffInput} {f : Family} {t p : ℕ}
    (h : .deleteRoute f t p ∈ diff s d) :
    p = d.protocol ∧ ⟨f, t⟩ ∈ observedTables s d.layout d.protocol := by
  have htable : ∀ k, k ∈ d.early s ∨ k ∈ d.stale s → d.deletion k = .deleteRoute f t p →
      p = d.protocol ∧ ⟨f, t⟩ ∈ observedTables s d.layout d.protocol := by
    intro k hk heq
    obtain ⟨rfl, rfl, rfl⟩ := Op.deleteRoute.inj heq
    refine ⟨rfl, ?_⟩
    rcases hk with hk | hk
    · exact (DiffInput.mem_early.mp hk).1
    · exact (DiffInput.mem_stale.mp hk).1
  simp only [diff, DiffInput.firstOps, DiffInput.lastOps, DiffInput.replacements,
    DiffInput.lateReplacements, List.mem_append, List.mem_map] at h
  rcases h with (((⟨_, _, h⟩ | ⟨k, hk, h⟩) | ⟨_, _, h⟩) | h) | (⟨_, _, h⟩ | ⟨_, _, h⟩) | ⟨k, hk, h⟩
  · cases h
  · exact htable k (hk.imp_right fun hw => DiffInput.mem_withdrawn_or_late.mp (.inl hw)) h
  · cases h
  · split at h
    · cases List.mem_singleton.mp h
    · cases h
  · cases h
  · cases h
  · exact htable k (.inr (DiffInput.mem_withdrawn_or_late.mp (.inr hk))) h

/-- Every operation of a pass is proper. -/
theorem diff_proper {s : System} {d : DiffInput} (hb : d.beforeNft.Proper d.layout)
    (hd : d.desired.Proper d.layout) : ∀ op ∈ diff s d, op.Proper d.layout := by
  have hroute : ∀ {D : Desired}, D.Proper d.layout → ∀ e ∈ D.routes.toList,
      (Op.replaceRoute e.2).Proper d.layout := by
    intro D hD e he
    have he := Std.ExtTreeMap.mem_toList_iff_getElem?_eq_some.mp he
    have hkey : e.2.table = e.1.table := congrArg TableKey.table (hD.route_key _ _ he)
    rw [Op.Proper, hkey]
    exact ⟨hD.route_table _ _ he, hD.route_shaped _ _ he⟩
  have htable : ∀ {k}, k ∈ d.early s ∨ k ∈ d.stale s → (d.deletion k).Proper d.layout := by
    intro k hk
    have hobs : k ∈ observedTables s d.layout d.protocol := by
      rcases hk with hk | hk
      · exact (DiffInput.mem_early.mp hk).1
      · exact (DiffInput.mem_stale.mp hk).1
    obtain ⟨-, o, -, -, ht, -, rfl⟩ := mem_observedTables_iff_exists.mp hobs
    exact ht
  intro op hop
  simp only [diff, DiffInput.firstOps, DiffInput.lastOps, List.mem_append, List.mem_map] at hop
  rcases hop with (((h | ⟨k, hk, rfl⟩) | ⟨r, -, rfl⟩) | h) | (h | ⟨o, -, rfl⟩) | ⟨k, hk, rfl⟩
  · simp only [DiffInput.replacements, List.mem_map, List.mem_filter] at h
    obtain ⟨r, ⟨⟨e, he, rfl⟩, -⟩, rfl⟩ := h
    exact hroute hb e he
  · exact htable (hk.imp_right fun hw => DiffInput.mem_withdrawn_or_late.mp (.inl hw))
  · trivial
  · split at h
    · obtain rfl := List.mem_singleton.mp h
      trivial
    · cases h
  · simp only [DiffInput.lateReplacements, List.mem_map, List.mem_filter] at h
    obtain ⟨r, ⟨e, ⟨he, -⟩, rfl⟩, rfl⟩ := h
    exact hroute hd e he
  · trivial
  · exact htable (.inr (DiffInput.mem_withdrawn_or_late.mp (.inr hk)))

end Polywan
