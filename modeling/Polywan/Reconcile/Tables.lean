import Polywan.Reconcile.Diff

/-!
# The routes after a pass

Which planned route stands in each table after the parts of a pass.
-/

namespace Polywan

section Batches

variable {l : Layout} {scope : Scope} (hc : scope.Covers l) (now protocol : ℕ) (s : System)
include hc

theorem planned_replaceRoutes {R : List Route}
    (hR : ∀ r ∈ R, l.tables r.table = true ∧ r.Shaped) (k : TableKey) :
    (∃ r ∈ R, r.key = k ∧
        (applyOps now scope protocol s (R.map .replaceRoute)).planned protocol k = some r) ∨
      (∀ r ∈ R, r.key ≠ k) ∧
        (applyOps now scope protocol s (R.map .replaceRoute)).planned protocol k =
          s.planned protocol k := by
  induction R generalizing s with
  | nil => exact .inr ⟨by simp, rfl⟩
  | cons r R ih =>
    obtain ⟨ht, hr⟩ := hR r List.mem_cons_self
    rw [List.map_cons, applyOps, List.foldl_cons]
    rcases ih (applyOp now scope protocol s (.replaceRoute r))
      fun r' hr' => hR r' (List.mem_cons_of_mem r hr') with ⟨r', hr', hk, h⟩ | ⟨hne, h⟩
    · exact .inl ⟨r', List.mem_cons_of_mem r hr', hk, h⟩
    · rw [planned_replaceRoute now hc ht hr] at h
      by_cases hk : r.key = k
      · rw [if_pos hk] at h
        exact .inl ⟨r, List.mem_cons_self, hk, h⟩
      · rw [if_neg hk] at h
        refine .inr ⟨?_, h⟩
        intro r' hr'
        rcases List.mem_cons.mp hr' with rfl | hr'
        · exact hk
        · exact hne r' hr'

theorem planned_deleteRoutes {K : List TableKey} (p : ℕ)
    (hK : ∀ k ∈ K, l.tables k.table = true) (k : TableKey) :
    (applyOps now scope protocol s
        (K.map fun k => .deleteRoute k.family k.table p)).planned protocol k =
      if k ∈ K then none else s.planned protocol k := by
  induction K generalizing s with
  | nil => rfl
  | cons k' K ih =>
    rw [List.map_cons, applyOps, List.foldl_cons]
    refine (ih _ fun k hk => hK k (List.mem_cons_of_mem k' hk)).trans ?_
    rw [planned_deleteRoute now hc p (hK k' List.mem_cons_self)]
    by_cases hk : k ∈ K
    · simp [hk]
    · by_cases hk' : k = k'
      · simp [hk']
      · simp [hk, hk', Ne.symm hk']

/-- A key that no route is set under keeps what it has, or loses it to a deletion. -/
theorem routes_of_not_replaced {ops : List Op} (hops : ∀ op ∈ ops, op.Proper l) {κ : RouteKey}
    (hne : ∀ r, Op.replaceRoute r ∈ ops → r.key.routeKey ≠ κ) :
    (applyOps now scope protocol s ops).routes[κ]? = s.routes[κ]? ∨
      (applyOps now scope protocol s ops).routes[κ]? = none ∧
        ∃ f t p, Op.deleteRoute f t p ∈ ops ∧ TableKey.routeKey ⟨f, t⟩ = κ := by
  induction ops generalizing s with
  | nil => exact .inl rfl
  | cons op ops ih =>
    have hop := hops op List.mem_cons_self
    rw [applyOps, List.foldl_cons]
    rcases ih (applyOp now scope protocol s op)
      (fun op' hop' => hops op' (List.mem_cons_of_mem op hop'))
      (fun r hr => hne r (List.mem_cons_of_mem op hr)) with h | ⟨h, f, t, p, hmem, hκ⟩
    · rw [applyOps] at h
      rw [h]
      cases op with
      | replaceRoute r =>
        obtain ⟨t, hroutes⟩ := routes_replaceRoute now protocol s hc hop.1
        rw [hroutes, if_neg (hne r List.mem_cons_self)]
        exact .inl rfl
      | deleteRoute f t p =>
        rw [routes_deleteRoute now protocol s hc p hop]
        by_cases hκ : TableKey.routeKey ⟨f, t⟩ = κ
        · exact .inr ⟨if_pos hκ, f, t, p, List.mem_cons_self, hκ⟩
        · exact .inl (if_neg hκ)
      | addRule r => exact .inl (by rw [routes_addRule])
      | deleteRule o => exact .inl (by rw [routes_deleteRule])
      | applyNft => exact .inl rfl
    · exact .inr ⟨h, f, t, p, List.mem_cons_of_mem op hmem, hκ⟩

/-- A planned route after operations was set by one of them, or stood there before. -/
theorem replaced_or_planned {ops : List Op} (hops : ∀ op ∈ ops, op.Proper l) {k : TableKey}
    {r : Route} (h : (applyOps now scope protocol s ops).planned protocol k = some r) :
    Op.replaceRoute r ∈ ops ∧ r.key = k ∨ s.planned protocol k = some r := by
  induction ops generalizing s with
  | nil => exact .inr h
  | cons op ops ih =>
    have hop := hops op List.mem_cons_self
    rcases ih (applyOp now scope protocol s op)
      (fun op' hop' => hops op' (List.mem_cons_of_mem op hop')) h with ⟨hmem, hk⟩ | h
    · exact .inl ⟨List.mem_cons_of_mem op hmem, hk⟩
    · cases op with
      | replaceRoute r' =>
        rw [planned_replaceRoute now hc hop.1 hop.2] at h
        split at h
        · next hk =>
            obtain rfl := Option.some.inj h
            exact .inl ⟨List.mem_cons_self, hk⟩
        · exact .inr h
      | deleteRoute f t p =>
        rw [planned_deleteRoute now hc p hop] at h
        split at h
        · cases h
        · exact .inr h
      | addRule r' => exact .inr (System.planned_congr (routes_addRule ..) ▸ h)
      | deleteRule o => exact .inr (System.planned_congr (routes_deleteRule ..) ▸ h)
      | applyNft => exact .inr h

omit hc in
/-- Rule operations and the nftables step do not touch the routes. -/
theorem routes_applyOps {ops : List Op} (h : ∀ op ∈ ops, op.isRule = true ∨ op = .applyNft) :
    (applyOps now scope protocol s ops).routes = s.routes := by
  induction ops generalizing s with
  | nil => rfl
  | cons op ops ih =>
    rw [applyOps, List.foldl_cons]
    refine (ih _ fun op' hop' => h op' (List.mem_cons_of_mem op hop')).trans ?_
    cases op with
    | addRule r => exact routes_addRule ..
    | deleteRule o => exact routes_deleteRule ..
    | applyNft => rfl
    | replaceRoute r | deleteRoute _ _ _ => rcases h _ List.mem_cons_self with h | h <;> cases h

end Batches

/-- Two desired states agree on the path tables. -/
def DiffInput.SamePaths (d : DiffInput) : Prop :=
  ∀ k : TableKey, d.layout.isPathTable k.table = true →
    d.beforeNft.routes[k]? = d.desired.routes[k]?

/-- A comparison of proper states that agree on the path tables. -/
structure DiffInput.Proper (d : DiffInput) : Prop where
  beforeNft : d.beforeNft.Proper d.layout
  desired : d.desired.Proper d.layout
  samePaths : d.SamePaths

namespace DiffInput

variable {d : DiffInput} {s : System} {scope : Scope}

/-- The route operations before the nftables step. -/
def routeOps (d : DiffInput) (s : System) : List Op :=
  d.replacements s ++ (d.early s ++ d.withdrawn s).map d.deletion

theorem diff_eq_append (s : System) (d : DiffInput) :
    diff s d = d.routeOps s ++ ((d.additions s).map .addRule ++
      ((if d.nftPending then [.applyNft] else []) ++ d.lastOps s)) := by
  simp only [diff, firstOps, routeOps, List.append_assoc]

theorem firstOps_prefix (s : System) (d : DiffInput) : d.firstOps s <+: diff s d :=
  (List.prefix_append _ _).trans (List.prefix_append _ _)

/-- The routes to install before the nftables step: those that the view does not hold, -/
theorem mem_absent (hb : d.beforeNft.Proper d.layout) {r : Route} :
    r ∈ (d.beforeNft.routes.toList.map Prod.snd).filter (fun r => !routePresent s d.protocol r) ↔
      d.beforeNft.routes[r.key]? = some r ∧ routePresent s d.protocol r = false := by
  simp only [List.mem_filter, List.mem_map, Bool.not_eq_true']
  refine and_congr_left fun _ => ⟨?_, fun h =>
    ⟨_, Std.ExtTreeMap.mem_toList_iff_getElem?_eq_some.mpr h, rfl⟩⟩
  rintro ⟨⟨k', r'⟩, he, rfl⟩
  have he := Std.ExtTreeMap.mem_toList_iff_getElem?_eq_some.mp he
  rw [hb.route_key _ _ he]
  exact he

/-- Routes set before the nftables step are those wanted before it. -/
theorem replaceRoute_mem_firstOps (hb : d.beforeNft.Proper d.layout) {r : Route}
    (h : Op.replaceRoute r ∈ d.firstOps s) : d.beforeNft.routes[r.key]? = some r := by
  simp only [firstOps, replacements, deletion, List.mem_append, List.mem_map, List.mem_filter,
    Op.replaceRoute.injEq, reduceCtorEq, and_false, exists_false, or_false] at h
  obtain ⟨r', ⟨⟨⟨k, r''⟩, hmem, rfl⟩, -⟩, rfl⟩ := h
  have hk := Std.ExtTreeMap.mem_toList_iff_getElem?_eq_some.mp hmem
  rw [hb.route_key k r'' hk]
  exact hk

/-- Routes set after it are the desired ones. -/
theorem replaceRoute_mem_lastOps (hd : d.desired.Proper d.layout) {r : Route}
    (h : Op.replaceRoute r ∈ d.lastOps s) : d.desired.routes[r.key]? = some r := by
  simp only [lastOps, lateReplacements, deletion, List.mem_append, List.mem_map, List.mem_filter,
    Op.replaceRoute.injEq, reduceCtorEq, and_false, exists_false, or_false] at h
  obtain ⟨r', ⟨⟨k, r''⟩, ⟨hmem, -⟩, rfl⟩, rfl⟩ := h
  have hk := Std.ExtTreeMap.mem_toList_iff_getElem?_eq_some.mp hmem
  rw [hd.route_key k r'' hk]
  exact hk

/-- Adding rules does not touch the tables. -/
theorem planned_firstOps_eq (now : ℕ) (scope : Scope) (protocol : ℕ) (k : TableKey) :
    (applyOps now scope protocol s (d.firstOps s)).planned protocol k =
      (applyOps now scope protocol s (d.routeOps s)).planned protocol k := by
  rw [firstOps, ← routeOps, applyOps_append]
  refine System.planned_congr (routes_applyOps now _ _ fun op hop => ?_)
  obtain ⟨r, -, rfl⟩ := List.mem_map.mp hop
  exact .inl rfl

/-- With nothing held back, no route waits for the nftables step. -/
theorem lateReplacements_eq_nil (h : d.beforeNft = d.desired) : d.lateReplacements s = [] := by
  simp only [lateReplacements, List.map_eq_nil_iff, List.filter_eq_nil_iff]
  intro e he
  have he := Std.ExtTreeMap.mem_toList_iff_getElem?_eq_some.mp he
  rw [h]
  simp [he]

section First

variable (hw : s.WellFormed scope) (hc : scope.Covers d.layout) (now : ℕ)
include hw hc

theorem planned_replacements (hb : d.beforeNft.Proper d.layout) {k : TableKey}
    (ht : d.layout.tables k.table = true) :
    (applyOps now scope d.protocol s (d.replacements s)).planned d.protocol k =
      (d.beforeNft.routes[k]?).or (s.planned d.protocol k) := by
  have hproper : ∀ r ∈ (d.beforeNft.routes.toList.map Prod.snd).filter
      (fun r => !routePresent s d.protocol r), d.layout.tables r.table = true ∧ r.Shaped :=
    fun r hr => ⟨hb.route_table _ _ ((mem_absent hb).mp hr).1,
      hb.route_shaped _ _ ((mem_absent hb).mp hr).1⟩
  rcases planned_replaceRoutes hc now d.protocol s hproper k with ⟨r, hr, rfl, h⟩ | ⟨hne, h⟩
  · rw [replacements, h, ((mem_absent hb).mp hr).1, Option.some_or]
  · rw [replacements, h]
    cases hk : d.beforeNft.routes[k]? with
    | none => rw [Option.none_or]
    | some r =>
      have hkey := hb.route_key k r hk
      rw [← hkey] at hk ht ⊢
      have hpres : routePresent s d.protocol r = true := by
        by_contra hp
        exact hne r ((mem_absent hb).mpr ⟨hk, by simpa using hp⟩) hkey
      rw [(routePresent_iff hw hc ht).mp hpres, Option.some_or]

/-- **The routes before the nftables step.** -/
theorem planned_routeOps (hd : d.Proper) {k : TableKey} (ht : d.layout.tables k.table = true) :
    (applyOps now scope d.protocol s (d.routeOps s)).planned d.protocol k =
      if k ∈ d.early s ++ d.withdrawn s then none
      else (d.beforeNft.routes[k]?).or (s.planned d.protocol k) := by
  have htables : ∀ k ∈ d.early s ++ d.withdrawn s, d.layout.tables k.table = true := by
    intro k hk
    have hobs : k ∈ observedTables s d.layout d.protocol := by
      rcases List.mem_append.mp hk with hk | hk
      · exact (mem_early.mp hk).1
      · exact (mem_stale.mp (mem_withdrawn_or_late.mp (.inl hk))).1
    exact ((mem_observedTables hw hc).mp hobs).1
  rw [routeOps, applyOps_append]
  refine (planned_deleteRoutes hc now d.protocol _ d.protocol htables k).trans ?_
  rw [planned_replacements hw hc now hd.beforeNft ht]

/-- Balancing and policy tables hold exactly what they are to hold before the step. -/
theorem planned_routeOps_of_not_path (hd : d.Proper) {k : TableKey}
    (ht : d.layout.tables k.table = true) (hp : d.layout.isPathTable k.table = false) :
    (applyOps now scope d.protocol s (d.routeOps s)).planned d.protocol k =
      d.beforeNft.routes[k]? := by
  rw [planned_routeOps hw hc now hd ht]
  have hwith : k ∉ d.withdrawn s := by
    intro hk
    have := (mem_stale.mp (mem_withdrawn_or_late.mp (.inl hk))).2.1
    simp [hp] at this
  cases hb : d.beforeNft.routes[k]? with
  | some r =>
    have hearly : k ∉ d.early s := by
      intro hk
      have := (mem_early.mp hk).2.2
      simp [hb] at this
    simp [hearly, hwith]
  | none =>
    by_cases hobs : (s.planned d.protocol k).isSome
    · have hearly : k ∈ d.early s :=
        mem_early.mpr ⟨(mem_observedTables hw hc).mpr ⟨ht, hobs⟩, hp, hb⟩
      simp [hearly]
    · rw [Option.not_isSome_iff_eq_none] at hobs
      simp [hobs]

/-- A path table holds its route, or is empty when a desired rule looks it up. -/
theorem planned_routeOps_of_path (hd : d.Proper) {k : TableKey}
    (ht : d.layout.tables k.table = true) (hp : d.layout.isPathTable k.table = true)
    (hup : d.lookedUp k = true) :
    (applyOps now scope d.protocol s (d.routeOps s)).planned d.protocol k =
      d.desired.routes[k]? := by
  rw [planned_routeOps hw hc now hd ht, hd.samePaths k hp]
  have hearly : k ∉ d.early s := by
    intro hk
    have := (mem_early.mp hk).2.1
    simp [hp] at this
  cases hdes : d.desired.routes[k]? with
  | some r =>
    have hwith : k ∉ d.withdrawn s := by
      intro hk
      have := (mem_stale.mp (mem_withdrawn_or_late.mp (.inl hk))).2.2
      simp [hdes] at this
    simp [hearly, hwith]
  | none =>
    by_cases hobs : (s.planned d.protocol k).isSome
    · have hwith : k ∈ d.withdrawn s := List.mem_filter.mpr
        ⟨mem_stale.mpr ⟨(mem_observedTables hw hc).mpr ⟨ht, hobs⟩, hp, hdes⟩, hup⟩
      simp [hwith]
    · rw [Option.not_isSome_iff_eq_none] at hobs
      simp [hobs]

/-- After the route operations only the path tables that nothing looks up change. -/
theorem planned_diff_eq (hbefore : d.beforeNft = d.desired) (k : TableKey) :
    (applyOps now scope d.protocol s (diff s d)).planned d.protocol k =
      if k ∈ d.late s then none
      else (applyOps now scope d.protocol s (d.routeOps s)).planned d.protocol k := by
  have hrules : ∀ op ∈ (d.additions s).map Op.addRule ++
      ((if d.nftPending then [.applyNft] else []) ++ (d.deletions s).map Op.deleteRule),
      op.isRule = true ∨ op = .applyNft := by
    intro op hop
    simp only [List.mem_append, List.mem_map] at hop
    rcases hop with ⟨r, -, rfl⟩ | h | ⟨o, -, rfl⟩
    · exact .inl rfl
    · split at h
      · exact .inr (List.mem_singleton.mp h)
      · cases h
    · exact .inl rfl
  have htables : ∀ k ∈ d.late s, d.layout.tables k.table = true := fun k hk =>
    ((mem_observedTables hw hc).mp (mem_stale.mp (mem_withdrawn_or_late.mp (.inr hk))).1).1
  have hdiff : diff s d = d.routeOps s ++ (((d.additions s).map Op.addRule ++
      ((if d.nftPending then [.applyNft] else []) ++ (d.deletions s).map Op.deleteRule)) ++
        (d.late s).map d.deletion) := by
    simp only [diff_eq_append, lastOps, lateReplacements_eq_nil hbefore, List.nil_append,
      List.append_assoc]
  rw [hdiff, applyOps_append, applyOps_append]
  refine (planned_deleteRoutes hc now d.protocol _ d.protocol htables k).trans ?_
  rw [System.planned_congr (routes_applyOps now _ _ hrules)]

/-- **The tables after a whole pass with nothing held back.** -/
theorem planned_diff (hd : d.Proper) (hbefore : d.beforeNft = d.desired) {k : TableKey}
    (ht : d.layout.tables k.table = true) :
    (applyOps now scope d.protocol s (diff s d)).planned d.protocol k = d.desired.routes[k]? := by
  rw [planned_diff_eq hw hc now hbefore]
  have hlate : k ∈ d.late s ↔ k ∈ d.stale s ∧ d.lookedUp k = false := by
    simp [late]
  rw [mem_stale] at hlate
  by_cases hp : d.layout.isPathTable k.table = true
  · by_cases hup : d.lookedUp k = true
    · rw [planned_routeOps_of_path hw hc now hd ht hp hup, if_neg]
      simp [hlate, hup]
    · rw [planned_routeOps hw hc now hd ht, hbefore]
      have hwith : k ∉ d.early s ++ d.withdrawn s := by
        simp [mem_early, hp, withdrawn, hup]
      rw [if_neg hwith]
      cases hdes : d.desired.routes[k]? with
      | some r =>
        rw [if_neg, Option.some_or]
        simp [hlate, hdes]
      | none =>
        by_cases hobs : (s.planned d.protocol k).isSome
        · have hmem : k ∈ d.late s := hlate.mpr
            ⟨⟨(mem_observedTables hw hc).mpr ⟨ht, hobs⟩, hp, hdes⟩, by simpa using hup⟩
          rw [if_pos hmem]
        · rw [Option.not_isSome_iff_eq_none] at hobs
          simp [hobs]
  · rw [planned_routeOps_of_not_path hw hc now hd ht (by simpa using hp), hbefore, if_neg]
    simp [hlate, hp]

end First

end DiffInput

end Polywan
