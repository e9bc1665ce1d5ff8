import Polywan.Plan.Members
import Polywan.Reconcile.Families
import Polywan.Reconcile.Membership

/-!
# Withdrawals and the other family

The operations of both families stand in one list, replacements of routes before deletions, and
execution stops at the first that fails.  An operation of one family that the kernel rejects
keeps every withdrawal of the other family that stands behind it from being made, in each pass
again.

## Main definitions

* `Op.place` — where a route operation stands in a pass.
* `DiffInput.Due` — the route operations of a pass before the nftables step.
* `DiffInput.Withdraws` — an operation takes something out of service.
* `InService` — the paths in a route are ready and in the active set.

## Main results

* `withdrawals_made_iff` — when the withdrawals of a family are made.
-/

namespace Polywan

/-- Where a route operation stands in a pass: replacements come first, then deletions from
balancing and policy tables, then those from path tables, each by family and table. -/
def Op.place (l : Layout) : Op → ℕ ×ₗ TableKey
  | .replaceRoute r => toLex (0, r.key)
  | .deleteRoute f t _ => toLex (if l.isPathTable t then 2 else 1, ⟨f, t⟩)
  | .addRule r => toLex (3, ⟨r.family, 0⟩)
  | .deleteRule o => toLex (3, ⟨o.family, 0⟩)
  | .applyNft => toLex (3, ⟨.v4, 0⟩)

namespace DiffInput

/-- A route operation is to be made before the nftables step: a route is planned and not
present; a balancing or policy table holds a route and none is planned; or a path table does
that a desired rule looks up. -/
def Due (d : DiffInput) (s : System) : Op → Prop
  | .replaceRoute r => d.beforeNft.routes[r.key]? = some r ∧ routePresent s d.protocol r = false
  | .deleteRoute f t p => p = d.protocol ∧ ⟨f, t⟩ ∈ observedTables s d.layout d.protocol ∧
    (d.layout.isPathTable t = false ∧ d.beforeNft.routes[(⟨f, t⟩ : TableKey)]? = none ∨
      d.layout.isPathTable t = true ∧ d.desired.routes[(⟨f, t⟩ : TableKey)]? = none ∧
        d.lookedUp ⟨f, t⟩ = true)
  | _ => False

/-- An operation takes something out of service: it deletes a route, or drops a next hop from a
balancing route. -/
def Withdraws (d : DiffInput) (s : System) : Op → Prop
  | .replaceRoute r => r.table = d.layout.balancingTable ∧
    ∃ old, s.planned d.protocol r.key = some old ∧
      ∃ h ∈ old.nexthops, ∀ h' ∈ r.nexthops, h'.unweighted ≠ h.unweighted
  | .deleteRoute .. => True
  | _ => False

/-- A withdrawal of a family stands behind an operation. -/
def Delays (d : DiffInput) (s : System) (f : Family) (op : Op) : Prop :=
  d.Due s op ∧ ∃ op', d.Due s op' ∧ op'.concerns f = true ∧ d.Withdraws s op' ∧
    op.place d.layout < op'.place d.layout

end DiffInput

/-- A path is ready and in the active set. -/
def Input.Serving (i : Input) (f : Family) (id : UplinkId) (ready : ReadyPath) : Prop :=
  (∃ p, i.paths[(⟨id, f⟩ : PathKey)]? = some p ∧ p.ready = some ready) ∧
    (i.active[f]?).any (·.contains id) = true

/-- The paths in a balancing or policy route are ready and in the active set. -/
structure InService (c : Config) (i : Input) (r : Route) : Prop where
  balancing : r.table = (Layout.of c).balancingTable → ∀ h ∈ r.nexthops,
    ∃ u ∈ c.uplinksOf r.family, ∃ ready, i.Serving r.family u.id ready ∧ h.unweighted = ready.hop
  policies : ∀ id, r.table = (Layout.of c).policyBalanceTable id ∨
    r.table = (Layout.of c).policyBlockTable id →
      ∃ u ∈ c.uplinksOf r.family, u.id = id ∧ ∃ ready, i.Serving r.family id ready

/-! ## The order of the operations -/

namespace DiffInput

variable {d : DiffInput} {s : System}

theorem mem_routeOps (hd : d.Proper) {op : Op} : op ∈ d.routeOps s ↔ d.Due s op := by
  cases op with
  | replaceRoute r =>
    rw [Due, ← mem_absent hd.beforeNft]
    simp [routeOps, replacements, deletion]
  | deleteRoute f t p =>
    have hkey : (∃ k ∈ d.early s ++ d.withdrawn s, d.deletion k = .deleteRoute f t p) ↔
        p = d.protocol ∧ ⟨f, t⟩ ∈ d.early s ++ d.withdrawn s := by
      constructor
      · rintro ⟨k, hk, heq⟩
        obtain ⟨rfl, rfl, rfl⟩ := Op.deleteRoute.inj heq
        exact ⟨rfl, hk⟩
      · rintro ⟨rfl, hk⟩
        exact ⟨_, hk, rfl⟩
    have hmem : .deleteRoute f t p ∈ d.routeOps s ↔
        ∃ k ∈ d.early s ++ d.withdrawn s, d.deletion k = .deleteRoute f t p := by
      rw [routeOps, List.mem_append, or_iff_right (by simp [replacements]), List.mem_map]
    rw [hmem, hkey, List.mem_append, withdrawn, List.mem_filter, mem_early, mem_stale, Due]
    simp only [and_or_left, and_assoc]
  | addRule r | deleteRule o | applyNft => simp [routeOps, replacements, deletion, Due]

theorem observedTables_sorted (l : Layout) (protocol : ℕ) :
    (observedTables s l protocol).Pairwise (· < ·) :=
  Std.ExtTreeSet.ordered_toList.imp fun h => compare_lt_iff_lt.mp h

/-- **The route operations stand in their places.** -/
theorem routeOps_sorted (hd : d.Proper) :
    (d.routeOps s).Pairwise fun op op' => op.place d.layout < op'.place d.layout := by
  have hearly : ∀ k ∈ d.early s, (d.deletion k).place d.layout = toLex (1, k) := by
    intro k hk
    simp [deletion, Op.place, (mem_early.mp hk).2.1]
  have hwithdrawn : ∀ k ∈ d.withdrawn s, (d.deletion k).place d.layout = toLex (2, k) := by
    intro k hk
    simp [deletion, Op.place, (mem_stale.mp (List.mem_of_mem_filter hk)).2.1]
  refine List.pairwise_append.mpr ⟨?_, List.pairwise_map.mpr (List.pairwise_append.mpr
    ⟨?_, ?_, ?_⟩), ?_⟩
  · refine List.pairwise_map.mpr (List.Pairwise.filter _ (List.pairwise_map.mpr ?_))
    refine Std.ExtTreeMap.ordered_keys_toList.imp_of_mem fun {e e'} he he' hlt => ?_
    have hkey := hd.beforeNft.route_key _ _ (Std.ExtTreeMap.mem_toList_iff_getElem?_eq_some.mp he)
    have hkey' := hd.beforeNft.route_key _ _ (Std.ExtTreeMap.mem_toList_iff_getElem?_eq_some.mp he')
    rw [Op.place, Op.place, hkey, hkey', Prod.Lex.toLex_lt_toLex]
    exact .inr ⟨rfl, compare_lt_iff_lt.mp hlt⟩
  · refine (((observedTables_sorted d.layout d.protocol).filter _).filter _).imp_of_mem ?_
    intro k k' hk hk' hlt
    rw [hearly k hk, hearly k' hk', Prod.Lex.toLex_lt_toLex]
    exact .inr ⟨rfl, hlt⟩
  · refine ((((observedTables_sorted d.layout d.protocol).filter _).filter _).filter
      _).imp_of_mem ?_
    intro k k' hk hk' hlt
    rw [hwithdrawn k hk, hwithdrawn k' hk', Prod.Lex.toLex_lt_toLex]
    exact .inr ⟨rfl, hlt⟩
  · intro k hk k' hk'
    rw [hearly k hk, hwithdrawn k' hk', Prod.Lex.toLex_lt_toLex]
    exact .inl one_lt_two
  · intro op hop op' hop'
    obtain ⟨r, -, rfl⟩ := List.mem_map.mp hop
    obtain ⟨k, -, rfl⟩ := List.mem_map.mp hop'
    rw [Op.place, deletion, Op.place, Prod.Lex.toLex_lt_toLex]
    left
    dsimp only
    split <;> omega

/-- A route operation is made unless the rejected one stands before it. -/
theorem mem_performed_iff (hd : d.Proper) {op bad : Op} (hop : d.Due s op) :
    op ∈ performed (· ≠ bad) (diff s d) ↔
      (d.Due s bad → op.place d.layout < bad.place d.layout) := by
  have hstep : ∀ op ∈ d.routeOps s, decide (op ≠ Op.applyNft) = true := by
    intro op hop
    rw [mem_routeOps hd] at hop
    cases op <;> first | rfl | cases hop
  rw [performed, beforeStep, diff_eq_append, List.takeWhile_append_of_pos hstep,
    Lib.mem_takeWhile_ne_append_iff (routeOps_sorted hd) _ ((mem_routeOps hd).mpr hop),
    mem_routeOps hd]

end DiffInput

/-! ## What stays in service -/

/-- Once an operation sets or deletes the route of a table, the route found there was set. -/
theorem replaced_of_touched {l : Layout} {scope : Scope} (hc : scope.Covers l) (now protocol : ℕ)
    (s : System) {ops : List Op} (hops : ∀ op ∈ ops, op.Proper l) {k : TableKey} {op : Op}
    (hop : op ∈ ops)
    (htouch : (∃ r, op = .replaceRoute r ∧ r.key = k) ∨ ∃ p, op = .deleteRoute k.family k.table p)
    {r : Route} (h : (applyOps now scope protocol s ops).planned protocol k = some r) :
    .replaceRoute r ∈ ops := by
  obtain ⟨before, after, rfl⟩ := List.append_of_mem hop
  have hproper := hops op hop
  rw [applyOps_append, applyOps, List.foldl_cons] at h
  rcases replaced_or_planned hc now protocol _ (fun op' hop' => hops op' (by simp [hop'])) h with
    ⟨hmem, -⟩ | hplanned
  · simp [hmem]
  · rcases htouch with ⟨r', rfl, rfl⟩ | ⟨p, rfl⟩
    · rw [planned_replaceRoute now hc hproper.1 hproper.2, if_pos rfl] at hplanned
      obtain rfl := Option.some.inj hplanned
      exact hop
    · rw [planned_deleteRoute now hc p hproper, if_pos rfl] at hplanned
      cases hplanned

theorem serving_of_member {i : Input} {f : Family} {u : Uplink} {m : NextHop}
    (h : uplinkMember i f u = some m) :
    ∃ ready, i.Serving f u.id ready ∧ m.unweighted = ready.hop := by
  simp only [uplinkMember] at h
  cases hp : i.paths[(⟨u.id, f⟩ : PathKey)]? with
  | none => simp [hp] at h
  | some p =>
    cases hready : p.ready with
    | none => simp [hp, hready] at h
    | some ready =>
      simp only [hp, hready, Option.ite_none_right_eq_some, Option.some.injEq] at h
      exact ⟨ready, ⟨⟨p, hp, hready⟩, h.1⟩, h.2 ▸ rfl⟩

section Service

variable {c : Config} {i : Input} {newPaths : Std.ExtTreeSet PathKey} {f : Family}
  (hpolicy : ∀ id ready, policyPath c i f id = some ready →
    (i.active[f]?).any (·.contains id) = true)
include hpolicy

/-- A route of a planned table is in service if its next hops are planned in a balancing table. -/
theorem inService_of_planned {r planned : Route} (hf : r.family = f)
    (h : (plan c (without i newPaths)).routes[r.key]? = some planned)
    (hhops : r.table = (Layout.of c).balancingTable → ∀ h ∈ r.nexthops,
      ∃ h' ∈ planned.nexthops, h'.unweighted = h.unweighted) : InService c i r := by
  obtain ⟨τ, hτ, htable⟩ := plan_routes.mp h
  have hrole : ∀ τ', r.table = (Layout.of c).tableOf τ' → τ = τ' := fun τ' h =>
    (Layout.of c).tableOf_injective (htable.symm.trans h)
  constructor
  · intro hbalancing hop hhop
    obtain rfl := hrole .balancing hbalancing
    obtain ⟨h', hh', heq⟩ := hhops hbalancing hop hhop
    obtain ⟨u, hu, -, m, hm, hh'm⟩ := mem_balancing_without hτ hh'
    obtain ⟨ready, hserving, hready⟩ := serving_of_member hm
    refine ⟨u, hu, ready, hserving, ?_⟩
    rw [← heq, ← hready, hh'm]
    rfl
  · intro id hid
    have hpath : (policyPath c (without i newPaths) r.family id).isSome = true := by
      rcases hid with hid | hid
      · obtain rfl := hrole (.policyBalance id) (hid.trans (Layout.tableOf_policyBalance _ id).symm)
        exact (Option.isSome_map).symm.trans (congrArg Option.isSome hτ)
      · obtain rfl := hrole (.policyBlock id) (hid.trans (Layout.tableOf_policyBlock _ id).symm)
        exact (Option.isSome_map).symm.trans (congrArg Option.isSome hτ)
    obtain ⟨ready, hready⟩ := Option.isSome_iff_exists.mp hpath
    rw [policyPath_without, Option.ite_none_left_eq_some] at hready
    have hactive := hpolicy id ready (hf ▸ hready.2)
    obtain ⟨p, hp, -, hpready⟩ := policyPath_eq_some.mp hready.2
    obtain ⟨⟨u, hu, hid⟩, hp⟩ := pathInput_eq_some.mp hp
    exact ⟨u, hu, hid, ready, ⟨p, hp, hpready⟩, hf ▸ hactive⟩

/-- **A family whose withdrawals are made** keeps only paths that serve in its balancing and
policy tables. -/
theorem inService_of_withdrawn (hv : c.Valid) {nftPending : Bool} {s : System}
    (hw : s.WellFormed (Scope.of c)) (now : ℕ) {ops : List Op}
    (hops : ops <+: diff s (Pass.mk c i newPaths nftPending).diffInput)
    (hmade : ∀ op, (Pass.mk c i newPaths nftPending).diffInput.Due s op → op.concerns f = true →
      (Pass.mk c i newPaths nftPending).diffInput.Withdraws s op → op ∈ ops)
    {r : Route} (hf : r.family = f) (ht : (Layout.of c).isTrafficTable r.table = true)
    (hr : (applyOps now (Scope.of c) c.routing.routeProtocol s ops).HoldsRoute
      c.routing.routeProtocol r) : InService c i r := by
  set d := (Pass.mk c i newPaths nftPending).diffInput
  have hd : d.Proper := Pass.proper hv
  have hc := Scope.covers_of c
  have hproper : ∀ op ∈ ops, op.Proper d.layout := fun op hop =>
    diff_proper hd.beforeNft hd.desired op (hops.subset hop)
  rw [Layout.isTrafficTable, Bool.and_eq_true, Bool.not_eq_true'] at ht
  rw [(hw.applyOps now _ _).holdsRoute_iff hc ht.1] at hr
  -- A route that the pass set is a planned one.
  have hset : .replaceRoute r ∈ ops → InService c i r := by
    intro hmem
    have hmem := hops.subset hmem
    rw [diff, List.mem_append, List.mem_append] at hmem
    rcases hmem with (hfirst | hnft) | hlast
    · exact inService_of_planned hpolicy hf (d.replaceRoute_mem_firstOps hd.beforeNft hfirst)
        fun _ h hh => ⟨h, hh, rfl⟩
    · split at hnft <;> simp at hnft
    · have hplanned : (plan c (without i ∅)).routes[r.key]? = some r := by
        rw [without_empty]
        exact d.replaceRoute_mem_lastOps hd.desired hlast
      exact inService_of_planned hpolicy hf hplanned fun _ h hh => ⟨h, hh, rfl⟩
  rcases replaced_or_planned hc now _ s hproper hr with ⟨hmem, -⟩ | hold
  · exact hset hmem
  · cases hplanned : d.beforeNft.routes[r.key]? with
    | none =>
      have hdue : d.Due s (.deleteRoute r.family r.table d.protocol) :=
        ⟨rfl, (mem_observedTables hw hc).mpr ⟨ht.1, Option.isSome_iff_exists.mpr ⟨r, hold⟩⟩,
          .inl ⟨ht.2, hplanned⟩⟩
      have hmem := hmade _ hdue (decide_eq_true hf) trivial
      exact hset (replaced_of_touched hc now _ s hproper hmem (.inr ⟨_, rfl⟩) hr)
    | some planned =>
      by_cases hsame : planned = r
      · exact inService_of_planned hpolicy hf hplanned fun _ h hh => ⟨h, hsame ▸ hh, rfl⟩
      · have hkey : planned.key = r.key := hd.beforeNft.route_key _ _ hplanned
        have hdue : d.Due s (.replaceRoute planned) := by
          refine ⟨hkey ▸ hplanned, Bool.eq_false_iff.mpr fun hpresent => hsame ?_⟩
          have htable : planned.table = r.table := congrArg TableKey.table hkey
          rw [routePresent_iff hw hc (htable ▸ ht.1), hkey] at hpresent
          exact (Option.some.inj (hold.symm.trans hpresent)).symm
        by_contra hnot
        refine hnot (inService_of_planned hpolicy hf hplanned fun hbalancing h hh => ?_)
        by_contra hdropped
        push Not at hdropped
        have hmem := hmade _ hdue (decide_eq_true ((congrArg TableKey.family hkey).trans hf))
          ⟨(congrArg TableKey.table hkey).trans hbalancing, r, hkey ▸ hold, h, hh, hdropped⟩
        exact hnot (hset (replaced_of_touched hc now _ s hproper hmem (.inl ⟨_, rfl, hkey⟩) hr))

end Service

/-- **When the withdrawals of a family are made.**  The kernel rejects one operation of the other
family.  The withdrawals before the nftables step are all made, and the balancing and policy
tables then hold only paths that are ready and active, exactly when none stands behind the
rejected operation. -/
theorem withdrawals_made_iff {c : Config} (hv : c.Valid) (i : Input)
    (newPaths : Std.ExtTreeSet PathKey) (nftPending : Bool) (now : ℕ) (v : View (Scope.of c))
    {f g : Family} (hfg : f ≠ g) {bad : Op} (hbad : bad.concerns f = true)
    (hpolicy : ∀ id ready, policyPath c i g id = some ready →
      (i.active[g]?).any (·.contains id) = true) :
    let d := (Pass.mk c i newPaths nftPending).diffInput
    ((∀ op ∈ d.firstOps v.system, op.concerns g = true → d.Withdraws v.system op →
        op ∈ performed (· ≠ bad) (diff v.system d)) ∧
      ∀ r : Route, r.family = g → (Layout.of c).isTrafficTable r.table = true →
        (execute now (Scope.of c) c.routing.routeProtocol (· ≠ bad) v.system
          (diff v.system d)).1.HoldsRoute c.routing.routeProtocol r → InService c i r) ↔
      ¬ d.Delays v.system g bad := by
  intro d
  have hd : d.Proper := Pass.proper hv
  constructor
  · rintro ⟨hmade, -⟩ ⟨hdue, op, hop, hconcerns, hwithdraws, hlt⟩
    have hmem : op ∈ d.firstOps v.system :=
      List.mem_append_left _ ((DiffInput.mem_routeOps hd).mpr hop)
    have hbefore := (DiffInput.mem_performed_iff hd hop).mp (hmade op hmem hconcerns hwithdraws)
    exact lt_asymm hlt (hbefore hdue)
  · intro hdelays
    have hmade : ∀ op, d.Due v.system op → op.concerns g = true → d.Withdraws v.system op →
        op ∈ performed (· ≠ bad) (diff v.system d) := by
      intro op hop hconcerns hwithdraws
      refine (DiffInput.mem_performed_iff hd hop).mpr fun hdue => ?_
      -- Operations of different families have different places.
      have hfamily : ∀ {op : Op} {f : Family}, d.Due v.system op → op.concerns f = true →
          (ofLex (op.place d.layout)).2.family = f := by
        intro op f hop hconcerns
        cases op with
        | replaceRoute r => exact of_decide_eq_true hconcerns
        | deleteRoute f' t p => exact of_decide_eq_true hconcerns
        | addRule r | deleteRule o | applyNft => cases hop
      refine lt_of_le_of_ne (not_lt.mp fun hlt => ?_) fun heq => hfg ?_
      · exact hdelays ⟨hdue, op, hop, hconcerns, hwithdraws, hlt⟩
      · rw [← hfamily hdue hbad, ← heq, hfamily hop hconcerns]
    refine ⟨fun op hop hconcerns hwithdraws => hmade op ?_ hconcerns hwithdraws, ?_⟩
    · rcases List.mem_append.mp hop with hop | hop
      · exact (DiffInput.mem_routeOps hd).mp hop
      · obtain ⟨r, -, rfl⟩ := List.mem_map.mp hop
        cases hwithdraws
    · intro r hr ht hold
      rw [execute_eq] at hold
      exact inService_of_withdrawn hpolicy hv v.wellFormed now
        ((List.takeWhile_prefix _).trans (List.takeWhile_prefix _)) hmade hr ht hold

namespace Sample

/-- The sample with IPv6 paths. -/
def dualStack : Config :=
  { config with uplinks := config.uplinks.map fun u => { u with ipv6 := some settings } }

/-- A balancing route of IPv6 through an interface that is not ready any more. -/
def deadRoute : Route where
  family := .v6
  table := 1000
  source := none
  nexthops := [(ready 3 (.v6 1)).hop]

def deadView : View (Scope.of dualStack) :=
  (View.empty (Scope.of dualStack)).apply 0 (.newRoute (routeMessage deadRoute 249))

/-- The balancing route of IPv4, first in every pass. -/
def balancing : Op :=
  .replaceRoute
    { family := .v4, table := 1000, source := none, nexthops := [(ready 3 (.v4 0x0a000002)).hop] }

end Sample

open Sample

/-- A rejected rule of IPv4 comes after the withdrawals of IPv6, a rejected route before them. -/
theorem withdrawals_made_dualStack :
    .deleteRoute .v6 1000 249 ∈
        performed (· ≠ .addRule (Role.finalGuard.rule (Layout.of dualStack) .v4))
          (diff deadView.system (Pass.mk dualStack input ∅ true).diffInput) ∧
      performed (· ≠ balancing)
        (diff deadView.system (Pass.mk dualStack input ∅ true).diffInput) = [] := by
  have hpolicy : ∀ id ready, policyPath dualStack input .v6 id = some ready →
      (input.active[Family.v6]?).any (·.contains id) = true := by
    intro id ready h
    obtain ⟨p, hp, -⟩ := policyPath_eq_some.mp h
    have hnone : input.paths[(⟨id, .v6⟩ : PathKey)]? = none := by simp [input]
    rw [(pathInput_eq_some.mp hp).2] at hnone
    cases hnone
  have hguard : Op.concerns .v4 (.addRule (Role.finalGuard.rule (Layout.of dualStack) .v4)) :=
    rfl
  have hmade := (withdrawals_made_iff (c := dualStack) (by decide) input ∅ true 0 deadView
    (by decide : Family.v4 ≠ .v6) hguard hpolicy).mpr fun h => h.1
  exact ⟨hmade.1 _ (by decide +kernel) rfl trivial, by decide +kernel⟩

end Polywan
