import Mathlib.Data.List.MinMax
import Polywan.Discover
import Polywan.Lib.Fold

/-!
# The automatic gateway

The nested loops over discovery tables, default routes and their next hops find the
least eligible hop.  What is eligible is said here without the loops (`Eligible`), and
the loops are compared with it.

## Main definitions

* `Hop` — a hop with what ranks it.
* `Eligible` — the hops discovery may choose.
* `System.learn` — the view after it learned routes.

## Main results

* `autoGateway_optimal` — the choice is a least eligible hop, and none when there is
  none, in whatever order the routes were learned.
-/

namespace Polywan

namespace Discover

/-! ## The least of a list -/

/-- The loop that keeps the best so far is Mathlib's first minimum. -/
theorem minByKey_eq_argmin {α β : Type} [LinearOrder β] (key : α → β) (l : List α) :
    minByKey key l = l.argmin key := by
  have hfold : ∀ (l : List α) (a : α),
      l.foldl (List.argAux fun b c => key b < key c) (some a)
        = some (l.foldl (fun best x => if key x < key best then x else best) a) := by
    intro l
    induction l with
    | nil => intro a; rfl
    | cons x l ih =>
      intro a
      have hstep : List.argAux (fun b c => key b < key c) (some a) x
          = some (if key x < key a then x else a) := by
        by_cases h : key x < key a <;> simp [List.argAux, h]
      rw [List.foldl_cons, List.foldl_cons, hstep, ih]
  cases l with
  | nil => rfl
  | cons a l => exact (hfold l a).symm

/-! ## Eligible hops -/

/-- A hop of a default route, with what ranks it. -/
structure Hop where
  metric : ℕ
  preference : ℤ
  /-- The position of the table in the list of discovery tables. -/
  position : ℕ
  gateway : IpAddr
  onlink : Bool

/-- The order hops are chosen by: metric, the higher router preference, position of
the table, gateway. -/
def Hop.rank (h : Hop) : ℕ ×ₗ ℤ ×ₗ ℕ ×ₗ IpAddr :=
  toLex (h.metric, toLex (-h.preference, toLex (h.position, h.gateway)))

/-- A usable member of a route on an interface: listed with the route, or the single
nexthop object the route names. -/
inductive Member (s : System) (r : ObservedRoute) (ifindex : ℕ) (gateway : IpAddr)
    (onlink : Bool) : Prop
  | inline (h : ObservedHop) (hobject : r.nexthopId = none) (hmem : h ∈ r.nexthops)
      (hindex : h.ifindex = ifindex) (hdead : h.dead = false) (hlinkdown : h.linkdown = false)
      (hgateway : h.gateway = some gateway) (honlink : h.onlink = onlink)
  | object (id : ℕ) (n : NexthopMessage) (hobject : r.nexthopId = some id)
      (hknown : s.nexthops[id]? = some n) (hgroup : n.group = []) (hblackhole : n.blackhole = false)
      (hfdb : n.fdb = false) (hindex : n.ifindex = some ifindex) (hdead : n.dead = false)
      (hlinkdown : n.linkdown = false) (hgateway : n.gateway = some gateway)
      (honlink : n.onlink = onlink)

/-- A default route that discovery considers: unicast, of another program and not
expired. -/
structure Considered (s : System) (ownProtocol : ℕ) (family : Family) (table now : ℕ)
    (r : ObservedRoute) : Prop where
  known : ∃ k : RouteKey, s.routes[k]? = some r
  family : r.family = family
  table : r.table = table
  isDefault : r.destination = none
  unicast : r.kind = .unicast
  foreign : r.protocol ≠ ownProtocol
  unexpired : r.expired now = false

/-- The hops discovery may choose for an interface. -/
def Eligible (c : Config) (s : System) (ownProtocol : ℕ) (family : Family) (ifindex now : ℕ)
    (h : Hop) : Prop :=
  ∃ table r, c.routing.discoveryTables[h.position]? = some table ∧
    Considered s ownProtocol family table now r ∧ r.metric = h.metric ∧
    r.preference = h.preference ∧ Family.of h.gateway = family ∧
    Member s r ifindex h.gateway h.onlink

section

variable {c : Config} {s : System} {ownProtocol : ℕ} {family : Family} {ifindex now : ℕ}

theorem mem_candidates {table : ℕ} {r : ObservedRoute} :
    r ∈ candidates s ownProtocol family table now ↔
      Considered s ownProtocol family table now r := by
  have hknown : r ∈ s.routes.toList.map Prod.snd ↔ ∃ k : RouteKey, s.routes[k]? = some r := by
    simp only [List.mem_map, Prod.exists, exists_eq_right,
      Std.ExtTreeMap.mem_toList_iff_getElem?_eq_some]
  simp only [candidates, System.routesIn, List.mem_filter, hknown, ObservedRoute.isDefault,
    Bool.and_eq_true, decide_eq_true_eq, Option.isNone_iff_eq_none, Bool.not_eq_true']
  constructor
  · rintro ⟨⟨hk, hf, ht⟩, ⟨⟨hd, hu⟩, hp⟩, he⟩
    exact ⟨hk, hf, ht, hd, hu, hp, he⟩
  · intro h
    exact ⟨⟨h.known, h.family, h.table⟩, ⟨⟨h.isDefault, h.unicast⟩, h.foreign⟩, h.unexpired⟩

theorem mem_allGateways {r : ObservedRoute} {g : IpAddr} {onlink : Bool} :
    (g, onlink) ∈ allGateways r s.nexthops ifindex ↔ Member s r ifindex g onlink := by
  constructor
  · intro h
    unfold allGateways at h
    cases hid : r.nexthopId with
    | none =>
      simp only [hid, List.mem_filterMap, List.mem_filter, Bool.and_eq_true, decide_eq_true_eq,
        Bool.not_eq_true', Option.map_eq_some_iff, Prod.mk.injEq] at h
      obtain ⟨h, ⟨hmem, ⟨hindex, hdead⟩, hlinkdown⟩, _, hg, rfl, rfl⟩ := h
      exact .inline h hid hmem hindex hdead hlinkdown hg rfl
    | some id =>
      cases hn : s.nexthops[id]? with
      | none => simp [hid, hn] at h
      | some n =>
        simp only [hid, hn, Bool.and_eq_true, List.isEmpty_iff, Bool.not_eq_true',
          decide_eq_true_eq, List.mem_ite_nil_right, Option.mem_toList,
          Option.map_eq_some_iff, Prod.mk.injEq] at h
        obtain ⟨⟨⟨⟨⟨⟨hgroup, hblackhole⟩, hfdb⟩, hdead⟩, hlinkdown⟩, hindex⟩, _, hg, rfl,
          rfl⟩ := h
        exact .object id n hid hn hgroup hblackhole hfdb hindex hdead hlinkdown hg rfl
  · intro h
    cases h with
    | inline h hid hmem hindex hdead hlinkdown hg honlink =>
      simp only [allGateways, hid, List.mem_filterMap, List.mem_filter]
      exact ⟨h, ⟨hmem, by simp [hindex, hdead, hlinkdown]⟩, by simp [hg, honlink]⟩
    | object id n hid hn hgroup hblackhole hfdb hindex hdead hlinkdown hg honlink =>
      simp [allGateways, hid, hn, hgroup, hblackhole, hfdb, hindex, hdead, hlinkdown, hg,
        honlink]

/-- A hop as the loops carry it. -/
def Hop.ranked (e : Hop) : RankedHop := ⟨e.rank, e.gateway, e.onlink⟩

/-- **The loops look at the eligible hops**, each with its rank. -/
theorem mem_rankedHops {h : RankedHop} :
    h ∈ rankedHops c s ownProtocol family ifindex now ↔
      ∃ e, Eligible c s ownProtocol family ifindex now e ∧ e.ranked = h := by
  simp only [rankedHops, List.mem_flatMap, List.mem_map, Prod.exists, mem_candidates,
    routeGateways, List.mem_filter, mem_allGateways, decide_eq_true_eq,
    List.mem_zipIdx_iff_getElem?]
  constructor
  · rintro ⟨table, order, hposition, r, hr, gw, onlink, ⟨hmember, hfamily⟩, rfl⟩
    exact ⟨⟨r.metric, r.preference, order, gw, onlink⟩,
      ⟨table, r, hposition, hr, rfl, rfl, hfamily.trans hr.family, hmember⟩, rfl⟩
  · rintro ⟨e, ⟨table, r, hposition, hr, hmetric, hpreference, hfamily, hmember⟩, rfl⟩
    refine ⟨table, e.position, hposition, r, hr, e.gateway, e.onlink,
      ⟨hmember, hfamily.trans hr.family.symm⟩, ?_⟩
    rw [hmetric, hpreference]
    rfl

theorem autoGateway_eq_none :
    autoGateway c s ownProtocol family ifindex now = none ↔
      ¬ ∃ e, Eligible c s ownProtocol family ifindex now e := by
  rw [autoGateway, Option.map_eq_none_iff, minByKey_eq_argmin, List.argmin_eq_none,
    List.eq_nil_iff_forall_not_mem]
  simp only [mem_rankedHops, not_exists, not_and]
  constructor
  · intro h e he
    exact h e.ranked e he rfl
  · intro h _ e he _
    exact h e he

/-- A choice is a least eligible hop. -/
theorem exists_eligible_of_autoGateway {hop : Option IpAddr × Bool}
    (h : autoGateway c s ownProtocol family ifindex now = some hop) :
    ∃ e, Eligible c s ownProtocol family ifindex now e ∧ hop = (some e.gateway, e.onlink) ∧
      ∀ e', Eligible c s ownProtocol family ifindex now e' → e.rank ≤ e'.rank := by
  obtain ⟨best, hbest, rfl⟩ := Option.map_eq_some_iff.mp h
  rw [minByKey_eq_argmin] at hbest
  obtain ⟨e, he, rfl⟩ := mem_rankedHops.mp (List.argmin_mem hbest)
  refine ⟨e, he, rfl, fun e' he' => ?_⟩
  have hle : e.ranked.rank ≤ e'.ranked.rank :=
    List.le_of_mem_argmin (mem_rankedHops.mpr ⟨e', he', rfl⟩) hbest
  exact hle

/-- Two least hops have one gateway: it is a part of the rank. -/
theorem Hop.gateway_eq_of_rank {e e' : Hop} (h : e.rank = e'.rank) : e.gateway = e'.gateway := by
  simp only [rank, toLex_inj, Prod.mk.injEq] at h
  exact h.2.2.2

/-- Views with the same eligible hops give the same gateway. -/
theorem gateway_congr {s' : System}
    (heligible : ∀ e, Eligible c s ownProtocol family ifindex now e ↔
      Eligible c s' ownProtocol family ifindex now e) :
    (autoGateway c s ownProtocol family ifindex now).map Prod.fst
      = (autoGateway c s' ownProtocol family ifindex now).map Prod.fst := by
  cases h : autoGateway c s ownProtocol family ifindex now with
  | none =>
    have h' : autoGateway c s' ownProtocol family ifindex now = none := by
      rw [autoGateway_eq_none] at h ⊢
      exact fun ⟨e, he⟩ => h ⟨e, (heligible e).mpr he⟩
    rw [h']
  | some hop =>
    obtain ⟨e, he, rfl, hleast⟩ := exists_eligible_of_autoGateway h
    cases h' : autoGateway c s' ownProtocol family ifindex now with
    | none => exact absurd ⟨e, (heligible e).mp he⟩ (autoGateway_eq_none.mp h')
    | some hop' =>
      obtain ⟨e', he', rfl, hleast'⟩ := exists_eligible_of_autoGateway h'
      have hrank : e.rank = e'.rank :=
        le_antisymm (hleast e' ((heligible e').mpr he')) (hleast' e ((heligible e).mp he))
      simp only [Option.map_some, Hop.gateway_eq_of_rank hrank]

end

end Discover

/-! ## Learning routes -/

/-- The view after it learned routes, each at its instant. -/
def System.learn (scope : Scope) (s : System) (routes : List (ℕ × ObservedRoute)) : System :=
  routes.foldl (fun s e => (s.applyRoute e.1 scope e.2 false).1) s

/-- Routes of different identities are learned independently. -/
theorem System.applyRoute_comm (scope : Scope) (s : System) (e e' : ℕ × ObservedRoute)
    (h : routeKey scope e.2 ≠ routeKey scope e'.2) :
    ((s.applyRoute e.1 scope e.2 false).1.applyRoute e'.1 scope e'.2 false).1
      = ((s.applyRoute e'.1 scope e'.2 false).1.applyRoute e.1 scope e.2 false).1 := by
  simp only [applyRoute]
  by_cases hk : scope.keeps e.2 = true <;> by_cases hk' : scope.keeps e'.2 = true <;>
    simp only [hk, hk', Bool.not_true, Bool.not_false, Bool.false_eq_true, if_false, if_true,
      Std.ExtTreeMap.getElem?_insert, Std.LawfulEqCmp.compare_eq_iff_eq, h, h.symm]
  congr 1
  apply Std.ExtTreeMap.ext_getElem?
  intro k
  simp only [Std.ExtTreeMap.getElem?_insert, Std.LawfulEqCmp.compare_eq_iff_eq]
  by_cases hke : routeKey scope e.2 = k
  · subst hke
    simp [h.symm]
  · simp [hke]

/-- **The order in which routes are learned does not matter.** -/
theorem System.learn_perm (scope : Scope) (s : System) {routes routes' : List (ℕ × ObservedRoute)}
    (hperm : routes.Perm routes')
    (hkeys : (routes'.map fun e => routeKey scope e.2).Nodup) :
    s.learn scope routes = s.learn scope routes' :=
  Lib.foldl_perm_of_slots (applyRoute_comm scope) hperm hkeys s

/-- **The automatic gateway is the specified optimum.**  There is none exactly when no
hop is eligible; otherwise it is the gateway of a least eligible hop, with the onlink
flag of such a hop.  It depends on the eligible hops only, so that routes of different
identities may be learned in any order. -/
theorem autoGateway_optimal (c : Config) (s : System) (ownProtocol : ℕ) (family : Family)
    (ifindex now : ℕ) :
    (Discover.autoGateway c s ownProtocol family ifindex now = none ↔
      ¬ ∃ e, Discover.Eligible c s ownProtocol family ifindex now e) ∧
    (∀ gateway onlink,
      Discover.autoGateway c s ownProtocol family ifindex now = some (gateway, onlink) →
      ∃ e, Discover.Eligible c s ownProtocol family ifindex now e ∧ gateway = some e.gateway ∧
        onlink = e.onlink ∧
        ∀ e', Discover.Eligible c s ownProtocol family ifindex now e' → e.rank ≤ e'.rank) ∧
    (∀ s', (∀ e, Discover.Eligible c s ownProtocol family ifindex now e ↔
        Discover.Eligible c s' ownProtocol family ifindex now e) →
      (Discover.autoGateway c s ownProtocol family ifindex now).map Prod.fst
        = (Discover.autoGateway c s' ownProtocol family ifindex now).map Prod.fst) ∧
    ∀ (scope : Scope) (routes routes' : List (ℕ × ObservedRoute)), routes.Perm routes' →
      (routes'.map fun e => routeKey scope e.2).Nodup →
      Discover.autoGateway c (s.learn scope routes) ownProtocol family ifindex now
        = Discover.autoGateway c (s.learn scope routes') ownProtocol family ifindex now := by
  refine ⟨Discover.autoGateway_eq_none, fun gateway onlink h => ?_,
    fun s' heligible => Discover.gateway_congr heligible,
    fun scope routes routes' hperm hkeys => ?_⟩
  · obtain ⟨e, he, heq, hleast⟩ := Discover.exists_eligible_of_autoGateway h
    obtain ⟨rfl, rfl⟩ := Prod.mk.inj heq
    exact ⟨e, he, rfl, rfl, hleast⟩
  · rw [s.learn_perm scope hperm hkeys]

end Polywan
