import Polywan.Discover
import Polywan.Lib.Fold

/-!
# What discovery reads

Discovery of a path reads the links, the nexthop objects, the addresses of its family, the
connected routes of the main table and the default routes of the discovery tables.  Views
that agree there are discovered alike.

## Main definitions

* `System.onLink` — the usable addresses of an interface.
* `PathAgrees` — two views agree for one path.
-/

namespace Polywan

open Discover

/-- The usable addresses of a family on an interface. -/
def System.onLink (s : System) (family : Family) (ifindex : ℕ) : List ObservedAddress :=
  (s.addresses.toList.map Prod.snd).filter fun a =>
    a.index = ifindex && a.family = family && usable a

/-- Two views agree on what discovery reads for a path. -/
structure PathAgrees (tables : List ℕ) (ownProtocol now : ℕ) (family : Family) (p : PathSettings)
    (s s' : System) : Prop where
  links : s'.links = s.links
  nexthops : s'.nexthops = s.nexthops
  onLink : ∀ i, s'.onLink family i = s.onLink family i
  elsewhere : ∀ i, staticSourceElsewhere s' p i = staticSourceElsewhere s p i
  source : ∀ l, discoverSource s' p l = discoverSource s p l
  connected : ∀ i gw, connected s' family i gw = connected s family i gw
  candidates : ∀ t ∈ tables,
    candidates s' ownProtocol family t now = candidates s ownProtocol family t now

section Path

variable {c c' : Config} {s s' : System} {ownProtocol now : ℕ} {family : Family} {p : PathSettings}
  (htables : c'.routing.discoveryTables = c.routing.discoveryTables)
  (h : PathAgrees c.routing.discoveryTables ownProtocol now family p s s')
include htables h

theorem rankedHops_congr (ifindex : ℕ) :
    rankedHops c' s' ownProtocol family ifindex now =
      rankedHops c s ownProtocol family ifindex now := by
  unfold rankedHops
  rw [htables]
  refine List.flatMap_congr fun e he => ?_
  obtain ⟨table, order⟩ := e
  have ht : table ∈ c.routing.discoveryTables := List.fst_mem_of_mem_zipIdx he
  simp only [h.candidates table ht, h.nexthops]

theorem groupRoutes_congr (ifindex : ℕ) :
    groupRoutes c' s' ownProtocol family ifindex now =
      groupRoutes c s ownProtocol family ifindex now := by
  unfold groupRoutes
  rw [htables, Bool.eq_iff_iff]
  simp only [List.any_eq_true]
  refine exists_congr fun t => and_congr_right fun ht => ?_
  rw [h.candidates t ht, h.nexthops]

/-- **Views that agree for a path are discovered alike.** -/
theorem discoverPath_congr {u u' : Uplink} (hu : u'.interface = u.interface) :
    discoverPath c' s' ownProtocol u' family p now =
      discoverPath c s ownProtocol u family p now := by
  have hlink : s'.linkByName u'.interface = s.linkByName u.interface := by
    rw [System.linkByName, h.links, hu]
    rfl
  unfold discoverPath
  rw [hlink]
  cases hl : s.linkByName u.interface with
  | none => simp only [h.elsewhere]
  | some link =>
    have honLink := h.onLink link.index
    unfold System.onLink at honLink
    have hauto : autoGateway c' s' ownProtocol family link.index now =
        autoGateway c s ownProtocol family link.index now := by
      rw [autoGateway, rankedHops_congr htables h]
      rfl
    have hhop : ∀ hop, discoverHop s' family p link hop = discoverHop s family p link hop := by
      intro hop
      simp only [discoverHop, h.connected]
    simp only [honLink, h.elsewhere, h.source, hauto, hhop, groupRoutes_congr htables h]

end Path

/-! ## Views that hold the same routes -/

/-- A route stands under its own table and destination. -/
def System.Keyed (s : System) : Prop :=
  ∀ (κ : RouteKey) r, s.routes[κ]? = some r →
    r.family = κ.family ∧ r.table = κ.table ∧ r.destination = κ.destination

theorem System.WellFormed.keyed {scope : Scope} {s : System} (h : s.WellFormed scope) :
    s.Keyed := by
  intro κ r hr
  rw [← h.route_key κ r hr]
  exact ⟨rfl, rfl, rfl⟩

/-- The identities of the routes that discovery reads for a family: the default routes of
the discovery tables and the routes to networks of the main table. -/
def RouteKey.Discoverable (tables : List ℕ) (family : Family) (κ : RouteKey) : Prop :=
  κ.family = family ∧
    (κ.destination = none ∧ κ.table ∈ tables ∨ κ.destination.isSome ∧ κ.table = tableMain)

section Routes

variable {s s' : System} (hs : s.Keyed) (hs' : s'.Keyed) {tables : List ℕ} {family : Family}
  (h : ∀ κ : RouteKey, κ.Discoverable tables family → s'.routes[κ]? = s.routes[κ]?)
include hs hs' h

theorem candidates_congr (ownProtocol now : ℕ) {t : ℕ} (ht : t ∈ tables) :
    candidates s' ownProtocol family t now = candidates s ownProtocol family t now := by
  unfold candidates System.routesIn
  rw [List.filter_filter, List.filter_filter]
  have hkey : ∀ s : System, s.Keyed → ∀ (κ : RouteKey) (r : ObservedRoute), s.routes[κ]? = some r →
      (r.isDefault && r.kind = .unicast && r.protocol ≠ ownProtocol && !r.expired now
        && (r.family = family && r.table = t)) = true → κ.Discoverable tables family := by
    intro s hs κ r hr hread
    obtain ⟨hf, htable, hdest⟩ := hs κ r hr
    simp only [Bool.and_eq_true, decide_eq_true_eq, ObservedRoute.isDefault,
      Option.isNone_iff_eq_none] at hread
    obtain ⟨⟨⟨⟨hdefault, -⟩, -⟩, -⟩, hfamily, hin⟩ := hread
    exact ⟨hf ▸ hfamily, .inl ⟨hdest ▸ hdefault, htable ▸ hin ▸ ht⟩⟩
  exact Lib.filter_values_congr (hkey s hs) (hkey s' hs') h

theorem connected_congr (ifindex : ℕ) (gw : IpAddr) :
    connected s' family ifindex gw = connected s family ifindex gw := by
  -- Routes without a destination connect nothing.
  have hread : ∀ s : System, connected s family ifindex gw =
      ((s.routes.toList.map Prod.snd).filter fun r =>
        r.family = family && r.table = tableMain && r.destination.isSome).any fun r =>
          r.destination.any fun d =>
            (r.nexthops.any fun h => h.ifindex = ifindex && h.gateway.isNone)
              && contains d.1 d.2 gw := by
    intro s
    unfold connected System.routesIn
    rw [List.any_filter, List.any_filter]
    congr 1
    funext r
    cases r.destination <;> simp
  have hkey : ∀ s : System, s.Keyed → ∀ (κ : RouteKey) (r : ObservedRoute), s.routes[κ]? = some r →
      (r.family = family && r.table = tableMain && r.destination.isSome) = true →
      κ.Discoverable tables family := by
    intro s hs κ r hr hq
    obtain ⟨hf, htable, hdest⟩ := hs κ r hr
    simp only [Bool.and_eq_true, decide_eq_true_eq] at hq
    exact ⟨hf ▸ hq.1.1, .inr ⟨hdest ▸ hq.2, htable ▸ hq.1.2⟩⟩
  rw [hread, hread, Lib.filter_values_congr (hkey s hs) (hkey s' hs') h]

end Routes

/-- **Views that differ in other routes are discovered alike.** -/
theorem discover_congr {c : Config} {s s' : System} (hs : s.Keyed) (hs' : s'.Keyed)
    (hlinks : s'.links = s.links) (haddresses : s'.addresses = s.addresses)
    (hnexthops : s'.nexthops = s.nexthops)
    (h : ∀ (f : Family) (κ : RouteKey), κ.Discoverable c.routing.discoveryTables f →
      s'.routes[κ]? = s.routes[κ]?) (ownProtocol now : ℕ) :
    discover c s' ownProtocol now = discover c s ownProtocol now := by
  have hpath : ∀ f p, PathAgrees c.routing.discoveryTables ownProtocol now f p s s' := by
    intro f p
    refine ⟨hlinks, hnexthops, fun i => ?_, fun i => ?_, fun l => ?_, connected_congr hs hs' (h f),
      fun t ht => candidates_congr hs hs' (h f) _ _ ht⟩
    · rw [System.onLink, haddresses, System.onLink]
    · simp only [staticSourceElsewhere, haddresses]
    · simp only [discoverSource, haddresses]
  have hpaths : discoverPaths c s' ownProtocol now = discoverPaths c s ownProtocol now := by
    unfold discoverPaths
    congr 1
    refine List.flatMap_congr fun u _ => List.filterMap_congr fun f _ => ?_
    refine Option.map_congr fun p _ => ?_
    rw [discoverPath_congr rfl (hpath f p) rfl]
  rw [discover, hpaths, discover]

end Polywan
