import Polywan.Reconcile.Execute
import Polywan.Reconcile.Pass

/-!
# Marks before membership

Before the nftables step of a pass, no path without its mark assignments takes
traffic, and none that is gone still does; afterwards it may.

## Main definitions

* `MarksFirst` — what the view holds once they are applied.
-/

namespace Polywan

/-- What the view holds of the program before the nftables step, for a plan with some
paths held back. -/
structure MarksFirst (c : Config) (i : Input) (newPaths : Std.ExtTreeSet PathKey) (s : System) :
    Prop where
  /-- Balancing and policy tables hold the plan without the paths held back. -/
  tables : ∀ r : Route, (Layout.of c).tables r.table = true →
    (Layout.of c).isPathTable r.table = false →
    (s.HoldsRoute c.routing.routeProtocol r ↔
      (plan c (without i newPaths)).routes[r.key]? = some r)
  /-- Every balancing member is that of a configured path not held back. -/
  members : ∀ r : Route, s.HoldsRoute c.routing.routeProtocol r →
    r.table = (Layout.of c).balancingTable → ∀ h ∈ r.nexthops,
      ∃ u ∈ c.uplinksOf r.family, (⟨u.id, r.family⟩ : PathKey) ∉ newPaths ∧
        ∃ m, uplinkMember i r.family u = some m ∧ h = { m with weight := h.weight }
  /-- Every policy route is that of a configured path not held back. -/
  policies : ∀ (r : Route) id, s.HoldsRoute c.routing.routeProtocol r →
    r.table = (Layout.of c).policyBalanceTable id ∨ r.table = (Layout.of c).policyBlockTable id →
    id ∈ (c.uplinksOf r.family).map Uplink.id ∧ (⟨id, r.family⟩ : PathKey) ∉ newPaths
  /-- A configured path that is not ready has lost its route. -/
  lost : ∀ (r : Route), ∀ u ∈ c.uplinksOf r.family, readyPath c i r.family u.id = none →
    r.table = (Layout.of c).pathTable u.id → ¬ s.HoldsRoute c.routing.routeProtocol r
  /-- A ready path that is held back has its route and its lookup rules. -/
  ready : ∀ f id rp, (⟨id, f⟩ : PathKey) ∈ newPaths → readyPath c i f id = some rp →
    s.HoldsRoute c.routing.routeProtocol (rp.route f ((Layout.of c).pathTable id)) ∧
      ∀ r ∈ (Layout.of c).lookupRules f id, s.Holds c.routing.routeProtocol r

section Pass

variable {c : Config} {i : Input} {newPaths : Std.ExtTreeSet PathKey}

/-- The members of a plan with paths held back. -/
theorem mem_balancing_without {f : Family} {r : Route}
    (hr : tableRoute c (without i newPaths) f .balancing = some r) {h : NextHop}
    (hh : h ∈ r.nexthops) :
    ∃ u ∈ c.uplinksOf f, (⟨u.id, f⟩ : PathKey) ∉ newPaths ∧
      ∃ m, uplinkMember i f u = some m ∧ h = { m with weight := h.weight } := by
  simp only [tableRoute, balancingRoute] at hr
  split at hr
  · cases hr
  · obtain rfl := Option.some.inj hr
    obtain ⟨m, hm, heq⟩ := mem_plainWeight hh
    rw [(List.perm_insertionSort _ _).mem_iff, balancingMembers_without] at hm
    obtain ⟨u, hu, hmember⟩ := List.mem_filterMap.mp hm
    rw [List.mem_filter, decide_eq_true_iff] at hu
    exact ⟨u, hu.1, hu.2, m, hmember, heq⟩

/-- Policy routes of a plan with paths held back. -/
theorem configured_of_policy_without {f : Family} {id : UplinkId} {τ : TableRole} {r : Route}
    (hr : tableRoute c (without i newPaths) f τ = some r)
    (hτ : τ = .policyBalance id ∨ τ = .policyBlock id) :
    id ∈ (c.uplinksOf f).map Uplink.id ∧ (⟨id, f⟩ : PathKey) ∉ newPaths := by
  refine ⟨configured_of_route hr (.inr hτ), fun hmem => ?_⟩
  rcases hτ with rfl | rfl <;> simp [tableRoute, policyPath_without, hmem] at hr

theorem manages_of_mem_uplinksOf {f : Family} {u : Uplink} (hu : u ∈ c.uplinksOf f) :
    c.manages f = true := by
  by_contra hnot
  rw [uplinksOf_eq_nil (by simpa using hnot)] at hu
  cases hu

theorem mem_ids_of_path {f : Family} {u : Uplink} (hu : u ∈ c.uplinksOf f) (id : UplinkId)
    (h : TableRole.path u.id = .path id) : id ∈ (c.uplinksOf f).map Uplink.id := by
  obtain rfl := TableRole.path.inj h
  exact List.mem_map_of_mem hu

/-- A desired rule looks up the table of every configured path. -/
theorem lookedUp_of_configured {p : Pass} {f : Family} {u : Uplink}
    (hu : u ∈ p.config.uplinksOf f) :
    p.diffInput.lookedUp ⟨f, (Layout.of p.config).pathTable u.id⟩ = true := by
  refine List.any_eq_true.mpr ⟨(Role.pathLookup u.id).rule (Layout.of p.config) f, ?_, ?_⟩
  · exact Std.ExtTreeSet.mem_toList.mpr (rule_mem_plan (manages_of_mem_uplinksOf hu)
      (List.mem_map_of_mem hu))
  · simp [Role.action]

end Pass

section MarksFirst

variable {c : Config} (hv : c.Valid) (i : Input) (newPaths : Std.ExtTreeSet PathKey) {s : System}
  (hw : s.WellFormed (Scope.of c)) (now : ℕ)
include hv hw

/-- The tables before the nftables step, by role. -/
theorem planned_firstOps (f : Family) (τ : TableRole)
    (hup : ∀ id, τ = .path id → id ∈ (c.uplinksOf f).map Uplink.id) :
    (applyOps now (Scope.of c) c.routing.routeProtocol s
        ((Pass.mk c i newPaths true).diffInput.firstOps s)).planned c.routing.routeProtocol
          ⟨f, (Layout.of c).tableOf τ⟩ = tableRoute c (without i newPaths) f τ := by
  have hd := Pass.proper (p := Pass.mk c i newPaths true) hv
  have hc := Scope.covers_of c
  have ht := (Layout.of c).tables_tableOf τ
  rw [DiffInput.planned_firstOps_eq]
  by_cases hp : (Layout.of c).isPathTable ((Layout.of c).tableOf τ) = true
  · obtain ⟨id, rfl⟩ := ((Layout.of c).isPathTable_tableOf τ).mp hp
    obtain ⟨u, hu, rfl⟩ := List.mem_map.mp (hup id rfl)
    refine (DiffInput.planned_routeOps_of_path (k := ⟨f, (Layout.of c).tableOf (.path u.id)⟩) hw hc
      now hd ht hp (lookedUp_of_configured hu)).trans ?_
    rw [tableRoute_without_path]
    exact plan_routes_tableOf c i f (.path u.id)
  · rw [Bool.not_eq_true] at hp
    refine (DiffInput.planned_routeOps_of_not_path (k := ⟨f, (Layout.of c).tableOf τ⟩) hw hc now hd
      ht hp).trans ?_
    exact plan_routes_tableOf c (without i newPaths) f τ

/-- A route of a table before the nftables step is the one of its role. -/
theorem holdsRoute_firstOps {r : Route} {τ : TableRole}
    (hτ : r.table = (Layout.of c).tableOf τ)
    (hup : ∀ id, τ = .path id → id ∈ (c.uplinksOf r.family).map Uplink.id) :
    (applyOps now (Scope.of c) c.routing.routeProtocol s
        ((Pass.mk c i newPaths true).diffInput.firstOps s)).HoldsRoute c.routing.routeProtocol r ↔
      tableRoute c (without i newPaths) r.family τ = some r := by
  have ht : (Layout.of c).tables r.table = true := hτ ▸ (Layout.of c).tables_tableOf τ
  have hkey : r.key = ⟨r.family, (Layout.of c).tableOf τ⟩ := TableKey.ext rfl hτ
  rw [(hw.applyOps now _ _).holdsRoute_iff (Scope.covers_of c) ht, hkey,
    planned_firstOps hv i newPaths hw now r.family τ hup]

/-- The rules of a configured path are there before the nftables step. -/
theorem holds_firstOps {f : Family} {u : Uplink} (hu : u ∈ c.uplinksOf f) {r : Rule}
    (hr : r ∈ (Layout.of c).lookupRules f u.id) :
    (applyOps now (Scope.of c) c.routing.routeProtocol s
      ((Pass.mk c i newPaths true).diffInput.firstOps s)).Holds c.routing.routeProtocol r := by
  have hd := Pass.desired_proper (p := Pass.mk c i newPaths true) hv
  have hdes : r ∈ (Pass.mk c i newPaths true).diffInput.desired.rules := by
    rw [Layout.lookupRules_eq, List.mem_map] at hr
    obtain ⟨ρ, hρ, rfl⟩ := hr
    refine rule_mem_plan (manages_of_mem_uplinksOf hu) ?_
    simp only [List.mem_cons, List.not_mem_nil, or_false] at hρ
    rcases hρ with rfl | rfl | rfl | rfl <;> exact List.mem_map_of_mem hu
  refine (DiffInput.cut_firstOps hw hd now (Scope.of c)).holds_of_desired hw hd hdes ?_
  rw [DiffInput.mem_additions hd]
  tauto

/-- **Marks come before membership.** -/
theorem marksFirst :
    MarksFirst c i newPaths (applyOps now (Scope.of c) c.routing.routeProtocol s
      ((Pass.mk c i newPaths true).diffInput.firstOps s)) := by
  have hd := Pass.proper (p := Pass.mk c i newPaths true) hv
  have hc := Scope.covers_of c
  refine ⟨fun r ht hp => ?_, fun r hr hτ h hh => ?_, fun r id hr hτ => ?_,
    fun r u hu hnone hτ hr => ?_, fun f id rp hmem hrp => ?_⟩
  · rw [(hw.applyOps now _ _).holdsRoute_iff hc ht, DiffInput.planned_firstOps_eq]
    rw [show (applyOps now (Scope.of c) c.routing.routeProtocol s
      ((Pass.mk c i newPaths true).diffInput.routeOps s)).planned c.routing.routeProtocol r.key = _
      from DiffInput.planned_routeOps_of_not_path hw hc now hd ht hp]
    rfl
  · rw [holdsRoute_firstOps hv i newPaths hw now (τ := .balancing) hτ (by simp)] at hr
    exact mem_balancing_without hr hh
  · rcases hτ with hτ | hτ
    · rw [← Layout.tableOf_policyBalance] at hτ
      rw [holdsRoute_firstOps hv i newPaths hw now hτ (by simp)] at hr
      exact configured_of_policy_without hr (.inl rfl)
    · rw [← Layout.tableOf_policyBlock] at hτ
      rw [holdsRoute_firstOps hv i newPaths hw now hτ (by simp)] at hr
      exact configured_of_policy_without hr (.inr rfl)
  · rw [holdsRoute_firstOps hv i newPaths hw now (τ := .path u.id) hτ (mem_ids_of_path hu),
      tableRoute_without_path, tableRoute, hnone] at hr
    cases hr
  · obtain ⟨q, hq, -⟩ := Option.bind_eq_some_iff.mp hrp
    obtain ⟨⟨u, hu, rfl⟩, -⟩ := pathInput_eq_some.mp hq
    refine ⟨?_, fun r hr => holds_firstOps hv i newPaths hw now hu hr⟩
    rw [holdsRoute_firstOps hv i newPaths hw now (τ := .path u.id) rfl (mem_ids_of_path hu),
      tableRoute_without_path]
    exact congrArg (Option.map _) hrp

end MarksFirst

/-- **Marks before membership inside one pass.**  From every view, the operations
before the nftables step leave, in the balancing and policy tables, exactly the
planned routes without the paths held back; paths that are not ready have lost their
own route, and those held back have theirs, with their rules. -/
theorem marks_before_membership {c : Config} (hv : c.Valid) (i : Input)
    (newPaths : Std.ExtTreeSet PathKey) (now : ℕ) (v : View (Scope.of c)) :
    MarksFirst c i newPaths (applyOps now (Scope.of c) c.routing.routeProtocol v.system
      (beforeStep (diff v.system (Pass.mk c i newPaths true).diffInput))) := by
  rw [beforeStep_diff _ rfl]
  exact marksFirst hv i newPaths v.wellFormed now

namespace Sample

/-- Both paths of the sample. -/
def bothPaths : Std.ExtTreeSet PathKey :=
  ((∅ : Std.ExtTreeSet PathKey).insert ⟨id1, .v4⟩).insert ⟨id2, .v4⟩

/-- A view whose balancing table already uses the first path. -/
def memberView : View (Scope.of config) :=
  (View.empty (Scope.of config)).apply 0
    (.newRoute (routeMessage ((ready 3 (.v4 0x0a000002)).route .v4 1000) 249))

/-- The same next hop, under another metric than the program's. -/
def strayView : View (Scope.of config) :=
  (View.empty (Scope.of config)).apply 0
    (.newRoute
      { header := { addressFamily := .inet, protocol := 249 }
        attributes := [.table 1000, .priority 200, .gateway (.ip (.v4 0x0a000001)), .oif 3] })

end Sample

/-- The balancing table of the sample is emptied before the step. -/
theorem marks_before_membership_sample :
    (Sample.memberView.system.routesIn .v4 1000).length = 1 ∧
      MarksFirst Sample.config Sample.input Sample.bothPaths
        (applyOps 0 (Scope.of Sample.config) 249 Sample.memberView.system
          (beforeStep (diff Sample.memberView.system
          (Pass.mk Sample.config Sample.input Sample.bothPaths true).diffInput))) :=
  ⟨by decide +kernel, marks_before_membership Sample.config_valid Sample.input Sample.bothPaths 0
    Sample.memberView⟩

/-- A tagged route with another metric than the planned ones stays where it is, though
nothing is planned for its table before the step. -/
theorem stray_route_left :
    (plan Sample.config (without Sample.input Sample.bothPaths)).routes[
        (⟨.v4, 1000⟩ : TableKey)]? = none ∧
      ((applyOps 0 (Scope.of Sample.config) 249 Sample.strayView.system
        (beforeStep (diff Sample.strayView.system
          (Pass.mk Sample.config Sample.input Sample.bothPaths true).diffInput))).routesIn
            .v4 1000).map (fun o => (o.protocol, o.metric)) = [(249, 200)] := by
  decide +kernel

end Polywan
