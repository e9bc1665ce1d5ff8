import Polywan.Plan.Roles

/-!
# What the planner wants installed

`plan` is a nest of loops over an accumulator.  This module says what comes out:
which roles have a rule (`mem_plan_rules`) and which route stands in which table
(`plan_routes`).

## Main definitions

* `Role.Planned c i f` — the roles that have a rule in a family.
* `tableRoute`, `balancingRoute` — the route of each kind of table.
-/

namespace Polywan

namespace Desired

variable (d : Desired)

@[simp] theorem addRules_routes (rs : List Rule) : (d.addRules rs).routes = d.routes := rfl

@[simp] theorem addRoute_rules (r : Route) : (d.addRoute r).rules = d.rules := rfl

@[simp] theorem addRoute_routes (r : Route) :
    (d.addRoute r).routes = d.routes.insert r.key r := rfl

@[simp] theorem mem_addRules {rs : List Rule} {r : Rule} :
    r ∈ (d.addRules rs).rules ↔ r ∈ d.rules ∨ r ∈ rs := by
  simp [addRules, Std.ExtTreeSet.mem_insertMany_list]

end Desired

/-! ## One uplink -/

/-- The routes of one uplink. -/
def uplinkRoutes (l : Layout) (i : Input) (f : Family) (u : Uplink) : List Route :=
  match i.paths[({ uplink := u.id, family := f } : PathKey)]? with
  | none => []
  | some p =>
    match p.ready with
    | none => []
    | some r =>
      r.route f (l.pathTable u.id) ::
        if p.takesPolicies then
          [r.route f (l.policyBalanceTable u.id), r.route f (l.policyBlockTable u.id)]
        else []

/-- The balancing member of one uplink. -/
def uplinkMember (i : Input) (f : Family) (u : Uplink) : Option NextHop :=
  match i.paths[({ uplink := u.id, family := f } : PathKey)]? with
  | none => none
  | some p =>
    match p.ready with
    | none => none
    | some r =>
      if (i.active[f]?).any (·.contains u.id) then some { r.hop with weight := u.weight } else none

section Uplink

variable (l : Layout) (i : Input) (f : Family)

/-- Whether an address is local to the path of an id. -/
def InputLocal (i : Input) (f : Family) (id : UplinkId) (a : IpAddr) : Prop :=
  ∃ p, i.paths[({ uplink := id, family := f } : PathKey)]? = some p ∧ a ∈ p.localAddresses

private theorem foldl_sourceRules_routes (id : UplinkId) (as : List IpAddr) (d : Desired) :
    (as.foldl (fun d a => d.addRules (l.sourceRules f id a)) d).routes = d.routes := by
  induction as generalizing d with
  | nil => rfl
  | cons a as ih => simp [ih]

private theorem mem_foldl_sourceRules (id : UplinkId) (as : List IpAddr) (d : Desired) (r : Rule) :
    r ∈ (as.foldl (fun d a => d.addRules (l.sourceRules f id a)) d).rules ↔
      r ∈ d.rules ∨ ∃ a ∈ as, r ∈ l.sourceRules f id a :=
  Lib.foldl_iff_or (P := fun d : Desired => r ∈ d.rules)
    (Q := fun a => r ∈ l.sourceRules f id a) (fun d _ => d.mem_addRules) as d

theorem planUplink_routes (acc : Desired × List NextHop) (u : Uplink) :
    (planUplink l i f acc u).1.routes =
      Lib.insertAll Route.key acc.1.routes (uplinkRoutes l i f u) := by
  obtain ⟨d, ms⟩ := acc
  simp only [planUplink, uplinkRoutes]
  cases i.paths[({ uplink := u.id, family := f } : PathKey)]? with
  | none => rfl
  | some p =>
    cases hr : p.ready with
    | none => simp [hr, foldl_sourceRules_routes, Lib.insertAll]
    | some r =>
      cases hh : p.takesPolicies <;>
        simp [hr, hh, foldl_sourceRules_routes, Lib.insertAll]

theorem planUplink_members (acc : Desired × List NextHop) (u : Uplink) :
    (planUplink l i f acc u).2 = acc.2 ++ (uplinkMember i f u).toList := by
  obtain ⟨d, ms⟩ := acc
  simp only [planUplink, uplinkMember]
  cases i.paths[({ uplink := u.id, family := f } : PathKey)]? with
  | none => simp
  | some p =>
    cases hr : p.ready with
    | none => simp [hr]
    | some r =>
      cases (i.active[f]?).any (·.contains u.id) <;> simp [hr]

theorem mem_planUplink_rules (acc : Desired × List NextHop) (u : Uplink) (r : Rule) :
    r ∈ (planUplink l i f acc u).1.rules ↔
      r ∈ acc.1.rules ∨ ∃ a, InputLocal i f u.id a ∧ r ∈ l.sourceRules f u.id a := by
  obtain ⟨d, ms⟩ := acc
  simp only [planUplink, InputLocal]
  cases i.paths[({ uplink := u.id, family := f } : PathKey)]? with
  | none => simp
  | some p =>
    cases hr : p.ready with
    | none => simp [hr, mem_foldl_sourceRules]
    | some r' =>
      cases hh : p.takesPolicies <;> simp [hr, hh, mem_foldl_sourceRules]

/-! ## All uplinks of a family -/

theorem foldl_planUplink_routes (us : List Uplink) (acc : Desired × List NextHop) :
    (us.foldl (planUplink l i f) acc).1.routes =
      Lib.insertAll Route.key acc.1.routes (us.flatMap (uplinkRoutes l i f)) := by
  induction us generalizing acc with
  | nil => rfl
  | cons u us ih =>
    rw [List.foldl_cons, ih, planUplink_routes, List.flatMap_cons, Lib.insertAll_append]

theorem foldl_planUplink_members (us : List Uplink) (acc : Desired × List NextHop) :
    (us.foldl (planUplink l i f) acc).2 = acc.2 ++ us.filterMap (uplinkMember i f) := by
  induction us generalizing acc with
  | nil => simp
  | cons u us ih =>
    rw [List.foldl_cons, ih, planUplink_members, List.append_assoc]
    cases h : uplinkMember i f u <;> simp [h]

theorem mem_foldl_planUplink_rules (us : List Uplink) (acc : Desired × List NextHop) (r : Rule) :
    r ∈ (us.foldl (planUplink l i f) acc).1.rules ↔
      r ∈ acc.1.rules ∨
        ∃ u ∈ us, ∃ a, InputLocal i f u.id a ∧ r ∈ l.sourceRules f u.id a :=
  Lib.foldl_iff_or (P := fun acc : Desired × List NextHop => r ∈ acc.1.rules)
    (fun acc u => mem_planUplink_rules l i f acc u r) us acc

end Uplink

/-! ## The route of each table -/

section Routes

variable (c : Config) (i : Input) (f : Family)

/-- The input of a configured path. -/
def pathInput (id : UplinkId) : Option PathInput :=
  if id ∈ (c.uplinksOf f).map Uplink.id then i.paths[({ uplink := id, family := f } : PathKey)]?
  else none

/-- The state of a configured path that is ready. -/
def readyPath (id : UplinkId) : Option ReadyPath := (pathInput c i f id).bind PathInput.ready

/-- The state of a ready path that may carry policy traffic. -/
def policyPath (id : UplinkId) : Option ReadyPath :=
  (pathInput c i f id).bind fun p => if p.takesPolicies then p.ready else none

/-- The next hops of the balancing table, before they are sorted. -/
def balancingMembers : List NextHop := (c.uplinksOf f).filterMap (uplinkMember i f)

/-- The route of the balancing table. -/
def balancingRoute : Option Route :=
  if (balancingMembers c i f).isEmpty then none
  else some
    { family := f, table := (Layout.of c).balancingTable, source := none,
      nexthops := plainWeight ((balancingMembers c i f).insertionSort (· ≤ ·)) }

/-- The route a table is to hold, if any. -/
def tableRoute : TableRole → Option Route
  | .balancing => balancingRoute c i f
  | .path id => (readyPath c i f id).map fun r => r.route f ((Layout.of c).pathTable id)
  | .policyBalance id =>
    (policyPath c i f id).map fun r => r.route f ((Layout.of c).policyBalanceTable id)
  | .policyBlock id =>
    (policyPath c i f id).map fun r => r.route f ((Layout.of c).policyBlockTable id)

/-- The routes of a family, in the order the planner inserts them. -/
def familyRoutes : List Route :=
  (c.uplinksOf f).flatMap (uplinkRoutes (Layout.of c) i f) ++ (balancingRoute c i f).toList

variable {c i f}

theorem uplinksOf_eq_nil (h : c.manages f = false) : c.uplinksOf f = [] := by
  simp only [Config.manages, List.any_eq_false] at h
  exact List.filter_eq_nil_iff.mpr h

theorem tableRoute_key {τ : TableRole} {r : Route} (h : tableRoute c i f τ = some r) :
    r.key = ⟨f, (Layout.of c).tableOf τ⟩ := by
  cases τ with
  | balancing =>
    simp only [tableRoute, balancingRoute] at h
    split at h
    · simp at h
    · obtain rfl := Option.some.inj h
      rfl
  | path id | policyBalance id | policyBlock id =>
    obtain ⟨rp, -, rfl⟩ := Option.map_eq_some_iff.mp h
    simp [Route.key, ReadyPath.route, Layout.tableOf_path, Layout.tableOf_policyBalance,
      Layout.tableOf_policyBlock]

theorem mem_uplinkRoutes {l : Layout} {u : Uplink} {r : Route} :
    r ∈ uplinkRoutes l i f u ↔
      ∃ p rp, i.paths[({ uplink := u.id, family := f } : PathKey)]? = some p ∧
        p.ready = some rp ∧
        (r = rp.route f (l.pathTable u.id) ∨
          p.takesPolicies = true ∧
            (r = rp.route f (l.policyBalanceTable u.id) ∨
              r = rp.route f (l.policyBlockTable u.id))) := by
  unfold uplinkRoutes
  cases i.paths[({ uplink := u.id, family := f } : PathKey)]? with
  | none => simp
  | some p =>
    cases hr : p.ready with
    | none => simp [hr]
    | some rp =>
      cases hh : p.takesPolicies <;> simp [hr, hh]

theorem pathInput_eq_some {id : UplinkId} {p : PathInput} :
    pathInput c i f id = some p ↔
      (∃ u ∈ c.uplinksOf f, u.id = id) ∧
        i.paths[({ uplink := id, family := f } : PathKey)]? = some p := by
  rw [← List.mem_map, pathInput]
  split <;> simp_all

theorem policyPath_eq_some {id : UplinkId} {rp : ReadyPath} :
    policyPath c i f id = some rp ↔
      ∃ p, pathInput c i f id = some p ∧ p.takesPolicies = true ∧ p.ready = some rp := by
  simp [policyPath, Option.bind_eq_some_iff]

/-- **The routes of a family are those of its tables.** -/
theorem mem_familyRoutes {r : Route} :
    r ∈ familyRoutes c i f ↔ ∃ τ, tableRoute c i f τ = some r := by
  rw [familyRoutes, List.mem_append, Option.mem_toList, List.mem_flatMap]
  constructor
  · rintro (⟨u, hu, hr⟩ | h)
    · obtain ⟨p, rp, hp, hrp, hcase⟩ := mem_uplinkRoutes.mp hr
      have hin : pathInput c i f u.id = some p := pathInput_eq_some.mpr ⟨⟨u, hu, rfl⟩, hp⟩
      rcases hcase with rfl | ⟨hh, rfl | rfl⟩
      · exact ⟨.path u.id, by simp [tableRoute, readyPath, hin, hrp]⟩
      · exact ⟨.policyBalance u.id, by simp [tableRoute, policyPath, hin, hrp, hh]⟩
      · exact ⟨.policyBlock u.id, by simp [tableRoute, policyPath, hin, hrp, hh]⟩
    · exact ⟨.balancing, h⟩
  · rintro ⟨τ, h⟩
    cases τ with
    | balancing => exact .inr h
    | path id =>
      obtain ⟨rp, hready, rfl⟩ := Option.map_eq_some_iff.mp h
      obtain ⟨p, hp, hrp⟩ := Option.bind_eq_some_iff.mp hready
      obtain ⟨⟨u, hu, rfl⟩, hp⟩ := pathInput_eq_some.mp hp
      exact .inl ⟨u, hu, mem_uplinkRoutes.mpr ⟨p, rp, hp, hrp, .inl rfl⟩⟩
    | policyBalance id =>
      obtain ⟨rp, hpolicy, rfl⟩ := Option.map_eq_some_iff.mp h
      obtain ⟨p, hp, hh, hrp⟩ := policyPath_eq_some.mp hpolicy
      obtain ⟨⟨u, hu, rfl⟩, hp⟩ := pathInput_eq_some.mp hp
      exact .inl ⟨u, hu, mem_uplinkRoutes.mpr ⟨p, rp, hp, hrp, .inr ⟨hh, .inl rfl⟩⟩⟩
    | policyBlock id =>
      obtain ⟨rp, hpolicy, rfl⟩ := Option.map_eq_some_iff.mp h
      obtain ⟨p, hp, hh, hrp⟩ := policyPath_eq_some.mp hpolicy
      obtain ⟨⟨u, hu, rfl⟩, hp⟩ := pathInput_eq_some.mp hp
      exact .inl ⟨u, hu, mem_uplinkRoutes.mpr ⟨p, rp, hp, hrp, .inr ⟨hh, .inr rfl⟩⟩⟩

/-- A table determines its route. -/
theorem familyRoutes_inj {f' : Family} {r r' : Route} (h : r ∈ familyRoutes c i f)
    (h' : r' ∈ familyRoutes c i f') (hkey : r.key = r'.key) : r = r' := by
  obtain ⟨τ, h⟩ := mem_familyRoutes.mp h
  obtain ⟨τ', h'⟩ := mem_familyRoutes.mp h'
  rw [tableRoute_key h, tableRoute_key h', TableKey.mk.injEq] at hkey
  obtain ⟨rfl, htab⟩ := hkey
  obtain rfl := (Layout.of c).tableOf_injective htab
  exact Option.some.inj (h.symm.trans h')

end Routes

/-! ## The whole plan -/

section Plan

variable {c : Config} {i : Input} {f : Family}

theorem planFamily_routes (d : Desired) :
    (planFamily c i d f).routes = Lib.insertAll Route.key d.routes (familyRoutes c i f) := by
  unfold planFamily
  cases hm : c.manages f with
  | false =>
    simp [familyRoutes, balancingRoute, balancingMembers, uplinksOf_eq_nil hm, Lib.insertAll]
  | true =>
    have hmem : ((c.uplinksOf f).foldl (planUplink (Layout.of c) i f)
        (d.addRules ((Layout.of c).staticRules f ((c.uplinksOf f).map Uplink.id)), [])).2 =
        balancingMembers c i f := by
      rw [foldl_planUplink_members]
      rfl
    simp only [Bool.not_true, Bool.false_eq_true, if_false, hmem, familyRoutes,
      Lib.insertAll_append, balancingRoute]
    split <;> simp [foldl_planUplink_routes, Lib.insertAll]

theorem plan_routes_eq :
    (plan c i).routes = Lib.insertAll Route.key ∅ (Family.all.flatMap (familyRoutes c i)) := by
  simp [plan, Family.all, planFamily_routes, Lib.insertAll]

/-- Leaving the weight out changes nothing else of a member. -/
theorem mem_plainWeight {hops : List NextHop} {h : NextHop} (hh : h ∈ plainWeight hops) :
    ∃ m ∈ hops, h = { m with weight := h.weight } := by
  match hops, hh with
  | [m], hh =>
    obtain rfl := List.mem_singleton.mp hh
    exact ⟨m, List.mem_singleton_self m, rfl⟩
  | m :: m' :: ms, hh => exact ⟨h, hh, rfl⟩

/-- **The planned routes are the routes of the tables.** -/
theorem plan_routes {k : TableKey} {r : Route} :
    (plan c i).routes[k]? = some r ↔
      ∃ τ, tableRoute c i k.family τ = some r ∧ k.table = (Layout.of c).tableOf τ := by
  rw [plan_routes_eq, Lib.getElem?_insertAll]
  · simp only [List.mem_flatMap, Family.mem_all, true_and, mem_familyRoutes]
    constructor
    · rintro (⟨⟨f, τ, h⟩, rfl⟩ | ⟨h, -⟩)
      · rw [tableRoute_key h]
        exact ⟨τ, h, rfl⟩
      · simp at h
    · rintro ⟨τ, h, hk⟩
      refine .inl ⟨⟨k.family, τ, h⟩, ?_⟩
      rw [tableRoute_key h, ← hk]
  · intro a ha b hb hab
    obtain ⟨f, -, ha⟩ := List.mem_flatMap.mp ha
    obtain ⟨f', -, hb⟩ := List.mem_flatMap.mp hb
    exact familyRoutes_inj ha hb hab

/-- The table of a role holds the route of the role. -/
theorem plan_routes_tableOf (c : Config) (i : Input) (f : Family) (τ : TableRole) :
    (plan c i).routes[(⟨f, (Layout.of c).tableOf τ⟩ : TableKey)]? = tableRoute c i f τ := by
  ext r
  rw [plan_routes]
  constructor
  · rintro ⟨τ', h, hτ⟩
    obtain rfl := (Layout.of c).tableOf_injective hτ
    exact h
  · exact fun h => ⟨τ, h, rfl⟩

/-! ## The rules -/

/-- An address is local to a configured path. -/
def IsLocal (c : Config) (i : Input) (f : Family) (id : UplinkId) (a : IpAddr) : Prop :=
  ∃ p, pathInput c i f id = some p ∧ a ∈ p.localAddresses

/-- The roles that have a rule in a managed family. -/
def Role.Planned (c : Config) (i : Input) (f : Family) : Role → Prop
  | .probeLookup id | .pathLookup id | .policyBalanceLookup id | .policyBlockLookup id =>
    id ∈ (c.uplinksOf f).map Uplink.id
  | .sourceLookup id a => IsLocal c i f id a
  | .sourceGuard a => ∃ id, IsLocal c i f id a
  | .probeGuard | .mainBypass | .pathGuard _ | .policyBlockGuard | .balance | .finalGuard => True

theorem isLocal_iff {id : UplinkId} {a : IpAddr} :
    IsLocal c i f id a ↔ ∃ u ∈ c.uplinksOf f, u.id = id ∧ InputLocal i f u.id a := by
  simp only [IsLocal, pathInput_eq_some, InputLocal]
  constructor
  · rintro ⟨p, ⟨⟨u, hu, rfl⟩, hp⟩, ha⟩
    exact ⟨u, hu, rfl, p, hp, ha⟩
  · rintro ⟨u, hu, rfl, p, hp, ha⟩
    exact ⟨p, ⟨⟨u, hu, rfl⟩, hp⟩, ha⟩

theorem mem_planFamily_rules (d : Desired) (r : Rule) :
    r ∈ (planFamily c i d f).rules ↔
      r ∈ d.rules ∨ c.manages f = true ∧
        ∃ ρ : Role, ρ.Planned c i f ∧ r = ρ.rule (Layout.of c) f := by
  have hrules : ∀ d' : Desired × List NextHop,
      (if d'.2.isEmpty then d'.1 else d'.1.addRoute
        { family := f, table := (Layout.of c).balancingTable, source := none,
          nexthops := plainWeight (d'.2.insertionSort (· ≤ ·)) }).rules = d'.1.rules := by
    intro d'
    split <;> rfl
  unfold planFamily
  cases hm : c.manages f with
  | false => simp
  | true =>
    simp only [Bool.not_true, Bool.false_eq_true, if_false, hrules, mem_foldl_planUplink_rules,
      Desired.mem_addRules, Layout.mem_staticRules, Layout.mem_sourceRules, true_and, or_assoc]
    refine or_congr Iff.rfl ?_
    constructor
    · rintro (⟨ρ, hρ, rfl⟩ | ⟨u, hu, a, ha, rfl | rfl⟩)
      · refine ⟨ρ, ?_, rfl⟩
        cases ρ <;> first | exact hρ | exact hρ.elim
      · exact ⟨.sourceLookup u.id a, isLocal_iff.mpr ⟨u, hu, rfl, ha⟩, rfl⟩
      · exact ⟨.sourceGuard a, ⟨u.id, isLocal_iff.mpr ⟨u, hu, rfl, ha⟩⟩, rfl⟩
    · rintro ⟨ρ, hρ, rfl⟩
      cases ρ with
      | sourceLookup id a =>
        obtain ⟨u, hu, rfl, ha⟩ := isLocal_iff.mp hρ
        exact .inr ⟨u, hu, a, ha, .inl rfl⟩
      | sourceGuard a =>
        obtain ⟨id, hloc⟩ := hρ
        obtain ⟨u, hu, rfl, ha⟩ := isLocal_iff.mp hloc
        exact .inr ⟨u, hu, a, ha, .inr rfl⟩
      | _ => exact .inl ⟨_, by exact hρ, rfl⟩

/-- **The planned rules are the rules of the planned roles.** -/
theorem mem_plan_rules {r : Rule} :
    r ∈ (plan c i).rules ↔
      c.manages r.family = true ∧
        ∃ ρ : Role, ρ.Planned c i r.family ∧ r = ρ.rule (Layout.of c) r.family := by
  have h := Lib.foldl_iff_or (P := fun d : Desired => r ∈ d.rules)
    (Q := fun f => c.manages f = true ∧
      ∃ ρ : Role, ρ.Planned c i f ∧ r = ρ.rule (Layout.of c) f)
    (fun d f => mem_planFamily_rules d r) Family.all {}
  refine h.trans ?_
  constructor
  · rintro (h | ⟨f, -, hm, ρ, hρ, rfl⟩)
    · simp at h
    · exact ⟨hm, ρ, hρ, rfl⟩
  · rintro ⟨hm, hρ⟩
    exact .inr ⟨r.family, Family.mem_all _, hm, hρ⟩

/-- The rule of a role is planned when the role is. -/
theorem rule_mem_plan {ρ : Role} (hm : c.manages f = true) (hρ : ρ.Planned c i f) :
    ρ.rule (Layout.of c) f ∈ (plan c i).rules :=
  mem_plan_rules.mpr ⟨hm, ρ, hρ, rfl⟩

theorem rule_mem_plan_iff {ρ : Role} :
    ρ.rule (Layout.of c) f ∈ (plan c i).rules ↔ c.manages f = true ∧ ρ.Planned c i f := by
  constructor
  · intro h
    obtain ⟨hm, ρ', hρ', heq⟩ := mem_plan_rules.mp h
    rw [Role.rule_injective (Layout.of c) f heq]
    exact ⟨hm, hρ'⟩
  · exact fun h => rule_mem_plan h.1 h.2

end Plan

end Polywan
