import Polywan.Lib.Restrict
import Polywan.Plan.Without
import Polywan.Reconcile.Diff

/-!
# The families of a plan and of a comparison

The planner and the reconciler treat the families apart.  What is planned for one family,
and the operations that concern it, are those of the configuration, the input and the view
restricted to it.

## Main definitions

* `Config.keeping`, `System.keeping`, `Desired.keeping` — restrictions to a family.
* `Op.concerns` — an operation on a rule or a route of a family.

## Main results

* `plan_keeping` — the plan of a family.
* `filter_diff` — the operations of a family, in their order.
-/

namespace Polywan

/-! ## Restrictions -/

/-- An uplink without the path settings and the targets of the other family. -/
def Uplink.keeping (f : Family) (u : Uplink) : Uplink :=
  match f with
  | .v4 => { u with ipv6 := none, health := { u.health with targetsV6 := [] } }
  | .v6 => { u with ipv4 := none, health := { u.health with targetsV4 := [] } }

/-- A configuration without the path settings, the targets and the policies of the other
family. -/
def Config.keeping (f : Family) (c : Config) : Config :=
  { c with
    uplinks := c.uplinks.map (Uplink.keeping f)
    policies := c.policies.filter fun p => p.family = f }

/-- The links, the nexthop objects, and the addresses, routes and rules of a family; an
address is of a family by its message or by itself. -/
def System.keeping (f : Family) (s : System) : System :=
  { s with
    addresses := s.addresses.filter fun _ a => a.family = f || Family.of a.address = f
    routes := s.routes.filter fun _ r => r.family = f
    rules := s.rules.filter fun o => o.family = f }

/-- The rules and routes of a family. -/
def Desired.keeping (f : Family) (d : Desired) : Desired where
  rules := d.rules.filter fun r => r.family = f
  routes := d.routes.filter fun _ r => r.family = f

/-- An operation on a rule or a route of a family; the nftables step is of none. -/
def Op.concerns (f : Family) : Op → Bool
  | .replaceRoute r => r.family = f
  | .addRule r => r.family = f
  | .applyNft => false
  | .deleteRule o => o.family = f
  | .deleteRoute family _ _ => family = f

/-- What a comparison works from, for a family. -/
def DiffInput.keeping (f : Family) (d : DiffInput) : DiffInput :=
  { d with
    families := d.families.filter fun g => g = f
    beforeNft := d.beforeNft.keeping f
    desired := d.desired.keeping f
    nftPending := false }

/-- Two planner inputs agree on the paths and on the active set of a family. -/
structure Input.Agrees (f : Family) (i i' : Input) : Prop where
  paths : ∀ id, i'.paths[(⟨id, f⟩ : PathKey)]? = i.paths[(⟨id, f⟩ : PathKey)]?
  active : i'.active[f]? = i.active[f]?

variable {f : Family}

section Uplink

variable (u : Uplink)

@[simp] theorem Uplink.id_keeping : (u.keeping f).id = u.id := by cases f <;> rfl

@[simp] theorem Uplink.interface_keeping : (u.keeping f).interface = u.interface := by
  cases f <;> rfl

@[simp] theorem Uplink.priority_keeping : (u.keeping f).priority = u.priority := by cases f <;> rfl

@[simp] theorem Uplink.weight_keeping : (u.keeping f).weight = u.weight := by cases f <;> rfl

@[simp] theorem Uplink.path_keeping : (u.keeping f).path f = u.path f := by cases f <;> rfl

end Uplink

/-! ## The plan -/

section Plan

variable {c c' : Config} {i i' : Input}

@[simp] theorem Config.manages_keeping : (c.keeping f).manages f = c.manages f := by
  simp [manages, keeping, Function.comp_def]

@[simp] theorem Config.uplinksOf_keeping :
    (c.keeping f).uplinksOf f = (c.uplinksOf f).map (Uplink.keeping f) := by
  simp [uplinksOf, keeping, List.filter_map, Function.comp_def]

theorem Config.ids_keeping :
    ((c.keeping f).uplinksOf f).map Uplink.id = (c.uplinksOf f).map Uplink.id := by
  simp [Function.comp_def]

theorem Layout.of_keeping : Layout.of (c.keeping f) = Layout.of c := rfl

theorem pathInput_keeping (id : UplinkId) :
    pathInput (c.keeping f) i f id = pathInput c i f id := by
  rw [pathInput, Config.ids_keeping, pathInput]

theorem uplinkMember_keeping (u : Uplink) :
    uplinkMember i f (u.keeping f) = uplinkMember i f u := by
  simp only [uplinkMember, Uplink.id_keeping, Uplink.weight_keeping]

theorem tableRoute_keeping (τ : TableRole) :
    tableRoute (c.keeping f) i f τ = tableRoute c i f τ := by
  have hmembers : balancingMembers (c.keeping f) i f = balancingMembers c i f := by
    simp [balancingMembers, List.filterMap_map, uplinkMember_keeping]
  cases τ <;>
    simp only [tableRoute, balancingRoute, readyPath, policyPath, hmembers, pathInput_keeping,
      Layout.of_keeping]

theorem Role.planned_keeping {ρ : Role} : ρ.Planned (c.keeping f) i f ↔ ρ.Planned c i f := by
  cases ρ <;> simp only [Planned, IsLocal, Config.ids_keeping, pathInput_keeping]

theorem pathInput_agrees (h : i.Agrees f i') (id : UplinkId) :
    pathInput c i' f id = pathInput c i f id := by
  rw [pathInput, h.paths, pathInput]

theorem tableRoute_agrees (h : i.Agrees f i') (τ : TableRole) :
    tableRoute c i' f τ = tableRoute c i f τ := by
  have hmembers : balancingMembers c i' f = balancingMembers c i f := by
    refine List.filterMap_congr fun u _ => ?_
    rw [uplinkMember, h.paths, h.active, uplinkMember]
  cases τ <;>
    simp only [tableRoute, balancingRoute, readyPath, policyPath, hmembers, pathInput_agrees h]

theorem Role.planned_agrees (h : i.Agrees f i') {ρ : Role} :
    ρ.Planned c i' f ↔ ρ.Planned c i f := by
  cases ρ <;> simp only [Planned, IsLocal, pathInput_agrees h]

/-- Every planned route stands in the table it names. -/
theorem key_of_planned {k : TableKey} {r : Route} (h : (plan c i).routes[k]? = some r) :
    r.key = k := by
  obtain ⟨τ, hτ, htable⟩ := plan_routes.mp h
  rw [tableRoute_key hτ, ← htable]

/-- **The plan of a family** depends on the configuration and the input of the family. -/
theorem plan_keeping (hc : c'.keeping f = c.keeping f) (hi : i.Agrees f i') :
    (plan c' i').keeping f = (plan c i).keeping f := by
  have hlayout : Layout.of c' = Layout.of c := by
    rw [← Layout.of_keeping, hc, Layout.of_keeping]
  have hroute : ∀ τ, tableRoute c' i' f τ = tableRoute c i f τ := fun τ => by
    rw [← tableRoute_keeping, hc, tableRoute_keeping, tableRoute_agrees hi]
  have hrule : ∀ ρ : Role, ρ.Planned c' i' f ↔ ρ.Planned c i f := fun ρ => by
    rw [← Role.planned_keeping, hc, Role.planned_keeping, Role.planned_agrees hi]
  have hmanages : c'.manages f = c.manages f := by
    rw [← Config.manages_keeping, hc, Config.manages_keeping]
  rw [Desired.keeping, Desired.keeping, Desired.mk.injEq]
  constructor
  · ext r
    simp only [Std.ExtTreeSet.mem_filter, Std.ExtTreeSet.get_eq, exists_prop, mem_plan_rules,
      decide_eq_true_eq]
    refine and_congr_left fun hr => ?_
    rw [hr, hmanages, hlayout]
    simp only [hrule]
  · apply Std.ExtTreeMap.ext_getElem?
    intro k
    ext r
    simp only [Std.ExtTreeMap.getElem?_filter', Option.filter_eq_some_iff, plan_routes,
      decide_eq_true_eq, hlayout]
    refine and_congr_left fun hr => exists_congr fun τ => ?_
    by_cases hk : k.family = f
    · rw [hk, hroute]
    · -- A route of another table is of another family.
      have hother : ∀ {c i}, tableRoute c i k.family τ ≠ some r := fun h => by
        have hkey := congrArg TableKey.family (tableRoute_key h)
        exact hk (hkey.symm.trans hr)
      simp [hother]

theorem agrees_without (h : i.Agrees f i') {paths paths' : Std.ExtTreeSet PathKey}
    (hpaths : ∀ id, (⟨id, f⟩ : PathKey) ∈ paths' ↔ (⟨id, f⟩ : PathKey) ∈ paths) :
    (without i paths).Agrees f (without i' paths') where
  paths id := by rw [getElem?_without, getElem?_without, h.paths]; simp only [hpaths]
  active := by
    simp only [without, Std.ExtTreeMap.getElem?_map, h.active]
    refine Option.map_congr fun set _ => ?_
    ext id
    simp only [Std.ExtTreeSet.mem_filter, Std.ExtTreeSet.get_eq, exists_prop, Bool.not_eq_true',
      ← Bool.not_eq_true, Std.ExtTreeSet.contains_iff_mem, hpaths]

end Plan

/-! ## The comparison -/

section Diff

variable {s : System} {l : Layout} {protocol : ℕ}

theorem routesIn_keeping (t : ℕ) : (s.keeping f).routesIn f t = s.routesIn f t :=
  Lib.filter_values_filter fun r hr => by simp_all

theorem routePresent_keeping {r : Route} (hr : r.family = f) :
    routePresent (s.keeping f) protocol r = routePresent s protocol r := by
  rw [routePresent, hr, routesIn_keeping, routePresent, hr]

theorem observedRules_keeping :
    observedRules (s.keeping f) l protocol =
      (observedRules s l protocol).filter fun o => o.family = f := by
  rw [observedRules, observedRules, System.keeping, List.filter_filter, List.filter_filter]
  exact List.filter_congr fun o _ => Bool.and_comm ..

theorem observedTables_keeping :
    observedTables (s.keeping f) l protocol =
      (observedTables s l protocol).filter fun k => k.family = f := by
  simp only [observedTables, Lib.filter_toList_insertMany, List.filter_map, System.keeping,
    Lib.values_filter, List.filter_filter]
  congr 4
  exact List.filter_congr fun r _ => Bool.and_comm ..

variable {d : DiffInput}

/-- The route of a table of the family. -/
theorem routes_keeping {D : Desired} (hD : ∀ (k : TableKey) r, D.routes[k]? = some r → r.key = k)
    {k : TableKey} (hk : k.family = f) : (D.keeping f).routes[k]? = D.routes[k]? := by
  rw [Desired.keeping, Std.ExtTreeMap.getElem?_filter']
  cases hr : D.routes[k]? with
  | none => rfl
  | some r =>
    have hfamily : r.family = f := by rw [← hk, ← hD k r hr]; rfl
    simp [hfamily]

theorem contains_keeping {D : Desired} (hD : ∀ (k : TableKey) r, D.routes[k]? = some r → r.key = k)
    {k : TableKey} (hk : k.family = f) : (D.keeping f).routes.contains k = D.routes.contains k := by
  rw [Std.ExtTreeMap.contains_eq_isSome_getElem?, routes_keeping hD hk,
    ← Std.ExtTreeMap.contains_eq_isSome_getElem?]

theorem replacements_keeping :
    (d.replacements s).filter (Op.concerns f) = (d.keeping f).replacements (s.keeping f) := by
  simp only [DiffInput.replacements, List.filter_map, DiffInput.keeping, Desired.keeping,
    Lib.values_filter, List.filter_filter]
  congr 2
  refine List.filter_congr fun e _ => ?_
  by_cases hr : e.2.family = f
  · simp [Op.concerns, hr, routePresent_keeping hr]
  · simp [Op.concerns, hr]

theorem rules_any_keeping {D : Desired} {p : Rule → Bool}
    (hp : ∀ r, p r = true → r.family = f) :
    (D.keeping f).rules.toList.any p = D.rules.toList.any p := by
  rw [Desired.keeping, Std.ExtTreeSet.toList_filter, List.any_filter]
  congr 1
  funext r
  by_cases hr : p r
  · simp [hr, hp r hr]
  · simp [hr]

theorem lookedUp_keeping {k : TableKey} (hk : k.family = f) :
    (d.keeping f).lookedUp k = d.lookedUp k :=
  rules_any_keeping fun r hr => by simp_all

section Keyed

variable (hb : ∀ (k : TableKey) r, d.beforeNft.routes[k]? = some r → r.key = k)
  (hd : ∀ (k : TableKey) r, d.desired.routes[k]? = some r → r.key = k)

include hb in
theorem early_keeping :
    (d.early s).filter (fun k => k.family = f) = (d.keeping f).early (s.keeping f) := by
  simp only [DiffInput.early, DiffInput.keeping, observedTables_keeping, List.filter_filter]
  refine List.filter_congr fun k _ => ?_
  by_cases hk : k.family = f
  · simp [hk, contains_keeping hb hk]
  · simp [hk]

include hd in
theorem stale_keeping :
    (d.stale s).filter (fun k => k.family = f) = (d.keeping f).stale (s.keeping f) := by
  simp only [DiffInput.stale, DiffInput.keeping, observedTables_keeping, List.filter_filter]
  refine List.filter_congr fun k _ => ?_
  by_cases hk : k.family = f
  · simp [hk, contains_keeping hd hk]
  · simp [hk]

include hd in
theorem withdrawn_keeping :
    (d.withdrawn s).filter (fun k => k.family = f) = (d.keeping f).withdrawn (s.keeping f) := by
  rw [DiffInput.withdrawn, DiffInput.withdrawn, ← stale_keeping hd, List.filter_filter,
    List.filter_filter]
  refine List.filter_congr fun k _ => ?_
  by_cases hk : k.family = f
  · simp [hk, lookedUp_keeping hk]
  · simp [hk]

include hd in
theorem late_keeping :
    (d.late s).filter (fun k => k.family = f) = (d.keeping f).late (s.keeping f) := by
  rw [DiffInput.late, DiffInput.late, ← stale_keeping hd, List.filter_filter, List.filter_filter]
  refine List.filter_congr fun k _ => ?_
  by_cases hk : k.family = f
  · simp [hk, lookedUp_keeping hk]
  · simp [hk]

include hb hd in
theorem lateReplacements_keeping :
    (d.lateReplacements s).filter (Op.concerns f) =
      (d.keeping f).lateReplacements (s.keeping f) := by
  simp only [DiffInput.lateReplacements, List.filter_map, List.filter_filter]
  rw [← early_keeping hb]
  simp only [DiffInput.keeping, Desired.keeping, Std.ExtTreeMap.toList_filter, List.filter_filter]
  congr 2
  refine List.filter_congr fun e he => ?_
  by_cases hr : e.2.family = f
  · have hkey := hd e.1 e.2 (Std.ExtTreeMap.mem_toList_iff_getElem?_eq_some.mp he)
    have hk : e.1.family = f := by rw [← hkey]; exact hr
    have hbefore := routes_keeping hb hk
    simp only [Desired.keeping] at hbefore
    simp [Op.concerns, hr, hk, hbefore, routePresent_keeping hr]
  · simp [Op.concerns, hr]

end Keyed

theorem additions_keeping :
    (d.additions s).filter (fun r => r.family = f) = (d.keeping f).additions (s.keeping f) := by
  have : IsTrans Rule fun r r' => installKey r ≤ installKey r' := ⟨fun _ _ _ => le_trans⟩
  have : Std.Total fun r r' : Rule => installKey r ≤ installKey r' := ⟨fun _ _ => le_total _ _⟩
  simp only [DiffInput.additions, Lib.filter_insertionSort, DiffInput.keeping, Desired.keeping,
    Std.ExtTreeSet.toList_filter, List.filter_filter, observedRules_keeping, List.any_filter]
  congr 1
  refine List.filter_congr fun r _ => ?_
  by_cases hr : r.family = f
  · simp only [hr, decide_true, Bool.true_and, Bool.and_true]
    congr 2
    funext o
    by_cases ho : o.family = f
    · simp [ho]
    · simp [ho, hr, ObservedRule.is]
  · simp [hr]

theorem deletions_keeping :
    (d.deletions s).filter (fun o => o.family = f) = (d.keeping f).deletions (s.keeping f) := by
  have : IsTrans ObservedRule fun o o' => removalKey d.layout o ≤ removalKey d.layout o' :=
    ⟨fun _ _ _ => le_trans⟩
  have : Std.Total fun o o' : ObservedRule => removalKey d.layout o ≤ removalKey d.layout o' :=
    ⟨fun _ _ => le_total _ _⟩
  have hlayout : (d.keeping f).layout = d.layout := rfl
  have hprotocol : (d.keeping f).protocol = d.protocol := rfl
  have hdesired : (d.keeping f).desired = d.desired.keeping f := rfl
  simp only [DiffInput.deletions, Lib.filter_insertionSort, hlayout, hprotocol, hdesired,
    observedRules_keeping, List.filter_filter]
  congr 1
  refine List.filter_congr fun o _ => ?_
  by_cases ho : o.family = f
  · have hfamilies : (d.keeping f).families.contains o.family = d.families.contains o.family := by
      simp [DiffInput.keeping, ho]
    have hgoverned : (d.desired.keeping f).rules.toList.any (fun r => r.family = o.family) =
        d.desired.rules.toList.any fun r => r.family = o.family :=
      rules_any_keeping (by simp [ho])
    have hkept : (d.desired.keeping f).rules.toList.any (fun r => o.is r d.protocol) =
        d.desired.rules.toList.any fun r => o.is r d.protocol :=
      rules_any_keeping fun r hr => (ObservedRule.family_of_is hr).symm.trans ho
    rw [hfamilies, hgoverned, hkept]
    simp [ho]
  · simp [ho]

theorem filter_deletion (K : List TableKey) :
    (K.map d.deletion).filter (Op.concerns f) =
      (K.filter fun k => k.family = f).map (d.keeping f).deletion := by
  rw [List.filter_map]
  rfl

/-- **The operations of a family**, in their order, are those of the comparison restricted to
the family. -/
theorem filter_diff (hb : ∀ (k : TableKey) r, d.beforeNft.routes[k]? = some r → r.key = k)
    (hd : ∀ (k : TableKey) r, d.desired.routes[k]? = some r → r.key = k) :
    (diff s d).filter (Op.concerns f) = diff (s.keeping f) (d.keeping f) := by
  have hadd : ((d.additions s).map Op.addRule).filter (Op.concerns f) =
      ((d.keeping f).additions (s.keeping f)).map .addRule := by
    rw [← additions_keeping, List.filter_map]
    rfl
  have hdelete : ((d.deletions s).map Op.deleteRule).filter (Op.concerns f) =
      ((d.keeping f).deletions (s.keeping f)).map .deleteRule := by
    rw [← deletions_keeping, List.filter_map]
    rfl
  have hstep : (if d.nftPending then [Op.applyNft] else []).filter (Op.concerns f) = [] := by
    split <;> rfl
  have hpending : (d.keeping f).nftPending = false := rfl
  simp only [diff, DiffInput.firstOps, DiffInput.lastOps, List.filter_append, hadd, hdelete, hstep,
    hpending, replacements_keeping, lateReplacements_keeping hb hd, filter_deletion,
    early_keeping hb, withdrawn_keeping hd, late_keeping hd, Bool.false_eq_true, if_false]

end Diff

end Polywan
