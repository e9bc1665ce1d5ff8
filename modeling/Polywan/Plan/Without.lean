import Polywan.Plan.Artifacts

/-!
# Holding paths back

The plan of an input with some paths held back: their own tables keep their routes,
their policy tables are empty and they are not balanced over.
-/

namespace Polywan

section Without

variable (c : Config) (i : Input) (paths : Std.ExtTreeSet PathKey) (f : Family)

theorem getElem?_without (k : PathKey) :
    (without i paths).paths[k]? =
      i.paths[k]?.map fun p => if k ∈ paths then { p with healthy := false } else p := by
  simp [without, Std.ExtTreeMap.getElem?_map]

theorem pathInput_without (id : UplinkId) :
    pathInput c (without i paths) f id =
      (pathInput c i f id).map fun p =>
        if (⟨id, f⟩ : PathKey) ∈ paths then { p with healthy := false } else p := by
  unfold pathInput
  split
  · exact getElem?_without i paths ⟨id, f⟩
  · rfl

/-- Readiness is not touched. -/
theorem readyPath_without (id : UplinkId) :
    readyPath c (without i paths) f id = readyPath c i f id := by
  rw [readyPath, readyPath, pathInput_without]
  cases pathInput c i f id with
  | none => rfl
  | some p =>
    by_cases h : (⟨id, f⟩ : PathKey) ∈ paths <;> simp [h]

/-- A path that is held back takes no policy traffic. -/
theorem policyPath_without (id : UplinkId) :
    policyPath c (without i paths) f id =
      if (⟨id, f⟩ : PathKey) ∈ paths then none else policyPath c i f id := by
  rw [policyPath, policyPath, pathInput_without]
  cases pathInput c i f id with
  | none => simp
  | some p =>
    by_cases h : (⟨id, f⟩ : PathKey) ∈ paths <;> simp [h, PathInput.takesPolicies]

/-- A path that is held back is no member. -/
theorem uplinkMember_without (u : Uplink) :
    uplinkMember (without i paths) f u =
      if (⟨u.id, f⟩ : PathKey) ∈ paths then none else uplinkMember i f u := by
  have hactive : ((without i paths).active[f]?).any (·.contains u.id) =
      ((i.active[f]?).any (·.contains u.id) && !decide ((⟨u.id, f⟩ : PathKey) ∈ paths)) := by
    simp only [without, Std.ExtTreeMap.getElem?_map]
    cases i.active[f]? with
    | none => rfl
    | some set =>
      rw [Bool.eq_iff_iff]
      simp only [Option.map_some, Option.any_some, Std.ExtTreeSet.contains_iff_mem,
        Std.ExtTreeSet.mem_filter, Bool.and_eq_true, Bool.not_eq_true', ← Bool.not_eq_true,
        Std.ExtTreeSet.get_eq, exists_prop, decide_eq_true_iff]
  unfold uplinkMember
  rw [getElem?_without, hactive]
  cases i.paths[(⟨u.id, f⟩ : PathKey)]? with
  | none => simp
  | some p =>
    by_cases h : (⟨u.id, f⟩ : PathKey) ∈ paths
    · cases hr : p.ready <;> simp [h, hr]
    · cases hr : p.ready <;> simp [h, hr]

/-- **Holding paths back does not change the path tables.** -/
theorem tableRoute_without_path (id : UplinkId) :
    tableRoute c (without i paths) f (.path id) = tableRoute c i f (.path id) := by
  simp only [tableRoute, readyPath_without]

theorem balancingMembers_without :
    balancingMembers c (without i paths) f =
      ((c.uplinksOf f).filter fun u => (⟨u.id, f⟩ : PathKey) ∉ paths).filterMap
        (uplinkMember i f) := by
  rw [balancingMembers, List.filterMap_filter]
  refine List.filterMap_congr fun u _ => ?_
  rw [uplinkMember_without]
  by_cases h : (⟨u.id, f⟩ : PathKey) ∈ paths <;> simp [h]

/-- Nothing held back changes nothing. -/
theorem without_empty : without i ∅ = i := by
  obtain ⟨ps, active⟩ := i
  simp only [without, Input.mk.injEq]
  constructor
  · apply Std.ExtTreeMap.ext_getElem?
    intro k
    simp
  · apply Std.ExtTreeMap.ext_getElem?
    intro k
    rw [Std.ExtTreeMap.getElem?_map]
    cases active[k]? with
    | none => rfl
    | some set =>
      simp only [Option.map_some, Option.some.injEq]
      apply Std.ExtTreeSet.ext_mem
      simp [Std.ExtTreeSet.mem_filter]

end Without

/-- The path tables are those of the path roles. -/
theorem Layout.isPathTable_tableOf (l : Layout) (τ : TableRole) :
    l.isPathTable (l.tableOf τ) = true ↔ ∃ id, τ = .path id := by
  have hiff : l.isPathTable (l.tableOf τ) = true ↔ 1 ≤ τ.offset ∧ τ.offset < 64 := by
    simp [isPathTable, tableOf]
  rw [hiff]
  cases τ with
  | balancing => simp [TableRole.offset]
  | path id =>
    have := id.num_pos
    have := id.num_le
    simp only [TableRole.offset, TableRole.path.injEq, exists_eq', iff_true]
    omega
  | policyBalance id | policyBlock id =>
    simp only [TableRole.offset, reduceCtorEq, exists_false, iff_false]
    omega

/-- Holding paths back adds no route. -/
theorem plan_of_without {c : Config} {i : Input} {paths : Std.ExtTreeSet PathKey} {k : TableKey}
    {r : Route} (h : (plan c (without i paths)).routes[k]? = some r) :
    ((plan c i).routes[k]?).isSome := by
  obtain ⟨τ, hτ, hk⟩ := plan_routes.mp h
  have hkey : k = ⟨k.family, (Layout.of c).tableOf τ⟩ := TableKey.ext rfl hk
  rw [hkey, plan_routes_tableOf]
  cases τ with
  | path id => rw [← tableRoute_without_path c i paths, hτ, Option.isSome_some]
  | policyBalance id | policyBlock id =>
    simp only [tableRoute, policyPath_without] at hτ ⊢
    split at hτ
    · cases hτ
    · rw [hτ, Option.isSome_some]
  | balancing =>
    -- Members that are left were members before.
    simp only [tableRoute, balancingRoute, balancingMembers_without] at hτ ⊢
    split at hτ
    · cases hτ
    · next hne =>
        rw [if_neg, Option.isSome_some]
        intro hnil
        refine hne (List.isEmpty_iff.mpr (List.eq_nil_of_subset_nil ?_))
        rw [← List.isEmpty_iff.mp hnil]
        exact (List.filter_sublist.filterMap _).subset

/-- Plans with paths held back agree on the path tables. -/
theorem plan_without_path {c : Config} (i : Input) (paths : Std.ExtTreeSet PathKey) {k : TableKey}
    (h : (Layout.of c).isPathTable k.table = true) :
    (plan c (without i paths)).routes[k]? = (plan c i).routes[k]? := by
  ext r
  rw [plan_routes, plan_routes]
  refine exists_congr fun τ => and_congr_left fun hk => ?_
  rw [hk, Layout.isPathTable_tableOf] at h
  obtain ⟨id, rfl⟩ := h
  rw [tableRoute_without_path]

end Polywan
