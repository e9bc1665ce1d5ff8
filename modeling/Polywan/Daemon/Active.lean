import Polywan.Daemon.Evaluate
import Polywan.Daemon.Pass
import Polywan.Discover.Paths
import Polywan.Plan.Artifacts

/-!
# Active sets along evaluations

The decision table of the active set, stated on the uplinks of the configuration, and
what follows for the routes of a plan: the balancing route has the selected uplinks, the
policy tables the ready, healthy and undrained ones.  Only the active sets are remembered
from one evaluation to the next; everything else may change in between.

## Main definitions

* `Config.Selects` — the decision table.
* `Daemon.Decided` — what one evaluation makes of it.
* `Daemon.activeAfter` — the active sets after a sequence of evaluations.

## Main results

* `Daemon.decided_run` — every evaluation of a sequence follows the table.
-/

namespace Polywan

/-! ## The decision table -/

/-- The uplinks of the lowest priority number among those with a property. -/
def LowestPriority (P : Uplink → Prop) (u : Uplink) : Prop :=
  P u ∧ ∀ v, P v → ∀ n ∈ u.priority, ∀ m ∈ v.priority, n ≤ m

namespace Config

variable (c : Config) (paths : Std.ExtTreeMap PathKey PathInput) (f : Family)

/-- A ready, undrained uplink with a priority. -/
def Eligible (u : Uplink) : Prop :=
  u ∈ c.uplinks ∧ u.priority.isSome = true ∧
    ∃ p, paths[(⟨u.id, f⟩ : PathKey)]? = some p ∧ p.ready.isSome = true ∧ p.drained = false

/-- An eligible uplink whose path is up. -/
def EligibleHealthy (u : Uplink) : Prop :=
  c.Eligible paths f u ∧ ∃ p, paths[(⟨u.id, f⟩ : PathKey)]? = some p ∧ p.healthy = true

/-- The decision table: the healthy candidates of the lowest priority number; without one,
what the policy says. -/
def Selects (previous : Std.ExtTreeSet UplinkId) (u : Uplink) : Prop :=
  (∃ v, c.EligibleHealthy paths f v) ∧ LowestPriority (c.EligibleHealthy paths f) u ∨
  (¬ ∃ v, c.EligibleHealthy paths f v) ∧
    match c.routing.allDownPolicy with
    | .ready => LowestPriority (c.Eligible paths f) u
    | .keep => c.Eligible paths f u ∧ u.id ∈ previous

variable {c paths f}

/-- Only candidates are selected. -/
theorem Selects.eligible {previous : Std.ExtTreeSet UplinkId} {u : Uplink}
    (h : c.Selects paths f previous u) : c.Eligible paths f u := by
  obtain ⟨-, ⟨h, -⟩, -⟩ | ⟨-, h⟩ := h
  · exact h
  · cases hp : c.routing.allDownPolicy with
    | ready =>
      simp only [hp] at h
      exact h.1
    | keep =>
      simp only [hp] at h
      exact h.1

end Config

/-- The next hop by which an uplink stands in the balancing route. -/
def shareOf (paths : Std.ExtTreeMap PathKey PathInput) (f : Family) (u : Uplink) :
    Option NextHop :=
  (paths[(⟨u.id, f⟩ : PathKey)]?.bind PathInput.ready).map fun r =>
    { r.hop with weight := u.weight }

theorem uplinkMember_eq (i : Input) (f : Family) (u : Uplink) :
    uplinkMember i f u =
      if (i.active[f]?).any (·.contains u.id) then shareOf i.paths f u else none := by
  unfold uplinkMember shareOf
  cases i.paths[(⟨u.id, f⟩ : PathKey)]? with
  | none => simp
  | some p => cases hr : p.ready <;> simp [hr]

theorem balancingMembers_eq (c : Config) (i : Input) (f : Family) :
    balancingMembers c i f =
      ((c.uplinksOf f).filter fun u => (i.active[f]?).any (·.contains u.id)).filterMap
        (shareOf i.paths f) := by
  rw [balancingMembers, List.filterMap_filter]
  exact List.filterMap_congr fun u _ => uplinkMember_eq i f u

namespace Daemon

section Evaluation

variable {d : Daemon} {paths : Std.ExtTreeMap PathKey PathInput} {now : ℕ} {f : Family}

theorem mem_candidates_iff {c : Candidate} :
    c ∈ d.candidates paths f ↔
      ∃ u, d.cfg.Eligible paths f u ∧ u.id = c.uplink ∧ u.priority = some c.priority ∧
        ∃ p, paths[(⟨u.id, f⟩ : PathKey)]? = some p ∧ p.healthy = c.healthy := by
  obtain ⟨id, priority, healthy⟩ := c
  simp only [candidates, List.mem_filterMap, Config.Eligible]
  constructor
  · rintro ⟨u, hu, hsome⟩
    split at hsome
    · next p n hp hn =>
        simp only [Option.ite_none_right_eq_some, Bool.and_eq_true, Bool.not_eq_true',
          Option.some.injEq, Candidate.mk.injEq] at hsome
        obtain ⟨⟨hready, hdrained⟩, rfl, rfl, rfl⟩ := hsome
        exact ⟨u, ⟨hu, by simp [hn], p, hp, hready, hdrained⟩, rfl, hn, p, hp, rfl⟩
    · cases hsome
  · rintro ⟨u, ⟨hu, -, p, hp, hready, hdrained⟩, rfl, hn, p', hp', rfl⟩
    obtain rfl := Option.some.inj (hp.symm.trans hp')
    exact ⟨u, hu, by simp [hp, hn, hready, hdrained]⟩

/-- The candidates of an eligible uplink. -/
theorem exists_candidate {u : Uplink} (h : d.cfg.Eligible paths f u) :
    ∃ c ∈ d.candidates paths f, c.uplink = u.id ∧ u.priority = some c.priority ∧
      ∃ p, paths[(⟨u.id, f⟩ : PathKey)]? = some p ∧ p.healthy = c.healthy := by
  obtain ⟨n, hn⟩ := Option.isSome_iff_exists.mp h.2.1
  obtain ⟨-, -, p, hp, -⟩ := id h
  exact ⟨⟨u.id, n, p.healthy⟩, mem_candidates_iff.mpr ⟨u, h, rfl, hn, p, hp, rfl⟩, rfl, hn,
    p, hp, rfl⟩

/-- A healthy candidate stands for a healthy uplink. -/
theorem exists_uplink_of_healthy {c : Candidate} (hc : c ∈ d.candidates paths f)
    (hhealthy : c.healthy = true) :
    ∃ u, d.cfg.EligibleHealthy paths f u ∧ u.id = c.uplink ∧ u.priority = some c.priority := by
  obtain ⟨u, hu, hid, hn, p, hp, hsame⟩ := mem_candidates_iff.mp hc
  exact ⟨u, ⟨hu, p, hp, hsame.trans hhealthy⟩, hid, hn⟩

/-- A healthy uplink has a healthy candidate. -/
theorem exists_healthy {u : Uplink} (h : d.cfg.EligibleHealthy paths f u) :
    ∃ c ∈ (d.candidates paths f).filter Candidate.healthy,
      c.uplink = u.id ∧ u.priority = some c.priority := by
  obtain ⟨hu, p, hp, hhealthy⟩ := h
  obtain ⟨c, hc, hid, hn, p', hp', hsame⟩ := exists_candidate hu
  obtain rfl := Option.some.inj (hp.symm.trans hp')
  exact ⟨c, List.mem_filter.mpr ⟨hc, hsame.symm.trans hhealthy⟩, hid, hn⟩

/-- The best group of the candidates that stand for uplinks with a property. -/
theorem mem_bestGroup_of {pool : List Candidate} {P : Uplink → Prop}
    (hpool : ∀ c ∈ pool, ∃ u, P u ∧ u.id = c.uplink ∧ u.priority = some c.priority)
    (hP : ∀ u, P u → ∃ c ∈ pool, c.uplink = u.id ∧ u.priority = some c.priority)
    {id : UplinkId} : id ∈ bestGroup pool ↔ ∃ u, LowestPriority P u ∧ u.id = id := by
  rw [mem_bestGroup_iff]
  constructor
  · rintro ⟨c, hc, rfl, hleast⟩
    obtain ⟨u, hu, hid, hn⟩ := hpool c hc
    refine ⟨u, ⟨hu, ?_⟩, hid⟩
    intro v hv n hn' m hm
    obtain ⟨c', hc', -, hm'⟩ := hP v hv
    obtain rfl : c.priority = n := Option.some.inj (hn.symm.trans hn')
    obtain rfl : c'.priority = m := Option.some.inj (hm'.symm.trans hm)
    exact hleast c' hc'
  · rintro ⟨u, ⟨hu, hleast⟩, rfl⟩
    obtain ⟨c, hc, hid, hn⟩ := hP u hu
    refine ⟨c, hc, hid, ?_⟩
    intro c' hc'
    obtain ⟨v, hv, -, hm⟩ := hpool c' hc'
    exact hleast v hv c.priority hn c'.priority hm

/-- **Selection follows the decision table.** -/
theorem mem_select_iff {id : UplinkId} :
    id ∈ d.select paths f ↔
      ∃ u, d.cfg.Selects paths f ((d.active[f]?).getD ∅) u ∧ u.id = id := by
  have hany : (d.candidates paths f).any Candidate.healthy = true ↔
      ∃ v, d.cfg.EligibleHealthy paths f v := by
    rw [List.any_eq_true]
    constructor
    · rintro ⟨c, hc, hhealthy⟩
      obtain ⟨u, hu, -⟩ := exists_uplink_of_healthy hc hhealthy
      exact ⟨u, hu⟩
    · rintro ⟨v, hv⟩
      obtain ⟨c, hc, -⟩ := exists_healthy hv
      exact ⟨c, (List.mem_filter.mp hc).1, (List.mem_filter.mp hc).2⟩
  unfold select activeSet Config.Selects
  by_cases hh : ∃ v, d.cfg.EligibleHealthy paths f v
  · rw [if_pos (hany.mpr hh), mem_bestGroup_of (P := d.cfg.EligibleHealthy paths f)]
    · simp [hh]
    · intro c hc
      obtain ⟨hc, hhealthy⟩ := List.mem_filter.mp hc
      exact exists_uplink_of_healthy hc hhealthy
    · exact fun u => exists_healthy
  · rw [if_neg fun h => hh (hany.mp h)]
    cases d.cfg.routing.allDownPolicy with
    | ready =>
      simp only [hh, false_and, not_false_eq_true, true_and, false_or]
      apply mem_bestGroup_of
      · intro c hc
        obtain ⟨u, hu, hid, hn, -⟩ := mem_candidates_iff.mp hc
        exact ⟨u, hu, hid, hn⟩
      · intro u hu
        obtain ⟨c, hc, hid, hn, -⟩ := exists_candidate hu
        exact ⟨c, hc, hid, hn⟩
    | keep =>
      simp only [hh, false_and, not_false_eq_true, true_and, false_or, Std.ExtTreeSet.mem_ofList,
        List.contains_eq_mem, decide_eq_true_iff, List.mem_filter, List.mem_map]
      constructor
      · rintro ⟨⟨c, hc, rfl⟩, hprev⟩
        obtain ⟨u, hu, hid, -⟩ := mem_candidates_iff.mp hc
        exact ⟨u, ⟨hu, hid ▸ Std.ExtTreeSet.contains_iff_mem.mp hprev⟩, hid⟩
      · rintro ⟨u, ⟨hu, hprev⟩, rfl⟩
        obtain ⟨c, hc, hid, -⟩ := exists_candidate hu
        exact ⟨⟨c, hc, hid⟩, Std.ExtTreeSet.contains_iff_mem.mpr hprev⟩

end Evaluation

/-! ## One evaluation -/

/-- What an evaluation and its plan make of a family: the active set and the balancing
route have exactly the selected uplinks, the policy tables exactly the ready, healthy and
undrained ones. -/
structure Decided (d : Daemon) (now : ℕ) (f : Family) : Prop where
  active : d.cfg.manages f = true → ∀ id, id ∈ ((d.evaluate now).active[f]?).getD ∅ ↔
    ∃ u, d.cfg.Selects (d.evaluateInput now).paths f ((d.active[f]?).getD ∅) u ∧ u.id = id
  balancing : ∃ us : List Uplink, us.Nodup ∧
    (∀ u, u ∈ us ↔
      d.cfg.Selects (d.evaluateInput now).paths f ((d.active[f]?).getD ∅) u) ∧
    (us.filterMap (shareOf (d.evaluateInput now).paths f)).length = us.length ∧
    (plan d.cfg (d.evaluateInput now)).routes[
        (⟨f, (Layout.of d.cfg).balancingTable⟩ : TableKey)]? =
      if us = [] then none
      else some
        { family := f, table := (Layout.of d.cfg).balancingTable, source := none
          nexthops := plainWeight
            ((us.filterMap (shareOf (d.evaluateInput now).paths f)).insertionSort (· ≤ ·)) }
  policy : ∀ id, ∀ table ∈ [(Layout.of d.cfg).policyBalanceTable id,
      (Layout.of d.cfg).policyBlockTable id],
    ((plan d.cfg (d.evaluateInput now)).routes[(⟨f, table⟩ : TableKey)]?).isSome = true ↔
      ∃ p, (d.evaluateInput now).paths[(⟨id, f⟩ : PathKey)]? = some p ∧
        p.ready.isSome = true ∧ p.healthy = true ∧ p.drained = false

section Decided

variable {d : Daemon} {now : ℕ} {f : Family} (hv : d.cfg.Valid)
include hv

/-- The planner input has configured paths only. -/
theorem configured_of_evaluateInput {k : PathKey} {p : PathInput}
    (hp : (d.evaluateInput now).paths[k]? = some p) :
    ∃ u ∈ d.cfg.uplinksOf k.family, u.id = k.uplink := by
  rw [evaluateInput, Std.ExtTreeMap.getElem?_map] at hp
  obtain ⟨raw, hraw, -⟩ := Option.map_eq_some_iff.mp hp
  exact configured_of_discover hv hraw

theorem selects_iff {u : Uplink} :
    d.cfg.Selects (d.evaluateInput now).paths f ((d.active[f]?).getD ∅) u ↔
      u ∈ d.cfg.uplinksOf f ∧
        ((d.evaluateInput now).active[f]?).any (·.contains u.id) = true := by
  have hmem : ∀ {u v : Uplink}, u ∈ d.cfg.uplinks → v ∈ d.cfg.uplinks → u.id = v.id → u = v :=
    fun hu hv' hid => List.inj_on_of_nodup_map hv.nodup_ids hu hv' hid
  rw [active_evaluateInput]
  constructor
  · intro h
    obtain ⟨hu, -, p, hp, -⟩ := h.eligible
    obtain ⟨v, hv', hid⟩ := configured_of_evaluateInput hv hp
    obtain rfl : v = u := hmem (List.mem_of_mem_filter hv') hu hid
    have hmanages : d.cfg.manages f = true := by
      rw [Config.manages, List.any_eq_true]
      exact ⟨v, hu, (List.mem_filter.mp hv').2⟩
    refine ⟨hv', ?_⟩
    rw [if_pos hmanages, Option.any_some, Std.ExtTreeSet.contains_iff_mem]
    exact mem_select_iff.mpr ⟨v, h, rfl⟩
  · rintro ⟨hu, hactive⟩
    split at hactive
    · rw [Option.any_some, Std.ExtTreeSet.contains_iff_mem] at hactive
      obtain ⟨v, h, hid⟩ := mem_select_iff.mp hactive
      obtain rfl : v = u := hmem h.eligible.1 (List.mem_of_mem_filter hu) hid
      exact h
    · cases hactive

/-- Every evaluation follows the decision table. -/
theorem decided (now : ℕ) (f : Family) : d.Decided now f where
  active := by
    intro hf id
    rw [evaluate, getD_evaluateActive d _ hf]
    exact mem_select_iff
  balancing := by
    -- The planner's own filter of the configured uplinks.
    let us := (d.cfg.uplinksOf f).filter fun u =>
      ((d.evaluateInput now).active[f]?).any (·.contains u.id)
    have hus : ∀ u, u ∈ us ↔
        d.cfg.Selects (d.evaluateInput now).paths f ((d.active[f]?).getD ∅) u := by
      intro u
      rw [List.mem_filter, selects_iff hv]
    have hlength : (us.filterMap (shareOf (d.evaluateInput now).paths f)).length = us.length := by
      rw [List.length_filterMap_eq_countP, List.countP_eq_length]
      intro u hu
      obtain ⟨-, -, p, hp, hready, -⟩ := ((hus u).mp hu).eligible
      simpa [shareOf, hp] using hready
    refine ⟨us, (hv.nodup_ids.of_map.filter _).filter _, hus, hlength, ?_⟩
    have htable := plan_routes_tableOf d.cfg (d.evaluateInput now) f .balancing
    rw [Layout.tableOf_balancing] at htable
    have hempty : (us.filterMap (shareOf (d.evaluateInput now).paths f)).isEmpty = true ↔
        us = [] := by
      rw [List.isEmpty_iff_length_eq_zero, hlength, List.length_eq_zero_iff]
    rw [htable, tableRoute, balancingRoute, balancingMembers_eq]
    simp only [us] at hempty
    simp only [hempty, us]
  policy := by
    intro id table htable
    have hpolicy : (policyPath d.cfg (d.evaluateInput now) f id).isSome = true ↔
        ∃ p, (d.evaluateInput now).paths[(⟨id, f⟩ : PathKey)]? = some p ∧
          p.ready.isSome = true ∧ p.healthy = true ∧ p.drained = false := by
      rw [Option.isSome_iff_exists]
      constructor
      · rintro ⟨r, hr⟩
        obtain ⟨p, hp, htakes, hready⟩ := policyPath_eq_some.mp hr
        simp only [PathInput.takesPolicies, Bool.and_eq_true, Bool.not_eq_true'] at htakes
        exact ⟨p, (pathInput_eq_some.mp hp).2, by simp [hready], htakes⟩
      · rintro ⟨p, hp, hready, htakes⟩
        obtain ⟨r, hr⟩ := Option.isSome_iff_exists.mp hready
        have hin := pathInput_eq_some.mpr ⟨configured_of_evaluateInput hv hp, hp⟩
        refine ⟨r, policyPath_eq_some.mpr ⟨p, hin, ?_, hr⟩⟩
        simp [PathInput.takesPolicies, htakes]
    rw [← hpolicy]
    simp only [List.mem_cons, List.not_mem_nil, or_false] at htable
    obtain rfl | rfl := htable
    · have hroute := plan_routes_tableOf d.cfg (d.evaluateInput now) f (.policyBalance id)
      rw [Layout.tableOf_policyBalance] at hroute
      rw [hroute, tableRoute, Option.isSome_map]
    · have hroute := plan_routes_tableOf d.cfg (d.evaluateInput now) f (.policyBlock id)
      rw [Layout.tableOf_policyBlock] at hroute
      rw [hroute, tableRoute, Option.isSome_map]

end Decided

/-! ## Sequences of evaluations -/

/-- The active sets after evaluations one after the other, each of a state that has the
remembered sets and is arbitrary otherwise. -/
def activeAfter (start : Std.ExtTreeMap Family (Std.ExtTreeSet UplinkId))
    (es : List (Daemon × ℕ)) : Std.ExtTreeMap Family (Std.ExtTreeSet UplinkId) :=
  es.foldl (fun active e => (evaluate { e.1 with active } e.2).active) start

/-- No candidate is healthy, and the previous members are to be kept. -/
def Keeping (e : Daemon × ℕ) (f : Family) : Prop :=
  e.1.cfg.routing.allDownPolicy = .keep ∧
    ¬ ∃ u, e.1.cfg.EligibleHealthy (e.1.evaluateInput e.2).paths f u

/-- An evaluation without a healthy candidate gains no member. -/
theorem mem_active_of_keeping {e : Daemon × ℕ} {f : Family} (hkeep : Keeping e f)
    {active : Std.ExtTreeMap Family (Std.ExtTreeSet UplinkId)} {id : UplinkId}
    (hid : id ∈ ((evaluate { e.1 with active } e.2).active[f]?).getD ∅) :
    id ∈ (active[f]?).getD ∅ := by
  by_cases hf : e.1.cfg.manages f = true
  · rw [evaluate, getD_evaluateActive { e.1 with active } _ hf, mem_select_iff] at hid
    obtain ⟨u, hu, rfl⟩ := hid
    obtain ⟨hhealthy, -⟩ | ⟨-, hu⟩ := hu
    · exact absurd hhealthy hkeep.2
    · simp only [hkeep.1] at hu
      exact hu.2
  · rw [evaluate, getElem?_evaluateActive_of_unmanaged { e.1 with active } _ (by simpa using hf)]
      at hid
    exact hid

theorem mem_activeAfter_of_keeping {es : List (Daemon × ℕ)} {f : Family}
    (hkeep : ∀ e ∈ es, Keeping e f)
    {start : Std.ExtTreeMap Family (Std.ExtTreeSet UplinkId)} {id : UplinkId}
    (hid : id ∈ ((activeAfter start es)[f]?).getD ∅) : id ∈ (start[f]?).getD ∅ := by
  induction es generalizing start with
  | nil => exact hid
  | cons e es ih =>
    have hrest := ih (fun e' he' => hkeep e' (List.mem_cons_of_mem e he')) hid
    exact mem_active_of_keeping (hkeep e List.mem_cons_self) hrest

/-- **Active sets follow the decision table along whole runs**, from any remembered sets;
while no candidate is healthy a kept set never gains a member. -/
theorem decided_run (start : Std.ExtTreeMap Family (Std.ExtTreeSet UplinkId))
    (es : List (Daemon × ℕ)) (hv : ∀ e ∈ es, e.1.cfg.Valid) (f : Family) :
    (∀ before e after, es = before ++ e :: after →
      Decided { e.1 with active := activeAfter start before } e.2 f) ∧
    (∀ before kept after, es = before ++ (kept ++ after) → (∀ e ∈ kept, Keeping e f) →
      ∀ id ∈ ((activeAfter start (before ++ kept))[f]?).getD ∅,
        id ∈ ((activeAfter start before)[f]?).getD ∅) := by
  constructor
  · rintro before e after rfl
    have hvalid : e.1.cfg.Valid := hv e (by simp)
    exact decided (d := { e.1 with active := activeAfter start before }) hvalid e.2 f
  · rintro before kept after rfl hkeep id hid
    rw [activeAfter, List.foldl_append] at hid
    exact mem_activeAfter_of_keeping hkeep hid

open Sample in
/-- An uplink that is active, and then drained. -/
theorem decided_run_sample :
    Decided { alone ∅ with active := activeAfter ∅ [] } 0 .v4 ∧
    Decided { alone ((∅ : Std.ExtTreeSet UplinkId).insert id1) with
      active := activeAfter ∅ [(alone ∅, 0)] } 0 .v4 := by
  have hv : ∀ e ∈ [(alone ∅, 0), (alone ((∅ : Std.ExtTreeSet UplinkId).insert id1), 0)],
      e.1.cfg.Valid := by
    intro e he
    have hcfg : e.1.cfg = single := by
      simp only [List.mem_cons, List.not_mem_nil, or_false] at he
      obtain rfl | rfl := he <;> rfl
    rw [hcfg]
    decide
  obtain ⟨hdecided, -⟩ := decided_run ∅ _ hv .v4
  exact ⟨hdecided [] _ _ rfl, hdecided [_] _ [] rfl⟩

end Daemon

end Polywan
