import Polywan.Nft.Assign
import Polywan.Plan.Without

/-!
# The paths in a route

Which paths a plan puts into the balancing route and into the routes of the policy
tables, each with the mark assignment it needs.

## Main definitions

* `Layout.isTrafficTable` — the balancing table and the policy tables.
* `Member` — a path in a route.
* `plannedMembers` — the paths that a plan puts into the route of a table.
-/

namespace Polywan

/-- The balancing table or a policy table: new connections are sent there. -/
def Layout.isTrafficTable (l : Layout) (table : ℕ) : Bool :=
  l.tables table && !l.isPathTable table

/-- A next hop without its share. -/
def NextHop.unweighted (h : NextHop) : NextHop := { h with weight := 1 }

/-- A path in a route: the mark assignment it needs and its next hop. -/
structure Member where
  assignment : Assignment
  hop : NextHop
deriving DecidableEq

def Uplink.assignment (u : Uplink) (f : Family) : Assignment where
  path := ⟨u.id, f⟩
  interface := u.interface

/-- The next hop by which an uplink's path stands in the route planned for a table: as
a member of the balancing route, or with its own route in its policy tables. -/
def plannedHop (c : Config) (i : Input) (k : TableKey) (u : Uplink) : Option NextHop :=
  if k.table = (Layout.of c).balancingTable then
    (uplinkMember i k.family u).map NextHop.unweighted
  else if k.table = (Layout.of c).policyBalanceTable u.id
      ∨ k.table = (Layout.of c).policyBlockTable u.id then
    (policyPath c i k.family u.id).map ReadyPath.hop
  else none

/-- The paths in the route planned for a table. -/
def plannedMembers (c : Config) (i : Input) (k : TableKey) : List Member :=
  (c.uplinksOf k.family).filterMap fun u =>
    (plannedHop c i k u).map fun h => ⟨u.assignment k.family, h⟩

section Members

variable {c : Config} {i : Input} {k : TableKey} {m : Member}

theorem mem_plannedMembers :
    m ∈ plannedMembers c i k ↔
      ∃ u ∈ c.uplinksOf k.family, plannedHop c i k u = some m.hop ∧
        m.assignment = u.assignment k.family := by
  obtain ⟨a, h⟩ := m
  simp only [plannedMembers, List.mem_filterMap, Option.map_eq_some_iff, Member.mk.injEq]
  refine exists_congr fun u => and_congr_right fun _ => ?_
  constructor
  · rintro ⟨h', hh, rfl, rfl⟩
    exact ⟨hh, rfl⟩
  · rintro ⟨hh, rfl⟩
    exact ⟨h, hh, rfl, rfl⟩

/-- Every path in a route is a configured one. -/
theorem mem_assignments_of_member (h : m ∈ plannedMembers c i k) :
    m.assignment ∈ c.assignments := by
  obtain ⟨u, hu, -, hm⟩ := mem_plannedMembers.mp h
  rw [Config.uplinksOf, List.mem_filter] at hu
  rw [hm, Config.mem_assignments]
  exact ⟨u, hu.1, List.mem_filter.mpr ⟨Family.mem_all _, hu.2⟩, rfl, rfl⟩

theorem plannedHop_without (paths : Std.ExtTreeSet PathKey) (u : Uplink) :
    plannedHop c (without i paths) k u =
      if (⟨u.id, k.family⟩ : PathKey) ∈ paths then none else plannedHop c i k u := by
  unfold plannedHop
  rw [uplinkMember_without, policyPath_without]
  by_cases h : (⟨u.id, k.family⟩ : PathKey) ∈ paths <;> simp [h]

/-- No path that is held back is in a route. -/
theorem not_mem_of_member {paths : Std.ExtTreeSet PathKey}
    (h : m ∈ plannedMembers c (without i paths) k) : m.assignment.path ∉ paths := by
  obtain ⟨u, -, hhop, hm⟩ := mem_plannedMembers.mp h
  rw [plannedHop_without] at hhop
  split at hhop
  · cases hhop
  · next hheld =>
      rw [hm]
      exact hheld

/-- **Every next hop of a planned route is that of a path in it.** -/
theorem exists_member {r : Route} (hk : (Layout.of c).isTrafficTable k.table = true)
    (hr : (plan c i).routes[k]? = some r) {h : NextHop} (hh : h ∈ r.nexthops) :
    ∃ m ∈ plannedMembers c i k, h.unweighted = m.hop := by
  obtain ⟨τ, hτ, htable⟩ := plan_routes.mp hr
  have hmember : ∀ u ∈ c.uplinksOf k.family, plannedHop c i k u = some h.unweighted →
      ∃ m ∈ plannedMembers c i k, h.unweighted = m.hop :=
    fun u hu hhop => ⟨⟨u.assignment k.family, h.unweighted⟩,
      mem_plannedMembers.mpr ⟨u, hu, hhop, rfl⟩, rfl⟩
  -- The route of a policy table is that of its path.
  have hpolicy : ∀ id, (k.table = (Layout.of c).policyBalanceTable id ∨
      k.table = (Layout.of c).policyBlockTable id) → ∀ t,
      (policyPath c i k.family id).map (fun r => r.route k.family t) = some r →
      ∃ m ∈ plannedMembers c i k, h.unweighted = m.hop := by
    intro id hid t hroute
    obtain ⟨rp, hrp, rfl⟩ := Option.map_eq_some_iff.mp hroute
    obtain rfl : h = rp.hop := by simpa [ReadyPath.route] using hh
    obtain ⟨q, hq, -⟩ := policyPath_eq_some.mp hrp
    obtain ⟨⟨u, hu, rfl⟩, -⟩ := pathInput_eq_some.mp hq
    have hne : k.table ≠ (Layout.of c).balancingTable := by
      unfold Layout.policyBalanceTable Layout.policyBlockTable at hid
      unfold Layout.balancingTable
      omega
    refine hmember u hu ?_
    rw [plannedHop, if_neg hne, if_pos hid, hrp]
    rfl
  cases τ with
  | balancing =>
    simp only [tableRoute, balancingRoute] at hτ
    split at hτ
    · cases hτ
    · obtain rfl := Option.some.inj hτ
      obtain ⟨m, hm, heq⟩ := mem_plainWeight hh
      rw [(List.perm_insertionSort _ _).mem_iff, balancingMembers] at hm
      obtain ⟨u, hu, hmem⟩ := List.mem_filterMap.mp hm
      refine hmember u hu ?_
      rw [Layout.tableOf_balancing] at htable
      rw [plannedHop, if_pos htable, hmem, heq]
      rfl
  | path id =>
    rw [Layout.isTrafficTable, htable, Bool.and_eq_true, Bool.not_eq_true', ← Bool.not_eq_true,
      Layout.isPathTable_tableOf] at hk
    exact absurd ⟨id, rfl⟩ hk.2
  | policyBalance id =>
    exact hpolicy id (.inl (htable.trans ((Layout.of c).tableOf_policyBalance id))) _ hτ
  | policyBlock id =>
    exact hpolicy id (.inr (htable.trans ((Layout.of c).tableOf_policyBlock id))) _ hτ

end Members

end Polywan
