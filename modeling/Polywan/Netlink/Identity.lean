import Polywan.Netlink.Msg
import Polywan.Plan.Artifacts

/-!
# What comes back from the kernel

A planned rule or route that is sent as a message and read back is recognised as
the planned one and as no other.

## Main definitions

* `RuleIdentity` — the part of a rule that identifies it, `Rule.identity` and
  `ObservedRule.identity`.
* `Route.Shaped` — the form of every planned route.
-/

namespace Polywan

/-! ## Rules -/

/-- What identifies a rule in the kernel. -/
structure RuleIdentity where
  family : Family
  priority : ℕ
  protocol : ℕ
  fwmark : Option (BitVec 32 × BitVec 32)
  source : Option (IpAddr × ℕ)
  action : ObservedAction
deriving DecidableEq

/-- The identity of a planned rule under a protocol. -/
def Rule.identity (r : Rule) (protocol : ℕ) : RuleIdentity where
  family := r.family
  priority := r.priority
  protocol := protocol
  fwmark := r.fwmark
  source := r.source.map fun a => (a, hostLen a)
  action := r.action.observed

def ObservedRule.identity (o : ObservedRule) : RuleIdentity where
  family := o.family
  priority := o.priority
  protocol := o.protocol
  fwmark := o.fwmark
  source := o.source
  action := o.action

theorem ObservedRule.is_iff (o : ObservedRule) (r : Rule) (protocol : ℕ) :
    o.is r protocol = true ↔ o.foreignSelectors = false ∧ o.identity = r.identity protocol := by
  simp only [ObservedRule.is, Bool.and_eq_true, decide_eq_true_eq, Bool.not_eq_true', identity,
    Rule.identity, RuleIdentity.mk.injEq]
  tauto

/-- A planned rule as the view holds it after its own message. -/
def Rule.observed (r : Rule) (protocol : ℕ) : ObservedRule where
  family := r.family
  priority := r.priority
  protocol := protocol
  fwmark := r.fwmark
  source := r.source.map fun a => (a, hostLen a)
  action := r.action.observed
  foreignSelectors := false
  l3mdev := false
  message := ruleMessage r protocol

theorem family_addressFamily (f : Family) : family (addressFamily f) = some f := by
  cases f <;> rfl

/-- **The message of a rule reads back as the rule.** -/
theorem parse_ruleMessage (r : Rule) (protocol : ℕ) :
    ObservedRule.parse (ruleMessage r protocol) = some (r.observed protocol) := by
  obtain ⟨f, p, mark, source, action, kind⟩ := r
  cases mark <;> cases source <;> cases action <;>
    simp [ObservedRule.parse, ruleMessage, family_addressFamily, ObservedRule.readAttributes,
      ObservedRule.readAttribute, Rule.observed, Action.observed, u32Max]

@[simp] theorem Rule.observed_identity (r : Rule) (protocol : ℕ) :
    (r.observed protocol).identity = r.identity protocol := rfl

theorem Action.observed_injective : Function.Injective Action.observed := by
  intro a b h
  cases a <;> cases b <;> simp_all [Action.observed]

/-- Rules have one identity under one protocol when they agree on every field but the
role. -/
theorem Rule.identity_eq_iff {r r' : Rule} {p p' : ℕ} :
    r.identity p = r'.identity p' ↔
      p = p' ∧ r.family = r'.family ∧ r.priority = r'.priority ∧ r.fwmark = r'.fwmark
        ∧ r.source = r'.source ∧ r.action = r'.action := by
  have hhost : Function.Injective fun a => (a, hostLen a) := fun a b h => (Prod.mk.inj h).1
  simp only [identity, RuleIdentity.mk.injEq, (Option.map_injective hhost).eq_iff,
    Action.observed_injective.eq_iff]
  tauto

theorem Rule.observed_is (r : Rule) (protocol : ℕ) : (r.observed protocol).is r protocol = true :=
  (ObservedRule.is_iff _ _ _).mpr ⟨rfl, rfl⟩

/-! ## Routes -/

/-- The form of every planned route: members in order, with kernel weights, and no
weight on a single one. -/
structure Route.Shaped (r : Route) : Prop where
  nonempty : r.nexthops ≠ []
  sorted : r.nexthops.Pairwise (· ≤ ·)
  single : ∀ h, r.nexthops = [h] → h.weight = 1
  weights : ∀ h ∈ r.nexthops, 1 ≤ h.weight ∧ h.weight ≤ 256

/-- A next hop as a dump shows it. -/
def NextHop.observed (h : NextHop) (weight : ℕ) : ObservedHop where
  ifindex := h.ifindex
  gateway := h.gateway
  weight := weight
  onlink := h.onlink
  dead := false
  linkdown := false

/-- A planned route as the view holds it after its own message. -/
def Route.observed (r : Route) (protocol : ℕ) : ObservedRoute where
  family := r.family
  table := r.table
  protocol := protocol
  metric := routeMetric
  destination := none
  kind := .unicast
  source := r.source
  nexthops := match r.nexthops with
    | [h] => [h.observed 1]
    | hops => hops.map fun h => h.observed (min (max h.weight 1) 256)
  nexthopId := none
  preference := 0
  expiresAt := none

theorem hop_message (h : NextHop) :
    ObservedRoute.hop h.message = h.observed (min (max h.weight 1) 256) := by
  have hw : (min (max h.weight 1) 256 - 1) % 256 + 1 = min (max h.weight 1) 256 := by omega
  cases hg : h.gateway <;>
    simp [ObservedRoute.hop, NextHop.message, NextHop.observed, hg, RouteAddress.toIp, hw]

/-- **The message of a route reads back as the route.** -/
theorem parse_routeMessage (now : ℕ) (r : Route) (protocol : ℕ) :
    ObservedRoute.parse now (routeMessage r protocol) = some (r.observed protocol) := by
  obtain ⟨f, t, source, hops⟩ := r
  match hops with
  | [h] =>
    cases source <;> cases hg : h.gateway <;>
      simp [ObservedRoute.parse, routeMessage, routeDeleteKey, family_addressFamily,
        ObservedRoute.readAttribute, RouteAddress.toIp, Route.observed, NextHop.observed, hg]
  | [] | h :: h' :: hs =>
    cases source <;>
      simp [ObservedRoute.parse, routeMessage, routeDeleteKey, family_addressFamily,
        ObservedRoute.readAttribute, RouteAddress.toIp, Route.observed, hop_message]

/-- The members of a dumped route in planned form. -/
def ObservedRoute.plannedHops (o : ObservedRoute) : List NextHop :=
  (o.nexthops.map (plannedHop (o.nexthops.length == 1))).insertionSort (· ≤ ·)

/-- **Which dumped routes have the shape of a planned one.** -/
theorem ObservedRoute.asPlanned_eq_some {o : ObservedRoute} {r : Route} :
    o.asPlanned = some r ↔
      (o.destination = none ∧ o.kind = .unicast ∧ o.metric = routeMetric ∧ o.nexthops ≠ []) ∧
        r = ⟨o.family, o.table, o.source, o.plannedHops⟩ := by
  unfold asPlanned
  split
  · next h =>
      simp only [isDefault, Bool.or_eq_true, Bool.not_eq_true', decide_eq_true_eq,
        List.isEmpty_iff] at h
      simp only [reduceCtorEq, false_iff]
      rintro ⟨⟨h1, h2, h3, h4⟩, -⟩
      simp [h1, h2, h3, h4] at h
  · next h =>
      simp only [isDefault, Bool.or_eq_true, Bool.not_eq_true', decide_eq_true_eq,
        List.isEmpty_iff, not_or, not_not, Bool.not_eq_false, Option.isNone_iff_eq_none] at h
      obtain ⟨⟨⟨h1, h2⟩, h3⟩, h4⟩ := h
      simp only [h1, h2, h3, h4, ne_eq, not_false_eq_true, and_self, true_and, Option.some.injEq]
      exact eq_comm

/-- A shaped route is recognised in its planned form. -/
theorem Route.asPlanned_observed {r : Route} (h : r.Shaped) (protocol : ℕ) :
    (r.observed protocol).asPlanned = some r := by
  rw [ObservedRoute.asPlanned_eq_some]
  obtain ⟨f, t, source, hops⟩ := r
  have hne : hops ≠ [] := h.nonempty
  match hops, hne with
  | [g], _ =>
    have hw : g.weight = 1 := h.single g rfl
    refine ⟨⟨rfl, rfl, rfl, by simp [Route.observed]⟩, ?_⟩
    cases g
    simp_all [Route.observed, NextHop.observed, ObservedRoute.plannedHops,
      ObservedRoute.plannedHop]
  | g :: g' :: gs, _ =>
    refine ⟨⟨rfl, rfl, rfl, by simp [Route.observed]⟩, ?_⟩
    have hmap : ((g :: g' :: gs).map fun h => h.observed (min (max h.weight 1) 256)).map
        (ObservedRoute.plannedHop false) = g :: g' :: gs := by
      rw [List.map_map]
      refine (List.map_congr_left fun h' hh' => ?_).trans (List.map_id _)
      obtain ⟨h1, h2⟩ := h.weights h' hh'
      have hw : min (max h'.weight 1) 256 = h'.weight := by omega
      simp [NextHop.observed, ObservedRoute.plannedHop, hw]
    have hsort : (g :: g' :: gs).insertionSort (· ≤ ·) = g :: g' :: gs :=
      h.sorted.insertionSort_eq
    have hlen : (((g :: g' :: gs).map fun h =>
        h.observed (min (max h.weight 1) 256)).length == 1) = false := by simp
    have hhops : ObservedRoute.plannedHops
        (Route.observed ⟨f, t, source, g :: g' :: gs⟩ protocol) = g :: g' :: gs := by
      simp only [ObservedRoute.plannedHops, Route.observed]
      rw [hlen, hmap, hsort]
    rw [hhops]
    rfl

/-! ## Planned routes -/

theorem shaped_single (f : Family) (t : ℕ) (rp : ReadyPath) : (rp.route f t).Shaped where
  nonempty := by simp [ReadyPath.route]
  sorted := by simp [ReadyPath.route]
  single := by
    intro h heq
    simp only [ReadyPath.route, List.cons.injEq, and_true] at heq
    rw [← heq]
    rfl
  weights := by simp [ReadyPath.route, ReadyPath.hop]

theorem shaped_plainWeight {f : Family} {t : ℕ} {source : Option IpAddr} {hops : List NextHop}
    (hne : hops ≠ []) (hsorted : hops.Pairwise (· ≤ ·))
    (hw : ∀ h ∈ hops, 1 ≤ h.weight ∧ h.weight ≤ 256) :
    (⟨f, t, source, plainWeight hops⟩ : Route).Shaped := by
  match hops, hne with
  | [h], _ =>
    refine ⟨by simp [plainWeight], by simp [plainWeight], ?_, by simp [plainWeight]⟩
    intro g hg
    simp only [plainWeight, List.cons.injEq, and_true] at hg
    rw [← hg]
  | h :: h' :: hs, _ =>
    refine ⟨by simp [plainWeight], hsorted, ?_, hw⟩
    intro g hg
    simp [plainWeight] at hg

theorem weight_of_mem_balancingMembers {c : Config} (hv : c.Valid) {i : Input} {f : Family}
    {h : NextHop} (hh : h ∈ balancingMembers c i f) : 1 ≤ h.weight ∧ h.weight ≤ 256 := by
  obtain ⟨u, hu, hm⟩ := List.mem_filterMap.mp hh
  have hweight : h.weight = u.weight := by
    unfold uplinkMember at hm
    split at hm
    · cases hm
    · split at hm
      · cases hm
      · split at hm
        · obtain rfl := Option.some.inj hm
          rfl
        · cases hm
  rw [hweight]
  exact hv.weight_mem u (List.mem_of_mem_filter hu)

/-- **Every planned route has the shape that survives the kernel.** -/
theorem tableRoute_shaped {c : Config} (hv : c.Valid) {i : Input} {f : Family} {τ : TableRole}
    {r : Route} (h : tableRoute c i f τ = some r) : r.Shaped := by
  cases τ with
  | balancing =>
    simp only [tableRoute, balancingRoute] at h
    split at h
    · cases h
    · next hne =>
        obtain rfl := Option.some.inj h
        have hperm := List.perm_insertionSort (· ≤ ·) (balancingMembers c i f)
        refine shaped_plainWeight ?_ (List.pairwise_insertionSort _ _) ?_
        · intro hnil
          rw [hnil] at hperm
          exact hne (by simpa using hperm.symm.eq_nil)
        · intro g hg
          exact weight_of_mem_balancingMembers hv (hperm.mem_iff.mp hg)
  | path id | policyBalance id | policyBlock id =>
    obtain ⟨rp, -, rfl⟩ := Option.map_eq_some_iff.mp h
    exact shaped_single _ _ rp

theorem plan_routes_shaped {c : Config} (hv : c.Valid) {i : Input} {k : TableKey} {r : Route}
    (h : (plan c i).routes[k]? = some r) : r.Shaped := by
  obtain ⟨τ, hτ, -⟩ := plan_routes.mp h
  exact tableRoute_shaped hv hτ

end Polywan
