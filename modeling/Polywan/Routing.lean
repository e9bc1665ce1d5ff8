import Polywan.Lib.Walk
import Polywan.Mark
import Polywan.Plan.Artifacts

/-!
# Routing a packet by the planned rules

The kernel walks the rules of a packet's family in priority order.  A rule that
selects the packet decides it, unless it looks into a table without a route, or
bypasses to the main table without a route there that covers the destination.

## Main definitions

* `Flow` — what the walk sees of a packet.
* `Rule.decide` — what one rule does with it.
* `specified` — where a packet is to go, stated on its own terms.
* `walk_plan_eq_specified` — the planned rules send it there.
-/

namespace Polywan

/-- What the rules see of a packet. -/
structure Flow where
  family : Family
  mark : BitVec 32
  source : IpAddr
  /-- Whether the main table has a non-default route to the destination. -/
  covered : Bool
deriving DecidableEq

/-- Where a packet goes. -/
inductive Verdict where
  | route (r : Route)
  | main
  | unreachable
deriving DecidableEq

/-- Whether a rule applies to a packet. -/
def Rule.selects (r : Rule) (p : Flow) : Bool :=
  r.family = p.family
    && (match r.fwmark with
      | none => true
      | some (mark, mask) => (mark ^^^ p.mark) &&& mask = 0)
    && (match r.source with
      | none => true
      | some a => p.source = a)

/-- What a rule does with a packet; `none` passes it on to the next rule. -/
def Rule.decide (tables : TableKey → Option Route) (p : Flow) (r : Rule) : Option Verdict :=
  if r.selects p then
    match r.action with
    | .lookup t => (tables ⟨p.family, t⟩).map .route
    | .lookupMainSuppressDefault => if p.covered then some .main else none
    | .unreachable => some .unreachable
  else none

/-- The routes of a plan. -/
def Desired.table (d : Desired) (k : TableKey) : Option Route := d.routes[k]?

/-- The orders in which the kernel may hold the rules of a plan. -/
def Desired.Order (d : Desired) (l : List Rule) : Prop :=
  Lib.Arranged Rule.priority (· ∈ d.rules) l

/-! ## Roles and packets -/

namespace Role

/-- Whether a role's rule applies to a field value and a source address. -/
def Selects (v : FieldValue) (source : IpAddr) : Role → Prop
  | probeLookup id => v.cls = .probe ∧ v.id = some id
  | probeGuard => v.cls = .probe
  | pathLookup id => v.cls = .path ∧ v.id = some id
  | pathGuard k => v.cls = .path ∧ v.get.getLsbD k = true
  | policyBalanceLookup id => v.cls = .policyBalance ∧ v.id = some id
  | policyBlockLookup id => v.cls = .policyBlock ∧ v.id = some id
  | policyBlockGuard => v.cls = .policyBlock
  | sourceLookup _ a | sourceGuard a => (v.cls = .path ∧ v.id = none) ∧ source = a
  | mainBypass | balance | finalGuard => True

/-- What a role's rule does with a packet it applies to, given the routes of the
tables and whether the main table covers the destination. -/
def outcome (route : TableRole → Option Route) (covered : Bool) : Role → Option Verdict
  | probeLookup id | pathLookup id | sourceLookup id _ => (route (.path id)).map .route
  | policyBalanceLookup id => (route (.policyBalance id)).map .route
  | policyBlockLookup id => (route (.policyBlock id)).map .route
  | balance => (route .balancing).map .route
  | mainBypass => if covered then some .main else none
  | probeGuard | pathGuard _ | policyBlockGuard | sourceGuard _ | finalGuard => some .unreachable

variable {l : Layout} {f : Family} {ρ : Role} {p : Flow}

/-- Field values under the mask of the whole field. -/
private theorem and_allBits (v : FieldValue) : v.get &&& allBits.get = v.get := by
  have : ∀ x : BitVec 8, x &&& 0xff = x := by decide
  exact this v.get

private theorem get_inj {v v' : FieldValue} : v.get = v'.get ↔ v = v' := by
  cases v
  cases v'
  simp

/-- A rule's selector, read on the field. -/
theorem selector_iff (v : FieldValue) :
    (∀ s ∈ ρ.selector, v.get &&& s.2.get = s.1.get &&& s.2.get) ∧
      (∀ a ∈ ρ.source, p.source = a) ↔ ρ.Selects v p.source := by
  cases ρ with
  | probeLookup id => simp [selector, source, Selects, and_allBits, get_inj, v.eq_probe_iff]
  | pathLookup id => simp [selector, source, Selects, and_allBits, get_inj, v.eq_path_iff]
  | policyBalanceLookup id =>
    simp [selector, source, Selects, and_allBits, get_inj, v.eq_policyBalance_iff]
  | policyBlockLookup id =>
    simp [selector, source, Selects, and_allBits, get_inj, v.eq_policyBlock_iff]
  | probeGuard =>
    simp [selector, source, Selects, v.cls_eq_iff, FieldValue.classBits, FieldClass.bits,
      FieldValue.probeClass]
  | policyBlockGuard =>
    simp [selector, source, Selects, v.cls_eq_iff, FieldValue.classBits, FieldClass.bits,
      FieldValue.policyBlockClass]
  | pathGuard k =>
    have bit : ∀ k : Fin 6,
        1#8 <<< k.val &&& (0xc0 ||| 1#8 <<< k.val) = 1#8 <<< k.val := by decide
    simp only [selector, source, Selects, ← v.and_bit_eq_iff, Option.mem_some_iff, forall_eq',
      bit, Option.not_mem_none, false_imp_iff, implies_true, and_true]
  | sourceLookup id a => simp [selector, source, Selects, and_allBits, get_inj, v.eq_none_iff]
  | sourceGuard a => simp [selector, source, Selects, and_allBits, get_inj, v.eq_none_iff]
  | mainBypass | balance | finalGuard => simp [selector, source, Selects]

theorem selects_rule :
    (ρ.rule l f).selects p = true ↔ f = p.family ∧ ρ.Selects (l.mask.field p.mark) p.source := by
  rw [← selector_iff (p := p)]
  simp only [Rule.selects, rule, Bool.and_eq_true, and_assoc]
  refine and_congr decide_eq_true_iff (and_congr ?_ ?_)
  · cases ρ.selector with
    | none => simp
    | some s => simpa using l.mask.xor_and_encode_eq_zero_iff p.mark s.1 s.2
  · cases ρ.source <;> simp

/-- **What the rule of a role decides.** -/
theorem decide_rule {tables : TableKey → Option Route} {v : Verdict} :
    (ρ.rule l f).decide tables p = some v ↔
      f = p.family ∧ ρ.Selects (l.mask.field p.mark) p.source ∧
        ρ.outcome (fun τ => tables ⟨p.family, l.tableOf τ⟩) p.covered = some v := by
  unfold Rule.decide
  split
  · next h =>
      obtain ⟨hf, hs⟩ := selects_rule.mp h
      simp only [hf, hs, true_and, rule_action]
      cases ρ <;>
        simp [action, outcome, Layout.tableOf_balancing, Layout.tableOf_path,
          Layout.tableOf_policyBalance, Layout.tableOf_policyBlock]
  · next h =>
      rw [selects_rule] at h
      simp only [reduceCtorEq, false_iff]
      rintro ⟨hf, hs, -⟩
      exact h ⟨hf, hs⟩

end Role

/-! ## Where packets are to go -/

/-- The route, or the rejection of its guard. -/
def routeOrReject : Option Route → Verdict
  | some r => .route r
  | none => .unreachable

/-- The paths an address is local to. -/
def ownersOf (c : Config) (i : Input) (f : Family) (a : IpAddr) : List UplinkId :=
  ((c.uplinksOf f).map Uplink.id).filter fun id =>
    (pathInput c i f id).any fun p => p.localAddresses.contains a

/-- **Where a packet of a managed family is to go.**  Probes use their path and
nothing else; everything else prefers the main table; a path or policy-block
value never leaves its own table; what is left is balanced. -/
def specified (c : Config) (i : Input) (p : Flow) : Verdict :=
  let route := tableRoute c i p.family
  let v := c.routing.fwmarkMask.field p.mark
  match v.cls with
  | .probe => routeOrReject (v.id.bind fun id => route (.path id))
  | .policyBlock =>
    if p.covered then .main
    else routeOrReject (v.id.bind fun id => route (.policyBlock id))
  | .policyBalance =>
    if p.covered then .main
    else routeOrReject ((v.id.bind fun id => route (.policyBalance id)).or (route .balancing))
  | .path =>
    if p.covered then .main
    else match v.id with
      | some id => routeOrReject (route (.path id))
      | none =>
        if ownersOf c i p.family p.source = [] then routeOrReject (route .balancing)
        else routeOrReject
          ((ownersOf c i p.family p.source).findSome? fun id => route (.path id))

/-- No address is local to two ready paths of one family. -/
def UniqueReadyOwner (c : Config) (i : Input) : Prop :=
  ∀ f id id' a, IsLocal c i f id a → IsLocal c i f id' a →
    (readyPath c i f id).isSome → (readyPath c i f id').isSome → id = id'

section Walk

variable {c : Config} {i : Input} {p : Flow} {l : List Rule}

/-- A role decides when it applies and no applicable role of the same or an
earlier priority decides otherwise. -/
theorem walk_eq_of_role (hm : c.manages p.family = true) (ho : (plan c i).Order l) {ρ : Role}
    {v : Verdict} (hρ : ρ.Planned c i p.family)
    (hs : ρ.Selects (c.routing.fwmarkMask.field p.mark) p.source)
    (hv : ρ.outcome (tableRoute c i p.family) p.covered = some v)
    (hmin : ∀ ρ' : Role, ρ'.Planned c i p.family → ρ'.offset ≤ ρ.offset →
      ρ'.Selects (c.routing.fwmarkMask.field p.mark) p.source →
      ∀ v', ρ'.outcome (tableRoute c i p.family) p.covered = some v' → v' = v) :
    Lib.walk (Rule.decide (plan c i).table p) l = some v := by
  have htable : (fun τ => (plan c i).table ⟨p.family, (Layout.of c).tableOf τ⟩) =
      tableRoute c i p.family := funext (plan_routes_tableOf c i p.family)
  rw [← htable] at hv hmin
  refine ho.walk_eq_some (rule_mem_plan hm hρ) (Role.decide_rule.mpr ⟨rfl, hs, hv⟩) ?_
  intro r hr hle v' hv'
  obtain ⟨-, ρ', hρ', hr⟩ := mem_plan_rules.mp hr
  rw [hr] at hv' hle
  obtain ⟨hf, hs', hv'⟩ := Role.decide_rule.mp hv'
  rw [hf] at hρ'
  exact hmin ρ' hρ' (by simpa using hle) hs' v' hv'

/-- Only configured paths have routes in tables of their own. -/
theorem configured_of_route {f : Family} {id : UplinkId} {τ : TableRole} {r : Route}
    (h : tableRoute c i f τ = some r)
    (hτ : τ = .path id ∨ τ = .policyBalance id ∨ τ = .policyBlock id) :
    id ∈ (c.uplinksOf f).map Uplink.id := by
  have hp : ∃ q, pathInput c i f id = some q := by
    cases hq : pathInput c i f id with
    | some q => exact ⟨q, rfl⟩
    | none => rcases hτ with rfl | rfl | rfl <;> simp [tableRoute, readyPath, policyPath, hq] at h
  obtain ⟨q, hq⟩ := hp
  obtain ⟨⟨u, hu, rfl⟩, -⟩ := pathInput_eq_some.mp hq
  exact List.mem_map_of_mem hu

theorem ready_of_route {f : Family} {id : UplinkId} {r : Route}
    (h : tableRoute c i f (.path id) = some r) : (readyPath c i f id).isSome := by
  obtain ⟨rp, hrp, -⟩ := Option.map_eq_some_iff.mp h
  simp [hrp]

theorem mem_ownersOf {f : Family} {a : IpAddr} {id : UplinkId} :
    id ∈ ownersOf c i f a ↔ IsLocal c i f id a := by
  simp only [ownersOf, List.mem_filter, IsLocal, Option.any_eq_true]
  constructor
  · rintro ⟨-, q, hq, ha⟩
    exact ⟨q, hq, by simpa using ha⟩
  · rintro ⟨q, hq, ha⟩
    obtain ⟨⟨u, hu, rfl⟩, -⟩ := pathInput_eq_some.mp hq
    exact ⟨List.mem_map_of_mem hu, q, hq, by simpa using ha⟩

section Cases

variable (hm : c.manages p.family = true) (ho : (plan c i).Order l)
include hm ho

/-- A probe goes through its path or is rejected by the probe guard. -/
theorem walk_probe (hc : (c.routing.fwmarkMask.field p.mark).cls = .probe) :
    Lib.walk (Rule.decide (plan c i).table p) l =
      some (routeOrReject ((c.routing.fwmarkMask.field p.mark).id.bind
        fun id => tableRoute c i p.family (.path id))) := by
  cases hr : (c.routing.fwmarkMask.field p.mark).id.bind
      fun id => tableRoute c i p.family (.path id) with
  | some r =>
    obtain ⟨id, hid, hr⟩ := Option.bind_eq_some_iff.mp hr
    refine walk_eq_of_role hm ho (ρ := .probeLookup id) (configured_of_route hr (.inl rfl))
      ⟨hc, hid⟩ (by simp [Role.outcome, hr, routeOrReject]) ?_
    intro ρ' _ hle hs v' hv'
    have := id.num_le
    cases ρ' <;> simp_all [Role.Selects, Role.offset, Role.outcome, routeOrReject] <;> omega
  | none =>
    refine walk_eq_of_role hm ho (ρ := .probeGuard) trivial hc rfl ?_
    intro ρ' _ hle hs v' hv'
    cases ρ' <;> simp_all [Role.Selects, Role.offset, Role.outcome, routeOrReject]

/-- Anything but a probe prefers a covering route of the main table. -/
theorem walk_covered (hc : (c.routing.fwmarkMask.field p.mark).cls ≠ .probe)
    (hcov : p.covered = true) :
    Lib.walk (Rule.decide (plan c i).table p) l = some .main := by
  refine walk_eq_of_role hm ho (ρ := .mainBypass) trivial trivial (by simp [Role.outcome, hcov]) ?_
  intro ρ' _ hle hs v' hv'
  cases ρ' <;> simp_all [Role.Selects, Role.offset, Role.outcome] <;> omega

/-- What no earlier role decides is balanced or meets the final guard. -/
theorem walk_balance
    (hnone : ∀ ρ' : Role, ρ' ≠ .balance → ρ' ≠ .finalGuard → ρ'.Planned c i p.family →
      ρ'.Selects (c.routing.fwmarkMask.field p.mark) p.source →
      ρ'.outcome (tableRoute c i p.family) p.covered = none) :
    Lib.walk (Rule.decide (plan c i).table p) l =
      some (routeOrReject (tableRoute c i p.family .balancing)) := by
  cases hr : tableRoute c i p.family .balancing with
  | some r =>
    refine walk_eq_of_role hm ho (ρ := .balance) trivial trivial
      (by simp [Role.outcome, hr, routeOrReject]) ?_
    intro ρ' hρ' hle hs v' hv'
    have := hnone ρ'
    cases ρ' <;> simp_all [Role.Selects, Role.offset, Role.outcome, routeOrReject]
  | none =>
    refine walk_eq_of_role hm ho (ρ := .finalGuard) trivial trivial rfl ?_
    intro ρ' hρ' hle hs v' hv'
    have := hnone ρ'
    cases ρ' <;> simp_all [Role.Selects, Role.offset, Role.outcome, routeOrReject]

section Uncovered

variable (hcov : p.covered = false)
include hcov

/-- A path value stays on its path. -/
theorem walk_path {id : UplinkId} (hc : (c.routing.fwmarkMask.field p.mark).cls = .path)
    (hid : (c.routing.fwmarkMask.field p.mark).id = some id) :
    Lib.walk (Rule.decide (plan c i).table p) l =
      some (routeOrReject (tableRoute c i p.family (.path id))) := by
  cases hr : tableRoute c i p.family (.path id) with
  | some r =>
    refine walk_eq_of_role hm ho (ρ := .pathLookup id) (configured_of_route hr (.inl rfl))
      ⟨hc, hid⟩ (by simp [Role.outcome, hr, routeOrReject]) ?_
    intro ρ' _ hle hs v' hv'
    have := id.num_le
    cases ρ' <;> simp_all [Role.Selects, Role.offset, Role.outcome, routeOrReject] <;> omega
  | none =>
    obtain ⟨k, hk⟩ := (FieldValue.exists_bit_iff _).mpr (by simp [hid] :
      (c.routing.fwmarkMask.field p.mark).id ≠ none)
    refine walk_eq_of_role hm ho (ρ := .pathGuard k) trivial ⟨hc, hk⟩ rfl ?_
    intro ρ' _ hle hs v' hv'
    cases ρ' <;> simp_all [Role.Selects, Role.offset, Role.outcome, routeOrReject]

/-- A policy-block value stays in its policy table. -/
theorem walk_policyBlock (hc : (c.routing.fwmarkMask.field p.mark).cls = .policyBlock) :
    Lib.walk (Rule.decide (plan c i).table p) l =
      some (routeOrReject ((c.routing.fwmarkMask.field p.mark).id.bind
        fun id => tableRoute c i p.family (.policyBlock id))) := by
  cases hr : (c.routing.fwmarkMask.field p.mark).id.bind
      fun id => tableRoute c i p.family (.policyBlock id) with
  | some r =>
    obtain ⟨id, hid, hr⟩ := Option.bind_eq_some_iff.mp hr
    refine walk_eq_of_role hm ho (ρ := .policyBlockLookup id)
      (configured_of_route hr (.inr (.inr rfl))) ⟨hc, hid⟩
      (by simp [Role.outcome, hr, routeOrReject]) ?_
    intro ρ' _ hle hs v' hv'
    have := id.num_le
    cases ρ' <;> simp_all [Role.Selects, Role.offset, Role.outcome, routeOrReject] <;> omega
  | none =>
    refine walk_eq_of_role hm ho (ρ := .policyBlockGuard) trivial hc rfl ?_
    intro ρ' _ hle hs v' hv'
    cases ρ' <;> simp_all [Role.Selects, Role.offset, Role.outcome, routeOrReject]

/-- A policy-balance value prefers its policy table. -/
theorem walk_policyBalance (hc : (c.routing.fwmarkMask.field p.mark).cls = .policyBalance) :
    Lib.walk (Rule.decide (plan c i).table p) l =
      some (routeOrReject (((c.routing.fwmarkMask.field p.mark).id.bind
        fun id => tableRoute c i p.family (.policyBalance id)).or
          (tableRoute c i p.family .balancing))) := by
  cases hr : (c.routing.fwmarkMask.field p.mark).id.bind
      fun id => tableRoute c i p.family (.policyBalance id) with
  | some r =>
    obtain ⟨id, hid, hr⟩ := Option.bind_eq_some_iff.mp hr
    refine walk_eq_of_role hm ho (ρ := .policyBalanceLookup id)
      (configured_of_route hr (.inr (.inl rfl))) ⟨hc, hid⟩
      (by simp [Role.outcome, hr, routeOrReject]) ?_
    intro ρ' _ hle hs v' hv'
    have := id.num_le
    cases ρ' <;> simp_all [Role.Selects, Role.offset, Role.outcome, routeOrReject] <;> omega
  | none =>
    rw [Option.none_or]
    refine walk_balance hm ho fun ρ' hb hf _ hs => ?_
    cases ρ' <;> simp_all [Role.Selects, Role.outcome]

/-- A zero field without a local source is balanced. -/
theorem walk_plain (hc : (c.routing.fwmarkMask.field p.mark).cls = .path)
    (hid : (c.routing.fwmarkMask.field p.mark).id = none)
    (hown : ownersOf c i p.family p.source = []) :
    Lib.walk (Rule.decide (plan c i).table p) l =
      some (routeOrReject (tableRoute c i p.family .balancing)) := by
  have hloc : ∀ id, ¬ IsLocal c i p.family id p.source := by
    intro id h
    simpa [hown] using mem_ownersOf.mpr h
  have hbit : ∀ k : Fin 6, (c.routing.fwmarkMask.field p.mark).get.getLsbD k = false :=
    FieldValue.bits_eq_false hid
  refine walk_balance hm ho fun ρ' hb hf hρ' hs => ?_
  cases ρ' with
  | sourceLookup id a => exact absurd (hs.2 ▸ hρ') (hloc id)
  | sourceGuard a =>
    obtain ⟨id, h⟩ := hρ'
    exact absurd (hs.2 ▸ h) (hloc id)
  | _ => simp_all [Role.Selects, Role.outcome]

/-- A zero field with a local source goes through the ready owner or is rejected
by the source guard. -/
theorem walk_source (hu : UniqueReadyOwner c i)
    (hc : (c.routing.fwmarkMask.field p.mark).cls = .path)
    (hid : (c.routing.fwmarkMask.field p.mark).id = none)
    (hown : ownersOf c i p.family p.source ≠ []) :
    Lib.walk (Rule.decide (plan c i).table p) l =
      some (routeOrReject ((ownersOf c i p.family p.source).findSome?
        fun id => tableRoute c i p.family (.path id))) := by
  have hbit : ∀ k : Fin 6, (c.routing.fwmarkMask.field p.mark).get.getLsbD k = false :=
    FieldValue.bits_eq_false hid
  cases hr : (ownersOf c i p.family p.source).findSome?
      fun id => tableRoute c i p.family (.path id) with
  | some r =>
    obtain ⟨id, howner, hr⟩ := List.exists_of_findSome?_eq_some hr
    have hloc : IsLocal c i p.family id p.source := mem_ownersOf.mp howner
    refine walk_eq_of_role hm ho (ρ := .sourceLookup id p.source) hloc ⟨⟨hc, hid⟩, rfl⟩
      (by simp [Role.outcome, hr, routeOrReject]) ?_
    intro ρ' hρ' hle hs v' hv'
    have := id.num_le
    cases ρ' with
    | sourceLookup id' a =>
      obtain ⟨r', hr', rfl⟩ := Option.map_eq_some_iff.mp hv'
      have hloc' : IsLocal c i p.family id' p.source := hs.2 ▸ hρ'
      obtain rfl := hu _ _ _ _ hloc' hloc (ready_of_route hr') (ready_of_route hr)
      simp_all [routeOrReject]
    | _ => simp_all [Role.Selects, Role.offset, Role.outcome] <;> omega
  | none =>
    have hnone := List.findSome?_eq_none_iff.mp hr
    obtain ⟨id, hmem⟩ := List.exists_mem_of_ne_nil _ hown
    refine walk_eq_of_role hm ho (ρ := .sourceGuard p.source) ⟨id, mem_ownersOf.mp hmem⟩
      ⟨⟨hc, hid⟩, rfl⟩ rfl ?_
    intro ρ' hρ' hle hs v' hv'
    cases ρ' with
    | sourceLookup id' a =>
      have hloc' : IsLocal c i p.family id' p.source := hs.2 ▸ hρ'
      simp [Role.outcome, hnone id' (mem_ownersOf.mpr hloc')] at hv'
    | _ => simp_all [Role.Selects, Role.offset, Role.outcome, routeOrReject]

end Uncovered

end Cases

/-- The planned rules send every packet of a managed family where it is to go. -/
theorem walk_eq_specified (hu : UniqueReadyOwner c i) (hm : c.manages p.family = true)
    (ho : (plan c i).Order l) :
    Lib.walk (Rule.decide (plan c i).table p) l = some (specified c i p) := by
  cases hcov : p.covered with
  | true =>
    cases hc : (c.routing.fwmarkMask.field p.mark).cls with
    | probe => simpa [specified, hc] using walk_probe hm ho hc
    | path | policyBalance | policyBlock =>
      simpa [specified, hc, hcov] using walk_covered hm ho (by simp [hc]) hcov
  | false =>
    cases hc : (c.routing.fwmarkMask.field p.mark).cls with
    | probe => simpa [specified, hc] using walk_probe hm ho hc
    | policyBalance => simpa [specified, hc, hcov] using walk_policyBalance hm ho hcov hc
    | policyBlock => simpa [specified, hc, hcov] using walk_policyBlock hm ho hcov hc
    | path =>
      cases hid : (c.routing.fwmarkMask.field p.mark).id with
      | some id => simpa [specified, hc, hcov, hid] using walk_path hm ho hcov hc hid
      | none =>
        by_cases hown : ownersOf c i p.family p.source = []
        · simpa [specified, hc, hcov, hid, hown] using walk_plain hm ho hcov hc hid hown
        · simpa [specified, hc, hcov, hid, hown] using walk_source hm ho hcov hu hc hid hown

/-- Only the field of the mark matters. -/
theorem specified_congr {mark : BitVec 32}
    (h : mark &&& c.routing.fwmarkMask.mask = p.mark &&& c.routing.fwmarkMask.mask) :
    specified c i { p with mark } = specified c i p := by
  have hf : c.routing.fwmarkMask.field mark = c.routing.fwmarkMask.field p.mark :=
    FwMask.field_congr h
  simp only [specified, hf]

/-- **Every packet of a managed family is routed as specified**, whatever order
the kernel holds rules of equal priority in; no packet falls past the final
guard, and bits of the mark outside the field do not matter. -/
theorem walk_plan_eq_specified (hu : UniqueReadyOwner c i) (hm : c.manages p.family = true)
    (ho : (plan c i).Order l) :
    Lib.walk (Rule.decide (plan c i).table p) l = some (specified c i p) ∧
      ∀ mark, mark &&& c.routing.fwmarkMask.mask = p.mark &&& c.routing.fwmarkMask.mask →
        Lib.walk (Rule.decide (plan c i).table { p with mark }) l =
          Lib.walk (Rule.decide (plan c i).table p) l := by
  refine ⟨walk_eq_specified hu hm ho, fun mark hmark => ?_⟩
  rw [walk_eq_specified hu hm ho, walk_eq_specified hu (p := { p with mark }) hm ho,
    specified_congr hmark]

end Walk

/-- The rules of a plan sorted by priority, one of their orders. -/
def Desired.ordered (d : Desired) : List Rule :=
  d.rules.toList.insertionSort fun r r' => r.priority ≤ r'.priority

theorem Desired.order_ordered (d : Desired) : d.Order d.ordered where
  mem_iff r := by
    rw [ordered, (List.perm_insertionSort _ _).mem_iff, Std.ExtTreeSet.mem_toList]
  sorted := by
    have : Std.Total fun r r' : Rule => r.priority ≤ r'.priority := ⟨fun _ _ => Nat.le_total _ _⟩
    have : IsTrans Rule fun r r' => r.priority ≤ r'.priority := ⟨fun _ _ _ => Nat.le_trans⟩
    exact List.pairwise_insertionSort _ _

/-- Paths of one family without a local address in common. -/
theorem uniqueReadyOwner_of_disjoint {c : Config} {i : Input}
    (h : ∀ e ∈ i.paths.toList, ∀ e' ∈ i.paths.toList, e.1.family = e'.1.family →
      e.1.uplink ≠ e'.1.uplink → ∀ a ∈ e.2.localAddresses.toList, a ∉ e'.2.localAddresses) :
    UniqueReadyOwner c i := by
  rintro f id id' a ⟨q, hq, ha⟩ ⟨q', hq', ha'⟩ - -
  by_contra hne
  have hmem := Std.ExtTreeMap.mem_toList_iff_getElem?_eq_some.mpr (pathInput_eq_some.mp hq).2
  have hmem' := Std.ExtTreeMap.mem_toList_iff_getElem?_eq_some.mpr (pathInput_eq_some.mp hq').2
  exact h _ hmem _ hmem' rfl hne a (Std.ExtTreeSet.mem_toList.mpr ha) ha'

/-- A locally sourced packet of the sample leaves through the path it comes from. -/
theorem walk_plan_sample :
    Lib.walk (Rule.decide (plan Sample.config Sample.input).table
        ⟨.v4, 0, .v4 0x0a010002, false⟩) (plan Sample.config Sample.input).ordered =
      some (.route ((Sample.ready 4 (.v4 0x0a010002)).route .v4 1002)) :=
  (walk_plan_eq_specified (uniqueReadyOwner_of_disjoint (by decide)) (by decide)
    (Desired.order_ordered _)).1.trans (by decide)

end Polywan
