import Polywan.Lib.Fold
import Polywan.Mark
import Polywan.Plan

/-!
# The planned rules and tables by role

Every planned rule is the rule of one role at one family: the kind of the rule
together with the id, the guarded bit or the address it is about.  `Role.rule`
gives the rule of a role once, and `mem_staticRules` and `mem_sourceRules` say
that the layout's lists consist of exactly these, so that later arguments split
on roles and never look at the lists again.

## Main definitions

* `Role` — what a planned rule is for.
* `Role.rule l f ρ` — the rule of a role in a layout and family.
* `TableRole` — what a table is for, with `Layout.tableOf` its number.
-/

namespace Polywan

/-- What a planned rule is for. -/
inductive Role where
  | probeLookup (id : UplinkId)
  | probeGuard
  | mainBypass
  | pathLookup (id : UplinkId)
  | pathGuard (bit : Fin 6)
  | policyBalanceLookup (id : UplinkId)
  | policyBlockLookup (id : UplinkId)
  | policyBlockGuard
  | sourceLookup (id : UplinkId) (address : IpAddr)
  | sourceGuard (address : IpAddr)
  | balance
  | finalGuard

namespace Role

def kind : Role → RuleKind
  | probeLookup id => .probeLookup id
  | probeGuard => .probeGuard
  | mainBypass => .mainBypass
  | pathLookup id => .pathLookup id
  | pathGuard _ => .pathGuard
  | policyBalanceLookup id => .policyBalanceLookup id
  | policyBlockLookup id => .policyBlockLookup id
  | policyBlockGuard => .policyBlockGuard
  | sourceLookup id _ => .sourceLookup id
  | sourceGuard _ => .sourceGuard
  | balance => .balance
  | finalGuard => .finalGuard

/-- Distance of the priority from the base. -/
def offset : Role → ℕ
  | probeLookup id => id.num
  | probeGuard => 64
  | mainBypass => 100
  | pathLookup id => 200 + id.num
  | pathGuard _ => 264
  | policyBalanceLookup id => 300 + id.num
  | policyBlockLookup id => 400 + id.num
  | policyBlockGuard => 464
  | sourceLookup id _ => 500 + id.num
  | sourceGuard _ => 564
  | balance => 600
  | finalGuard => 699

/-- The mask of the whole field. -/
def allBits : FieldValue := ⟨0xff⟩

/-- The value and the mask a role compares the field with. -/
def selector : Role → Option (FieldValue × FieldValue)
  | probeLookup id => some (.probe id, allBits)
  | probeGuard => some (.probeClass, ⟨0xc0⟩)
  | mainBypass => none
  | pathLookup id => some (.path id, allBits)
  | pathGuard k => some (⟨1#8 <<< k.val⟩, ⟨0xc0 ||| 1#8 <<< k.val⟩)
  | policyBalanceLookup id => some (.policyBalance id, allBits)
  | policyBlockLookup id => some (.policyBlock id, allBits)
  | policyBlockGuard => some (.policyBlockClass, ⟨0xc0⟩)
  | sourceLookup _ _ => some (.none, allBits)
  | sourceGuard _ => some (.none, allBits)
  | balance => none
  | finalGuard => none

/-- The source address a role selects. -/
def source : Role → Option IpAddr
  | sourceLookup _ a => some a
  | sourceGuard a => some a
  | _ => none

def action (l : Layout) : Role → Action
  | probeLookup id => .lookup (l.pathTable id)
  | pathLookup id => .lookup (l.pathTable id)
  | policyBalanceLookup id => .lookup (l.policyBalanceTable id)
  | policyBlockLookup id => .lookup (l.policyBlockTable id)
  | sourceLookup id _ => .lookup (l.pathTable id)
  | balance => .lookup l.balancingTable
  | mainBypass => .lookupMainSuppressDefault
  | probeGuard | pathGuard _ | policyBlockGuard | sourceGuard _ | finalGuard => .unreachable

/-- The rule of a role. -/
def rule (l : Layout) (f : Family) (ρ : Role) : Rule where
  family := f
  priority := l.priorityBase + ρ.offset
  fwmark := ρ.selector.map fun s => (l.mask.encode s.1, l.mask.encode s.2)
  source := ρ.source
  action := ρ.action l
  kind := ρ.kind

/-- The roles of the address-independent rules. -/
def Static (ids : List UplinkId) : Role → Prop
  | probeLookup id | pathLookup id | policyBalanceLookup id | policyBlockLookup id => id ∈ ids
  | sourceLookup _ _ | sourceGuard _ => False
  | probeGuard | mainBypass | pathGuard _ | policyBlockGuard | balance | finalGuard => True

@[simp] theorem rule_family (l : Layout) (f : Family) (ρ : Role) : (ρ.rule l f).family = f := rfl

@[simp] theorem rule_priority (l : Layout) (f : Family) (ρ : Role) :
    (ρ.rule l f).priority = l.priorityBase + ρ.offset := rfl

@[simp] theorem rule_source (l : Layout) (f : Family) (ρ : Role) :
    (ρ.rule l f).source = ρ.source := rfl

@[simp] theorem rule_action (l : Layout) (f : Family) (ρ : Role) :
    (ρ.rule l f).action = ρ.action l := rfl

@[simp] theorem rule_kind (l : Layout) (f : Family) (ρ : Role) : (ρ.rule l f).kind = ρ.kind := rfl

/-- **Different roles have different rules.** -/
theorem rule_injective (l : Layout) (f : Family) : Function.Injective (rule l f) := by
  intro ρ ρ' h
  have hkind : ρ.kind = ρ'.kind := congrArg Rule.kind h
  have hsource : ρ.source = ρ'.source := congrArg Rule.source h
  cases ρ with
  | pathGuard k =>
    cases ρ' with
    | pathGuard k' =>
      have hmark := congrArg (Option.map Prod.fst) (congrArg Rule.fwmark h)
      simp only [rule, selector, Option.map_some, Option.some.injEq] at hmark
      have hbits := congrArg FieldValue.get (l.mask.encode_injective hmark)
      have : ∀ k k' : Fin 6, 1#8 <<< k.val = 1#8 <<< k'.val → k = k' := by decide
      rw [this k k' hbits]
    | _ => cases hkind
  | _ => cases ρ' <;> simp_all [kind, source]

/-- Every role has a priority of its own layout. -/
theorem offset_le (ρ : Role) : ρ.offset ≤ 699 := by
  cases ρ with
  | probeLookup id | pathLookup id | policyBalanceLookup id | policyBlockLookup id =>
    have := id.num_le
    simp only [offset]
    omega
  | sourceLookup id _ =>
    have := id.num_le
    simp only [offset]
    omega
  | _ => simp [offset]

end Role

namespace Layout

variable (l : Layout) (f : Family)

theorem encode_allBits : l.mask.encode Role.allBits = l.mask.mask := rfl

theorem lookupRules_eq (id : UplinkId) :
    l.lookupRules f id =
      [Role.probeLookup id, .pathLookup id, .policyBalanceLookup id, .policyBlockLookup id].map
        (Role.rule l f) := by
  simp [lookupRules, Role.rule, Role.offset, Role.selector, Role.source, Role.action, Role.kind,
    value, encode_allBits, Nat.add_assoc]

/-- **The static rules are the rules of the static roles.** -/
theorem mem_staticRules {ids : List UplinkId} {r : Rule} :
    r ∈ l.staticRules f ids ↔ ∃ ρ : Role, ρ.Static ids ∧ r = ρ.rule l f := by
  constructor
  · intro h
    simp only [staticRules, lookupRules_eq, List.mem_append, List.mem_flatMap, List.mem_map,
      List.mem_cons, List.not_mem_nil, or_false, List.mem_range] at h
    rcases h with ((⟨id, hid, ρ, hρ, rfl⟩ | rfl | rfl) | ⟨k, hk, rfl⟩) | rfl | rfl | rfl
    · refine ⟨ρ, ?_, rfl⟩
      rcases hρ with rfl | rfl | rfl | rfl <;> exact hid
    · exact ⟨.probeGuard, trivial, rfl⟩
    · exact ⟨.mainBypass, trivial, rfl⟩
    · exact ⟨.pathGuard ⟨k, hk⟩, trivial, rfl⟩
    · exact ⟨.policyBlockGuard, trivial, rfl⟩
    · exact ⟨.balance, trivial, rfl⟩
    · exact ⟨.finalGuard, trivial, rfl⟩
  · rintro ⟨ρ, hρ, rfl⟩
    simp only [staticRules, lookupRules_eq, List.mem_append, List.mem_flatMap, List.mem_map,
      List.mem_cons, List.not_mem_nil, or_false, List.mem_range]
    cases ρ with
    | probeLookup id => exact .inl (.inl (.inl ⟨id, hρ, _, .inl rfl, rfl⟩))
    | pathLookup id => exact .inl (.inl (.inl ⟨id, hρ, _, .inr (.inl rfl), rfl⟩))
    | policyBalanceLookup id => exact .inl (.inl (.inl ⟨id, hρ, _, .inr (.inr (.inl rfl)), rfl⟩))
    | policyBlockLookup id => exact .inl (.inl (.inl ⟨id, hρ, _, .inr (.inr (.inr rfl)), rfl⟩))
    | probeGuard => exact .inl (.inl (.inr (.inl rfl)))
    | mainBypass => exact .inl (.inl (.inr (.inr rfl)))
    | pathGuard k => exact .inl (.inr ⟨k, k.isLt, rfl⟩)
    | policyBlockGuard => exact .inr (.inl rfl)
    | balance => exact .inr (.inr (.inl rfl))
    | finalGuard => exact .inr (.inr (.inr rfl))
    | sourceLookup _ _ | sourceGuard _ => exact hρ.elim

/-- The two rules of a local address. -/
theorem mem_sourceRules {id : UplinkId} {a : IpAddr} {r : Rule} :
    r ∈ l.sourceRules f id a ↔
      r = (Role.sourceLookup id a).rule l f ∨ r = (Role.sourceGuard a).rule l f := by
  simp [sourceRules, Role.rule, Role.offset, Role.selector, Role.source, Role.action, Role.kind,
    encode_allBits, FwMask.encode_none, Nat.add_assoc]

end Layout

/-- What a table of the program is for. -/
inductive TableRole where
  | balancing
  | path (id : UplinkId)
  | policyBalance (id : UplinkId)
  | policyBlock (id : UplinkId)

namespace TableRole

/-- Distance of the table from the base. -/
def offset : TableRole → ℕ
  | balancing => 0
  | path id => id.num
  | policyBalance id => 64 + id.num
  | policyBlock id => 128 + id.num

/-- Tables of different roles are different: an id is never zero and fits in the
64 numbers of its block. -/
theorem offset_injective : Function.Injective offset := by
  intro τ τ' h
  have num_eq : ∀ {id id' : UplinkId}, id.num = id'.num → id = id' :=
    fun h => UplinkId.num_injective h
  cases τ with
  | balancing =>
    cases τ' with
    | balancing => rfl
    | path id' | policyBalance id' | policyBlock id' =>
      have := id'.num_pos
      simp only [offset] at h
      omega
  | path id | policyBalance id | policyBlock id =>
    have := id.num_pos
    have := id.num_le
    cases τ' with
    | balancing =>
      simp only [offset] at h
      omega
    | path id' | policyBalance id' | policyBlock id' =>
      have := id'.num_pos
      have := id'.num_le
      simp only [offset] at h
      first
      | omega
      | rw [num_eq (by omega : id.num = id'.num)]

end TableRole

namespace Layout

/-- The table of a role. -/
def tableOf (l : Layout) (τ : TableRole) : ℕ := l.tableBase + τ.offset

theorem tableOf_injective (l : Layout) : Function.Injective l.tableOf :=
  fun _ _ h => TableRole.offset_injective (Nat.add_left_cancel h)

theorem tableOf_balancing (l : Layout) : l.tableOf .balancing = l.balancingTable := rfl

theorem tableOf_path (l : Layout) (id : UplinkId) :
    l.tableOf (.path id) = l.pathTable id := rfl

theorem tableOf_policyBalance (l : Layout) (id : UplinkId) :
    l.tableOf (.policyBalance id) = l.policyBalanceTable id := (Nat.add_assoc ..).symm

theorem tableOf_policyBlock (l : Layout) (id : UplinkId) :
    l.tableOf (.policyBlock id) = l.policyBlockTable id := (Nat.add_assoc ..).symm

end Layout

end Polywan
