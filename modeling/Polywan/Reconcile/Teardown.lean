import Polywan.Reconcile.Diff
import Polywan.Reconcile.Recognise

/-!
# Cleanup over a union of layouts

Cleanup removes the rules and the routes of several layouts, each with its protocol, whose
ranges may overlap.  In an overlap one priority has different roles in different layouts; a
rule goes by the role that its shape shows, which is the same in every layout that
recognises it.

## Main definitions

* `ownsRule`, `ownsRoute` — what the listed layouts own.
* `Cleans` — what a list of operations does when it removes exactly that.

## Main results

* `removalRank_eq_of_is` — the shape of a rule determines the rank of its role.
* `teardown_cleans` — cleanup removes what the listed layouts own, once and in order.
-/

namespace Polywan

/-- A rule with the protocol and a priority of a listed layout. -/
def ownsRule (layouts : List (Layout × ℕ)) (o : ObservedRule) : Bool :=
  layouts.any fun l => o.protocol = l.2 && l.1.priorities o.priority

/-- A default route of the planned shape with the protocol and a table of a listed
layout. -/
def ownsRoute (layouts : List (Layout × ℕ)) (r : ObservedRoute) : Bool :=
  r.asPlanned.isSome && layouts.any fun l => r.protocol = l.2 && l.1.tables r.table

/-- A listed layout takes a rule for the one that its priority's role installs. -/
def Recognises (layouts : List (Layout × ℕ)) (l : Layout) (o : ObservedRule) : Prop :=
  (l, o.protocol) ∈ layouts ∧ hasRole l o = true

/-- The rank at which a rule is removed. -/
def teardownRank (layouts : List (Layout × ℕ)) (o : ObservedRule) : ℕ :=
  removalRank ((ownerLayout layouts o).bind fun l => classify l o.priority)

/-- The operations remove exactly what the listed layouts own: every object once, rules
before routes, recognised rules by the rank of their role and source guards before the
source rules of their address. -/
structure Cleans (layouts : List (Layout × ℕ)) (s : System) (ops : List Op) (s' : System) :
    Prop where
  after : s' = { s with
    rules := s.rules.filter fun o => !ownsRule layouts o
    routes := s.routes.filter fun _ r => !ownsRoute layouts r }
  once : ops.Nodup
  rule : ∀ o, .deleteRule o ∈ ops ↔ o ∈ s.rules ∧ ownsRule layouts o = true
  route : ∀ f t p, .deleteRoute f t p ∈ ops ↔
    ∃ (κ : RouteKey) (r : ObservedRoute), s.routes[κ]? = some r ∧ ownsRoute layouts r = true ∧
      r.family = f ∧ r.table = t ∧ r.protocol = p
  deletions : ∀ op ∈ ops, (∃ o, op = .deleteRule o) ∨ ∃ f t p, op = .deleteRoute f t p
  rulesFirst : ops.Pairwise fun a b => ∀ f t p o, a = .deleteRoute f t p → b ≠ .deleteRule o
  ranked : ops.Pairwise fun a b => ∀ o o', a = .deleteRule o → b = .deleteRule o' →
    teardownRank layouts o ≤ teardownRank layouts o'
  rank : ∀ l o, Recognises layouts l o →
    teardownRank layouts o = removalRank (classify l o.priority)
  guardsFirst : ops.Pairwise fun a b => ∀ o o' l l' id, a = .deleteRule o → b = .deleteRule o' →
    Recognises layouts l o → Recognises layouts l' o' → o.source = o'.source →
    classify l o.priority = some (.sourceLookup id) → classify l' o'.priority ≠ some .sourceGuard

/-! ## The shape of a role -/

/-- What the selectors and the action of a rule show of its role. -/
inductive Shape where
  | markLookup
  | markGuard
  | sourceLookup
  | sourceGuard
  | mainBypass
  | balance
  | finalGuard
deriving DecidableEq

def RuleIdentity.shape (i : RuleIdentity) : Shape :=
  match i.source, i.fwmark, i.action with
  | some _, _, .unreachable => .sourceGuard
  | some _, _, _ => .sourceLookup
  | none, none, .unreachable => .finalGuard
  | none, some _, .unreachable => .markGuard
  | none, some _, _ => .markLookup
  | none, none, .lookup _ none => .balance
  | none, none, _ => .mainBypass

def Role.shape : Role → Shape
  | .probeLookup _ | .pathLookup _ | .policyBalanceLookup _ | .policyBlockLookup _ => .markLookup
  | .probeGuard | .pathGuard _ | .policyBlockGuard => .markGuard
  | .sourceLookup _ _ => .sourceLookup
  | .sourceGuard _ => .sourceGuard
  | .mainBypass => .mainBypass
  | .balance => .balance
  | .finalGuard => .finalGuard

theorem shape_identity (ρ : Role) (l : Layout) (f : Family) (protocol : ℕ) :
    ((ρ.rule l f).identity protocol).shape = ρ.shape := by
  cases ρ <;> rfl

/-- The mask of the whole field shows where the field is. -/
theorem FwMask.eq_of_encode_allBits {k k' : FwMask}
    (h : k.encode Role.allBits = k'.encode Role.allBits) : k = k' := by
  have hshift : ∀ a b : Fin 25, (0xff#8).setWidth 32 <<< a.val = (0xff#8).setWidth 32 <<< b.val →
      a = b := by decide
  obtain ⟨s, hs⟩ := k
  obtain ⟨s', hs'⟩ := k'
  have heq := hshift ⟨s, by omega⟩ ⟨s', by omega⟩ h
  simpa using heq

/-- The kind of the lookup by a value of the field. -/
def FieldValue.lookup (v : FieldValue) : Option RuleKind :=
  v.id.map fun id => match v.cls with
    | .path => .pathLookup id
    | .probe => .probeLookup id
    | .policyBalance => .policyBalanceLookup id
    | .policyBlock => .policyBlockLookup id

theorem exists_value_of_markLookup {ρ : Role} (h : ρ.shape = .markLookup) :
    ∃ v : FieldValue, ρ.selector = some (v, Role.allBits) ∧ v.lookup = some ρ.kind := by
  cases ρ with
  | probeLookup id =>
    obtain ⟨hcls, hid⟩ := (FieldValue.eq_probe_iff (.probe id) id).mp rfl
    exact ⟨_, rfl, by simp [FieldValue.lookup, hcls, hid, Role.kind]⟩
  | pathLookup id =>
    obtain ⟨hcls, hid⟩ := (FieldValue.eq_path_iff (.path id) id).mp rfl
    exact ⟨_, rfl, by simp [FieldValue.lookup, hcls, hid, Role.kind]⟩
  | policyBalanceLookup id =>
    obtain ⟨hcls, hid⟩ := (FieldValue.eq_policyBalance_iff (.policyBalance id) id).mp rfl
    exact ⟨_, rfl, by simp [FieldValue.lookup, hcls, hid, Role.kind]⟩
  | policyBlockLookup id =>
    obtain ⟨hcls, hid⟩ := (FieldValue.eq_policyBlock_iff (.policyBlock id) id).mp rfl
    exact ⟨_, rfl, by simp [FieldValue.lookup, hcls, hid, Role.kind]⟩
  | _ => cases h

/-- Two lookups by one mark are of one kind, wherever the layouts have their field. -/
theorem kind_eq_of_mark {ρ ρ' : Role} {l l' : Layout} {f f' : Family}
    (hρ : ρ.shape = .markLookup) (hρ' : ρ'.shape = .markLookup)
    (h : (ρ.rule l f).fwmark = (ρ'.rule l' f').fwmark) : ρ.kind = ρ'.kind := by
  obtain ⟨v, hv, hkind⟩ := exists_value_of_markLookup hρ
  obtain ⟨v', hv', hkind'⟩ := exists_value_of_markLookup hρ'
  obtain ⟨hmark, hmask⟩ : l.mask.encode v = l'.mask.encode v' ∧
      l.mask.encode Role.allBits = l'.mask.encode Role.allBits := by
    simpa [Role.rule, hv, hv'] using h
  rw [FwMask.eq_of_encode_allBits hmask] at hmark
  obtain rfl := FwMask.encode_injective _ hmark
  exact Option.some.inj (hkind.symm.trans hkind')

/-- The rank of every shape but the lookups by mark. -/
def Shape.rank : Shape → ℕ
  | .finalGuard => 0
  | .balance => 1
  | .sourceLookup | .sourceGuard => 2
  | .markLookup => 4
  | .mainBypass => 5
  | .markGuard => 7

theorem rank_of_shape {ρ : Role} (h : ρ.shape ≠ .markLookup) :
    removalRank (some ρ.kind) = ρ.shape.rank ∧
      (ρ.kind = .sourceGuard ↔ ρ.shape = .sourceGuard) := by
  cases ρ with
  | probeLookup id | pathLookup id | policyBalanceLookup id | policyBlockLookup id =>
    exact absurd rfl h
  | _ => simp [removalRank, Role.kind, Role.shape, Shape.rank]

/-- **The shape of a rule determines the rank of its role**, and whether it is a source
guard, whatever the bases, masks and ids of the layouts. -/
theorem removalRank_eq_of_is {o : ObservedRule} {ρ ρ' : Role} {l l' : Layout}
    (h : o.is (ρ.rule l o.family) o.protocol = true)
    (h' : o.is (ρ'.rule l' o.family) o.protocol = true) :
    removalRank (some ρ.kind) = removalRank (some ρ'.kind) ∧
      (ρ.kind = .sourceGuard ↔ ρ'.kind = .sourceGuard) := by
  have hidentity : (ρ.rule l o.family).identity o.protocol =
      (ρ'.rule l' o.family).identity o.protocol :=
    ((o.is_iff _ _).mp h).2.symm.trans ((o.is_iff _ _).mp h').2
  have hshape : ρ.shape = ρ'.shape := by
    rw [← shape_identity ρ l o.family o.protocol, hidentity, shape_identity]
  by_cases hmark : ρ.shape = .markLookup
  · have hfwmark : (ρ.rule l o.family).fwmark = (ρ'.rule l' o.family).fwmark :=
      congrArg RuleIdentity.fwmark hidentity
    rw [kind_eq_of_mark hmark (hshape ▸ hmark) hfwmark]
    exact ⟨rfl, Iff.rfl⟩
  · obtain ⟨hrank, hguard⟩ := rank_of_shape hmark
    obtain ⟨hrank', hguard'⟩ := rank_of_shape (hshape ▸ hmark)
    rw [hrank, hrank', hguard, hguard', hshape]
    exact ⟨rfl, Iff.rfl⟩

/-! ## Which layout removes a rule -/

section Owner

variable {layouts : List (Layout × ℕ)} {l : Layout} {o : ObservedRule}

theorem priorities_of_is {ρ : Role} (h : o.is (ρ.rule l o.family) o.protocol = true) :
    l.priorities o.priority = true := by
  have hpriority : o.priority = l.priorityBase + ρ.offset :=
    congrArg RuleIdentity.priority ((o.is_iff _ _).mp h).2
  have hoffset := ρ.offset_le
  simp only [Layout.priorities, hpriority, Bool.and_eq_true, decide_eq_true_eq]
  omega

/-- The kind that a layout that recognises a rule reads off its priority. -/
theorem exists_role_of_recognises (h : Recognises layouts l o) :
    ∃ ρ : Role, o.is (ρ.rule l o.family) o.protocol = true ∧
      classify l o.priority = some ρ.kind := by
  obtain ⟨ρ, hρ⟩ := hasRole_iff.mp h.2
  have hpriority : o.priority = (ρ.rule l o.family).priority :=
    congrArg RuleIdentity.priority ((o.is_iff _ _).mp hρ).2
  exact ⟨ρ, hρ, by rw [hpriority, classify_rule]⟩

theorem ownerLayout_isSome : (ownerLayout layouts o).isSome = ownsRule layouts o := by
  rw [Bool.eq_iff_iff, ownerLayout, Option.isSome_map, List.isSome_head?, ownsRule]
  simp

/-- A rule that a listed layout recognises is removed by one that does. -/
theorem exists_owner_of_recognises (h : Recognises layouts l o) :
    ∃ l', ownerLayout layouts o = some l' ∧ Recognises layouts l' o := by
  obtain ⟨ρ, hρ, -⟩ := exists_role_of_recognises h
  have hmem : l ∈ (layouts.filter fun l =>
      o.protocol = l.2 && l.1.priorities o.priority).map Prod.fst := by
    refine List.mem_map.mpr ⟨(l, o.protocol), List.mem_filter.mpr ⟨h.1, ?_⟩, rfl⟩
    simp [priorities_of_is hρ]
  cases hfind : ((layouts.filter fun l =>
      o.protocol = l.2 && l.1.priorities o.priority).map Prod.fst).find? (hasRole · o) with
  | none => exact absurd h.2 (List.find?_eq_none.mp hfind l hmem)
  | some l' =>
    obtain ⟨first, rest, hcons⟩ := List.exists_cons_of_ne_nil (List.ne_nil_of_mem hmem)
    have hrole : hasRole l' o = true := by simpa using List.find?_some hfind
    refine ⟨l', ?_, ?_, hrole⟩
    · simp only [ownerLayout, hfind, Option.getD_some]
      rw [hcons]
      rfl
    · obtain ⟨⟨l', p⟩, hl', rfl⟩ := List.mem_map.mp (List.mem_of_find?_eq_some hfind)
      obtain ⟨hlisted, howns⟩ := List.mem_filter.mp hl'
      obtain ⟨hp, -⟩ := Bool.and_eq_true_iff.mp howns
      rw [of_decide_eq_true hp]
      exact hlisted

/-- A recognised rule is removed by the rank of its role, source guards by their own. -/
theorem rank_of_recognises (h : Recognises layouts l o) :
    ∃ l', ownerLayout layouts o = some l' ∧
      removalRank (classify l' o.priority) = removalRank (classify l o.priority) ∧
      (classify l' o.priority = some .sourceGuard ↔ classify l o.priority = some .sourceGuard) := by
  obtain ⟨l', howner, h'⟩ := exists_owner_of_recognises h
  obtain ⟨ρ, hρ, hkind⟩ := exists_role_of_recognises h
  obtain ⟨ρ', hρ', hkind'⟩ := exists_role_of_recognises h'
  obtain ⟨hrank, hguard⟩ := removalRank_eq_of_is hρ' hρ
  refine ⟨l', howner, ?_, ?_⟩
  · rw [hkind', hkind, hrank]
  · rw [hkind', hkind, Option.some.injEq, Option.some.injEq, hguard]

end Owner

/-! ## The operations -/

/-- Lexicographic keys compare equal only when they are. -/
instance lawfulEqCmp_lex {α β : Type*} [Ord α] [Ord β]
    [Std.LawfulEqCmp (compare : α → α → Ordering)]
    [Std.LawfulEqCmp (compare : β → β → Ordering)] :
    Std.LawfulEqCmp (compare : α ×ₗ β → α ×ₗ β → Ordering) where
  compare_self := by simp [Prod.Lex.compare_def, compareLex, compareOn]
  eq_of_compare h := by
    simp only [Prod.Lex.compare_def, compareLex, compareOn, Ordering.then_eq_eq,
      Std.LawfulEqCmp.compare_eq_iff_eq] at h
    exact Prod.ext h.1 h.2

section Ops

variable {layouts : List (Layout × ℕ)} {s : System}

/-- The rules are those owned, in another order. -/
theorem teardownRules_perm :
    (teardownRules s layouts).Perm (s.rules.filter (ownsRule layouts)) := by
  have hmap : (s.rules.filterMap fun o =>
      (ownerLayout layouts o).map fun l => (removalKey l o, o)).map Prod.snd =
      s.rules.filter (ownsRule layouts) := by
    rw [List.map_filterMap, ← List.filterMap_eq_filter]
    congr 1
    funext o
    rw [Option.guard, ← ownerLayout_isSome]
    cases ownerLayout layouts o <;> rfl
  rw [teardownRules, ← hmap]
  exact (List.perm_insertionSort _ _).map Prod.snd

theorem mem_teardownRules_iff_owned {o : ObservedRule} :
    o ∈ teardownRules s layouts ↔ o ∈ s.rules ∧ ownsRule layouts o = true :=
  teardownRules_perm.mem_iff.trans List.mem_filter

/-- The rules go in the order of their removal keys. -/
theorem teardownRules_byKey :
    (teardownRules s layouts).Pairwise fun o o' => ∀ l l', ownerLayout layouts o = some l →
      ownerLayout layouts o' = some l' → removalKey l o ≤ removalKey l' o' := by
  rw [teardownRules, List.pairwise_map]
  have hkey : ∀ a ∈ (s.rules.filterMap fun o => (ownerLayout layouts o).map fun l =>
      (removalKey l o, o)).insertionSort (fun a b => a.1 ≤ b.1),
      ∀ l, ownerLayout layouts a.2 = some l → a.1 = removalKey l a.2 := by
    intro a ha l hl
    rw [List.mem_insertionSort, List.mem_filterMap] at ha
    obtain ⟨o, -, ha⟩ := ha
    obtain ⟨l', hl', rfl⟩ := Option.map_eq_some_iff.mp ha
    rw [Option.some.inj (hl.symm.trans hl')]
  refine (Lib.pairwise_insertionSort_key Prod.fst _).imp_of_mem fun {a b} ha hb hle => ?_
  intro l l' hl hl'
  rw [← hkey a ha l hl, ← hkey b hb l' hl']
  exact hle

/-- A rule removed earlier has no higher rank. -/
theorem teardownRules_ranked :
    (teardownRules s layouts).Pairwise fun o o' =>
      teardownRank layouts o ≤ teardownRank layouts o' := by
  refine teardownRules_byKey.imp_of_mem fun {o o'} ho ho' hsorted => ?_
  have howner := ownerLayout_isSome.trans (mem_teardownRules_iff_owned.mp ho).2
  have howner' := ownerLayout_isSome.trans (mem_teardownRules_iff_owned.mp ho').2
  obtain ⟨l, hl⟩ := Option.isSome_iff_exists.mp howner
  obtain ⟨l', hl'⟩ := Option.isSome_iff_exists.mp howner'
  have hrank := (Prod.Lex.le_iff.mp (hsorted l l' hl hl')).elim le_of_lt (·.1.le)
  rw [teardownRank, teardownRank, hl, hl']
  exact hrank

/-- No source rule of an address is removed before a source guard of the address. -/
theorem teardownRules_guardsFirst :
    (teardownRules s layouts).Pairwise fun o o' => ∀ l l' id,
      Recognises layouts l o → Recognises layouts l' o' → o.source = o'.source →
      classify l o.priority = some (.sourceLookup id) →
      classify l' o'.priority ≠ some .sourceGuard := by
  refine teardownRules_byKey.imp fun {o o'} hsorted l l' id h h' hsource hlookup hguard => ?_
  obtain ⟨m, hm, hrank, hkind⟩ := rank_of_recognises h
  obtain ⟨m', hm', hrank', hkind'⟩ := rank_of_recognises h'
  have hnot : classify m o.priority ≠ some .sourceGuard := by
    rw [ne_eq, hkind, hlookup]
    simp
  have hsame : removalRank (classify m o.priority) = removalRank (classify m' o'.priority) := by
    rw [hrank, hrank', hlookup, hguard]
    rfl
  have hle := hsorted m m' hm hm'
  simp only [removalKey, hsource, hsame, if_neg hnot, if_pos (hkind'.mpr hguard),
    Prod.Lex.toLex_le_toLex] at hle
  simp at hle

theorem mem_teardownTables {f : Family} {t p : ℕ} :
    toLex (p, toLex (f, t)) ∈ teardownTables s layouts ↔
      ∃ (κ : RouteKey) (r : ObservedRoute), s.routes[κ]? = some r ∧ ownsRoute layouts r = true ∧
        r.family = f ∧ r.table = t ∧ r.protocol = p := by
  simp only [teardownTables, Std.ExtTreeSet.mem_toList, Std.ExtTreeSet.mem_insertMany_list,
    List.contains_iff_mem, List.mem_flatMap, List.mem_map, Std.ExtTreeSet.not_mem_empty, false_or,
    mem_observedTables_iff_exists, ownsRoute, Bool.and_eq_true, List.any_eq_true,
    decide_eq_true_eq]
  constructor
  · rintro ⟨⟨l, p'⟩, hl, k, ⟨κ, r, hr, hp, ht, hs, rfl⟩, heq⟩
    obtain ⟨rfl, rfl, rfl⟩ : p' = p ∧ r.family = f ∧ r.table = t := by simpa using heq
    exact ⟨κ, r, hr, ⟨hs, ⟨l, p'⟩, hl, hp, ht⟩, rfl, rfl, hp⟩
  · rintro ⟨κ, r, hr, ⟨hs, ⟨l, p'⟩, hl, hp, ht⟩, rfl, rfl, rfl⟩
    exact ⟨⟨l, p'⟩, hl, _, ⟨κ, r, hr, hp, ht, hs, rfl⟩, by rw [← hp]⟩

/-- The deletion of the route of a table. -/
def teardownRoute (e : ℕ ×ₗ Family ×ₗ ℕ) : Op :=
  .deleteRoute (ofLex (ofLex e).2).1 (ofLex (ofLex e).2).2 (ofLex e).1

theorem teardown_eq :
    teardown s layouts = (teardownRules s layouts).map .deleteRule
      ++ (teardownTables s layouts).map teardownRoute := rfl

theorem teardownRoute_injective : Function.Injective teardownRoute := by
  intro a b h
  simp only [teardownRoute, Op.deleteRoute.injEq] at h
  obtain ⟨hf, ht, hp⟩ := h
  exact Prod.ext hp (Prod.ext hf ht)

theorem deleteRule_mem_teardown {o : ObservedRule} :
    .deleteRule o ∈ teardown s layouts ↔ o ∈ s.rules ∧ ownsRule layouts o = true := by
  rw [teardown_eq, List.mem_append, ← mem_teardownRules_iff_owned]
  simp [teardownRoute]

theorem deleteRoute_mem_teardown {f : Family} {t p : ℕ} :
    .deleteRoute f t p ∈ teardown s layouts ↔
      ∃ (κ : RouteKey) (r : ObservedRoute), s.routes[κ]? = some r ∧ ownsRoute layouts r = true ∧
        r.family = f ∧ r.table = t ∧ r.protocol = p := by
  rw [teardown_eq, List.mem_append, ← mem_teardownTables,
    ← List.mem_map_of_injective teardownRoute_injective]
  simp [teardownRoute]

/-- Every object is removed once. -/
theorem nodup_teardown (hs : s.rules.Nodup) : (teardown s layouts).Nodup := by
  rw [teardown_eq]
  refine List.Nodup.append ?_ ?_ ?_
  · refine List.Nodup.map (fun a b h => Op.deleteRule.inj h) ?_
    exact teardownRules_perm.nodup_iff.mpr (hs.filter _)
  · refine List.Nodup.map teardownRoute_injective ?_
    exact Std.ExtTreeSet.distinct_toList.imp fun h heq => h (compare_eq_iff_eq.mpr heq)
  · intro op hrule hroute
    obtain ⟨o, -, rfl⟩ := List.mem_map.mp hrule
    obtain ⟨e, -, he⟩ := List.mem_map.mp hroute
    cases he

/-- What holds between the rules in the order of their removal holds between the
operations. -/
theorem pairwise_teardown {R : ObservedRule → ObservedRule → Prop}
    (h : (teardownRules s layouts).Pairwise R) :
    (teardown s layouts).Pairwise fun a b => ∀ o o', a = .deleteRule o → b = .deleteRule o' →
      R o o' := by
  rw [teardown_eq, List.pairwise_append, List.pairwise_map]
  refine ⟨h.imp ?_, ?_, ?_⟩
  · rintro o o' hR _ _ ⟨⟩ ⟨⟩
    exact hR
  · rw [List.pairwise_map]
    exact List.pairwise_of_forall fun _ _ _ _ hroute => by cases hroute
  · rintro a - b hb o o' - rfl
    obtain ⟨e, -, he⟩ := List.mem_map.mp hb
    cases he

theorem rulesFirst_teardown : (teardown s layouts).Pairwise fun a b =>
    ∀ f t p o, a = .deleteRoute f t p → b ≠ .deleteRule o := by
  rw [teardown_eq, List.pairwise_append, List.pairwise_map, List.pairwise_map]
  refine ⟨List.pairwise_of_forall ?_, List.pairwise_of_forall ?_, ?_⟩
  · intro o o' f t p x h
    cases h
  · intro e e' f t p x _ h
    cases h
  · rintro a ha b hb f t p o rfl
    obtain ⟨o', -, ho'⟩ := List.mem_map.mp ha
    cases ho'

end Ops

/-! ## Their effect -/

section Effect

variable {layouts : List (Layout × ℕ)} {s : System} {scope : Scope} (now protocol : ℕ)

theorem applyOps_deleteRules {rules : List ObservedRule}
    (h : ∀ o ∈ rules, ObservedRule.parse o.message = some o) :
    applyOps now scope protocol s (rules.map .deleteRule) =
      { s with rules := s.rules.filter fun x => rules.all fun o => !sameRule x o } := by
  induction rules generalizing s with
  | nil => simp [applyOps]
  | cons o rules ih =>
    obtain ⟨ho, hrules⟩ := List.forall_mem_cons.mp h
    rw [List.map_cons, applyOps, List.foldl_cons, applyOp_deleteRule now protocol s ho]
    refine (ih hrules).trans ?_
    simp only [System.removeRule, List.filter_filter, List.all_cons]
    congr 1
    exact List.filter_congr fun x _ => Bool.and_comm _ _

/-- The key under which the route of a table is deleted. -/
def teardownKey (e : ℕ ×ₗ Family ×ₗ ℕ) : RouteKey :=
  TableKey.routeKey ⟨(ofLex (ofLex e).2).1, (ofLex (ofLex e).2).2⟩

theorem applyOps_deleteRoutes {tables : List (ℕ ×ₗ Family ×ₗ ℕ)}
    (h : ∀ e ∈ tables, scope.isPolywan (ofLex (ofLex e).2).2 = true) :
    applyOps now scope protocol s (tables.map teardownRoute) =
      { s with routes := s.routes.filter fun κ _ => κ ∉ tables.map teardownKey } := by
  induction tables generalizing s with
  | nil =>
    have hall : s.routes.filter (fun _ _ => true) = s.routes :=
      Std.ExtTreeMap.ext_getElem? fun κ => by
        rw [Std.ExtTreeMap.getElem?_filter']
        cases s.routes[κ]? <;> rfl
    simp [applyOps, hall]
  | cons e tables ih =>
    obtain ⟨he, htables⟩ := List.forall_mem_cons.mp h
    rw [List.map_cons, applyOps, List.foldl_cons, teardownRoute,
      applyOp_deleteRoute_of_isPolywan now protocol s _ he]
    refine (ih htables).trans ?_
    congr 1
    refine Std.ExtTreeMap.ext_getElem? fun κ => ?_
    simp only [Std.ExtTreeMap.getElem?_filter', Std.ExtTreeMap.getElem?_erase,
      Std.LawfulEqCmp.compare_eq_iff_eq, List.map_cons, List.mem_cons, not_or]
    by_cases hκ : teardownKey e = κ
    · subst hκ
      simp [teardownKey]
    · have hne : TableKey.routeKey ⟨(ofLex (ofLex e).2).1, (ofLex (ofLex e).2).2⟩ ≠ κ := hκ
      simp [hne, Ne.symm hκ]

/-- The rules that stay are those no listed layout owns. -/
theorem filter_teardownRules (hs : s.WellFormed scope) :
    (s.rules.filter fun x => (teardownRules s layouts).all fun o => !sameRule x o) =
      s.rules.filter fun o => !ownsRule layouts o := by
  refine List.filter_congr fun x hx => ?_
  rw [Bool.eq_iff_iff, List.all_eq_true, Bool.not_eq_true']
  constructor
  · intro hall
    by_contra howns
    have hmem := mem_teardownRules_iff_owned.mpr ⟨hx, eq_true_of_ne_false howns⟩
    simpa using hall x hmem
  · intro howns o ho
    obtain ⟨ho, howns'⟩ := mem_teardownRules_iff_owned.mp ho
    by_contra hsame
    obtain rfl := hs.eq_of_sameRule hx ho (by simpa using hsame)
    exact absurd howns' (by simp [howns])

theorem planned_of_owned {r : ObservedRoute} (h : ownsRoute layouts r = true) :
    r.asPlanned.isSome = true :=
  (Bool.and_eq_true_iff.mp h).1

theorem isPolywan_of_owned {f : Family} {t p : ℕ}
    (h : toLex (p, toLex (f, t)) ∈ teardownTables s layouts) :
    (Scope.ofLayouts (layouts.map Prod.fst)).isPolywan t = true := by
  obtain ⟨κ, r, -, howns, -, rfl, -⟩ := mem_teardownTables.mp h
  simp only [ownsRoute, Bool.and_eq_true, List.any_eq_true] at howns
  obtain ⟨-, l, hl, -, ht⟩ := howns
  simp only [Scope.isPolywan, Scope.ofLayouts, List.any_eq_true, List.mem_map]
  exact ⟨_, ⟨l.1, ⟨l, hl, rfl⟩, rfl⟩, ht⟩

/-- The routes that stay are those no listed layout owns. -/
theorem filter_teardownTables (hs : s.WellFormed (Scope.ofLayouts (layouts.map Prod.fst))) :
    (s.routes.filter fun κ _ => κ ∉ (teardownTables s layouts).map teardownKey) =
      s.routes.filter fun _ r => !ownsRoute layouts r := by
  refine Std.ExtTreeMap.ext_getElem? fun κ => ?_
  rw [Std.ExtTreeMap.getElem?_filter', Std.ExtTreeMap.getElem?_filter']
  cases hr : s.routes[κ]? with
  | none => rfl
  | some r =>
    have hiff : κ ∈ (teardownTables s layouts).map teardownKey ↔ ownsRoute layouts r = true := by
      rw [List.mem_map]
      constructor
      · rintro ⟨e, he, rfl⟩
        obtain ⟨κ', r', hr', howns, hf, ht, -⟩ := mem_teardownTables.mp he
        have hκ' : κ' = teardownKey e := by
          have hp : (Scope.ofLayouts (layouts.map Prod.fst)).isPolywan r'.table = true := by
            rw [ht]
            exact isPolywan_of_owned he
          rw [hs.key_eq_of_isPolywan hr' hp (planned_of_owned howns), hf, ht]
          rfl
        subst hκ'
        rwa [Option.some.inj (hr.symm.trans hr')]
      · intro howns
        have hmem := mem_teardownTables.mpr ⟨κ, r, hr, howns, rfl, rfl, rfl⟩
        refine ⟨_, hmem, ?_⟩
        exact (hs.key_eq_of_isPolywan hr (isPolywan_of_owned hmem) (planned_of_owned howns)).symm
    simp only [Option.filter_some, hiff]
    cases ownsRoute layouts r <;> simp

end Effect

/-- **Cleanup removes exactly what the listed layouts own**, whatever their ranges and
protocols: every object once, rules before routes, and recognised rules by the rank of
their role. -/
theorem teardown_cleans (layouts : List (Layout × ℕ))
    (v : View (Scope.ofLayouts (layouts.map Prod.fst))) (now protocol : ℕ) :
    Cleans layouts v.system (teardown v.system layouts)
      (applyOps now (Scope.ofLayouts (layouts.map Prod.fst)) protocol v.system
        (teardown v.system layouts)) where
  after := by
    rw [teardown_eq, applyOps_append, applyOps_deleteRules now protocol, applyOps_deleteRoutes,
      filter_teardownRules v.wellFormed, filter_teardownTables v.wellFormed]
    · exact fun e he => isPolywan_of_owned he
    · exact fun o ho => v.wellFormed.rule_parsed o (mem_teardownRules_iff_owned.mp ho).1
  once := nodup_teardown v.wellFormed.nodup_rules
  rule _ := deleteRule_mem_teardown
  route _ _ _ := deleteRoute_mem_teardown
  deletions op hop := by
    rw [teardown_eq, List.mem_append, List.mem_map, List.mem_map] at hop
    rcases hop with ⟨o, -, rfl⟩ | ⟨e, -, rfl⟩
    · exact .inl ⟨o, rfl⟩
    · exact .inr ⟨_, _, _, rfl⟩
  rulesFirst := rulesFirst_teardown
  ranked := pairwise_teardown teardownRules_ranked
  rank l o h := by
    obtain ⟨l', howner, hrank, -⟩ := rank_of_recognises h
    rw [teardownRank, howner]
    exact hrank
  guardsFirst := (pairwise_teardown teardownRules_guardsFirst).imp
    fun h o o' l l' id ho ho' => h o o' ho ho' l l' id

end Polywan
