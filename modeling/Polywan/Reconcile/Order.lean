import Polywan.Reconcile.Diff

/-!
# Installation, removal and lookup order

Rules are installed and removed by role.  Apart from the class guards, which go in
first and out last, the installation order of rules that select a packet is the
order in which the kernel looks at them, and the removal order is its reverse.
-/

namespace Polywan

/-- The guards installed before every lookup rule. -/
def Role.IsClassGuard (ρ : Role) : Prop := ρ.kind.isClassGuard = true

theorem removalRank_some (k : RuleKind) : removalRank (some k) = 7 - installRank k := by
  cases k <;> rfl

theorem installRank_le (k : RuleKind) : installRank k ≤ 7 := by
  cases k <;> simp [installRank]

namespace Role

variable {ρ ρ' : Role}

theorem installRank_of_isClassGuard (h : ρ.IsClassGuard) : installRank ρ.kind = 0 := by
  cases ρ <;> first | rfl | cases h

/-- The rank of a role and its place in the walk. -/
theorem rank_and_offset (h : ¬ ρ.IsClassGuard) :
    (installRank ρ.kind = 1 ∧ ρ.offset < 64) ∨ (installRank ρ.kind = 2 ∧ ρ.offset = 100) ∨
      (installRank ρ.kind = 3 ∧ 200 < ρ.offset ∧ ρ.offset < 264) ∨
      (installRank ρ.kind = 4 ∧ 300 < ρ.offset ∧ ρ.offset < 464) ∨
      (installRank ρ.kind = 5 ∧ 500 < ρ.offset ∧ ρ.offset ≤ 564) ∨
      (installRank ρ.kind = 6 ∧ ρ.offset = 600) ∨ (installRank ρ.kind = 7 ∧ ρ.offset = 699) := by
  cases ρ with
  | probeLookup id | pathLookup id | policyBalanceLookup id | policyBlockLookup id
  | sourceLookup id _ =>
    have := id.num_pos
    have := id.num_le
    simp [kind, installRank, offset]
    omega
  | probeGuard | pathGuard _ | policyBlockGuard => exact absurd rfl h
  | mainBypass | sourceGuard _ | balance | finalGuard => simp [kind, installRank, offset]

theorem installRank_pos (h : ¬ ρ.IsClassGuard) : 0 < installRank ρ.kind := by
  have := rank_and_offset h
  omega

/-- What the kernel looks at first is not installed later. -/
theorem installRank_mono (h : ¬ ρ.IsClassGuard) (h' : ¬ ρ'.IsClassGuard)
    (hlt : ρ.offset < ρ'.offset) : installRank ρ.kind ≤ installRank ρ'.kind := by
  have := rank_and_offset h
  have := rank_and_offset h'
  omega

/-- After a source guard the kernel looks at rules of another rank. -/
theorem kind_ne_sourceGuard (h' : ¬ ρ'.IsClassGuard) (hlt : ρ.offset < ρ'.offset)
    (hrank : installRank ρ.kind = installRank ρ'.kind) : ρ.kind ≠ .sourceGuard := by
  intro hk
  have ho : ρ.offset = 564 := by cases ρ <;> first | rfl | cases hk
  have hr : installRank ρ.kind = 5 := by rw [hk]; rfl
  have := rank_and_offset h'
  omega

end Role

/-! ## Keys -/

section Keys

variable {l : Layout} {f : Family} {ρ ρ' : Role} {protocol : ℕ}

theorem installKey_lt_of_rank {r r' : Rule} (h : installRank r.kind < installRank r'.kind) :
    installKey r < installKey r' :=
  Prod.Lex.toLex_lt_toLex.mpr (.inl h)

/-- The removal key of a rule of the layout depends on the planned rule alone. -/
theorem removalKey_of_is {o : ObservedRule} {r : Rule} (h : o.is r protocol = true) :
    removalKey l o = removalKey l (r.observed protocol) := by
  simp only [removalKey, ObservedRule.priority_of_is h, ObservedRule.source_of_is h,
    ObservedRule.family_of_is h]
  rfl

theorem removalKey_observed (l : Layout) (f : Family) (ρ : Role) (protocol : ℕ) :
    removalKey l ((ρ.rule l f).observed protocol) =
      toLex (7 - installRank ρ.kind,
        toLex (noneFirst ((ρ.source.map fun a => (a, hostLen a)).map toLex),
          toLex (if ρ.kind = .sourceGuard then 0 else 1,
            toLex (f, OrderDual.toDual (l.priorityBase + ρ.offset))))) := by
  have hc : classify l ((ρ.rule l f).observed protocol).priority = some ρ.kind :=
    classify_rule l f ρ
  simp only [removalKey, hc, removalRank_some, Option.some.injEq]
  rfl

theorem removalKey_lt_of_rank (h : installRank ρ.kind < installRank ρ'.kind) :
    removalKey l ((ρ'.rule l f).observed protocol) <
      removalKey l ((ρ.rule l f).observed protocol) := by
  have := installRank_le ρ'.kind
  rw [removalKey_observed, removalKey_observed]
  refine Prod.Lex.toLex_lt_toLex.mpr (.inl ?_)
  simp only
  omega

/-- Class guards are installed before everything else, -/
theorem installKey_lt_of_isClassGuard (h : ρ.IsClassGuard) (h' : ¬ ρ'.IsClassGuard) :
    installKey (ρ.rule l f) < installKey (ρ'.rule l f) := by
  refine installKey_lt_of_rank ?_
  rw [Role.rule_kind, Role.rule_kind, Role.installRank_of_isClassGuard h]
  exact Role.installRank_pos h'

/-- and removed after it. -/
theorem removalKey_lt_of_isClassGuard (h : ρ.IsClassGuard) (h' : ¬ ρ'.IsClassGuard) :
    removalKey l ((ρ'.rule l f).observed protocol) <
      removalKey l ((ρ.rule l f).observed protocol) := by
  refine removalKey_lt_of_rank ?_
  rw [Role.installRank_of_isClassGuard h]
  exact Role.installRank_pos h'

section Walk

variable (h : ¬ ρ.IsClassGuard) (h' : ¬ ρ'.IsClassGuard) (hlt : ρ.offset < ρ'.offset)
  (hsource : installRank ρ.kind = installRank ρ'.kind → ρ.source = ρ'.source)
include h h' hlt hsource

/-- **Rules are installed in the order of the walk.** -/
theorem installKey_lt_of_offset_lt : installKey (ρ.rule l f) < installKey (ρ'.rule l f) := by
  rcases (Role.installRank_mono h h' hlt).lt_or_eq with hrank | hrank
  · exact installKey_lt_of_rank hrank
  · have hguard := Role.kind_ne_sourceGuard h' hlt hrank
    simp only [installKey, Role.rule_kind, Role.rule_source, Role.rule_family, Role.rule_priority,
      hrank, hsource hrank, hguard, if_false, Prod.Lex.toLex_lt_toLex, lt_self_iff_false, true_and,
      false_or]
    by_cases hk : ρ'.kind = .sourceGuard
    · simp [hk]
    · simp [hk, hlt]

/-- **Rules are removed in the opposite order.** -/
theorem removalKey_lt_of_offset_lt :
    removalKey l ((ρ'.rule l f).observed protocol) <
      removalKey l ((ρ.rule l f).observed protocol) := by
  rcases (Role.installRank_mono h h' hlt).lt_or_eq with hrank | hrank
  · exact removalKey_lt_of_rank hrank
  · have hguard := Role.kind_ne_sourceGuard h' hlt hrank
    simp only [removalKey_observed, hrank, hsource hrank, hguard, if_false,
      Prod.Lex.toLex_lt_toLex, lt_self_iff_false, true_and, false_or, OrderDual.toDual_lt_toDual]
    by_cases hk : ρ'.kind = .sourceGuard
    · simp [hk]
    · simp [hk, hlt]

end Walk

end Keys

end Polywan
