import Polywan.Reconcile.Recognise

/-!
# Checks before the program starts

Without a manifest the program adopts tagged rules in its range only if its own
configuration's layout produces them; another mask or table base installed the
others, and nothing records how to clean them up.

## Main results

* `Layout.roles_recognised` — a layout recognises exactly the rules it can plan.
-/

namespace Polywan

/-- What a check found. -/
structure Findings where
  errors : List String := []
  warnings : List String := []
deriving DecidableEq

/-- The error of a rule that the layout does not produce. -/
def unadoptable (r : ObservedRule) : String :=
  r.family.key ++ ": PolyWAN's rule at priority " ++ toString r.priority
    ++ " does not match this configuration (another fwmark_mask or table_base installed it?)"
    ++ " and there is no manifest to clean it up with: run `cleanup` with this configuration,"
    ++ " then start (IMPL-6)"

/-- The tagged rules in the range that the layout does not produce. -/
def adoptable (s : System) (layout : Layout) (protocol : ℕ) : Findings where
  errors := Family.all.flatMap fun family =>
    ((s.rules.filter fun r =>
      r.family = family && r.protocol = protocol && layout.priorities r.priority).filter
        fun r => !hasRole layout r).map unadoptable

/-- The check finds nothing exactly when every tagged rule in the range has a role. -/
theorem adoptable_errors_eq_nil {s : System} {l : Layout} {protocol : ℕ} :
    (adoptable s l protocol).errors = [] ↔
      ∀ o ∈ s.rules, o.protocol = protocol → l.priorities o.priority = true →
        hasRole l o = true := by
  simp only [adoptable, List.flatMap_eq_nil_iff, List.map_eq_nil_iff, List.filter_eq_nil_iff,
    List.mem_filter, Bool.and_eq_true, decide_eq_true_eq, Bool.not_eq_true', Bool.not_eq_false,
    Family.mem_all, true_implies]
  constructor
  · intro h o ho hprotocol hrange
    exact h o.family o ⟨ho, ⟨rfl, hprotocol⟩, hrange⟩
  · rintro h f o ⟨ho, ⟨-, hprotocol⟩, hrange⟩
    exact h o ho hprotocol hrange

/-- **The program recognises exactly its own rules.**  Each rule a layout can plan is
classified from its priority as its own kind and has a role when the kernel reports
it; an observed rule that has a role is, its protocol apart, one the layout can plan;
and so adoption without a manifest finds nothing exactly when the layout can plan
every tagged rule of its range. -/
theorem Layout.roles_recognised (l : Layout) :
    (∀ r, l.Produces r → classify l r.priority = some r.kind ∧
      ∀ protocol, ∀ m : RuleMessage, m.Echoes r protocol →
        ∃ o, ObservedRule.parse m = some o ∧ hasRole l o = true) ∧
    (∀ o : ObservedRule, o.foreignSelectors = false → hasRole l o = true →
      ∃ r, l.Produces r ∧ o.identity = r.identity o.protocol) ∧
    ∀ (s : System) (protocol : ℕ), (adoptable s l protocol).errors = [] ↔
      ∀ o ∈ s.rules, o.protocol = protocol → l.priorities o.priority = true →
        ∃ r, l.Produces r ∧ o.is r o.protocol = true := by
  refine ⟨fun r hr => ⟨?_, fun protocol m hm => ?_⟩, fun o _ hrole => ?_, fun s protocol => ?_⟩
  · obtain ⟨f, ρ, rfl⟩ := Layout.produces_iff.mp hr
    exact classify_rule l f ρ
  · refine ⟨_, hm.parse ⟨l, hr⟩, hasRole_iff_produces.mpr ⟨r, hr, ?_⟩⟩
    exact (ObservedRule.is_iff _ _ _).mpr ⟨rfl, rfl⟩
  · obtain ⟨r, hr, his⟩ := hasRole_iff_produces.mp hrole
    exact ⟨r, hr, ((o.is_iff _ _).mp his).2⟩
  · simp only [adoptable_errors_eq_nil, hasRole_iff_produces]

end Polywan
