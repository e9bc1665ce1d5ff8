import Polywan.Netlink.Echo
import Polywan.Reconcile.Effect

/-!
# Recognising the program's own rules

The generator of the rules and the classifier of an observed one are two encodings of
the same layout.  By `classify_rule` a planned rule has the role its priority says;
here the converse, that a rule is taken for the role of its priority exactly when it is
the rule of that role.

## Main results

* `hasRole_iff` — the observed rules that have a role are the planned ones.
-/

namespace Polywan

/-- The first id, by which a source guard is looked up. -/
theorem UplinkId.new_one : UplinkId.new 1 = some ⟨1, by decide, by decide⟩ := rfl

section HasRole

variable {l : Layout} {o : ObservedRule}

/-- A rule with a role is the rule of one. -/
theorem exists_role_of_hasRole (h : hasRole l o = true) :
    ∃ ρ : Role, o.is (ρ.rule l o.family) o.protocol = true := by
  unfold hasRole at h
  split at h
  · cases h
  · split at h
    · obtain ⟨r, hr, his⟩ := List.any_eq_true.mp h
      simp only [Bool.and_eq_true] at his
      obtain rfl | rfl := (l.mem_sourceRules _).mp hr
      · exact ⟨_, his.2⟩
      · exact ⟨_, his.2⟩
    · rw [UplinkId.new_one, Option.any_some] at h
      obtain ⟨r, hr, his⟩ := List.any_eq_true.mp h
      simp only [Bool.and_eq_true] at his
      obtain rfl | rfl := (l.mem_sourceRules _).mp hr
      · exact ⟨_, his.2⟩
      · exact ⟨_, his.2⟩
    · obtain ⟨r, hr, his⟩ := List.any_eq_true.mp h
      simp only [Bool.and_eq_true] at his
      obtain ⟨ρ, -, rfl⟩ := (l.mem_staticRules _).mp hr
      exact ⟨ρ, his.2⟩

/-- The rule of a role has one. -/
theorem hasRole_of_is {ρ : Role} (h : o.is (ρ.rule l o.family) o.protocol = true) :
    hasRole l o = true := by
  have hidentity := ((o.is_iff _ _).mp h).2
  have hkind : classify l o.priority = some ρ.kind := by
    have hpriority : o.priority = (ρ.rule l o.family).priority :=
      congrArg RuleIdentity.priority hidentity
    rw [hpriority, classify_rule]
  have hsource : o.source = ρ.source.map fun a => (a, hostLen a) :=
    congrArg RuleIdentity.source hidentity
  have hstatic : ρ.Static UplinkId.all →
      ((l.staticRules o.family UplinkId.all).any fun r =>
        decide (r.kind = ρ.kind) && o.is r o.protocol) = true := fun hρ =>
    List.any_eq_true.mpr ⟨_, (l.mem_staticRules _).mpr ⟨ρ, hρ, rfl⟩, by simp [h]⟩
  simp only [hasRole, hkind, hsource]
  cases ρ with
  | sourceLookup id a =>
    exact List.any_eq_true.mpr ⟨_, (l.mem_sourceRules _).mpr (.inl rfl), by simp [h]⟩
  | sourceGuard a =>
    simp only [Role.kind, Role.source, Option.map_some, UplinkId.new_one, Option.any_some]
    exact List.any_eq_true.mpr ⟨_, (l.mem_sourceRules _).mpr (.inr rfl),
      by simp [h, Role.kind]⟩
  | probeLookup id | pathLookup id | policyBalanceLookup id | policyBlockLookup id =>
    exact hstatic (UplinkId.mem_all id)
  | _ => exact hstatic trivial

/-- **The observed rules that have a role are the rules of the layout's roles.** -/
theorem hasRole_iff :
    hasRole l o = true ↔ ∃ ρ : Role, o.is (ρ.rule l o.family) o.protocol = true :=
  ⟨exists_role_of_hasRole, fun ⟨_, h⟩ => hasRole_of_is h⟩

/-- The observed rules that have a role are those the layout can plan. -/
theorem hasRole_iff_produces :
    hasRole l o = true ↔ ∃ r, l.Produces r ∧ o.is r o.protocol = true := by
  rw [hasRole_iff]
  constructor
  · rintro ⟨ρ, h⟩
    exact ⟨_, Layout.produces_iff.mpr ⟨_, ρ, rfl⟩, h⟩
  · rintro ⟨r, hr, h⟩
    obtain ⟨f, ρ, rfl⟩ := Layout.produces_iff.mp hr
    have hfamily : o.family = f := congrArg RuleIdentity.family ((o.is_iff _ _).mp h).2
    exact ⟨ρ, hfamily ▸ h⟩

end HasRole

end Polywan
