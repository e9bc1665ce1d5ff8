import Polywan.Plan.Without
import Polywan.Reconcile.Order
import Polywan.Reconcile.Tables
import Polywan.Routing

/-!
# Passes and packets

What the comparison of a pass looks like for a plan, and what becomes of packets by
the rules and routes that a view holds.

## Main definitions

* `System.InForce`, `System.Order` — the rules of a layout that are present.
* `System.route` — what becomes of a packet.
-/

namespace Polywan

/-! ## The comparison of a pass -/

section Pass

variable {p : Pass} {s : System}

theorem Pass.desired_proper (hv : p.config.Valid) :
    p.diffInput.desired.Proper p.diffInput.layout := plan_proper hv _

theorem Pass.beforeNft_proper (hv : p.config.Valid) :
    p.diffInput.beforeNft.Proper p.diffInput.layout := plan_proper hv _

/-- A pass deletes stale rules of every family. -/
theorem Pass.governs (f : Family) : p.diffInput.Governs f := by
  by_cases hm : p.config.manages f = true
  · exact .inl (List.mem_filter.mpr ⟨Family.mem_all f, hm⟩)
  · refine .inr fun r hr heq => hm ?_
    rw [← heq]
    exact (mem_plan_rules.mp hr).1

theorem mem_desired {ρ : Role} {f : Family} :
    ρ.rule p.diffInput.layout f ∈ p.diffInput.desired.rules ↔
      p.config.manages f = true ∧ ρ.Planned p.config p.input f := rule_mem_plan_iff

theorem planned_of_isClassGuard {c : Config} {i : Input} {f : Family} {γ : Role}
    (h : γ.IsClassGuard) : γ.Planned c i f := by
  cases γ <;> trivial

/-- A rule of the layout that is not desired is deleted. -/
theorem mem_deletions_of_not_desired (hv : p.config.Valid) {o : ObservedRule} {r : Rule}
    (ho : o ∈ s.rules) (his : o.is r p.diffInput.protocol = true)
    (hr : p.diffInput.layout.HasRule r) (hnot : r ∉ p.diffInput.desired.rules) :
    o ∈ p.diffInput.deletions s := by
  refine DiffInput.mem_deletions.mpr
    ⟨mem_observedRules_of_is ho hr his, Pass.governs _, fun r' hr' => ?_⟩
  rw [← Bool.not_eq_true]
  intro his'
  rw [hr.eq_of_is ((Pass.desired_proper hv).hasRule r' hr') his his'] at hnot
  exact hnot hr'

theorem Pass.proper (hv : p.config.Valid) : p.diffInput.Proper where
  beforeNft := Pass.beforeNft_proper hv
  desired := Pass.desired_proper hv
  samePaths := fun _ hk => plan_without_path p.input p.newPaths hk

end Pass

/-- A pass with every assignment installed. -/
def Pass.settled (c : Config) (i : Input) (nftPending : Bool) : Pass where
  config := c
  input := i
  newPaths := ∅
  nftPending := nftPending

theorem Pass.settled_beforeNft (c : Config) (i : Input) (nftPending : Bool) :
    (Pass.settled c i nftPending).diffInput.beforeNft = plan c i :=
  congrArg (plan c) (without_empty i)

/-! ## Packets -/

/-- A rule of the layout is present. -/
def System.InForce (s : System) (l : Layout) (protocol : ℕ) (r : Rule) : Prop :=
  l.HasRule r ∧ s.Holds protocol r

/-- The orders in which the kernel may hold the rules that are present. -/
def System.Order (s : System) (l : Layout) (protocol : ℕ) (rules : List Rule) : Prop :=
  Lib.Arranged Rule.priority (s.InForce l protocol) rules

/-- What becomes of a packet by the rules and routes present; `none` falls through. -/
def System.route (s : System) (protocol : ℕ) (p : Flow) (rules : List Rule) : Option Verdict :=
  Lib.walk (Rule.decide (s.planned protocol) p) rules

section Packets

variable {l : Layout} {protocol : ℕ} {s : System} {p : Flow} {rules : List Rule}

/-- The role behind a verdict: no role present at an earlier place decides. -/
theorem exists_role_of_route (ho : s.Order l protocol rules) {v : Verdict}
    (h : s.route protocol p rules = some v) :
    ∃ ρ : Role, s.Holds protocol (ρ.rule l p.family) ∧
      Lib.Reaches (Rule.decide (s.planned protocol) p) rules (ρ.rule l p.family) ∧
      ρ.Selects (l.mask.field p.mark) p.source ∧
      ρ.outcome (fun τ => s.planned protocol ⟨p.family, l.tableOf τ⟩) p.covered = some v ∧
      ∀ ρ' : Role, s.Holds protocol (ρ'.rule l p.family) → ρ'.offset < ρ.offset →
        ρ'.Selects (l.mask.field p.mark) p.source →
        ρ'.outcome (fun τ => s.planned protocol ⟨p.family, l.tableOf τ⟩) p.covered = none := by
  obtain ⟨r, ⟨⟨ρ, hr⟩, hold⟩, hreach, hd, hmin⟩ := ho.exists_of_walk_eq_some h
  rw [hr] at hd hold hmin hreach
  obtain ⟨hf, hs, hv⟩ := Role.decide_rule.mp hd
  rw [hf] at hold hreach
  refine ⟨ρ, hold, hreach, hs, hv, fun ρ' hold' hlt hs' => ?_⟩
  cases hv' : ρ'.outcome (fun τ => s.planned protocol ⟨p.family, l.tableOf τ⟩) p.covered with
  | none => rfl
  | some v' =>
    have hnone := hmin (ρ'.rule l p.family) ⟨ρ'.hasRule l _, hold'⟩ (by simpa using hlt)
    rw [Role.decide_rule.mpr ⟨rfl, hs', hv'⟩] at hnone
    cases hnone

theorem outcome_of_isClassGuard {γ : Role} (h : γ.IsClassGuard)
    (route : TableRole → Option Route) (covered : Bool) :
    γ.outcome route covered = some .unreachable := by
  cases γ <;> first | rfl | cases h

end Packets

end Polywan
