import Polywan.Plan

/-!
# Active set selection

Which uplinks of a family carry the balanced traffic.

## Main definitions

* `activeSet` — the healthy candidates of the best priority, or what the policy says
  when none is healthy.
-/

namespace Polywan

/-- An eligible (has a priority, not drained) and ready path. -/
structure Candidate where
  uplink : UplinkId
  priority : ℕ
  healthy : Bool
deriving DecidableEq

/-- The candidates of the lowest priority number. -/
def bestGroup (pool : List Candidate) : Std.ExtTreeSet UplinkId :=
  match (pool.map Candidate.priority).min? with
  | none => ∅
  | some best => Std.ExtTreeSet.ofList ((pool.filter (·.priority = best)).map Candidate.uplink)

/-- Applies the decision table. -/
def activeSet (candidates : List Candidate) (policy : AllDownPolicy)
    (previous : Std.ExtTreeSet UplinkId) : Std.ExtTreeSet UplinkId :=
  if candidates.any Candidate.healthy then bestGroup (candidates.filter Candidate.healthy)
  else match policy with
    | .ready => bestGroup candidates
    | .keep => Std.ExtTreeSet.ofList ((candidates.map Candidate.uplink).filter previous.contains)

/-- The best group: the candidates no other comes before. -/
theorem mem_bestGroup_iff {pool : List Candidate} {id : UplinkId} :
    id ∈ bestGroup pool ↔
      ∃ c ∈ pool, c.uplink = id ∧ ∀ c' ∈ pool, c.priority ≤ c'.priority := by
  unfold bestGroup
  split
  · next hmin =>
      have hpool : pool = [] := by simpa using hmin
      simp [hpool]
  · next best hmin =>
      rw [List.min?_eq_some_iff] at hmin
      obtain ⟨hbest, hle⟩ := hmin
      simp only [List.mem_map, forall_exists_index, and_imp, forall_apply_eq_imp_iff₂] at hbest hle
      obtain ⟨b, hb, hprio⟩ := hbest
      simp only [Std.ExtTreeSet.mem_ofList, List.contains_eq_mem, decide_eq_true_iff, List.mem_map,
        List.mem_filter]
      constructor
      · rintro ⟨c, ⟨hc, hcbest⟩, hid⟩
        refine ⟨c, hc, hid, ?_⟩
        intro c' hc'
        rw [hcbest]
        exact hle c' hc'
      · rintro ⟨c, hc, hid, hleast⟩
        have hc_le : c.priority ≤ best := hprio ▸ hleast b hb
        exact ⟨c, ⟨hc, le_antisymm hc_le (hle c hc)⟩, hid⟩

end Polywan
