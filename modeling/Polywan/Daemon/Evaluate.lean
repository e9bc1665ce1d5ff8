import Polywan.Daemon
import Polywan.Lib.Fold

/-!
# What evaluation selects

The active set of each family in the planner input and in the state, and what an
active path is.
-/

namespace Polywan

namespace Daemon

/-- The active set of a family in the planner input. -/
theorem active_evaluateInput (d : Daemon) (now : ℕ) (f : Family) :
    (d.evaluateInput now).active[f]? =
      if d.cfg.manages f then some (d.select (d.evaluateInput now).paths f) else none := by
  simp only [evaluateInput, Lib.getElem?_foldl_insert, List.mem_filter, Family.mem_all, true_and,
    Std.ExtTreeMap.getElem?_empty]

/-- The active sets after a selection: those of the managed families are selected. -/
theorem getD_evaluateActive (d : Daemon) (paths : Std.ExtTreeMap PathKey PathInput) {f : Family}
    (hf : d.cfg.manages f = true) :
    ((d.evaluateActive paths)[f]?).getD ∅ = d.select paths f := by
  -- On the way the entry is the previous set or the selected one.
  have hfold : ∀ (fs : List Family) (m : Std.ExtTreeMap Family (Std.ExtTreeSet UplinkId)),
      (m[f]?).getD ∅ = d.select paths f ∨ f ∈ fs ∧ (m[f]?).getD ∅ = (d.active[f]?).getD ∅ →
      ((fs.foldl (fun active f =>
        if d.select paths f = (d.active[f]?).getD ∅ then active
        else active.insert f (d.select paths f)) m)[f]?).getD ∅ = d.select paths f := by
    intro fs
    induction fs with
    | nil => exact fun m hm => hm.elim id fun h => absurd h.1 List.not_mem_nil
    | cons g fs ih =>
      intro m hm
      refine ih _ ?_
      dsimp only
      by_cases hg : g = f
      · subst hg
        left
        by_cases hsame : d.select paths g = (d.active[g]?).getD ∅
        · rw [if_pos hsame]
          exact hm.elim id fun h => h.2.trans hsame.symm
        · rw [if_neg hsame, Std.ExtTreeMap.getElem?_insert_self, Option.getD_some]
      · have hstep : ((if d.select paths g = (d.active[g]?).getD ∅ then m
            else m.insert g (d.select paths g))[f]?) = m[f]? := by
          split
          · rfl
          · rw [Std.ExtTreeMap.getElem?_insert, if_neg]
            rw [Std.LawfulEqCmp.compare_eq_iff_eq]
            exact hg
        rw [hstep]
        refine hm.imp_right fun h => ⟨?_, h.2⟩
        exact (List.mem_cons.mp h.1).resolve_left (Ne.symm hg)
  exact hfold _ _ (.inr ⟨List.mem_filter.mpr ⟨Family.mem_all f, hf⟩, rfl⟩)

/-- The active set of a family that is not managed stays. -/
theorem getElem?_evaluateActive_of_unmanaged (d : Daemon)
    (paths : Std.ExtTreeMap PathKey PathInput) {f : Family} (hf : d.cfg.manages f = false) :
    (d.evaluateActive paths)[f]? = d.active[f]? := by
  have hfold : ∀ (fs : List Family) (m : Std.ExtTreeMap Family (Std.ExtTreeSet UplinkId)),
      f ∉ fs → (fs.foldl (fun active f =>
        if d.select paths f = (d.active[f]?).getD ∅ then active
        else active.insert f (d.select paths f)) m)[f]? = m[f]? := by
    intro fs
    induction fs with
    | nil =>
      intro m _
      rfl
    | cons g fs ih =>
      intro m hmem
      rw [List.mem_cons, not_or] at hmem
      rw [List.foldl_cons, ih _ hmem.2]
      split
      · rfl
      · simp [Std.ExtTreeMap.getElem?_insert, Ne.symm hmem.1]
  apply hfold
  simp [hf]

end Daemon

end Polywan
