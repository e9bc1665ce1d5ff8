import Mathlib.Algebra.BigOperators.Group.Finset.Basic
import Mathlib.Data.Fintype.BigOperators

/-!
# Sums in which one term changes

What is counted over many parties, one of which takes a step.
-/

namespace Polywan.Lib

variable {ι κ M : Type*} [AddCommMonoid M] {a : M}

/-- A sum in which one term has more. -/
theorem sum_add_single [DecidableEq ι] {s : Finset ι} {f g : ι → M} {i : ι} (hi : i ∈ s)
    (hself : f i = a + g i) (hother : ∀ j ∈ s, j ≠ i → f j = g j) :
    ∑ j ∈ s, f j = a + ∑ j ∈ s, g j := by
  rw [← Finset.add_sum_erase s f hi, ← Finset.add_sum_erase s g hi, hself, add_assoc]
  congr 2
  refine Finset.sum_congr rfl fun j hj => ?_
  obtain ⟨hne, hmem⟩ := Finset.mem_erase.mp hj
  exact hother j hmem hne

/-- A sum over the parties, one of which moves on. -/
theorem sum_update_add [Fintype ι] [DecidableEq ι] (f : ι → κ → M) (p : ι → κ) (i : ι) (x : κ) :
    ∑ j, f j (Function.update p i x j) + f i (p i) = ∑ j, f j (p j) + f i x := by
  have hsame : ∑ j ∈ Finset.univ.erase i, f j (Function.update p i x j) =
      ∑ j ∈ Finset.univ.erase i, f j (p j) := by
    refine Finset.sum_congr rfl fun j hj => ?_
    rw [Function.update_of_ne (Finset.ne_of_mem_erase hj)]
  rw [← Finset.sum_erase_add _ _ (Finset.mem_univ i), hsame, Function.update_self,
    ← Finset.sum_erase_add _ (fun j => f j (p j)) (Finset.mem_univ i), add_right_comm]

end Polywan.Lib
