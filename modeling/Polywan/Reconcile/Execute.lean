import Mathlib.Data.List.TakeWhile
import Polywan.Reconcile

/-!
# Executing a pass

Which operations of a list run, and those of a comparison: up to the nftables step
when it is to be made, all of them otherwise.

## Main definitions

* `performed` — the operations that run.
-/

namespace Polywan

/-- The operations that run: those before the nftables step, up to the first that the
kernel rejects. -/
def performed (succeeds : Op → Bool) (ops : List Op) : List Op :=
  (beforeStep ops).takeWhile succeeds

/-- What execution does and reports. -/
theorem execute_eq (now : ℕ) (scope : Scope) (protocol : ℕ) (succeeds : Op → Bool) (s : System)
    (ops : List Op) :
    execute now scope protocol succeeds s ops =
      (applyOps now scope protocol s (performed succeeds ops),
        if (beforeStep ops).all succeeds then some (decide (Op.applyNft ∈ ops)) else none) := by
  induction ops generalizing s with
  | nil => rfl
  | cons op ops ih =>
    by_cases hnft : op = .applyNft
    · subst hnft
      simp [execute, performed, beforeStep, applyOps]
    · have hstep : beforeStep (op :: ops) = op :: beforeStep ops := by
        simp [beforeStep, hnft]
      have hexec : execute now scope protocol succeeds s (op :: ops) =
          if succeeds op then
            execute now scope protocol succeeds (applyOp now scope protocol s op) ops
          else (s, none) := by
        cases op <;> first | rfl | exact absurd rfl hnft
      rw [hexec, ih]
      by_cases hs : succeeds op = true
      · simp [hs, performed, hstep, applyOps, Ne.symm hnft]
      · simp [hs, performed, hstep, applyOps]

theorem beforeStep_beforeStep (ops : List Op) : beforeStep (beforeStep ops) = beforeStep ops :=
  List.takeWhile_idem

/-! ## The operations of a comparison -/

section Diff

variable (s : System) {d : DiffInput}

theorem applyNft_not_mem_firstOps : Op.applyNft ∉ d.firstOps s := by
  simp [DiffInput.firstOps, DiffInput.replacements, DiffInput.deletion]

theorem applyNft_mem_diff : Op.applyNft ∈ diff s d ↔ d.nftPending = true := by
  have hlast : Op.applyNft ∉ d.lastOps s := by
    simp [DiffInput.lastOps, DiffInput.lateReplacements, DiffInput.deletion]
  simp [diff, applyNft_not_mem_firstOps, hlast]

theorem beforeStep_eq_self {ops : List Op} (h : Op.applyNft ∉ ops) : beforeStep ops = ops := by
  refine List.takeWhile_eq_self_iff.mpr fun op hop => ?_
  rw [decide_eq_true_iff]
  exact fun heq => h (heq ▸ hop)

theorem beforeStep_diff (hp : d.nftPending = true) : beforeStep (diff s d) = d.firstOps s := by
  have hfirst := beforeStep_eq_self (applyNft_not_mem_firstOps s (d := d))
  rw [beforeStep, List.takeWhile_eq_self_iff] at hfirst
  rw [beforeStep, diff, hp, if_pos rfl, List.append_assoc, List.takeWhile_append_of_pos hfirst]
  simp

/-- Without an nftables step, everything may run. -/
theorem beforeStep_diff_of_not_pending (hp : d.nftPending = false) :
    beforeStep (diff s d) = d.firstOps s ++ d.lastOps s := by
  rw [beforeStep_eq_self]
  · simp [diff, hp]
  · rw [applyNft_mem_diff, hp]
    exact Bool.false_ne_true

/-- With every operation succeeding, execution stops at the nftables step. -/
theorem execute_diff (now : ℕ) (scope : Scope) (protocol : ℕ) (hp : d.nftPending = true) :
    execute now scope protocol (fun _ => true) s (diff s d) =
      (applyOps now scope protocol s (d.firstOps s), some true) := by
  have hmem := (applyNft_mem_diff s).mpr hp
  have hall : (d.firstOps s).takeWhile (fun _ => true) = d.firstOps s :=
    List.takeWhile_eq_self_iff.mpr fun _ _ => rfl
  simp [execute_eq, performed, beforeStep_diff s hp, hmem, hall]

end Diff

end Polywan
