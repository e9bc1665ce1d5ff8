import Mathlib.Order.Compare
import Std.Data.ExtTreeMap

/-!
# Maps that agree outside a part

Two maps agree on the keys that a test leaves alone.  Setting or removing an entry keeps that,
and an entry that is overwritten does not matter.
-/

namespace Polywan.Lib

variable {κ β : Type*} [LinearOrder κ] {m m' : Std.ExtTreeMap κ β}

/-- Maps that agree where a part is left out, with the same entry in both. -/
theorem getElem?_insert_congr {out : κ → Bool}
    (h : ∀ k : κ, out k = false → m[k]? = m'[k]?) (a : κ) (b : β) (k : κ) (hk : out k = false) :
    (m.insert a b)[k]? = (m'.insert a b)[k]? := by
  rw [Std.ExtTreeMap.getElem?_insert, Std.ExtTreeMap.getElem?_insert, h k hk]

theorem getElem?_erase_congr {out : κ → Bool}
    (h : ∀ k : κ, out k = false → m[k]? = m'[k]?) (a k : κ) (hk : out k = false) :
    (m.erase a)[k]? = (m'.erase a)[k]? := by
  rw [Std.ExtTreeMap.getElem?_erase, Std.ExtTreeMap.getElem?_erase, h k hk]

theorem getElem?_insert_of_out (m : Std.ExtTreeMap κ β) (a : κ) (b : β) (k : κ)
    (hk : decide (k = a) = false) : (m.insert a b)[k]? = m[k]? := by
  rw [Std.ExtTreeMap.getElem?_insert, if_neg]
  rw [Std.LawfulEqCmp.compare_eq_iff_eq]
  exact fun h => of_decide_eq_false hk h.symm

theorem getElem?_erase_of_out (m : Std.ExtTreeMap κ β) (a k : κ)
    (hk : decide (k = a) = false) : (m.erase a)[k]? = m[k]? := by
  rw [Std.ExtTreeMap.getElem?_erase, if_neg]
  rw [Std.LawfulEqCmp.compare_eq_iff_eq]
  exact fun h => of_decide_eq_false hk h.symm

/-- The entry that is overwritten does not matter. -/
theorem insert_eq_of_agree {a : κ} (h : ∀ k : κ, decide (k = a) = false → m[k]? = m'[k]?) (b : β) :
    m.insert a b = m'.insert a b := by
  apply Std.ExtTreeMap.ext_getElem?
  intro k
  simp only [Std.ExtTreeMap.getElem?_insert, Std.LawfulEqCmp.compare_eq_iff_eq]
  split
  · rfl
  · next hk => exact h k (decide_eq_false (Ne.symm hk))

theorem erase_eq_of_agree {a : κ} (h : ∀ k : κ, decide (k = a) = false → m[k]? = m'[k]?) :
    m.erase a = m'.erase a := by
  apply Std.ExtTreeMap.ext_getElem?
  intro k
  simp only [Std.ExtTreeMap.getElem?_erase, Std.LawfulEqCmp.compare_eq_iff_eq]
  split
  · rfl
  · next hk => exact h k (decide_eq_false (Ne.symm hk))

/-- Every entry of a map after an insertion. -/
theorem forall_insert {P : κ → β → Prop} (h : ∀ k b, m[k]? = some b → P k b) {a : κ} {b : β}
    (hb : P a b) (k : κ) (c : β) (hc : (m.insert a b)[k]? = some c) : P k c := by
  rw [Std.ExtTreeMap.getElem?_insert] at hc
  split at hc
  · next heq =>
      rw [← Std.LawfulEqCmp.compare_eq_iff_eq.mp heq, ← Option.some.inj hc]
      exact hb
  · exact h k c hc

theorem forall_erase {P : κ → β → Prop} (h : ∀ k b, m[k]? = some b → P k b) (a k : κ) (c : β)
    (hc : (m.erase a)[k]? = some c) : P k c := by
  rw [Std.ExtTreeMap.getElem?_erase] at hc
  split at hc
  · cases hc
  · exact h k c hc

end Polywan.Lib
