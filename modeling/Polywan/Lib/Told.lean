import Mathlib.Data.List.Basic

/-!
# The last message decides

A state is built from messages, each of which may tell of the entry that is looked at.
When a message that tells of it decides the entry and one that does not leaves it alone,
the last message that told of it decides the entry of the whole run.

## Main definitions

* `lastTold tells l` — what the last message of `l` that tells something tells.
* `Decides` — messages decide an entry.
-/

namespace Polywan.Lib

variable {σ ε α γ : Type*}

/-- What the last message that tells something tells. -/
def lastTold (tells : ε → Option γ) (l : List ε) : Option γ := l.reverse.findSome? tells

@[simp] theorem lastTold_nil (tells : ε → Option γ) : lastTold tells [] = none := rfl

theorem lastTold_append (tells : ε → Option γ) (l l' : List ε) :
    lastTold tells (l ++ l') = (lastTold tells l').or (lastTold tells l) := by
  rw [lastTold, List.reverse_append, List.findSome?_append]
  rfl

theorem lastTold_cons (tells : ε → Option γ) (e : ε) (l : List ε) :
    lastTold tells (e :: l) = (lastTold tells l).or (tells e) := by
  rw [← List.singleton_append, lastTold_append]
  cases h : tells e <;> simp [lastTold, h]

theorem lastTold_eq_none {tells : ε → Option γ} {l : List ε} :
    lastTold tells l = none ↔ ∀ e ∈ l, tells e = none := by
  simp [lastTold]

theorem mem_of_lastTold {tells : ε → Option γ} {l : List ε} {c : γ}
    (h : lastTold tells l = some c) : ∃ e ∈ l, tells e = some c := by
  obtain ⟨e, he, hc⟩ := List.exists_of_findSome?_eq_some h
  exact ⟨e, List.mem_reverse.mp he, hc⟩

/-- It is the last one of everything that is told. -/
theorem lastTold_eq_getLast? (tells : ε → Option γ) (l : List ε) :
    lastTold tells l = (l.filterMap tells).getLast? := by
  rw [lastTold, List.getLast?_eq_head?_reverse, ← List.filterMap_reverse, List.head?_filterMap]

/-- Messages decide an entry of the states that satisfy `inv`. -/
structure Decides (step : σ → ε → σ) (inv : σ → Prop) (allowed : ε → Prop) (look : σ → α)
    (tells : ε → Option γ) (R : γ → α → Prop) : Prop where
  keeps : ∀ s e, inv s → allowed e → inv (step s e)
  silent : ∀ s e, inv s → allowed e → tells e = none → look (step s e) = look s
  told : ∀ s e c, inv s → allowed e → tells e = some c → R c (look (step s e))

namespace Decides

variable {step : σ → ε → σ} {inv : σ → Prop} {allowed : ε → Prop} {look : σ → α}
  {tells : ε → Option γ} {R : γ → α → Prop} (h : Decides step inv allowed look tells R)
include h

theorem inv_foldl {l : List ε} (hl : ∀ e ∈ l, allowed e) {s : σ} (hs : inv s) :
    inv (l.foldl step s) := by
  induction l generalizing s with
  | nil => exact hs
  | cons e l ih =>
    obtain ⟨he, hl⟩ := List.forall_mem_cons.mp hl
    exact ih hl (h.keeps s e hs he)

/-- Without a message about it the entry is as before. -/
theorem foldl_of_none {l : List ε} (hl : ∀ e ∈ l, allowed e) {s : σ} (hs : inv s)
    (hnone : lastTold tells l = none) : look (l.foldl step s) = look s := by
  induction l generalizing s with
  | nil => rfl
  | cons e l ih =>
    obtain ⟨he, hl⟩ := List.forall_mem_cons.mp hl
    obtain ⟨htells, hrest⟩ := List.forall_mem_cons.mp (lastTold_eq_none.mp hnone)
    exact (ih hl (h.keeps s e hs he) (lastTold_eq_none.mpr hrest)).trans
      (h.silent s e hs he htells)

/-- **The last message about the entry decides it.** -/
theorem foldl_of_some {l : List ε} (hl : ∀ e ∈ l, allowed e) {s : σ} (hs : inv s) {c : γ}
    (hsome : lastTold tells l = some c) : R c (look (l.foldl step s)) := by
  induction l generalizing s with
  | nil => cases hsome
  | cons e l ih =>
    obtain ⟨he, hl⟩ := List.forall_mem_cons.mp hl
    have hs' := h.keeps s e hs he
    rw [lastTold_cons] at hsome
    cases hlast : lastTold tells l with
    | some c' =>
      rw [hlast] at hsome
      exact ih hl hs' (hlast.trans hsome)
    | none =>
      rw [hlast, Option.none_or] at hsome
      rw [List.foldl_cons, h.foldl_of_none hl hs' hlast]
      exact h.told s e c hs he hsome

end Decides

end Polywan.Lib
