import Mathlib.Data.List.Basic
import Mathlib.Order.Basic

/-!
# First match in priority order

A policy database holds a set of entries, each with a priority, and walks them in
priority order until one decides.  Entries of equal priority stand in an order
the outside world chose, so results are stated for every arrangement of the set.

## Main definitions

* `Arranged prio S l` — `l` lists the entries of `S` in priority order.
* `walk d l` — the decision of the first entry that takes one.
* `Reaches d l a` — the walk comes to `a`.
-/

namespace Polywan.Lib

variable {α δ : Type*}

/-- One of the orders in which a database may hold the entries of `S`. -/
structure Arranged (prio : α → ℕ) (S : α → Prop) (l : List α) : Prop where
  mem_iff : ∀ a, a ∈ l ↔ S a
  sorted : l.Pairwise fun a b => prio a ≤ prio b

/-- The decision of the first entry that decides. -/
def walk (d : α → Option δ) (l : List α) : Option δ := l.findSome? d

/-- The walk comes to an entry: nothing before it decides. -/
def Reaches (d : α → Option δ) (l : List α) (a : α) : Prop :=
  ∃ l₁ l₂, l = l₁ ++ a :: l₂ ∧ walk d l₁ = none

namespace Arranged

variable {prio : α → ℕ} {S : α → Prop} {l : List α} {d : α → Option δ}

/-- An entry that decides wins when no entry of the same or an earlier priority
decides otherwise. -/
theorem walk_eq_some (h : Arranged prio S l) {a : α} {v : δ} (ha : S a) (hd : d a = some v)
    (hmin : ∀ b, S b → prio b ≤ prio a → ∀ v', d b = some v' → v' = v) :
    walk d l = some v := by
  obtain ⟨hmem, hs⟩ := h
  replace ha : a ∈ l := (hmem a).mpr ha
  replace hmin : ∀ b ∈ l, prio b ≤ prio a → ∀ v', d b = some v' → v' = v :=
    fun b hb => hmin b ((hmem b).mp hb)
  clear hmem
  -- Along the list: the first deciding entry stands no later than `a`.
  induction l with
  | nil => cases ha
  | cons b l ih =>
    rw [List.pairwise_cons] at hs
    cases hb : d b with
    | some v' =>
      have hba : prio b ≤ prio a := by
        rcases List.mem_cons.mp ha with rfl | ha
        · exact Nat.le_refl _
        · exact hs.1 a ha
      have := hmin b List.mem_cons_self hba v' hb
      simp [walk, hb, this]
    | none =>
      have ha' : a ∈ l := by
        rcases List.mem_cons.mp ha with rfl | ha
        · simp [hd] at hb
        · exact ha
      have := ih hs.2 ha' fun c hc => hmin c (List.mem_cons_of_mem b hc)
      simpa [walk, hb] using this

/-- The entry behind a decision: nothing of an earlier priority decides. -/
theorem exists_of_walk_eq_some (h : Arranged prio S l) {v : δ} (hw : walk d l = some v) :
    ∃ a, S a ∧ Reaches d l a ∧ d a = some v ∧ ∀ b, S b → prio b < prio a → d b = none := by
  obtain ⟨l₁, a, l₂, rfl, hd, hbefore⟩ := List.findSome?_eq_some_iff.mp hw
  refine ⟨a, (h.mem_iff a).mp (by simp), ⟨l₁, l₂, rfl, List.findSome?_eq_none_iff.mpr hbefore⟩, hd,
    fun b hb hlt => ?_⟩
  have hb' := (h.mem_iff b).mpr hb
  rcases List.mem_append.mp hb' with hb' | hb'
  · exact hbefore b hb'
  · have hs := (List.pairwise_append.mp h.sorted).2.1
    rcases List.mem_cons.mp hb' with rfl | hb'
    · omega
    · have := (List.pairwise_cons.mp hs).1 b hb'
      omega

/-- The walk does not come past an entry that decides. -/
theorem not_reaches (h : Arranged prio S l) {a b : α} {v : δ} (hb : S b) (hd : d b = some v)
    (hlt : prio b < prio a) : ¬ Reaches d l a := by
  rintro ⟨l₁, l₂, rfl, hw⟩
  rcases List.mem_append.mp ((h.mem_iff b).mpr hb) with hmem | hmem
  · rw [List.findSome?_eq_none_iff.mp hw b hmem] at hd
    cases hd
  · have hs := (List.pairwise_append.mp h.sorted).2.1
    rcases List.mem_cons.mp hmem with rfl | hmem
    · omega
    · have := (List.pairwise_cons.mp hs).1 b hmem
      omega

end Arranged

end Polywan.Lib
