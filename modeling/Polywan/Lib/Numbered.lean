import Mathlib.Data.List.Basic

/-!
# Consecutively numbered lists

The elements of a log have consecutive numbers.  What a reader has not seen yet is then a
suffix of the log, and a bounded history, from which the oldest elements are dropped, is one
too.

## Main definitions

* `Numbered number start l` — the elements of `l` are numbered from `start` on.

## Main results

* `Numbered.filter_lt` — the elements after a number are what remains once the others are
  dropped.
-/

namespace Polywan.Lib

variable {α : Type*} {number : α → ℕ} {start : ℕ} {l : List α}

/-- The elements of `l` are numbered from `start` on. -/
def Numbered (number : α → ℕ) (start : ℕ) (l : List α) : Prop :=
  l.map number = List.range' start l.length

instance (l : List α) : Decidable (Numbered number start l) :=
  inferInstanceAs (Decidable (l.map number = List.range' start l.length))

theorem numbered_nil : Numbered number start ([] : List α) := rfl

theorem numbered_cons {a : α} :
    Numbered number start (a :: l) ↔ number a = start ∧ Numbered number (start + 1) l := by
  simp only [Numbered, List.map_cons, List.length_cons, List.range'_succ, List.cons.injEq]

theorem numbered_append {l' : List α} :
    Numbered number start (l ++ l') ↔
      Numbered number start l ∧ Numbered number (start + l.length) l' := by
  induction l generalizing start with
  | nil => simp [numbered_nil]
  | cons a l ih =>
    rw [List.cons_append, numbered_cons, numbered_cons, ih, List.length_cons, and_assoc,
      Nat.add_right_comm, Nat.add_assoc]

theorem Numbered.drop (h : Numbered number start l) (n : ℕ) :
    Numbered number (start + n) (l.drop n) := by
  rw [Numbered, List.map_drop, h, List.length_drop, List.drop_range', Nat.mul_one]

theorem Numbered.take (h : Numbered number start l) (n : ℕ) :
    Numbered number start (l.take n) := by
  rw [← List.take_append_drop n l] at h
  exact (numbered_append.mp h).1

/-- **What follows a number** is what remains once the others are dropped. -/
theorem Numbered.filter_lt (h : Numbered number start l) (a : ℕ) :
    l.filter (fun x => decide (a < number x)) = l.drop (a + 1 - start) := by
  induction l generalizing start with
  | nil => simp
  | cons x l ih =>
    obtain ⟨hx, hl⟩ := numbered_cons.mp h
    by_cases ha : a < start
    · have hzero : a + 1 - start = 0 := by omega
      have hrest : a + 1 - (start + 1) = 0 := by omega
      rw [List.filter_cons_of_pos (by simpa [hx] using ha), ih hl, hrest, hzero]
      rfl
    · have hsucc : a + 1 - start = (a + 1 - (start + 1)) + 1 := by omega
      rw [List.filter_cons_of_neg (by simpa [hx] using ha), ih hl, hsucc, List.drop_succ_cons]

/-- Where an element stands. -/
theorem Numbered.getElem? (h : Numbered number start l) {x : α} (hx : x ∈ l) :
    start ≤ number x ∧ l[number x - start]? = some x := by
  obtain ⟨i, hi, rfl⟩ := List.mem_iff_getElem.mp hx
  have hnumber : number l[i] = start + i := by
    have hmap : (l.map number)[i]? = some (number l[i]) := by
      rw [List.getElem?_map, List.getElem?_eq_getElem hi, Option.map_some]
    rw [h, List.getElem?_range' hi, Nat.one_mul] at hmap
    exact (Option.some.inj hmap).symm
  rw [hnumber, Nat.add_sub_cancel_left]
  exact ⟨Nat.le_add_right _ _, List.getElem?_eq_getElem hi⟩

/-- The elements of a segment are known by their numbers. -/
theorem Numbered.mem_segment (h : Numbered number start l) {x : α} (hx : x ∈ l) {m k : ℕ}
    (hlo : start + m ≤ number x) (hhi : number x < start + m + k) : x ∈ (l.drop m).take k := by
  obtain ⟨-, hget⟩ := h.getElem? hx
  refine List.mem_iff_getElem?.mpr ⟨number x - start - m, ?_⟩
  rw [List.getElem?_take_of_lt (by omega), List.getElem?_drop, ← hget]
  congr 1
  omega

/-- The number of the last element. -/
theorem Numbered.getLast? (h : Numbered number start l) (hl : l ≠ []) :
    l.getLast?.map number = some (start + l.length - 1) := by
  have hpos : 0 < l.length := List.length_pos_iff.mpr hl
  rw [← List.getLast?_map, h, List.getLast?_range', if_neg (by omega)]

/-- The number of the first element. -/
theorem Numbered.head? (h : Numbered number start l) (hl : l ≠ []) :
    l.head?.map number = some start := by
  cases l with
  | nil => exact absurd rfl hl
  | cons a l => rw [List.head?_cons, Option.map_some, (numbered_cons.mp h).1]

end Polywan.Lib
