import Mathlib.Data.List.Infix
import Mathlib.Data.List.Sort

/-!
# Work that is cut off

A list of operations may be applied up to any point.  What has been applied is a
prefix, and a prefix of a sorted list holds everything that sorts before one of
its members.
-/

namespace Polywan.Lib

variable {α κ : Type*}

/-- Work in two parts is cut off in the first or, after all of it, in the second. -/
theorem prefix_append_cases {p a b : List α} (h : p <+: a ++ b) :
    p <+: a ∨ ∃ q, q <+: b ∧ p = a ++ q := by
  rcases List.prefix_or_prefix_of_prefix h (List.prefix_append a b) with hp | ⟨q, rfl⟩
  · exact .inl hp
  · exact .inr ⟨q, (List.prefix_append_right_inj a).mp h, rfl⟩

/-- Leaving items out on the way to the first that stops, when the stopping ones stay. -/
theorem takeWhile_filter {p q : α → Bool} (h : ∀ a, p a = false → q a = true) (l : List α) :
    (l.filter q).takeWhile p = (l.takeWhile p).filter q := by
  induction l with
  | nil => rfl
  | cons a l ih =>
    cases hp : p a with
    | false => simp [h a hp, hp]
    | true =>
      cases hq : q a with
      | false => simp [hp, hq, ih]
      | true => simp [hp, hq, ih]

section Keyed

variable [LinearOrder κ]

/-- Sorting by a key sorts by the key. -/
theorem pairwise_insertionSort_key (key : α → κ) (l : List α) :
    (l.insertionSort fun a b => key a ≤ key b).Pairwise fun a b => key a ≤ key b := by
  have : Std.Total fun a b : α => key a ≤ key b := ⟨fun a b => le_total (key a) (key b)⟩
  have : IsTrans α fun a b => key a ≤ key b := ⟨fun _ _ _ => le_trans⟩
  exact List.pairwise_insertionSort _ _

/-- **A prefix of a sorted list is closed downwards.** -/
theorem mem_prefix_of_key_lt {key : α → κ} {l p : List α}
    (hs : l.Pairwise fun a b => key a ≤ key b) (hp : p <+: l) {a b : α} (hb : b ∈ p) (ha : a ∈ l)
    (hlt : key a < key b) : a ∈ p := by
  obtain ⟨q, rfl⟩ := hp
  rcases List.mem_append.mp ha with ha | ha
  · exact ha
  · have hle := (List.pairwise_append.mp hs).2.2 b hb a ha
    exact absurd hlt (not_lt.mpr hle)

/-- **Work that stops at one item** leaves the items of a sorted part that are behind it. -/
theorem mem_takeWhile_ne_append_iff [DecidableEq α] {key : α → κ} {l : List α}
    (hs : l.Pairwise fun a b => key a < key b) (rest : List α) {a b : α} (ha : a ∈ l) :
    a ∈ (l ++ rest).takeWhile (· ≠ b) ↔ (b ∈ l → key a < key b) := by
  induction l with
  | nil => cases ha
  | cons x l ih =>
    obtain ⟨hx, hl⟩ := List.pairwise_cons.mp hs
    by_cases hxb : x = b
    · subst hxb
      have hle : key x ≤ key a := by
        rcases List.mem_cons.mp ha with rfl | ha
        · exact le_rfl
        · exact (hx a ha).le
      simpa using hle
    · rw [List.cons_append, List.takeWhile_cons_of_pos (by simpa using hxb), List.mem_cons,
        List.mem_cons, or_iff_right (Ne.symm hxb)]
      rcases List.mem_cons.mp ha with rfl | hmem
      · simpa using fun hb => hx b hb
      · rw [← ih hl hmem, or_iff_right]
        rintro rfl
        exact (hx a hmem).false

end Keyed

end Polywan.Lib
