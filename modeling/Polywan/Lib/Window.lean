import Mathlib.Data.List.Basic
import Mathlib.Data.List.Pairwise
import Mathlib.Data.List.TakeWhile

/-!
# Sliding windows of instants

A queue of instants that grows at its end and from whose front the instants that are too
old are dropped.  As long as time does not go back, it has exactly the recent instants of
the whole log.

## Main definitions

* `Ages old` — what is old stays old, and so is what is before it.
* `Lacks old since l w` — the queue `w` lacks only instants of the log `l` that were old.
* `stale span now t` — an instant is too old.
* `push span now w` — the queue after one more instant.
* `Window span l w` — the queue `w` lacks only instants of the log `l` that stay stale.

## Main results

* `Lacks.dropWhile_eq_filter` — what is left has exactly the recent instants of the log.
* `Window.push_eq_filter` — the queue has exactly the recent instants of the log.
-/

namespace Polywan.Lib

variable {now : ℕ} {l w : List ℕ}

theorem pairwise_concat (hl : l.Pairwise (· ≤ ·)) (hnow : ∀ t ∈ l, t ≤ now) :
    (l ++ [now]).Pairwise (· ≤ ·) := by
  rw [List.pairwise_append]
  refine ⟨hl, List.pairwise_singleton _ _, fun a ha b hb => ?_⟩
  rw [List.mem_singleton.mp hb]
  exact hnow a ha

/-! ## Queues that drop what is old -/

section Ages

/-- What is old stays old, and so is what is before it. -/
structure Ages (old : ℕ → ℕ → Bool) : Prop where
  later : ∀ {now now' t}, old now t = true → now ≤ now' → old now' t = true
  earlier : ∀ {now t t'}, old now t = true → t' ≤ t → old now t' = true

/-- The queue lacks only instants that were old at `since`. -/
def Lacks (old : ℕ → ℕ → Bool) (since : ℕ) (l w : List ℕ) : Prop :=
  ∃ gone, l = gone ++ w ∧ ∀ t ∈ gone, old since t = true

variable {old : ℕ → ℕ → Bool} (ho : Ages old) {since : ℕ}
include ho

/-- In order, the old instants are those at the front. -/
theorem Ages.dropWhile_eq_filter (h : l.Pairwise (· ≤ ·)) :
    l.dropWhile (old now) = l.filter fun t => !old now t := by
  induction l with
  | nil => rfl
  | cons a l ih =>
    obtain ⟨ha, hl⟩ := List.pairwise_cons.mp h
    by_cases hold : old now a = true
    · rw [List.dropWhile_cons_of_pos hold, List.filter_cons_of_neg (by simp [hold]), ih hl]
    · rw [List.dropWhile_cons_of_neg hold, eq_comm, List.filter_eq_self]
      intro t ht
      rcases List.mem_cons.mp ht with rfl | ht
      · simpa using hold
      · simpa using fun hs => hold (ho.earlier hs (ha t ht))

/-- **What is left has exactly the recent instants of the log.** -/
theorem Lacks.dropWhile_eq_filter (h : Lacks old since l w) (hl : l.Pairwise (· ≤ ·))
    (hnow : since ≤ now) : w.dropWhile (old now) = l.filter fun t => !old now t := by
  obtain ⟨gone, rfl, hgone⟩ := h
  have hnone : (gone.filter fun t => !old now t) = [] := by
    rw [List.filter_eq_nil_iff]
    intro t ht
    simp [ho.later (hgone t ht) hnow]
  rw [List.filter_append, hnone, List.nil_append,
    ho.dropWhile_eq_filter (List.pairwise_append.mp hl).2.1]

/-- What is dropped now was old. -/
theorem Lacks.dropWhile (h : Lacks old since l w) (hnow : since ≤ now) :
    Lacks old now l (w.dropWhile (old now)) := by
  obtain ⟨gone, rfl, hgone⟩ := h
  refine ⟨gone ++ w.takeWhile (old now), ?_, fun t ht => ?_⟩
  · rw [List.append_assoc, List.takeWhile_append_dropWhile]
  · rcases List.mem_append.mp ht with ht | ht
    · exact ho.later (hgone t ht) hnow
    · exact List.mem_takeWhile_imp ht

theorem Lacks.mono (h : Lacks old since l w) (hnow : since ≤ now) : Lacks old now l w := by
  obtain ⟨gone, rfl, hgone⟩ := h
  exact ⟨gone, rfl, fun t ht => ho.later (hgone t ht) hnow⟩

omit ho in
theorem Lacks.concat (h : Lacks old since l w) (t : ℕ) : Lacks old since (l ++ [t]) (w ++ [t]) := by
  obtain ⟨gone, rfl, hgone⟩ := h
  exact ⟨gone, List.append_assoc _ _ _, hgone⟩

end Ages

/-! ## Windows of a span -/

section Span

variable {span : ℕ}

/-- An instant is too old. -/
def stale (span now t : ℕ) : Bool := span < now - t

/-- The queue after one more instant. -/
def push (span now : ℕ) (w : List ℕ) : List ℕ := (w ++ [now]).dropWhile (stale span now)

theorem ages_stale : Ages (stale span) where
  later h hle := by
    simp only [stale, decide_eq_true_eq] at *
    omega
  earlier h hle := by
    simp only [stale, decide_eq_true_eq] at *
    omega

/-- The queue lacks only instants that are stale at every later instant. -/
def Window (span : ℕ) (l w : List ℕ) : Prop :=
  ∃ old, l = old ++ w ∧ ∀ t ∈ old, ∀ now, (∀ x ∈ l, x ≤ now) → stale span now t = true

theorem Window.nil (span : ℕ) : Window span [] [] := ⟨[], rfl, nofun⟩

/-- **The queue has exactly the recent instants of the log.** -/
theorem Window.push_eq_filter (hw : Window span l w) (hl : l.Pairwise (· ≤ ·))
    (hnow : ∀ t ∈ l, t ≤ now) :
    push span now w = (l ++ [now]).filter fun t => !stale span now t := by
  obtain ⟨old, rfl, hold⟩ := hw
  have hlacks : Lacks (stale span) now (old ++ w ++ [now]) (w ++ [now]) :=
    ⟨old, List.append_assoc _ _ _, fun t ht => hold t ht now hnow⟩
  exact hlacks.dropWhile_eq_filter ages_stale (pairwise_concat hl hnow) le_rfl

/-- What is dropped stays stale. -/
theorem Window.push (hw : Window span l w) : Window span (l ++ [now]) (Lib.push span now w) := by
  obtain ⟨old, rfl, hold⟩ := hw
  refine ⟨old ++ (w ++ [now]).takeWhile (stale span now), ?_, fun t ht later hlater => ?_⟩
  · rw [Lib.push, List.append_assoc, List.append_assoc, List.takeWhile_append_dropWhile]
  · obtain ⟨hold', hnow⟩ := List.forall_mem_append.mp hlater
    rcases List.mem_append.mp ht with ht | ht
    · exact hold t ht later hold'
    · exact ages_stale.later (List.mem_takeWhile_imp ht) (hnow now (List.mem_singleton_self now))

end Span

end Polywan.Lib
