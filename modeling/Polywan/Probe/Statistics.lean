import Mathlib.Algebra.Order.BigOperators.Group.Finset
import Mathlib.Data.Multiset.Sort
import Mathlib.Data.List.Induction
import Polywan.Lib.Sum
import Polywan.Probe

/-!
# Statistics of the last rounds

The window after any history of rounds and capacities, and what its statistics are in terms
of the samples of each target: the single pass that remembers the last reply time of every
target has the differences of each target's own reply times.

## Main definitions

* `Quality.Window.pushAll`, `Quality.retained` — a history, and how many rounds it leaves.
* `Quality.replyTimes`, `Quality.gaps` — the reply times of a target and their differences.
* `Quality.medianOf` — the median of a multiset.
* `Quality.Describes`, `Quality.Gates` — what the statistics and the gates say.

## Main results

* `Quality.differences_eq_sum` — the differences of the pass are those of the targets.
* `Quality.stats_pushAll` — the window, its statistics and its gates after any history.
-/

namespace Polywan.Quality

open Probe

/-! ## The window -/

/-- The window after a history of rounds, each with the capacity of then. -/
def Window.pushAll (pushes : List (List Sample × ℕ)) : Window :=
  pushes.foldl (fun w p => w.push p.1 p.2) {}

/-- How many rounds the window has after pushes with some capacities: all of them, or what
the capacity of some push left and the later ones. -/
def retained (capacities : List ℕ) : ℕ :=
  (capacities.zipIdx.map fun c => c.1 + (capacities.length - (c.2 + 1))).foldl min
    capacities.length

theorem foldl_min_concat (l : List ℕ) (a b : ℕ) :
    (l.map (· + 1)).foldl min (a + 1) = l.foldl min a + 1 ∧
      (l ++ [b]).foldl min a = min (l.foldl min a) b := by
  refine ⟨?_, by rw [List.foldl_append]; rfl⟩
  induction l generalizing a with
  | nil => rfl
  | cons x l ih =>
    rw [List.map_cons, List.foldl_cons, List.foldl_cons, ← ih, Nat.add_min_add_right]

theorem retained_concat (capacities : List ℕ) (c : ℕ) :
    retained (capacities ++ [c]) = min (retained capacities + 1) c := by
  have hshift : ((capacities ++ [c]).zipIdx.map fun e =>
      e.1 + ((capacities ++ [c]).length - (e.2 + 1))) =
      ((capacities.zipIdx.map fun e => e.1 + (capacities.length - (e.2 + 1))).map (· + 1))
        ++ [c] := by
    rw [List.zipIdx_append, List.map_append, List.map_map]
    congr 1
    · refine List.map_congr_left fun e he => ?_
      have hlt := (List.mem_zipIdx he).2.1
      simp only [Function.comp, List.length_append, List.length_singleton]
      omega
    · simp
  rw [retained, hshift, List.length_append, List.length_singleton, (foldl_min_concat _ _ c).2,
    (foldl_min_concat _ _ c).1]
  rfl

/-- **The window is the end of the history** that the capacities leave. -/
theorem rounds_pushAll (pushes : List (List Sample × ℕ)) (hc : ∀ p ∈ pushes, 1 ≤ p.2) :
    (Window.pushAll pushes).rounds <:+ pushes.map Prod.fst ∧
      (Window.pushAll pushes).rounds.length = retained (pushes.map Prod.snd) := by
  induction pushes using List.reverseRecOn with
  | nil => exact ⟨List.suffix_refl _, rfl⟩
  | append_singleton pushes p ih =>
    obtain ⟨hpushes, hp⟩ := List.forall_mem_append.mp hc
    obtain ⟨hsuffix, hlength⟩ := ih hpushes
    have hpos : 1 ≤ p.2 := hp p (List.mem_singleton_self p)
    have hrounds : (Window.pushAll (pushes ++ [p])).rounds =
        ((Window.pushAll pushes).rounds ++ [p.1]).drop
          ((Window.pushAll pushes).rounds.length + 1 - p.2) := by
      simp [Window.pushAll, Window.push, Nat.max_eq_left hpos]
    rw [hrounds, List.map_append, List.map_append]
    constructor
    · refine (List.drop_suffix _ _).trans ?_
      obtain ⟨earlier, heq⟩ := hsuffix
      exact ⟨earlier, by rw [← heq, List.append_assoc]; rfl⟩
    · rw [List.map_singleton, retained_concat, ← hlength, List.length_drop, List.length_append,
        List.length_singleton]
      omega

/-! ## Samples by target -/

/-- The reply times of a target, in the order they completed. -/
def replyTimes (t : Target) (all : List Sample) : List ℕ :=
  (all.filter fun s => s.target = t).filterMap Sample.rtt

/-- The absolute differences of consecutive values. -/
def gaps : List ℕ → List ℕ
  | a :: b :: rest => (max b a - min b a) :: gaps (b :: rest)
  | _ => []

/-- The targets of which some sample was replied. -/
def repliers (all : List Sample) : Finset Target :=
  ((all.filter fun s => s.rtt.isSome).map Sample.target).toFinset

/-- The median of a multiset: the middle value, or the mean of the two middle ones. -/
def medianOf (values : Multiset ℕ) : Option ℕ :=
  let sorted := values.sort (· ≤ ·)
  if sorted.length % 2 = 1 then sorted[sorted.length / 2]?
  else match sorted[sorted.length / 2 - 1]?, sorted[sorted.length / 2]? with
    | some a, some b => some ((a + b) / 2)
    | _, _ => none

theorem median_eq (values : List ℕ) : median values = medianOf values := by
  have hsort : (values : Multiset ℕ).sort (· ≤ ·) = values.mergeSort := Multiset.coe_sort _ _
  unfold median medianOf
  exact hsort ▸ rfl

theorem length_gaps (l : List ℕ) : (gaps l).length = l.length - 1 := by
  induction l with
  | nil => rfl
  | cons a l ih =>
    cases l with
    | nil => rfl
    | cons b l =>
      rw [gaps, List.length_cons, ih]
      rfl

section ByTarget

variable {T : Finset Target} {s : Sample} {all : List Sample}

@[simp] theorem replyTimes_nil (t : Target) : replyTimes t [] = [] := rfl

theorem replyTimes_cons (t : Target) :
    replyTimes t (s :: all) =
      if s.target = t then s.rtt.toList ++ replyTimes t all else replyTimes t all := by
  by_cases h : s.target = t
  · rw [replyTimes, List.filter_cons_of_pos (by simpa using h), List.filterMap_cons, if_pos h]
    cases s.rtt <;> rfl
  · rw [replyTimes, List.filter_cons_of_neg (by simpa using h), if_neg h]
    rfl

/-- The samples are those of the targets. -/
theorem samples_eq_sum (hT : ∀ s ∈ all, s.target ∈ T) :
    (all : Multiset Sample) = ∑ t ∈ T, ((all.filter fun s => s.target = t : List Sample) :
      Multiset Sample) := by
  induction all with
  | nil => simp
  | cons s all ih =>
    obtain ⟨hs, hall⟩ := List.forall_mem_cons.mp hT
    rw [← Multiset.cons_coe, ih hall, ← Multiset.singleton_add]
    refine (Lib.sum_add_single hs ?_ fun t' _ hne => ?_).symm
    · rw [List.filter_cons_of_pos (by simp), ← Multiset.cons_coe, Multiset.singleton_add]
    · rw [List.filter_cons_of_neg (by simpa using hne.symm)]

/-- **The differences of the pass are those of each target's own reply times**, the one it
remembers first. -/
theorem differences_eq_sum (last : Target → Option ℕ) (hT : ∀ s ∈ all, s.target ∈ T) :
    (differences last all : Multiset ℕ) =
      ∑ t ∈ T, (gaps ((last t).toList ++ replyTimes t all) : Multiset ℕ) := by
  induction all generalizing last with
  | nil =>
    refine (Finset.sum_eq_zero fun t _ => ?_).symm
    rw [replyTimes_nil, List.append_nil]
    cases last t <;> rfl
  | cons s all ih =>
    obtain ⟨hs, hall⟩ := List.forall_mem_cons.mp hT
    cases hrtt : s.rtt with
    | none =>
      simp only [differences, hrtt]
      rw [ih last hall]
      refine Finset.sum_congr rfl fun t _ => ?_
      rw [replyTimes_cons, hrtt, Option.toList_none, List.nil_append, ite_self]
    | some rtt =>
      -- What the target of the sample has next begins with the new reply time.
      have hother : ∀ t ∈ T, t ≠ s.target →
          (last t).toList ++ replyTimes t (s :: all) =
            (Function.update last s.target (some rtt) t).toList ++ replyTimes t all := by
        intro t _ hne
        rw [replyTimes_cons, if_neg hne.symm, Function.update_of_ne hne]
      have hself : (Function.update last s.target (some rtt) s.target).toList
          ++ replyTimes s.target all = rtt :: replyTimes s.target all := by
        rw [Function.update_self]
        rfl
      have hreplies : replyTimes s.target (s :: all) = rtt :: replyTimes s.target all := by
        rw [replyTimes_cons, if_pos rfl, hrtt]
        rfl
      simp only [differences, hrtt]
      cases hlast : last s.target with
      | none =>
        dsimp only
        rw [ih _ hall]
        refine Finset.sum_congr rfl fun t ht => ?_
        by_cases hne : t = s.target
        · rw [hne, hself, hlast, hreplies]
          rfl
        · rw [hother t ht hne]
      | some prev =>
        dsimp only
        rw [← Multiset.cons_coe, ih _ hall, ← Multiset.singleton_add]
        refine (Lib.sum_add_single hs ?_ fun t ht hne => ?_).symm
        · rw [hself, hlast, hreplies, Option.toList_some, List.singleton_append, gaps,
            ← Multiset.cons_coe, Multiset.singleton_add]
        · rw [hother t ht hne]

theorem replies_eq_sum (hT : ∀ s ∈ all, s.target ∈ T) :
    (all.filterMap Sample.rtt : Multiset ℕ) = ∑ t ∈ T, (replyTimes t all : Multiset ℕ) := by
  induction all with
  | nil => simp
  | cons s all ih =>
    obtain ⟨hs, hall⟩ := List.forall_mem_cons.mp hT
    have hcons : (s :: all).filterMap Sample.rtt = s.rtt.toList ++ all.filterMap Sample.rtt := by
      rw [List.filterMap_cons]
      cases s.rtt <;> rfl
    rw [hcons, ← Multiset.coe_add, ih hall]
    refine (Lib.sum_add_single hs ?_ fun t' _ hne => ?_).symm
    · rw [replyTimes_cons, if_pos rfl, ← Multiset.coe_add]
    · rw [replyTimes_cons, if_neg hne.symm]

theorem mem_repliers {t : Target} : t ∈ repliers all ↔ replyTimes t all ≠ [] := by
  rw [repliers, List.mem_toFinset, List.mem_map, ne_eq, replyTimes, List.filterMap_eq_nil_iff]
  push Not
  refine exists_congr fun s => ?_
  rw [List.mem_filter, List.mem_filter, decide_eq_true_eq, Option.isSome_iff_ne_none]
  tauto

/-- Every target that replied has one difference less than replies. -/
theorem length_differences :
    (differences (fun _ => none) all).length + (repliers all).card =
      (all.filterMap Sample.rtt).length := by
  have hT : ∀ s ∈ all, s.target ∈ (all.map Sample.target).toFinset := fun s hs =>
    List.mem_toFinset.mpr (List.mem_map_of_mem hs)
  have hsub : repliers all =
      (all.map Sample.target).toFinset.filter fun t => replyTimes t all ≠ [] := by
    ext t
    rw [Finset.mem_filter, mem_repliers, and_iff_right_of_imp]
    intro h
    obtain ⟨s, hs, rfl⟩ := List.mem_map.mp (List.mem_toFinset.mp (mem_repliers.mpr h))
    exact hT s (List.mem_of_mem_filter hs)
  have hdifferences := congrArg Multiset.card (differences_eq_sum (fun _ => none) hT)
  have hreplies := congrArg Multiset.card (replies_eq_sum hT)
  simp only [Multiset.coe_card, Multiset.card_sum, Option.toList_none, List.nil_append,
    length_gaps] at hdifferences hreplies
  rw [hdifferences, hreplies, hsub, Finset.card_filter, ← Finset.sum_add_distrib]
  refine Finset.sum_congr rfl fun t _ => ?_
  cases replyTimes t all <;> simp

end ByTarget

/-! ## The statistics -/

/-- What some statistics say about some samples. -/
structure Describes (all : List Sample) (s : Stats) : Prop where
  samples : s.samples = all.length
  lost : s.lost = all.countP fun x => x.rtt.isNone
  replied : s.samples = s.lost + s.replies
  differences : s.differences + (repliers all).card = s.replies
  rtt : s.rtt = medianOf (all.filterMap Sample.rtt : Multiset ℕ)
  jitter : s.jitter = medianOf
    (∑ t ∈ (all.map Sample.target).toFinset, (gaps (replyTimes t all) : Multiset ℕ))

/-- When the gates of the reply times and of their differences are violated. -/
structure Gates (q : Quality) (s : Stats) (minSamples : ℕ) : Prop where
  rtt : (∃ value limit, .rtt value limit ∈ q.violations s minSamples) ↔
    ∃ limit value, q.maxRtt = some limit ∧ s.rtt = some value ∧ 5 ≤ s.replies ∧ limit < value
  jitter : (∃ value limit, .jitter value limit ∈ q.violations s minSamples) ↔
    ∃ limit value, q.maxJitter = some limit ∧ s.jitter = some value ∧ 5 ≤ s.differences ∧
      limit < value

theorem length_eq_lost_add_replies (all : List Sample) :
    all.length = (all.filter fun s => s.rtt.isNone).length
      + (all.filterMap Sample.rtt).length := by
  induction all with
  | nil => rfl
  | cons s all ih =>
    cases hs : s.rtt with
    | none =>
      rw [List.filter_cons_of_pos (by simp [hs]), List.filterMap_cons_none hs,
        List.length_cons, List.length_cons, ih]
      omega
    | some rtt =>
      rw [List.filter_cons_of_neg (by simp [hs]), List.filterMap_cons_some hs,
        List.length_cons, List.length_cons, ih]
      omega

theorem describes_stats (w : Window) : Describes w.samples w.stats where
  samples := rfl
  lost := (List.countP_eq_length_filter ..).symm
  replied := length_eq_lost_add_replies w.samples
  differences := length_differences
  rtt := median_eq _
  jitter := by
    have hT : ∀ s ∈ w.samples, s.target ∈ (w.samples.map Sample.target).toFinset := fun s hs =>
      List.mem_toFinset.mpr (List.mem_map_of_mem hs)
    have hsum := differences_eq_sum (fun _ => none) hT
    simp only [Option.toList_none, List.nil_append] at hsum
    rw [← hsum]
    exact median_eq _

/-- **The statistics do not depend on how the samples of different targets interleave.** -/
theorem stats_congr {w w' : Window}
    (h : ∀ t, w'.samples.filter (fun s => s.target = t) = w.samples.filter fun s => s.target = t) :
    w'.stats = w.stats := by
  have hT : ∀ all, all = w.samples ∨ all = w'.samples → ∀ s ∈ all,
      s.target ∈ ((w.samples ++ w'.samples).map Sample.target).toFinset := by
    rintro all hall s hs
    rw [List.mem_toFinset]
    refine List.mem_map_of_mem (List.mem_append.mpr ?_)
    rcases hall with rfl | rfl
    · exact .inl hs
    · exact .inr hs
  have hreply : ∀ t, replyTimes t w'.samples = replyTimes t w.samples := fun t => by
    rw [replyTimes, h t, replyTimes]
  have hsamples : w'.samples.Perm w.samples := by
    rw [← Multiset.coe_eq_coe, samples_eq_sum (hT _ (.inr rfl)), samples_eq_sum (hT _ (.inl rfl))]
    exact Finset.sum_congr rfl fun t _ => by rw [h t]
  have hdifferences : ((differences (fun _ => none) w'.samples : List ℕ) : Multiset ℕ) =
      (differences (fun _ => none) w.samples : List ℕ) := by
    rw [differences_eq_sum _ (hT _ (.inr rfl)), differences_eq_sum _ (hT _ (.inl rfl))]
    exact Finset.sum_congr rfl fun t _ => by rw [hreply t]
  have hlost := (hsamples.filter fun s => s.rtt.isNone).length_eq
  have hreplies := hsamples.filterMap Sample.rtt
  simp only [Window.stats, median_eq, hsamples.length_eq, hlost, hreplies.length_eq,
    Multiset.coe_eq_coe.mpr hreplies, hdifferences, (Multiset.coe_eq_coe.mp hdifferences).length_eq]

theorem rtt_mem_violations {q : Quality} {s : Stats} {minSamples value limit : ℕ} :
    .rtt value limit ∈ q.violations s minSamples ↔
      q.maxRtt = some limit ∧ s.rtt = some value ∧ 5 ≤ s.replies ∧ limit < value := by
  simp only [violations, List.mem_append]
  constructor
  · rintro ((h | h) | h) <;> split at h
    · split at h <;> simp at h
    · simp at h
    · next limit' value' hlimit hvalue =>
        split at h
        · next hgate =>
            obtain ⟨rfl, rfl⟩ : value = value' ∧ limit = limit' := by simpa using h
            rw [Bool.and_eq_true, decide_eq_true_eq, decide_eq_true_eq] at hgate
            exact ⟨hlimit, hvalue, hgate⟩
        · simp at h
    · simp at h
    · split at h <;> simp at h
    · simp at h
  · rintro ⟨hlimit, hvalue, hreplies, hlt⟩
    exact .inl (.inr (by simp [hlimit, hvalue, hreplies, hlt, minRttInputs]))

theorem jitter_mem_violations {q : Quality} {s : Stats} {minSamples value limit : ℕ} :
    .jitter value limit ∈ q.violations s minSamples ↔
      q.maxJitter = some limit ∧ s.jitter = some value ∧ 5 ≤ s.differences ∧ limit < value := by
  simp only [violations, List.mem_append]
  constructor
  · rintro ((h | h) | h) <;> split at h
    · split at h <;> simp at h
    · simp at h
    · split at h <;> simp at h
    · simp at h
    · next limit' value' hlimit hvalue =>
        split at h
        · next hgate =>
            obtain ⟨rfl, rfl⟩ : value = value' ∧ limit = limit' := by simpa using h
            rw [Bool.and_eq_true, decide_eq_true_eq, decide_eq_true_eq] at hgate
            exact ⟨hlimit, hvalue, hgate⟩
        · simp at h
    · simp at h
  · rintro ⟨hlimit, hvalue, hdifferences, hlt⟩
    exact .inr (by simp [hlimit, hvalue, hdifferences, hlt, minRttInputs])

theorem gates_violations (q : Quality) (s : Stats) (minSamples : ℕ) : Gates q s minSamples where
  rtt := by
    simp only [rtt_mem_violations]
    exact exists_comm
  jitter := by
    simp only [jitter_mem_violations]
    exact exists_comm

/-- **The window, its statistics and its gates after any history** of rounds and
capacities. -/
theorem stats_pushAll (pushes : List (List Sample × ℕ)) (hc : ∀ p ∈ pushes, 1 ≤ p.2) :
    (Window.pushAll pushes).rounds <:+ pushes.map Prod.fst ∧
      (Window.pushAll pushes).rounds.length = retained (pushes.map Prod.snd) ∧
      Describes (Window.pushAll pushes).samples (Window.pushAll pushes).stats ∧
      (∀ w' : Window, (∀ t, w'.samples.filter (fun s => s.target = t) =
          (Window.pushAll pushes).samples.filter fun s => s.target = t) →
        w'.stats = (Window.pushAll pushes).stats) ∧
      ∀ q minSamples, Gates q (Window.pushAll pushes).stats minSamples :=
  ⟨(rounds_pushAll pushes hc).1, (rounds_pushAll pushes hc).2, describes_stats _,
    fun _ => stats_congr, fun q minSamples => gates_violations q _ minSamples⟩

/-- Two targets reply in turn; the second push leaves one round, the third keeps two. -/
theorem stats_pushAll_turns :
    let sample (n : BitVec 32) (rtt : ℕ) : Sample := ⟨.icmp (.v4 n), some rtt⟩
    let pushes := [([sample 1 10, sample 2 40], 6), ([sample 1 30, sample 2 40], 1),
      ([sample 2 45, sample 1 10], 6)]
    (∀ p ∈ pushes, 1 ≤ p.2) ∧ (Window.pushAll pushes).rounds.length = 2 ∧
      (Window.pushAll pushes).stats.replies = 4 ∧
      (Window.pushAll pushes).stats.differences = 2 ∧
      Describes (Window.pushAll pushes).samples (Window.pushAll pushes).stats := by
  intro sample pushes
  have hc : ∀ p ∈ pushes, 1 ≤ p.2 := by decide
  exact ⟨hc, (stats_pushAll pushes hc).2.1.trans (by decide), by decide +kernel, by decide +kernel,
    (stats_pushAll pushes hc).2.2.1⟩

end Polywan.Quality
