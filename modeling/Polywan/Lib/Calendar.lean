import Mathlib.Algebra.BigOperators.Intervals
import Mathlib.Algebra.Order.BigOperators.Group.Finset
import Mathlib.Tactic.IntervalCases

/-!
# The Gregorian calendar

Dates of the proleptic Gregorian calendar from the year 0 on, the day after a date, and the
days counted from 1 January of the year 0.  A date is the number of its days: the count is
increasing, and one more on the day after.

## Main definitions

* `Date` — a day of a month that has it.
* `Date.next` — the day after.
* `Date.number` — the days before a date, by the lengths of the years and months.
* `Date.weekday` — the day of the week, from the Saturday that began the year 0.

## Main results

* `Date.number_lt_number` — the count is in the order of the dates.
* `Date.number_next` — the day after is counted one higher.
-/

namespace Polywan.Lib.Calendar

def IsLeap (y : ℕ) : Prop := y % 4 = 0 ∧ (y % 100 ≠ 0 ∨ y % 400 = 0)

instance (y : ℕ) : Decidable (IsLeap y) := inferInstanceAs (Decidable (_ ∧ _))

def monthLength (y m : ℕ) : ℕ :=
  if m = 2 then if IsLeap y then 29 else 28
  else if m = 4 ∨ m = 6 ∨ m = 9 ∨ m = 11 then 30 else 31

def yearLength (y : ℕ) : ℕ := if IsLeap y then 366 else 365

/-- A day of the calendar. -/
@[ext] structure Date where
  year : ℕ
  month : ℕ
  day : ℕ
  month_pos : 1 ≤ month
  month_le : month ≤ 12
  day_pos : 1 ≤ day
  day_le : day ≤ monthLength year month

inductive Weekday
  | monday
  | tuesday
  | wednesday
  | thursday
  | friday
  | saturday
  | sunday
deriving DecidableEq

def Weekday.tomorrow : Weekday → Weekday
  | monday => tuesday
  | tuesday => wednesday
  | wednesday => thursday
  | thursday => friday
  | friday => saturday
  | saturday => sunday
  | sunday => monday

theorem monthLength_pos (y m : ℕ) : 1 ≤ monthLength y m := by
  unfold monthLength
  split_ifs <;> omega

/-! ## Counting days -/

/-- The days of the years before `y`. -/
def beforeYear (y : ℕ) : ℕ := ∑ i ∈ Finset.range y, yearLength i

/-- The days of the months before `m` in the year `y`. -/
def beforeMonth (y m : ℕ) : ℕ := ∑ i ∈ Finset.Ico 1 m, monthLength y i

theorem beforeYear_succ (y : ℕ) : beforeYear (y + 1) = beforeYear y + yearLength y :=
  Finset.sum_range_succ _ _

theorem beforeMonth_succ {y m : ℕ} (h : 1 ≤ m) :
    beforeMonth y (m + 1) = beforeMonth y m + monthLength y m :=
  Finset.sum_Ico_succ_top h _

theorem yearLength_cases (y : ℕ) :
    IsLeap y ∧ yearLength y = 366 ∨ ¬ IsLeap y ∧ yearLength y = 365 := by
  unfold yearLength
  split_ifs with hleap
  · exact .inl ⟨hleap, rfl⟩
  · exact .inr ⟨hleap, rfl⟩

theorem beforeYear_eq (y : ℕ) :
    beforeYear y + (y + 99) / 100 = 365 * y + (y + 3) / 4 + (y + 399) / 400 := by
  induction y with
  | zero => rfl
  | succ y ih =>
    have hlength := yearLength_cases y
    rw [beforeYear_succ]
    unfold IsLeap at hlength
    omega

theorem beforeMonth_three (y : ℕ) : beforeMonth y 3 + 306 = yearLength y := by
  rw [beforeMonth_succ (by omega), beforeMonth_succ le_rfl]
  by_cases hleap : IsLeap y <;> simp [beforeMonth, monthLength, yearLength, hleap]

/-- From March on the months of every year have the same lengths. -/
theorem monthLength_add_three {y k : ℕ} (h : k < 10) :
    (153 * k + 2) / 5 + monthLength y (k + 3) = (153 * (k + 1) + 2) / 5 := by
  interval_cases k <;> rfl

theorem beforeMonth_add_three {y k : ℕ} (h : k ≤ 10) :
    beforeMonth y (k + 3) = beforeMonth y 3 + (153 * k + 2) / 5 := by
  induction k with
  | zero => rfl
  | succ k ih =>
    rw [Nat.add_right_comm, beforeMonth_succ (by omega), ih (by omega), ← monthLength_add_three h,
      Nat.add_assoc]

theorem isLeap_add_mul {y k : ℕ} : IsLeap (y + k * 400) ↔ IsLeap y := by
  unfold IsLeap
  omega

theorem beforeMonth_thirteen (y : ℕ) : beforeMonth y 13 = yearLength y := by
  rw [beforeMonth_add_three le_rfl, ← beforeMonth_three]

theorem beforeMonth_mono {y m m' : ℕ} (h : m ≤ m') : beforeMonth y m ≤ beforeMonth y m' :=
  Finset.sum_le_sum_of_subset (Finset.Ico_subset_Ico_right h)

theorem beforeYear_mono {y y' : ℕ} (h : y ≤ y') : beforeYear y ≤ beforeYear y' :=
  Finset.sum_le_sum_of_subset (Finset.range_mono h)

namespace Date

/-- The day after. -/
def next (d : Date) : Date :=
  if h : d.day < monthLength d.year d.month then
    { d with day := d.day + 1, day_pos := by omega, day_le := h }
  else if h : d.month < 12 then
    { year := d.year, month := d.month + 1, day := 1, month_pos := by omega, month_le := h,
      day_pos := le_rfl, day_le := monthLength_pos _ _ }
  else
    { year := d.year + 1, month := 1, day := 1, month_pos := le_rfl, month_le := by omega,
      day_pos := le_rfl, day_le := monthLength_pos _ _ }

/-- The days from 1 January of the year 0 to a date. -/
def number (d : Date) : ℕ := beforeYear d.year + beforeMonth d.year d.month + (d.day - 1)

/-- The day of the week; the year 0 began on a Saturday. -/
def weekday (d : Date) : Weekday := Weekday.tomorrow^[d.number] .saturday

/-- The order of the dates. -/
def Before (d d' : Date) : Prop :=
  d.year < d'.year ∨ d.year = d'.year ∧
    (d.month < d'.month ∨ d.month = d'.month ∧ d.day < d'.day)

variable {d d' : Date}

theorem before_trichotomy (d d' : Date) : d.Before d' ∨ d = d' ∨ d'.Before d := by
  simp only [Before, Date.ext_iff]
  omega

/-- A date is counted within its month. -/
theorem number_lt_beforeMonth (d : Date) :
    d.number < beforeYear d.year + beforeMonth d.year (d.month + 1) := by
  have hpos := d.day_pos
  have hle := d.day_le
  rw [number, beforeMonth_succ d.month_pos]
  omega

theorem number_lt_beforeYear (d : Date) : d.number < beforeYear (d.year + 1) := by
  calc d.number < beforeYear d.year + beforeMonth d.year (d.month + 1) := d.number_lt_beforeMonth
    _ ≤ beforeYear d.year + beforeMonth d.year 13 :=
        Nat.add_le_add_left (beforeMonth_mono (Nat.succ_le_succ d.month_le)) _
    _ = beforeYear (d.year + 1) := by rw [beforeMonth_thirteen, beforeYear_succ]

/-- **Later dates are counted higher.** -/
theorem number_lt_number (h : d.Before d') : d.number < d'.number := by
  rcases h with hyear | ⟨hyear, hmonth | ⟨hmonth, hday⟩⟩
  · have hle : beforeYear (d.year + 1) ≤ d'.number :=
      (beforeYear_mono hyear).trans (by rw [number, Nat.add_assoc]; exact Nat.le_add_right _ _)
    exact d.number_lt_beforeYear.trans_le hle
  · have hle : beforeYear d.year + beforeMonth d.year (d.month + 1) ≤ d'.number := by
      rw [number, ← hyear]
      exact (Nat.add_le_add_left (beforeMonth_mono hmonth) _).trans (Nat.le_add_right _ _)
    exact d.number_lt_beforeMonth.trans_le hle
  · have hpos := d.day_pos
    rw [number, number, ← hyear, ← hmonth]
    omega

theorem number_injective : Function.Injective number := by
  intro d d' h
  rcases before_trichotomy d d' with hbefore | heq | hbefore
  · exact absurd h (number_lt_number hbefore).ne
  · exact heq
  · exact absurd h (number_lt_number hbefore).ne'

theorem before_of_number_lt (h : d.number < d'.number) : d.Before d' := by
  rcases before_trichotomy d d' with hbefore | rfl | hbefore
  · exact hbefore
  · exact absurd h (lt_irrefl _)
  · exact absurd (number_lt_number hbefore) h.not_gt

/-- **The day after is counted one higher.** -/
theorem number_next (d : Date) : d.next.number = d.number + 1 := by
  have hpos := d.day_pos
  have hle := d.day_le
  unfold next
  split_ifs with hday hmonth
  · simp only [number]
    omega
  · simp only [number, beforeMonth_succ d.month_pos]
    omega
  · have hlast : d.month = 12 := by have := d.month_le; omega
    have hyear : beforeMonth d.year 12 + monthLength d.year 12 = yearLength d.year := by
      rw [← beforeMonth_thirteen]
      exact (beforeMonth_succ (by omega)).symm
    have hfirst : beforeMonth (d.year + 1) 1 = 0 := rfl
    rw [hlast] at hday hle
    simp only [number, beforeYear_succ, hlast, hfirst]
    omega

end Date

/-- A week is seven days. -/
theorem Weekday.tomorrow_mod (n : ℕ) (w : Weekday) : tomorrow^[n % 7] w = tomorrow^[n] w := by
  have hweek : tomorrow^[7] = id := funext fun w => by cases w <;> rfl
  calc tomorrow^[n % 7] w = tomorrow^[n % 7] (tomorrow^[7 * (n / 7)] w) := by
        rw [Function.iterate_mul, hweek, Function.iterate_id, id]
    _ = tomorrow^[n] w := by rw [← Function.iterate_add_apply, Nat.mod_add_div]

end Polywan.Lib.Calendar
