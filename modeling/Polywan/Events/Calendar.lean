import Polywan.Lib.Calendar
import Polywan.Lib.Ordered
import Polywan.Model

/-!
# The calendar of events and messages

The date of a day count is computed in eras of 400 years that begin in March.  It is the date
of the Gregorian calendar with that count, so that the texts of times have the right weekday,
and those of RFC 3339 are in the order of the times.

## Main definitions

* `Events.civil`, `Events.rfc3339`, `Mail.rfc5322Date` — the computation, and the texts of a time.
* `Events.civilI64` — the computation in 64-bit integers.
* `Events.date` — the date of a day count.
* `SystemTime` — a time of the system clock.

## Main results

* `Events.number_date` — `civil` inverts the count of the days.
* `SystemTime.calendar` — dates, weekdays and the order of texts.
-/

namespace Polywan

open Lib Lib.Calendar

namespace Events

/-- Year, month and day of a day count since 1970-01-01. -/
def civil (days : ℕ) : ℕ × ℕ × ℕ :=
  let z := days + 719468
  let era := z / 146097
  let doe := z % 146097
  let yoe := (doe - doe / 1460 + doe / 36524 - doe / 146096) / 365
  let doy := doe - (365 * yoe + yoe / 4 - yoe / 100)
  let mp := (5 * doy + 2) / 153
  let d := doy - (153 * mp + 2) / 5 + 1
  let m := if mp < 10 then mp + 3 else mp - 9
  let y := yoe + era * 400 + if m ≤ 2 then 1 else 0
  (y, m, d)

theorem civil_month (days : ℕ) : 1 ≤ (civil days).2.1 ∧ (civil days).2.1 ≤ 12 := by
  simp only [civil]
  generalize hdoe : (days + 719468) % 146097 = doe
  have hlt : doe < 146097 := hdoe ▸ Nat.mod_lt _ (by omega)
  clear hdoe
  split <;> omega

/-- A number in at least `width` digits. -/
def padded (width n : ℕ) : String :=
  String.ofList (List.leftpad width '0' (Nat.toDigits 10 n))

/-- The time of day. -/
def clock (secs : ℕ) : String :=
  let rem := secs % 86400
  padded 2 (rem / 3600) ++ ":" ++ padded 2 (rem % 3600 / 60) ++ ":" ++ padded 2 (rem % 60)

/-- RFC 3339 in UTC with milliseconds. -/
def rfc3339 (secs millis : ℕ) : String :=
  let (y, m, day) := civil (secs / 86400)
  padded 4 y ++ "-" ++ padded 2 m ++ "-" ++ padded 2 day ++ "T" ++ clock secs ++ "."
    ++ padded 3 millis ++ "Z"

end Events

namespace Mail

/-- A date in UTC, as headers write it. -/
def rfc5322Date (secs : ℕ) : Option String :=
  let (y, m, d) := Events.civil (secs / 86400)
  (["Thu", "Fri", "Sat", "Sun", "Mon", "Tue", "Wed"][secs / 86400 % 7]?).bind fun day =>
    (["Jan", "Feb", "Mar", "Apr", "May", "Jun", "Jul", "Aug", "Sep", "Oct", "Nov",
        "Dec"][m - 1]?).map fun month =>
      day ++ ", " ++ Events.padded 2 d ++ " " ++ month ++ " " ++ Events.padded 4 y ++ " "
        ++ Events.clock secs ++ " +0000"

/-- Every date has a name for its day and its month. -/
theorem isSome_rfc5322Date (secs : ℕ) : (rfc5322Date secs).isSome = true := by
  have hmonth := Events.civil_month (secs / 86400)
  rw [rfc5322Date]
  generalize Events.civil (secs / 86400) = ymd at hmonth ⊢
  obtain ⟨y, m, d⟩ := ymd
  dsimp only at hmonth ⊢
  rw [List.getElem?_eq_getElem (by simp only [List.length_cons, List.length_nil]; omega),
    Option.bind_some,
    List.getElem?_eq_getElem (by simp only [List.length_cons, List.length_nil]; omega)]
  rfl

end Mail

/-! ## Dates -/

namespace Events

/-- A 64-bit integer; an overflow is a panic. -/
def i64 (x : ℤ) : Option ℤ := if -2 ^ 63 ≤ x ∧ x < 2 ^ 63 then some x else none

/-- Year, month and day of a day count, in 64-bit integers. -/
def civilI64 (days : ℤ) : Option (ℤ × ℕ × ℕ) :=
  (i64 (days + 719468)).bind fun z =>
    let era := z / 146097
    let doe := z % 146097
    let yoe := (doe - doe.tdiv 1460 + doe.tdiv 36524 - doe.tdiv 146096).tdiv 365
    let doy := doe - (365 * yoe + yoe.tdiv 4 - yoe.tdiv 100)
    let mp := (5 * doy + 2).tdiv 153
    let d := ((doy - (153 * mp + 2).tdiv 5 + 1) % 2 ^ 32).toNat
    let m := ((if mp < 10 then mp + 3 else mp - 9) % 2 ^ 32).toNat
    (i64 (era * 400)).bind fun years =>
      (i64 (yoe + years + if m ≤ 2 then 1 else 0)).map fun y => (y, m, d)

/-- The year of an era that a day of it is in, from March on. -/
def yearOfEra (doe : ℕ) : ℕ := (doe - doe / 1460 + doe / 36524 - doe / 146096) / 365

/-- The day of the year, from March on. -/
def dayOfYear (doe : ℕ) : ℕ :=
  doe - (365 * yearOfEra doe + yearOfEra doe / 4 - yearOfEra doe / 100)

/-- In a century of an era the leap years are every fourth. -/
theorem yearOfCentury_spec {c r y : ℕ} (hc : c < 4) (hr : r < 36524)
    (hy : y = (r - (24 * c + r) / 1460) / 365) :
    y < 100 ∧ 365 * y + y / 4 ≤ r ∧
      (r < 365 * y + y / 4 + 365 ∨ r = 365 * y + y / 4 + 365 ∧ y % 4 = 3) := by
  interval_cases c <;> omega

/-- The year of an era has the day in it. -/
theorem yearOfEra_spec {doe : ℕ} (h : doe < 146097) :
    yearOfEra doe < 400 ∧
      365 * yearOfEra doe + yearOfEra doe / 4 - yearOfEra doe / 100 + dayOfYear doe = doe ∧
      (dayOfYear doe < 365 ∨ dayOfYear doe = 365 ∧ IsLeap (yearOfEra doe + 1)) := by
  -- The last day of an era would be the first of a fifth century.
  by_cases hlast : doe = 146096
  · subst hlast
    decide
  · have hyear : yearOfEra doe =
        100 * (doe / 36524) + (doe % 36524 - (24 * (doe / 36524) + doe % 36524) / 1460) / 365 := by
      unfold yearOfEra
      omega
    have hdoe := Nat.div_add_mod doe 36524
    have hc : doe / 36524 < 4 := by omega
    have hr : doe % 36524 < 36524 := Nat.mod_lt doe (by omega)
    have hrest := yearOfCentury_spec hc hr rfl
    unfold dayOfYear IsLeap
    rw [hyear]
    generalize doe / 36524 = c at hdoe hrest hc ⊢
    generalize doe % 36524 = r at hdoe hrest hr ⊢
    generalize (r - (24 * c + r) / 1460) / 365 = y at hrest ⊢
    have hquarter : (100 * c + y) / 4 = 25 * c + y / 4 := by omega
    have hhundred : (100 * c + y) / 100 = c := by omega
    rw [hquarter, hhundred]
    omega

/-- The month has the day in it, counted from March. -/
theorem month_spec {doy : ℕ} (h : doy < 366) :
    (5 * doy + 2) / 153 < 12 ∧ (153 * ((5 * doy + 2) / 153) + 2) / 5 ≤ doy ∧
      doy < (153 * ((5 * doy + 2) / 153 + 1) + 2) / 5 := by
  omega

/-- The parts of a date from the year and the day of it, both from March on. -/
theorem civil_eq (n : ℕ) {doy mp : ℕ} (hdoy : doy = dayOfYear ((n + 719468) % 146097))
    (hmp : mp = (5 * doy + 2) / 153) :
    civil n =
      (yearOfEra ((n + 719468) % 146097) + (n + 719468) / 146097 * 400 + (if mp < 10 then 0 else 1),
        if mp < 10 then mp + 3 else mp - 9, doy - (153 * mp + 2) / 5 + 1) := by
  subst hmp hdoy
  have hspec := yearOfEra_spec (Nat.mod_lt (n + 719468) (by omega : 0 < 146097))
  have hmonth := month_spec (by omega : dayOfYear ((n + 719468) % 146097) < 366)
  simp only [civil, ← yearOfEra.eq_def, ← dayOfYear.eq_def]
  split_ifs <;> first | rfl | omega

theorem day_le_monthLength {yoe era doy mp : ℕ}
    (hdoy : doy < 365 ∨ doy = 365 ∧ IsLeap (yoe + 1)) (hmp : mp = (5 * doy + 2) / 153) :
    doy - (153 * mp + 2) / 5 + 1 ≤
      monthLength (yoe + era * 400 + if mp < 10 then 0 else 1)
        (if mp < 10 then mp + 3 else mp - 9) := by
  have hmonth := month_spec (by omega : doy < 366)
  rw [← hmp] at hmonth
  by_cases hlt : mp < 10
  · rw [if_pos hlt, if_pos hlt]
    have hlength := monthLength_add_three (y := yoe + era * 400 + 0) hlt
    omega
  · rw [if_neg hlt, if_neg hlt]
    obtain rfl | rfl : mp = 10 ∨ mp = 11 := by omega
    · show _ ≤ 31
      omega
    · -- February, the last month of the year: the leap day is its last.
      rcases hdoy with hlt | ⟨rfl, hleap⟩
      · have hlength : 28 ≤ monthLength (yoe + era * 400 + 1) 2 := by
          rw [monthLength, if_pos rfl]
          split_ifs <;> omega
        exact le_trans (by omega) hlength
      · rw [← isLeap_add_mul (k := era), Nat.add_right_comm] at hleap
        rw [monthLength, if_pos rfl, if_pos hleap]

/-- **The date of a day count.** -/
def date (n : ℕ) : Date where
  year := (civil n).1
  month := (civil n).2.1
  day := (civil n).2.2
  month_pos := (civil_month n).1
  month_le := (civil_month n).2
  day_pos := by
    rw [civil_eq n rfl rfl]
    exact Nat.le_add_left _ _
  day_le := by
    rw [civil_eq n rfl rfl]
    exact day_le_monthLength (yearOfEra_spec (Nat.mod_lt _ (by omega))).2.2 rfl

theorem civil_eq_date (n : ℕ) : civil n = ((date n).year, (date n).month, (date n).day) := rfl

/-- The days before 1970. -/
def epoch : ℕ := 719528

/-- **`civil` inverts the count of the days.** -/
theorem number_date (n : ℕ) : (date n).number = epoch + n := by
  have hspec := yearOfEra_spec (Nat.mod_lt (n + 719468) (by omega : 0 < 146097))
  have hz := Nat.div_add_mod (n + 719468) 146097
  simp only [Date.number, date, civil_eq n rfl rfl, epoch]
  generalize (n + 719468) / 146097 = era at hz ⊢
  generalize (n + 719468) % 146097 = doe at hz hspec ⊢
  generalize dayOfYear doe = doy at hspec ⊢
  generalize yearOfEra doe = yoe at hspec ⊢
  have hmonth := month_spec (by omega : doy < 366)
  generalize (5 * doy + 2) / 153 = mp at hmonth ⊢
  have hyears := beforeYear_eq (yoe + era * 400 + 1)
  by_cases hlt : mp < 10
  · rw [if_pos hlt, if_pos hlt, Nat.add_zero, beforeMonth_add_three hlt.le]
    rw [beforeYear_succ, ← beforeMonth_three] at hyears
    omega
  · rw [if_neg hlt, if_neg hlt]
    have hfirst : beforeMonth (yoe + era * 400 + 1) (mp - 9) + 306 = (153 * mp + 2) / 5 := by
      obtain rfl | rfl : mp = 10 ∨ mp = 11 := by omega
      · rfl
      · rfl
    omega

theorem date_zero : date 0 = ⟨1970, 1, 1, by decide, by decide, by decide, by decide⟩ := by
  apply Date.ext <;> rfl

theorem date_succ (n : ℕ) : date (n + 1) = (date n).next := by
  apply Date.number_injective
  rw [Date.number_next, number_date, number_date, Nat.add_assoc]

/-- Every date from 1970 on is the date of its count. -/
theorem date_number {d : Date} (h : 1970 ≤ d.year) : date (d.number - epoch) = d := by
  apply Date.number_injective
  have hepoch : epoch ≤ d.number := by
    calc epoch = beforeYear 1970 := by have := beforeYear_eq 1970; unfold epoch; omega
      _ ≤ beforeYear d.year := beforeYear_mono h
      _ ≤ d.number := by rw [Date.number, Nat.add_assoc]; exact Nat.le_add_right _ _
  rw [number_date]
  omega

theorem yearOfEra_cast (doe : ℕ) :
    ((doe : ℤ) - (doe : ℤ).tdiv 1460 + (doe : ℤ).tdiv 36524 - (doe : ℤ).tdiv 146096).tdiv 365 =
      yearOfEra doe := by
  have hdoe : (0 : ℤ) ≤ doe := by omega
  rw [Int.tdiv_eq_ediv_of_nonneg hdoe, Int.tdiv_eq_ediv_of_nonneg hdoe,
    Int.tdiv_eq_ediv_of_nonneg hdoe, Int.tdiv_eq_ediv_of_nonneg (by omega)]
  unfold yearOfEra
  omega

theorem dayOfYear_cast {doe : ℕ} (h : doe < 146097) :
    (doe : ℤ) - (365 * yearOfEra doe + (yearOfEra doe : ℤ).tdiv 4 -
      (yearOfEra doe : ℤ).tdiv 100) = dayOfYear doe := by
  have hspec := yearOfEra_spec h
  have hyear : (0 : ℤ) ≤ yearOfEra doe := by omega
  rw [Int.tdiv_eq_ediv_of_nonneg hyear, Int.tdiv_eq_ediv_of_nonneg hyear]
  omega

/-- Day counts up to `2 ^ 60` are computed without an overflow. -/
theorem civilI64_eq {n : ℕ} (h : n < 2 ^ 60) :
    civilI64 n = some (((date n).year : ℤ), (date n).month, (date n).day) := by
  have hlt : (n + 719468) % 146097 < 146097 := Nat.mod_lt _ (by omega)
  have hera : (n + 719468) / 146097 < 2 ^ 44 := by omega
  have hz : i64 ((n : ℤ) + 719468) = some ((n : ℤ) + 719468) := if_pos (by omega)
  have hdoe : ((n : ℤ) + 719468) % 146097 = ((n + 719468) % 146097 : ℕ) := by omega
  have hdiv : ((n : ℤ) + 719468) / 146097 = ((n + 719468) / 146097 : ℕ) := by omega
  rw [civilI64, hz, Option.bind_some]
  simp only [hdoe, hdiv, yearOfEra_cast, dayOfYear_cast hlt]
  change _ = some (((civil n).1 : ℤ), (civil n).2.1, (civil n).2.2)
  rw [civil_eq n rfl rfl]
  have hspec := yearOfEra_spec hlt
  generalize (n + 719468) / 146097 = era at hera ⊢
  generalize (n + 719468) % 146097 = doe at hspec ⊢
  generalize dayOfYear doe = doy at hspec ⊢
  generalize yearOfEra doe = yoe at hspec ⊢
  have hmonth := month_spec (by omega : doy < 366)
  have hmp : (5 * (doy : ℤ) + 2).tdiv 153 = ((5 * doy + 2) / 153 : ℕ) := by
    rw [Int.tdiv_eq_ediv_of_nonneg (by omega)]
    omega
  have hyears : i64 ((era : ℤ) * 400) = some ((era : ℤ) * 400) := if_pos (by omega)
  rw [hmp, hyears]
  generalize (5 * doy + 2) / 153 = mp at hmonth ⊢
  have hstart : (153 * (mp : ℤ) + 2).tdiv 5 = ((153 * mp + 2) / 5 : ℕ) := by
    rw [Int.tdiv_eq_ediv_of_nonneg (by omega)]
    omega
  have hd : (((doy : ℤ) - ((153 * mp + 2) / 5 : ℕ) + 1) % 2 ^ 32).toNat =
      doy - (153 * mp + 2) / 5 + 1 := by
    rw [Int.emod_eq_of_lt (by omega) (by omega)]
    omega
  have hm : ((if (mp : ℤ) < 10 then (mp : ℤ) + 3 else mp - 9) % 2 ^ 32).toNat =
      if mp < 10 then mp + 3 else mp - 9 := by
    split_ifs <;> omega
  have hlate : (if (if mp < 10 then mp + 3 else mp - 9) ≤ 2 then 1 else 0 : ℤ) =
      ((if mp < 10 then 0 else 1 : ℕ) : ℤ) := by
    split_ifs <;> omega
  have hone : (if mp < 10 then 0 else 1) ≤ 1 := by split_ifs <;> omega
  rw [hstart, hd, hm, Option.bind_some, hlate]
  generalize (if mp < 10 then 0 else 1) = late at hone ⊢
  have hyear : i64 ((yoe : ℤ) + era * 400 + late) = some ((yoe + era * 400 + late : ℕ) : ℤ) := by
    rw [i64, if_pos (by omega), Nat.cast_add, Nat.cast_add, Nat.cast_mul]
    rfl
  rw [hyear, Option.map_some]

/-! ## Texts -/

theorem padded_toList {width n : ℕ} (hwidth : 0 < width) (h : n < 10 ^ width) :
    (padded width n).toList = digits width n := by
  rw [padded, String.toList_ofList, leftpad_toDigits hwidth h]

/-- The text of a date. -/
def dateText (n : ℕ) : List Char :=
  digits 4 (date n).year ++ '-' :: (digits 2 (date n).month ++ '-' :: digits 2 (date n).day)

/-- The days from 1970 to the end of the year 9999. -/
def fourDigits : ℕ := 2932897

theorem beforeYear_tenThousand : beforeYear 10000 = epoch + fourDigits := by
  have hyears := beforeYear_eq 10000
  unfold epoch fourDigits
  omega

theorem year_le_iff {n : ℕ} : (date n).year ≤ 9999 ↔ n < fourDigits := by
  have hnumber := number_date n
  have hyears := beforeYear_tenThousand
  constructor
  · intro hle
    have hlt : (date n).number < beforeYear 10000 :=
      (date n).number_lt_beforeYear.trans_le (beforeYear_mono (Nat.succ_le_succ hle))
    omega
  · intro hlt
    by_contra hgt
    have hle : beforeYear 10000 ≤ (date n).number := by
      refine (beforeYear_mono (Nat.succ_le_of_lt (Nat.lt_of_not_le hgt))).trans ?_
      rw [Date.number, Nat.add_assoc]
      exact Nat.le_add_right _ _
    omega

theorem monthLength_le (y m : ℕ) : monthLength y m ≤ 31 := by
  unfold monthLength
  split_ifs <;> omega

/-- The texts of the dates are in their order. -/
theorem ordered_dateText : Ordered fourDigits 10 dateText where
  length_eq n _ := by simp [dateText]
  increasing n m hlt hm := by
    have hbefore : (date n).Before (date m) :=
      Date.before_of_number_lt (by rw [number_date, number_date]; omega)
    have hyear := year_le_iff.mpr hm
    have hmonth := (date m).month_le
    have hday := (date m).day_le.trans (monthLength_le _ _)
    unfold dateText
    rcases hbefore with hy | ⟨hy, hm' | ⟨hm', hd⟩⟩
    · exact append_lt_append ((Ordered.digits 4).increasing _ _ hy (by omega)) (by simp) _ _
    · rw [hy]
      refine List.append_left_lt (List.cons_lt_cons_iff.mpr (.inr ⟨rfl, ?_⟩))
      exact append_lt_append ((Ordered.digits 2).increasing _ _ hm' (by omega)) (by simp) _ _
    · rw [hy, hm']
      refine List.append_left_lt (List.cons_lt_cons_iff.mpr (.inr ⟨rfl, ?_⟩))
      refine List.append_left_lt (List.cons_lt_cons_iff.mpr (.inr ⟨rfl, ?_⟩))
      exact (Ordered.digits 2).increasing _ _ hd (by omega)

/-- The text of a time in milliseconds. -/
def stamp (n : ℕ) : List Char :=
  dateText (n / 1000 / 60 / 60 / 24) ++ ('T' :: digits 2 (n / 1000 / 60 / 60 % 24))
    ++ (':' :: digits 2 (n / 1000 / 60 % 60)) ++ (':' :: digits 2 (n / 1000 % 60))
    ++ ('.' :: digits 3 (n % 1000)) ++ ['Z']

theorem ordered_stamp : ∃ length, Ordered (fourDigits * 24 * 60 * 60 * 1000) length stamp := by
  have hhours : Ordered 24 _ fun n => ['T'] ++ digits 2 n :=
    ((Ordered.digits 2).mono (by omega)).append_left ['T']
  have hsixty : Ordered 60 _ fun n => [':'] ++ digits 2 n :=
    ((Ordered.digits 2).mono (by omega)).append_left [':']
  have hmillis : Ordered 1000 _ fun n => ['.'] ++ digits 3 n := (Ordered.digits 3).append_left ['.']
  exact ⟨_, ((((ordered_dateText.append hhours (by omega)).append hsixty (by omega)).append hsixty
    (by omega)).append hmillis (by omega)).append_right ['Z']⟩

theorem rfc3339_eq (secs millis : ℕ) :
    rfc3339 secs millis = padded 4 (date (secs / 86400)).year ++ "-"
      ++ padded 2 (date (secs / 86400)).month ++ "-" ++ padded 2 (date (secs / 86400)).day ++ "T"
      ++ clock secs ++ "." ++ padded 3 millis ++ "Z" := by
  rw [rfc3339, civil_eq_date]

theorem stamp_join (y m d hour min sec ms : List Char) :
    y ++ "-".toList ++ m ++ "-".toList ++ d ++ "T".toList ++ (hour ++ ":".toList ++ min
      ++ ":".toList ++ sec) ++ ".".toList ++ ms ++ "Z".toList =
    y ++ '-' :: (m ++ '-' :: d) ++ 'T' :: hour ++ ':' :: min ++ ':' :: sec ++ '.' :: ms
      ++ ['Z'] := by
  simp

theorem rfc3339_toList {secs millis : ℕ} (hsecs : secs / 86400 < fourDigits)
    (hmillis : millis < 1000) : (rfc3339 secs millis).toList = stamp (secs * 1000 + millis) := by
  have hdate : dateText (secs / 86400) = (padded 4 (date (secs / 86400)).year).toList ++
      '-' :: ((padded 2 (date (secs / 86400)).month).toList ++
        '-' :: (padded 2 (date (secs / 86400)).day).toList) := by
    have hyear := year_le_iff.mpr hsecs
    have hmonth := (date (secs / 86400)).month_le
    have hday := (date (secs / 86400)).day_le.trans (monthLength_le _ _)
    rw [padded_toList (by omega) (by omega), padded_toList (by omega) (by omega),
      padded_toList (by omega) (by omega), dateText]
  have hquot : (secs * 1000 + millis) / 1000 = secs := by omega
  have hrem : (secs * 1000 + millis) % 1000 = millis := by omega
  rw [stamp, hquot, hrem, show secs / 60 / 60 / 24 = secs / 86400 by omega, hdate,
    show secs / 60 / 60 % 24 = secs % 86400 / 3600 by omega,
    show secs / 60 % 60 = secs % 86400 % 3600 / 60 by omega,
    show secs % 60 = secs % 86400 % 60 by omega,
    ← padded_toList (by omega) (by omega : secs % 86400 / 3600 < 10 ^ 2),
    ← padded_toList (by omega) (by omega : secs % 86400 % 3600 / 60 < 10 ^ 2),
    ← padded_toList (by omega) (by omega : secs % 86400 % 60 < 10 ^ 2),
    ← padded_toList (by omega) (by omega : millis < 10 ^ 3)]
  rw [rfc3339_eq, clock]
  simp only [String.toList_append]
  exact stamp_join _ _ _ _ _ _ _

/-- Times in milliseconds are compared as their texts are. -/
theorem rfc3339_lt_iff {secs millis secs' millis' : ℕ} (hsecs : secs / 86400 < fourDigits)
    (hsecs' : secs' / 86400 < fourDigits) (hmillis : millis < 1000) (hmillis' : millis' < 1000) :
    rfc3339 secs millis < rfc3339 secs' millis' ↔
      secs * 1000 + millis < secs' * 1000 + millis' := by
  obtain ⟨length, hstamp⟩ := ordered_stamp
  rw [String.lt_iff_toList_lt, rfc3339_toList hsecs hmillis, rfc3339_toList hsecs' hmillis']
  exact hstamp.lt_iff (by omega) (by omega)

/-- 1970 began on a Thursday. -/
theorem weekday_date (n : ℕ) : (date n).weekday = Weekday.tomorrow^[n] .thursday := by
  have hepoch : Weekday.tomorrow^[epoch] .saturday = .thursday := by
    rw [← Weekday.tomorrow_mod]
    rfl
  rw [Date.weekday, number_date, Nat.add_comm, Function.iterate_add_apply, hepoch]

end Events

namespace Mail

/-- The day of the week in a date. -/
def dayName : Weekday → String
  | .monday => "Mon"
  | .tuesday => "Tue"
  | .wednesday => "Wed"
  | .thursday => "Thu"
  | .friday => "Fri"
  | .saturday => "Sat"
  | .sunday => "Sun"

theorem days_getElem? (n : ℕ) :
    ["Thu", "Fri", "Sat", "Sun", "Mon", "Tue", "Wed"][n % 7]? =
      some (dayName (Events.date n).weekday) := by
  have hlt : n % 7 < 7 := Nat.mod_lt n (by omega)
  rw [Events.weekday_date, ← Weekday.tomorrow_mod]
  generalize n % 7 = k at hlt ⊢
  interval_cases k <;> rfl

/-- A date begins with its day of the week. -/
theorem rfc5322Date_day (secs : ℕ) :
    ∃ rest, rfc5322Date secs =
      some (dayName (Events.date (secs / 86400)).weekday ++ ", " ++ rest) := by
  have hmonth := (Events.date (secs / 86400)).month_le
  rw [rfc5322Date, Events.civil_eq_date, days_getElem?]
  generalize Events.date (secs / 86400) = d at hmonth ⊢
  dsimp only
  rw [Option.bind_some, List.getElem?_eq_getElem
    (by simp only [List.length_cons, List.length_nil]; omega), Option.map_some]
  simp only [String.append_assoc]
  exact ⟨_, rfl⟩

end Mail

/-- A time of the system clock: seconds from 1970, and nanoseconds. -/
structure SystemTime where
  secs : ℤ
  nanos : ℕ
  secs_ge : -2 ^ 63 ≤ secs
  secs_lt : secs < 2 ^ 63
  nanos_lt : nanos < 10 ^ 9

namespace SystemTime

/-- The seconds and milliseconds since 1970, none of them before. -/
def sinceEpoch (t : SystemTime) : ℕ × ℕ :=
  if 0 ≤ t.secs then (t.secs.toNat, t.nanos / 10 ^ 6) else (0, 0)

def rfc3339 (t : SystemTime) : String := Events.rfc3339 t.sinceEpoch.1 t.sinceEpoch.2

def rfc5322Date (t : SystemTime) : Option String := Mail.rfc5322Date t.sinceEpoch.1

/-- The day count of a time, and its date. -/
def days (t : SystemTime) : ℕ := t.sinceEpoch.1 / 86400

def date (t : SystemTime) : Date := Events.date t.days

/-- The time in whole milliseconds. -/
def millis (t : SystemTime) : ℤ := t.secs * 1000 + (t.nanos / 10 ^ 6 : ℕ)

theorem days_lt (t : SystemTime) : t.days < 2 ^ 60 := by
  have hlt := t.secs_lt
  unfold days sinceEpoch
  split_ifs <;> dsimp only <;> omega

theorem rfc3339_lt_rfc3339 {t t' : SystemTime} (h : 0 ≤ t.secs) (h' : 0 ≤ t'.secs)
    (hyear : t.date.year ≤ 9999) (hyear' : t'.date.year ≤ 9999) :
    t.rfc3339 < t'.rfc3339 ↔ t.millis < t'.millis := by
  have hsecs := Events.year_le_iff.mp hyear
  have hsecs' := Events.year_le_iff.mp hyear'
  have hnanos := t.nanos_lt
  have hnanos' := t'.nanos_lt
  simp only [days, sinceEpoch, if_pos h] at hsecs
  simp only [days, sinceEpoch, if_pos h'] at hsecs'
  simp only [rfc3339, sinceEpoch, if_pos h, if_pos h', millis]
  rw [Events.rfc3339_lt_iff hsecs hsecs' (by omega) (by omega)]
  omega

/-- **Dates are those of the Gregorian calendar**, each the day after the one before from
1 January 1970 on.  Headers have a name for every day and month, and the right day of the
week, and time stamps are in the order of the milliseconds. -/
theorem calendar :
    (∀ n : ℕ, n < 2 ^ 60 → Events.civilI64 n =
      some (((Events.date n).year : ℤ), (Events.date n).month, (Events.date n).day)) ∧
    Events.date 0 = ⟨1970, 1, 1, by decide, by decide, by decide, by decide⟩ ∧
    (∀ n, Events.date (n + 1) = (Events.date n).next ∧
      (Events.date n).number = Events.epoch + n) ∧
    (∀ d : Date, 1970 ≤ d.year → Events.date (d.number - Events.epoch) = d) ∧
    (∀ t : SystemTime, t.days < 2 ^ 60 ∧ t.rfc5322Date.isSome = true) ∧
    (∀ t : SystemTime, 0 ≤ t.secs →
      ∃ rest, t.rfc5322Date = some (Mail.dayName t.date.weekday ++ ", " ++ rest)) ∧
    ∀ t t' : SystemTime, 0 ≤ t.secs → 0 ≤ t'.secs → t.date.year ≤ 9999 → t'.date.year ≤ 9999 →
      (t.rfc3339 < t'.rfc3339 ↔ t.millis < t'.millis) := by
  refine ⟨fun n hn => Events.civilI64_eq hn, Events.date_zero, fun n => ?_, fun d hd => ?_,
    fun t => ?_, fun t _ => ?_, fun t t' h h' hyear hyear' => ?_⟩
  · exact ⟨Events.date_succ n, Events.number_date n⟩
  · exact Events.date_number hd
  · exact ⟨t.days_lt, Mail.isSome_rfc5322Date _⟩
  · exact Mail.rfc5322Date_day _
  · exact rfc3339_lt_rfc3339 h h' hyear hyear'

/-- The last millisecond of a leap day is before the next. -/
theorem calendar_leapDay :
    Events.civilI64 11016 = some (2000, 2, 29) ∧
      (⟨951868799, 999000000, by decide, by decide, by decide⟩ : SystemTime).rfc3339 <
        (⟨951868800, 0, by decide, by decide, by decide⟩ : SystemTime).rfc3339 := by
  refine ⟨?_, ?_⟩
  · have hcivil := calendar.1 11016 (by omega)
    exact hcivil
  · refine (calendar.2.2.2.2.2.2 _ _ (by decide) (by decide) (by decide) (by decide)).mpr ?_
    decide

end SystemTime

end Polywan
