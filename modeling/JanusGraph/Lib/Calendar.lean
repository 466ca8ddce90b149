import Mathlib.Data.Nat.Notation
import Mathlib.Order.Monotone.Basic

/-!
# The calendar

The proleptic Gregorian calendar, and points in time as `datetime` has them: a date and a time of
day, to the microsecond. `DateTime.instant` counts the microseconds since the first day of the
year 1, `DateTime.ofInstant` is its inverse, and both keep the order.
-/

namespace Calendar

/-- `_is_leap` -/
def isLeap (year : ℕ) : Bool := year % 4 = 0 && (year % 100 ≠ 0 || year % 400 = 0)

/-- `_days_before_year` -/
def daysBeforeYear (year : ℕ) : ℕ :=
  (year - 1) * 365 + (year - 1) / 4 - (year - 1) / 100 + (year - 1) / 400

/-- `_days_in_month` -/
def daysInMonth (leap : Bool) : ℕ → ℕ
  | 2 => if leap then 29 else 28
  | 4 | 6 | 9 | 11 => 30
  | _ => 31

theorem daysInMonth_le (leap : Bool) (month : ℕ) : daysInMonth leap month ≤ 31 := by
  rw [daysInMonth.eq_def]
  split
  · split <;> decide
  all_goals decide

/-- `_days_before_month` -/
def daysBeforeMonth (leap : Bool) (month : ℕ) : ℕ :=
  [0, 0, 31, 59, 90, 120, 151, 181, 212, 243, 273, 304, 334].getD month 0 +
    if 2 < month && leap then 1 else 0

/-- The days of a year. -/
def daysInYear (leap : Bool) : ℕ := if leap then 366 else 365

theorem daysInYear_le (leap : Bool) : daysInYear leap ≤ 366 := by
  cases leap <;> decide

/-- A date. -/
@[ext] structure Date : Type where
  year : ℕ
  month : ℕ
  day : ℕ
  year_pos : 1 ≤ year
  month_mem : 1 ≤ month ∧ month ≤ 12
  day_mem : 1 ≤ day ∧ day ≤ daysInMonth (isLeap year) month
  deriving DecidableEq

namespace Date

/-- `toordinal` -/
def ordinal (d : Date) : ℕ :=
  daysBeforeYear d.year + daysBeforeMonth (isLeap d.year) d.month + d.day

/-- Earlier in the year, the month and the day. -/
def Before (d e : Date) : Prop :=
  d.year < e.year ∨ d.year = e.year ∧ (d.month < e.month ∨ d.month = e.month ∧ d.day < e.day)

theorem before_trichotomy (d e : Date) : d.Before e ∨ d = e ∨ e.Before d := by
  rw [Before, Before, Date.ext_iff]
  omega

end Date

/-! ## The order of dates -/

/-- How many years up to this one are multiples of `b`. -/
theorem succ_div_eq (n b : ℕ) : (n + 1) / b = n / b + if (n + 1) % b = 0 then 1 else 0 := by
  simp only [Nat.succ_div, Nat.dvd_iff_mod_eq_zero]

/-- The next year begins when the year is over. -/
theorem daysBeforeYear_succ {year : ℕ} (h : 1 ≤ year) :
    daysBeforeYear (year + 1) = daysBeforeYear year + daysInYear (isLeap year) := by
  obtain ⟨n, rfl⟩ := Nat.exists_eq_add_of_le' h
  have hle : n / 100 ≤ n / 4 := Nat.div_le_div_left (by decide) (by decide)
  simp only [daysBeforeYear, Nat.add_sub_cancel, succ_div_eq n, daysInYear, isLeap]
  by_cases h4 : (n + 1) % 4 = 0
  · by_cases h100 : (n + 1) % 100 = 0
    · by_cases h400 : (n + 1) % 400 = 0
      · simp only [h4, h100, h400, if_true, decide_true, decide_false, ne_eq, not_true,
          Bool.and_self, Bool.or_true]
        omega
      · simp only [h4, h100, h400, if_true, if_false, decide_true, decide_false, ne_eq, not_true,
          Bool.or_self, Bool.and_false, Bool.false_eq_true]
        omega
    · have h400 : (n + 1) % 400 ≠ 0 := by omega
      simp only [h4, h100, h400, if_true, if_false, decide_true, decide_false, ne_eq,
        not_false_eq_true, Bool.or_false, Bool.and_self]
      omega
  · have h100 : (n + 1) % 100 ≠ 0 := by omega
    have h400 : (n + 1) % 400 ≠ 0 := by omega
    simp only [h4, h100, h400, if_false, decide_false, Bool.false_and, Bool.false_eq_true]
    omega

theorem daysBeforeYear_mono : Monotone daysBeforeYear := by
  refine monotone_nat_of_le_succ fun year => ?_
  rcases Nat.eq_zero_or_pos year with rfl | hpos
  · exact Nat.le_refl 0
  · rw [daysBeforeYear_succ hpos]
    exact Nat.le_add_right _ _

/-- The months of a year follow each other. -/
theorem daysBeforeMonth_add_le (leap : Bool) :
    ∀ m < 13, ∀ n < 13, 1 ≤ m → m < n →
      daysBeforeMonth leap m + daysInMonth leap m ≤ daysBeforeMonth leap n := by
  cases leap <;> decide

/-- They fill the year. -/
theorem daysBeforeMonth_add_le_year (leap : Bool) :
    ∀ m < 13, 1 ≤ m →
      daysBeforeMonth leap m + daysInMonth leap m ≤ daysInYear leap := by
  cases leap <;> decide

namespace Date

/-- **The order of dates** is that of their numbers. -/
theorem Before.ordinal_lt {d e : Date} (h : d.Before e) : d.ordinal < e.ordinal := by
  obtain ⟨hd, hd'⟩ := d.day_mem
  obtain ⟨he, -⟩ := e.day_mem
  obtain ⟨hm, hm'⟩ := d.month_mem
  obtain ⟨hn, hn'⟩ := e.month_mem
  rw [ordinal, ordinal]
  rcases h with hyear | ⟨hyear, hmonth | ⟨hmonth, hday⟩⟩
  · -- the day is in its year, and the years in between are not negative
    have hend := daysBeforeMonth_add_le_year (isLeap d.year) d.month (by omega) hm
    have hnext := daysBeforeYear_succ d.year_pos
    have hlater : daysBeforeYear (d.year + 1) ≤ daysBeforeYear e.year :=
      daysBeforeYear_mono hyear
    omega
  · have hend := daysBeforeMonth_add_le (isLeap d.year) d.month (by omega) e.month (by omega) hm
      hmonth
    rw [← hyear]
    omega
  · rw [← hyear, ← hmonth]
    omega

end Date

theorem Date.ordinal_injective : Function.Injective Date.ordinal := by
  intro d e h
  rcases Date.before_trichotomy d e with hlt | heq | hgt
  · exact absurd h hlt.ordinal_lt.ne
  · exact heq
  · exact absurd h hgt.ordinal_lt.ne'

/-! ## The date of a day -/

/-- The year of a day, days counted from `0`, and how many days of the year are over. -/
def yearOf (n : ℕ) : ℕ × ℕ :=
  let n100 := n % 146097 / 36524
  let n4 := n % 146097 % 36524 / 1461
  let n1 := n % 146097 % 36524 % 1461 / 365
  let year := n / 146097 * 400 + n100 * 100 + n4 * 4 + n1 + 1
  if n1 = 4 ∨ n100 = 4 then (year - 1, 365) else (year, n % 146097 % 36524 % 1461 % 365)

/-- The month and the day, when `n` days of the year are over. -/
def monthOf (leap : Bool) (n : ℕ) : ℕ × ℕ :=
  let month := (n + 50) / 32
  if n < daysBeforeMonth leap month then
    (month - 1, n - daysBeforeMonth leap (month - 1) + 1)
  else (month, n - daysBeforeMonth leap month + 1)

theorem yearOf_pos (n : ℕ) : 1 ≤ (yearOf n).1 := by
  rw [yearOf]
  split
  · omega
  · exact Nat.le_add_left _ _

/-- The days before a year, by the cycles of 400, 100 and 4 years that are over. -/
theorem daysBeforeYear_cycles {a b c d : ℕ} (hb : b ≤ 3) (hc : c ≤ 24) (hd : d ≤ 3) :
    daysBeforeYear (a * 400 + b * 100 + c * 4 + d + 1) =
      a * 146097 + b * 36524 + c * 1461 + d * 365 := by
  have h4 : (a * 400 + b * 100 + c * 4 + d) / 4 = a * 100 + b * 25 + c := by omega
  have h100 : (a * 400 + b * 100 + c * 4 + d) / 100 = a * 4 + b := by omega
  have h400 : (a * 400 + b * 100 + c * 4 + d) / 400 = a := by omega
  rw [daysBeforeYear, Nat.add_sub_cancel, h4, h100, h400]
  omega

/-- The day is in its year. -/
theorem yearOf_spec (n : ℕ) :
    daysBeforeYear (yearOf n).1 + (yearOf n).2 = n ∧
      (yearOf n).2 < daysInYear (isLeap (yearOf n).1) := by
  have hn : n = n / 146097 * 146097 + n % 146097 / 36524 * 36524 +
      n % 146097 % 36524 / 1461 * 1461 + n % 146097 % 36524 % 1461 / 365 * 365 +
      n % 146097 % 36524 % 1461 % 365 := by omega
  have hb : n % 146097 / 36524 ≤ 4 := by omega
  have hc : n % 146097 % 36524 / 1461 ≤ 24 := by omega
  have hr := Nat.mod_lt (n % 146097 % 36524 % 1461) (show 365 > 0 by decide)
  -- the last day of a cycle is counted as the first of one more year
  have hb4 : n % 146097 / 36524 = 4 → n % 146097 % 36524 / 1461 = 0 ∧
      n % 146097 % 36524 % 1461 / 365 = 0 ∧ n % 146097 % 36524 % 1461 % 365 = 0 := by omega
  have hd4 : n % 146097 % 36524 % 1461 / 365 = 4 → n % 146097 / 36524 ≤ 3 ∧
      n % 146097 % 36524 / 1461 ≤ 23 ∧ n % 146097 % 36524 % 1461 % 365 = 0 := by omega
  have hd : n % 146097 % 36524 % 1461 / 365 ≤ 4 := by omega
  rw [yearOf]
  generalize n / 146097 = a at *
  generalize n % 146097 / 36524 = b at *
  generalize n % 146097 % 36524 / 1461 = c at *
  generalize n % 146097 % 36524 % 1461 / 365 = d at *
  generalize n % 146097 % 36524 % 1461 % 365 = r at *
  have hleap : ∀ year, 365 ≤ daysInYear (isLeap year) := by
    intro year
    rw [daysInYear]
    split <;> decide
  split
  · next hlast =>
    have hday : isLeap (a * 400 + b * 100 + c * 4 + d + 1 - 1) = true := by
      simp only [isLeap, Bool.and_eq_true, Bool.or_eq_true, decide_eq_true_eq]
      omega
    rw [hday]
    refine ⟨?_, Nat.lt_succ_self 365⟩
    rcases hlast with hd' | hb'
    · have hyear : a * 400 + b * 100 + c * 4 + d + 1 - 1 = a * 400 + b * 100 + c * 4 + 3 + 1 := by
        omega
      rw [hyear, daysBeforeYear_cycles (by omega) hc (le_refl 3)]
      omega
    · have hyear : a * 400 + b * 100 + c * 4 + d + 1 - 1 = a * 400 + 3 * 100 + 24 * 4 + 3 + 1 := by
        omega
      rw [hyear, daysBeforeYear_cycles (le_refl 3) (le_refl 24) (le_refl 3)]
      omega
  · next hnot =>
    refine ⟨?_, hr.trans_le (hleap _)⟩
    rw [daysBeforeYear_cycles (by omega) hc (by omega)]
    exact hn.symm

theorem monthOf_spec (leap : Bool) :
    ∀ n < 366, n < daysInYear leap →
      (1 ≤ (monthOf leap n).1 ∧ (monthOf leap n).1 ≤ 12) ∧
      (1 ≤ (monthOf leap n).2 ∧ (monthOf leap n).2 ≤ daysInMonth leap (monthOf leap n).1) ∧
      daysBeforeMonth leap (monthOf leap n).1 + (monthOf leap n).2 = n + 1 := by
  cases leap <;> decide +kernel

/-- The date after `n` days. -/
def Date.ofDays (n : ℕ) : Date :=
  let year := yearOf n
  have hmonth := monthOf_spec (isLeap year.1) year.2
    ((yearOf_spec n).2.trans_le (daysInYear_le _)) (yearOf_spec n).2
  ⟨year.1, (monthOf (isLeap year.1) year.2).1, (monthOf (isLeap year.1) year.2).2, yearOf_pos n,
    hmonth.1, hmonth.2.1⟩

theorem Date.ordinal_ofDays (n : ℕ) : (ofDays n).ordinal = n + 1 := by
  obtain ⟨hdays, hlt⟩ := yearOf_spec n
  have hmonth := (monthOf_spec (isLeap (yearOf n).1) (yearOf n).2
    (hlt.trans_le (daysInYear_le _)) hlt).2.2
  rw [ordinal, ofDays]
  dsimp only
  omega

/-! ## Points in time -/

/-- A `datetime` in UTC. -/
@[ext] structure DateTime : Type where
  date : Date
  hour : ℕ
  minute : ℕ
  second : ℕ
  microsecond : ℕ
  hour_lt : hour < 24
  minute_lt : minute < 60
  second_lt : second < 60
  microsecond_lt : microsecond < 1000000
  deriving DecidableEq

namespace DateTime

/-- The microseconds since the beginning of the year 1. -/
def instant (d : DateTime) : ℕ :=
  ((((d.date.ordinal - 1) * 24 + d.hour) * 60 + d.minute) * 60 + d.second) * 1000000 +
    d.microsecond

/-- The day of a point in time. -/
theorem ordinal_eq (d : DateTime) : d.date.ordinal = d.instant / 86400000000 + 1 := by
  have hhour := d.hour_lt
  have hminute := d.minute_lt
  have hsecond := d.second_lt
  have hmicrosecond := d.microsecond_lt
  have hpos : 1 ≤ d.date.ordinal := d.date.day_mem.1.trans (Nat.le_add_left _ _)
  rw [instant]
  omega

theorem ordinal_le {d e : DateTime} (h : d.instant ≤ e.instant) :
    d.date.ordinal ≤ e.date.ordinal := by
  rw [ordinal_eq, ordinal_eq]
  exact Nat.add_le_add_right (Nat.div_le_div_right h) 1

/-- The point in time after `t` microseconds. -/
def ofInstant (t : ℕ) : DateTime where
  date := .ofDays (t / 1000000 / 60 / 60 / 24)
  hour := t / 1000000 / 60 / 60 % 24
  minute := t / 1000000 / 60 % 60
  second := t / 1000000 % 60
  microsecond := t % 1000000
  hour_lt := Nat.mod_lt _ (by decide)
  minute_lt := Nat.mod_lt _ (by decide)
  second_lt := Nat.mod_lt _ (by decide)
  microsecond_lt := Nat.mod_lt _ (by decide)

/-- The calendar loses nothing. -/
@[simp] theorem instant_ofInstant (t : ℕ) : (ofInstant t).instant = t := by
  simp only [instant, ofInstant, Date.ordinal_ofDays, Nat.add_sub_cancel]
  omega

/-- Earlier by the fields, the year first. -/
def Before (d e : DateTime) : Prop :=
  d.date.Before e.date ∨ d.date = e.date ∧ (d.hour < e.hour ∨ d.hour = e.hour ∧
    (d.minute < e.minute ∨ d.minute = e.minute ∧ (d.second < e.second ∨ d.second = e.second ∧
      d.microsecond < e.microsecond)))

theorem before_trichotomy (d e : DateTime) : d.Before e ∨ d = e ∨ e.Before d := by
  rw [Before, Before, DateTime.ext_iff]
  rcases Date.before_trichotomy d.date e.date with h | h | h
  · exact .inl (.inl h)
  · have htime : (d.hour < e.hour ∨ d.hour = e.hour ∧ (d.minute < e.minute ∨
          d.minute = e.minute ∧ (d.second < e.second ∨ d.second = e.second ∧
            d.microsecond < e.microsecond))) ∨
        (d.hour = e.hour ∧ d.minute = e.minute ∧ d.second = e.second ∧
          d.microsecond = e.microsecond) ∨
        (e.hour < d.hour ∨ e.hour = d.hour ∧ (e.minute < d.minute ∨
          e.minute = d.minute ∧ (e.second < d.second ∨ e.second = d.second ∧
            e.microsecond < d.microsecond))) := by omega
    rcases htime with hlt | heq | hgt
    · exact .inl (.inr ⟨h, hlt⟩)
    · exact .inr (.inl ⟨h, heq⟩)
    · exact .inr (.inr (.inr ⟨h.symm, hgt⟩))
  · exact .inr (.inr (.inl h))

/-- **The order of time** is that of the fields. -/
theorem Before.instant_lt {d e : DateTime} (h : d.Before e) : d.instant < e.instant := by
  have hhour := d.hour_lt
  have hminute := d.minute_lt
  have hsecond := d.second_lt
  have hmicrosecond := d.microsecond_lt
  have hpos : 1 ≤ d.date.ordinal := d.date.day_mem.1.trans (Nat.le_add_left _ _)
  rw [instant, instant]
  rcases h with hdate | ⟨hdate, h⟩
  · have hlt := hdate.ordinal_lt
    omega
  · rw [hdate]
    omega

end DateTime

end Calendar
