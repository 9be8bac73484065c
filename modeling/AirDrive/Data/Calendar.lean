import Mathlib.Algebra.Order.Ring.Int
import Mathlib.Tactic.IntervalCases
import Mathlib.Tactic.Lemma

set_option relaxedAutoImplicit false
set_option autoImplicit false

/-!
# The Gregorian calendar

The proleptic Gregorian calendar: the dates, the day after a date, and the number of a date, which
counts the days since 1970-01-01.

## Main definitions

* `Data.Calendar.IsLeap`, `Data.Calendar.monthLength` — the leap years and the lengths of months.
* `Data.Calendar.Date` — a date of the calendar.
* `Data.Calendar.Date.next`, `Data.Calendar.Date.Before` — the day after a date, and the order of
  dates.
* `Data.Calendar.Date.dayNumber` — the number of a date.

## Main results

* `Data.Calendar.Date.dayNumber_epoch`, `Data.Calendar.Date.dayNumber_next` — the numbers start at
  1970-01-01 and count the days.
* `Data.Calendar.Date.dayNumber_lt_iff`, `Data.Calendar.Date.dayNumber_inj` — they follow the order
  of the dates.
-/

namespace Data.Calendar

variable {y y' : ℤ} {m m' : ℕ}

/-- Every fourth year, without the centuries that are no multiples of four centuries. -/
def IsLeap (y : ℤ) : Prop := y % 4 = 0 ∧ (y % 100 ≠ 0 ∨ y % 400 = 0)

instance : DecidablePred IsLeap := fun _ => inferInstanceAs (Decidable (_ ∧ _))

/-- The days of a month. -/
def monthLength (y : ℤ) : ℕ → ℕ
  | 2 => if IsLeap y then 29 else 28
  | 4 | 6 | 9 | 11 => 30
  | _ => 31

/-- The days of the year before a month. -/
def daysBeforeMonth (y : ℤ) : ℕ → ℕ
  | 0 | 1 => 0
  | m + 2 => daysBeforeMonth y (m + 1) + monthLength y (m + 1)

/-- The days before a year, up to a constant: one more for every leap year before. -/
def daysBeforeYear (y : ℤ) : ℤ := 365 * y + (y - 1) / 4 - (y - 1) / 100 + (y - 1) / 400

lemma daysBeforeMonth_succ (hm : 1 ≤ m) :
    daysBeforeMonth y (m + 1) = daysBeforeMonth y m + monthLength y m := by
  obtain ⟨m, rfl⟩ := Nat.exists_eq_add_of_le' hm
  rfl

lemma daysBeforeMonth_mono (hm : 1 ≤ m) (h : m < m') :
    daysBeforeMonth y m + monthLength y m ≤ daysBeforeMonth y m' := by
  induction m', h using Nat.le_induction with
  | base => exact (daysBeforeMonth_succ hm).ge
  | succ m' hle ih =>
    rw [daysBeforeMonth_succ (hm.trans (Nat.le_of_succ_le hle))]
    exact ih.trans (Nat.le_add_right _ _)

/-- The length of a year. -/
lemma daysBeforeMonth_last (y : ℤ) : daysBeforeMonth y 13 = if IsLeap y then 366 else 365 := by
  simp only [daysBeforeMonth, monthLength]
  split_ifs <;> rfl

/-- The twelve months make up the year. -/
lemma daysBeforeYear_succ (y : ℤ) :
    daysBeforeYear (y + 1) = daysBeforeYear y + daysBeforeMonth y 13 := by
  rw [daysBeforeMonth_last]
  by_cases h : IsLeap y
  · rw [if_pos h]
    unfold IsLeap at h
    unfold daysBeforeYear
    push_cast
    omega
  · rw [if_neg h]
    unfold IsLeap at h
    unfold daysBeforeYear
    push_cast
    omega

lemma daysBeforeYear_mono (h : y < y') : daysBeforeYear (y + 1) ≤ daysBeforeYear y' := by
  simp only [daysBeforeYear]
  omega

/-- A date of the calendar. -/
@[ext]
structure Date where
  year : ℤ
  month : ℕ
  day : ℕ
  month_pos : 1 ≤ month
  month_le : month ≤ 12
  day_pos : 1 ≤ day
  day_le : day ≤ monthLength year month
deriving DecidableEq, Repr

namespace Date

variable {d e : Date}

lemma monthLength_pos (y : ℤ) (m : ℕ) : 1 ≤ monthLength y m := by
  unfold monthLength
  split <;> (try split_ifs) <;> omega

/-- The first day of a month. -/
def first (y : ℤ) (m : ℕ) (hpos : 1 ≤ m) (hle : m ≤ 12) : Date :=
  ⟨y, m, 1, hpos, hle, le_refl 1, monthLength_pos y m⟩

/-- The day after. -/
def next (d : Date) : Date :=
  if hd : d.day < monthLength d.year d.month then
    { d with day := d.day + 1, day_pos := Nat.le_add_left 1 _, day_le := hd }
  else if hm : d.month < 12 then .first d.year (d.month + 1) (Nat.le_add_left 1 _) hm
  else .first (d.year + 1) 1 (by decide) (by decide)

/-- The order of dates. -/
def Before (d e : Date) : Prop :=
  d.year < e.year ∨ d.year = e.year ∧ (d.month < e.month ∨ d.month = e.month ∧ d.day < e.day)

/-- The days since 1970-01-01. -/
def dayNumber (d : Date) : ℤ :=
  daysBeforeYear d.year - daysBeforeYear 1970 + daysBeforeMonth d.year d.month + (d.day - 1)

/-- **The numbers start** at 1970-01-01. -/
lemma dayNumber_epoch : (first 1970 1 (by decide) (by decide)).dayNumber = 0 := by decide

/-- **The numbers count** the days. -/
lemma dayNumber_next (d : Date) : d.next.dayNumber = d.dayNumber + 1 := by
  have hday := d.day_le
  unfold next
  split_ifs with hd hm
  · simp only [dayNumber]
    push_cast
    omega
  · have hlast : d.day = monthLength d.year d.month := le_antisymm hday (not_lt.mp hd)
    simp only [dayNumber, first, daysBeforeMonth_succ d.month_pos, hlast]
    push_cast
    omega
  · have hlast : d.day = monthLength d.year d.month := le_antisymm hday (not_lt.mp hd)
    have hdecember : d.month = 12 := le_antisymm d.month_le (not_lt.mp hm)
    have hyear := daysBeforeYear_succ d.year
    rw [daysBeforeMonth_succ (by decide)] at hyear
    simp only [dayNumber, first, hyear, hlast, hdecember, daysBeforeMonth]
    push_cast
    omega

/-- The days of a year are numbered from its first day on. -/
lemma day_of_year (d : Date) :
    daysBeforeMonth d.year d.month + d.day ≤ daysBeforeMonth d.year 13 := by
  have hmonths := @daysBeforeMonth_mono d.year d.month 13 d.month_pos (Nat.lt_succ_of_le d.month_le)
  have hday := d.day_le
  omega

lemma dayNumber_lt (h : d.Before e) : d.dayNumber < e.dayNumber := by
  simp only [dayNumber]
  obtain hyear | ⟨hyear, hmonth | ⟨hmonth, hday⟩⟩ := h
  · have hnext := daysBeforeYear_mono hyear
    rw [daysBeforeYear_succ] at hnext
    have hwithin := d.day_of_year
    have hpos := e.day_pos
    omega
  · have hnext := @daysBeforeMonth_mono e.year d.month e.month d.month_pos hmonth
    have hday := d.day_le
    have hpos := e.day_pos
    rw [hyear] at hday ⊢
    omega
  · rw [hyear, hmonth]
    omega

lemma before_trichotomy (d e : Date) : d.Before e ∨ d = e ∨ e.Before d := by
  unfold Before
  by_cases h : d = e
  · exact .inr (.inl h)
  · have hne : ¬(d.year = e.year ∧ d.month = e.month ∧ d.day = e.day) := fun hall =>
      h (Date.ext hall.1 hall.2.1 hall.2.2)
    omega

/-- **The numbers follow** the order of the dates. -/
lemma dayNumber_lt_iff : d.dayNumber < e.dayNumber ↔ d.Before e := by
  refine ⟨fun h => ?_, dayNumber_lt⟩
  obtain hbefore | rfl | hafter := before_trichotomy d e
  · exact hbefore
  · exact absurd h (lt_irrefl _)
  · exact absurd h (dayNumber_lt hafter).asymm

/-- **Dates with one number** are one. -/
lemma dayNumber_inj (h : d.dayNumber = e.dayNumber) : d = e := by
  obtain hbefore | heq | hafter := before_trichotomy d e
  · exact absurd h (dayNumber_lt hbefore).ne
  · exact heq
  · exact absurd h (dayNumber_lt hafter).ne'

end Date

end Data.Calendar
