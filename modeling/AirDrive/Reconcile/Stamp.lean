import Mathlib.Data.String.Basic
import AirDrive.Data.Calendar
import AirDrive.Reconcile.Conflict

set_option relaxedAutoImplicit false
set_option autoImplicit false

/-!
# The time stamp of a conflict

`civil_from_days` turns a count of days into a date by integer arithmetic on eras of 400 years that
start in March. The dates are those of the Gregorian calendar, and the stamps that are written with
them sort by time.

## Main definitions

* `AirDrive.Conflict.civilDate` — the date of a count of days, as a date of the calendar.
* `AirDrive.Conflict.civilFromDaysMachine` — `civil_from_days` with the integers of the machine.

## Main results

* `AirDrive.Conflict.civilDate_dayNumber` — `civil_from_days` gives the date with that number.
* `AirDrive.Conflict.civilFromDaysMachine_eq` — no operation overflows or goes below zero.
* `AirDrive.Conflict.stamp_is_calendar` — the dates, the operations and the order of the stamps.
-/

namespace AirDrive.Conflict

open Data Data.Calendar

/-! ## The year of an era -/

/-- The days before a year of an era, when years start in March. -/
def eraDays (yoe : ℕ) : ℕ := 365 * yoe + yoe / 4 - yoe / 100 + yoe / 400

/-- The days of an era without the leap days before a day. -/
def unleaped (doe : ℕ) : ℕ := doe - doe / 1460 + doe / 36524 - doe / 146096

lemma unleaped_mono {a b : ℕ} (h : a ≤ b) : unleaped a ≤ unleaped b := by
  induction b, h using Nat.le_induction with
  | base => exact le_refl _
  | succ b _ ih =>
    refine ih.trans ?_
    unfold unleaped
    omega

/-- The first and the last day of every year of an era. -/
lemma unleaped_eraDays :
    ∀ y < 400, unleaped (eraDays y) / 365 = y ∧ unleaped (eraDays (y + 1) - 1) / 365 = y := by
  decide +kernel

/-- **The year of an era** of a day. -/
lemma eraDays_le {doe : ℕ} (h : doe < 146097) :
    unleaped doe / 365 < 400 ∧ eraDays (unleaped doe / 365) ≤ doe ∧
      doe < eraDays (unleaped doe / 365 + 1) := by
  have hlast : unleaped 146096 / 365 = 399 := by decide +kernel
  have hlt : unleaped doe / 365 < 400 := by
    have hle := Nat.div_le_div_right (c := 365) (unleaped_mono (Nat.le_of_lt_succ h))
    omega
  generalize hy : unleaped doe / 365 = y at hlt ⊢
  refine ⟨hlt, ?_, ?_⟩
  · by_contra hbefore
    -- the day would lie in the year before
    cases y with
    | zero => exact hbefore (Nat.zero_le _)
    | succ y =>
      have htable := (unleaped_eraDays y (by omega)).2
      have hmono := Nat.div_le_div_right (c := 365)
        (unleaped_mono (show doe ≤ eraDays (y + 1) - 1 by omega))
      omega
  · by_contra hafter
    rcases Nat.lt_or_ge (y + 1) 400 with hnext | hnext
    · have htable := (unleaped_eraDays (y + 1) hnext).1
      have hmono := Nat.div_le_div_right (c := 365) (unleaped_mono (not_lt.mp hafter))
      omega
    · obtain rfl : y = 399 := by omega
      have hera : eraDays (399 + 1) = 146097 := by decide
      omega

/-- The length of a year of an era: the leap day is at the end of the year. -/
lemma eraDays_succ (era : ℤ) {yoe : ℕ} (h : yoe < 400) :
    (eraDays (yoe + 1) : ℤ) =
      eraDays yoe + (if IsLeap (yoe + era * 400 + 1) then 366 else 365) := by
  unfold eraDays
  by_cases hleap : IsLeap (yoe + era * 400 + 1)
  · rw [if_pos hleap]
    unfold IsLeap at hleap
    omega
  · rw [if_neg hleap]
    unfold IsLeap at hleap
    omega

/-! ## The months from March on -/

/-- The days of a year that starts in March before a month. -/
def marchDays (mp : ℕ) : ℕ := (153 * mp + 2) / 5

/-- The month of the calendar. -/
def marchMonth (mp : ℕ) : ℕ := if mp < 10 then mp + 3 else mp - 9

/-- The year of the calendar. -/
def marchYear (y : ℤ) (mp : ℕ) : ℤ := if marchMonth mp ≤ 2 then y + 1 else y

/-- The month of a day. -/
lemma marchDays_le {doy : ℕ} (h : doy < 366) :
    (5 * doy + 2) / 153 < 12 ∧ marchDays ((5 * doy + 2) / 153) ≤ doy ∧
      doy < marchDays ((5 * doy + 2) / 153 + 1) := by
  unfold marchDays
  omega

/-- Every month but the last has the length of the calendar. -/
lemma marchDays_succ (y : ℤ) {mp : ℕ} (h : mp < 11) :
    marchDays (mp + 1) = marchDays mp + monthLength (marchYear y mp) (marchMonth mp) := by
  interval_cases mp <;> rfl

/-- The days before a month. -/
lemma daysBefore_march (y : ℤ) {mp : ℕ} (h : mp < 12) :
    daysBeforeYear (marchYear y mp) + daysBeforeMonth (marchYear y mp) (marchMonth mp) + 306 =
      daysBeforeYear (y + 1) + marchDays mp := by
  rcases Nat.lt_or_ge mp 10 with hmp | hmp
  · have hyear := daysBeforeYear_succ y
    have hmonth : daysBeforeMonth y 13 + marchDays mp =
        daysBeforeMonth (marchYear y mp) (marchMonth mp) + 306 := by
      interval_cases mp <;> simp only [marchYear, marchMonth, marchDays] <;>
        simp [daysBeforeMonth, monthLength]
    have hsame : marchYear y mp = y := by
      unfold marchYear marchMonth
      rw [if_neg (by split_ifs; omega)]
    rw [hsame] at hmonth ⊢
    omega
  · interval_cases mp
    · show daysBeforeYear (y + 1) + (0 : ℕ) + 306 = daysBeforeYear (y + 1) + (306 : ℕ)
      omega
    · show daysBeforeYear (y + 1) + (31 : ℕ) + 306 = daysBeforeYear (y + 1) + (337 : ℕ)
      omega

/-- A day of a year that starts in March, in the calendar. -/
lemma march_valid {y : ℤ} {doy : ℕ} (h : doy < if IsLeap (y + 1) then 366 else 365) :
    doy - marchDays ((5 * doy + 2) / 153) + 1 ≤
      monthLength (marchYear y ((5 * doy + 2) / 153)) (marchMonth ((5 * doy + 2) / 153)) := by
  obtain ⟨hmp, hle, hlt⟩ := marchDays_le (h.trans_le (by split_ifs <;> omega))
  generalize (5 * doy + 2) / 153 = mp at hmp hle hlt
  rcases Nat.lt_or_ge mp 11 with hmonth | hlast
  · have hlength := marchDays_succ y hmonth
    omega
  · obtain rfl : mp = 11 := by omega
    show doy - 337 + 1 ≤ if IsLeap (y + 1) then 29 else 28
    split_ifs at h ⊢ <;> omega

/-! ## The date -/

/-- The era of a count of days. -/
def eraOf (days : ℤ) : ℤ := (days + 719468) / 146097

/-- The day in the era. -/
def dayOfEra (days : ℤ) : ℕ := (days + 719468 - eraOf days * 146097).toNat

/-- The year in the era. -/
def yearOfEra (days : ℤ) : ℕ := unleaped (dayOfEra days) / 365

/-- The day in the year. -/
def dayOfYear (days : ℤ) : ℕ := dayOfEra days - eraDays (yearOfEra days)

/-- The year that starts in March. -/
def yearFromMarch (days : ℤ) : ℤ := yearOfEra days + eraOf days * 400

/-- The month, counted from March. -/
def monthFromMarch (days : ℤ) : ℕ := (5 * dayOfYear days + 2) / 153

lemma dayOfEra_eq (days : ℤ) :
    (dayOfEra days : ℤ) = days + 719468 - eraOf days * 146097 ∧ dayOfEra days < 146097 := by
  unfold dayOfEra eraOf
  omega

lemma dayOfYear_lt (days : ℤ) :
    eraDays (yearOfEra days) + dayOfYear days = dayOfEra days ∧
      dayOfYear days < if IsLeap (yearFromMarch days + 1) then 366 else 365 := by
  obtain ⟨hyear, hle, hlt⟩ := eraDays_le (dayOfEra_eq days).2
  have hnext : (eraDays (yearOfEra days + 1) : ℤ) = eraDays (yearOfEra days) +
      (if IsLeap (yearFromMarch days + 1) then 366 else 365) := eraDays_succ (eraOf days) hyear
  change eraDays (yearOfEra days) ≤ dayOfEra days at hle
  change dayOfEra days < eraDays (yearOfEra days + 1) at hlt
  unfold dayOfYear
  by_cases hleap : IsLeap (yearFromMarch days + 1)
  · rw [if_pos hleap] at hnext ⊢
    omega
  · rw [if_neg hleap] at hnext ⊢
    omega

/-- `civil_from_days`, by its parts. -/
lemma civilFromDays_eq (days : ℤ) :
    civilFromDays days = (marchYear (yearFromMarch days) (monthFromMarch days),
      marchMonth (monthFromMarch days), dayOfYear days - marchDays (monthFromMarch days) + 1) := by
  have hyoe : yearOfEra days / 400 = 0 := Nat.div_eq_of_lt (eraDays_le (dayOfEra_eq days).2).1
  have hdoy : dayOfYear days = dayOfEra days -
      (365 * yearOfEra days + yearOfEra days / 4 - yearOfEra days / 100) := by
    simp only [dayOfYear, eraDays, hyoe, Nat.add_zero]
  simp only [monthFromMarch, hdoy]
  rfl

/-- The date of a count of days. -/
def civilDate (days : ℤ) : Date where
  year := marchYear (yearFromMarch days) (monthFromMarch days)
  month := marchMonth (monthFromMarch days)
  day := dayOfYear days - marchDays (monthFromMarch days) + 1
  month_pos := by
    unfold marchMonth
    split_ifs <;> omega
  month_le := by
    obtain ⟨-, hdoy⟩ := dayOfYear_lt days
    have hmp := (marchDays_le (hdoy.trans_le (by split_ifs <;> omega))).1
    unfold marchMonth monthFromMarch
    split_ifs <;> omega
  day_pos := Nat.le_add_left 1 _
  day_le := march_valid (dayOfYear_lt days).2

lemma civilFromDays_civilDate (days : ℤ) :
    civilFromDays days = ((civilDate days).year, (civilDate days).month, (civilDate days).day) :=
  civilFromDays_eq days

/-- **The date** has the number of the day. -/
lemma civilDate_dayNumber (days : ℤ) : (civilDate days).dayNumber = days := by
  obtain ⟨hdoe, -⟩ := dayOfEra_eq days
  obtain ⟨hyoe, -, -⟩ := eraDays_le (dayOfEra_eq days).2
  obtain ⟨hstart, hdoy⟩ := dayOfYear_lt days
  obtain ⟨hmp, hle, -⟩ := marchDays_le (hdoy.trans_le (by split_ifs <;> omega))
  have hbefore := daysBefore_march (yearFromMarch days) hmp
  have hepoch : daysBeforeYear 1970 = 719527 := by decide
  have hera : daysBeforeYear (yearFromMarch days + 1) =
      365 + eraDays (yearOfEra days) + eraOf days * 146097 := by
    simp only [daysBeforeYear, yearFromMarch, eraDays, yearOfEra]
    omega
  simp only [Date.dayNumber, civilDate, monthFromMarch, hepoch]
  push_cast
  omega

/-- **Back again**: a date is the date of its number. -/
lemma civilDate_of_dayNumber (date : Date) : civilDate date.dayNumber = date :=
  Date.dayNumber_inj (civilDate_dayNumber _)

/-! ## The integers of the machine -/

/-- The result of an operation on `i64`, when it does not overflow. -/
def i64 (x : ℤ) : Option ℤ := if -9223372036854775808 ≤ x ∧ x < 9223372036854775808 then some x else none

/-- The result of an operation on `u64`, when it is not negative and does not overflow. -/
def u64 (x : ℤ) : Option ℤ := if 0 ≤ x ∧ x < 18446744073709551616 then some x else none

/-- The result of an operation on `i32`, when it does not overflow. -/
def i32 (x : ℤ) : Option ℤ := if -2147483648 ≤ x ∧ x < 2147483648 then some x else none

/-- `as u64`. -/
def asU64 (x : ℤ) : ℤ := x % 18446744073709551616

/-- `as u32`. -/
def asU32 (x : ℤ) : ℤ := x % 4294967296

/-- `as i32`. -/
def asI32 (x : ℤ) : ℤ := x.bmod (4294967296)

/-- The era and the day in it, in `civil_from_days`. -/
def eraMachine (daysSinceEpoch : ℤ) : Option (ℤ × ℤ) := do
  let z ← i64 (daysSinceEpoch + 719468)
  let era := z / 146097
  let start ← i64 (era * 146097)
  let doe ← i64 (z - start)
  pure (era, asU64 doe)

/-- The year that starts in March and the day in it, in `civil_from_days`. -/
def yearMachine (era doe : ℤ) : Option (ℤ × ℤ) := do
  let a ← u64 (doe - doe / 1460)
  let b ← u64 (a + doe / 36524)
  let c ← u64 (b - doe / 146096)
  let yoe := c / 365
  let past ← i64 (era * 400)
  let y ← i64 (yoe + past)
  let a ← u64 (365 * yoe)
  let b ← u64 (a + yoe / 4)
  let c ← u64 (b - yoe / 100)
  let doy ← u64 (doe - c)
  pure (asI32 y, doy)

/-- The year, the month and the day, in `civil_from_days`. -/
def monthMachine (y doy : ℤ) : Option (ℤ × ℤ × ℤ) := do
  let a ← u64 (5 * doy)
  let b ← u64 (a + 2)
  let mp := b / 153
  let a ← u64 (153 * mp)
  let b ← u64 (a + 2)
  let a ← u64 (doy - b / 5)
  let d ← u64 (a + 1)
  let m ← (if mp < 10 then u64 (mp + 3) else u64 (mp - 9))
  let year ← (if asU32 m ≤ 2 then i32 (y + 1) else some y)
  pure (year, asU32 m, asU32 d)

/-- `civil_from_days`, where an operation that leaves the range of its type gives nothing. -/
def civilFromDaysMachine (daysSinceEpoch : ℤ) : Option (ℤ × ℤ × ℤ) :=
  (eraMachine daysSinceEpoch).bind fun e =>
    (yearMachine e.1 e.2).bind fun y => monthMachine y.1 y.2

lemma i64_eq {x : ℤ} (h : -9223372036854775808 ≤ x ∧ x < 9223372036854775808) : i64 x = some x := if_pos h

lemma u64_eq {x : ℤ} (h : 0 ≤ x ∧ x < 18446744073709551616) : u64 x = some x := if_pos h

lemma i32_eq {x : ℤ} (h : -2147483648 ≤ x ∧ x < 2147483648) : i32 x = some x := if_pos h

lemma asU64_eq {x : ℤ} (h : 0 ≤ x ∧ x < 18446744073709551616) : asU64 x = x := Int.emod_eq_of_lt h.1 h.2

lemma asU32_eq {x : ℤ} (h : 0 ≤ x ∧ x < 4294967296) : asU32 x = x := Int.emod_eq_of_lt h.1 h.2

lemma asI32_eq {x : ℤ} (h : -2147483648 ≤ x ∧ x < 2147483648) : asI32 x = x := by
  refine Int.bmod_eq_of_le ?_ ?_ <;> omega

lemma eraMachine_eq {days : ℤ} (h : -4611686018427387904 ≤ days ∧ days < 4611686018427387904) :
    eraMachine days = some (eraOf days, ↑(dayOfEra days)) := by
  obtain ⟨hdoe, -⟩ := dayOfEra_eq days
  have hera : eraOf days = (days + 719468) / 146097 := rfl
  have hz := @i64_eq (days + 719468) (by omega)
  have hstart := @i64_eq (eraOf days * 146097) (by omega)
  have hdiff := @i64_eq (dayOfEra days) (by omega)
  have hcast := @asU64_eq (dayOfEra days) (by omega)
  simp only [eraMachine, Option.bind_eq_bind, Option.bind_some, hz, ← hera, hstart, hdiff, ← hdoe,
    hcast, Option.pure_def]

lemma cast_unleaped (doe : ℕ) :
    ((doe : ℤ) - doe / 1460 + doe / 36524 - doe / 146096) / 365 = (unleaped doe / 365 : ℕ) := by
  unfold unleaped
  omega

lemma yearMachine_eq {days : ℤ}
    (h : -2147483648 ≤ yearFromMarch days ∧ yearFromMarch days < 2147483648) :
    yearMachine (eraOf days) (dayOfEra days) = some (yearFromMarch days, ↑(dayOfYear days)) := by
  have hy : yearFromMarch days = yearOfEra days + eraOf days * 400 := rfl
  obtain ⟨-, hlt⟩ := dayOfEra_eq days
  obtain ⟨hyear, -, -⟩ := eraDays_le hlt
  change yearOfEra days < 400 at hyear
  obtain ⟨hstart, -⟩ := dayOfYear_lt days
  have hyoe : ((dayOfEra days : ℤ) - dayOfEra days / 1460 + dayOfEra days / 36524 -
      dayOfEra days / 146096) / 365 = yearOfEra days := cast_unleaped _
  have hdoy : (dayOfEra days : ℤ) - (365 * yearOfEra days + yearOfEra days / 4 -
      yearOfEra days / 100) = dayOfYear days := by
    unfold eraDays at hstart
    omega
  generalize dayOfEra days = doe at hyoe hdoy hlt
  generalize yearOfEra days = yoe at *
  generalize dayOfYear days = doy at *
  have h₁ := @u64_eq ((doe : ℤ) - doe / 1460) (by omega)
  have h₂ := @u64_eq ((doe : ℤ) - doe / 1460 + doe / 36524) (by omega)
  have h₃ := @u64_eq ((doe : ℤ) - doe / 1460 + doe / 36524 - doe / 146096) (by omega)
  have h₄ := @i64_eq (eraOf days * 400) (by omega)
  have h₅ := @i64_eq (yearFromMarch days) (by omega)
  have h₆ := @u64_eq (365 * (yoe : ℤ)) (by omega)
  have h₇ := @u64_eq (365 * (yoe : ℤ) + yoe / 4) (by omega)
  have h₈ := @u64_eq (365 * (yoe : ℤ) + yoe / 4 - yoe / 100) (by omega)
  have h₉ := @u64_eq (doy : ℤ) (by omega)
  unfold yearMachine
  rw [h₁, Option.bind_eq_bind, Option.bind_some, h₂, Option.bind_some, h₃, Option.bind_some]
  dsimp only
  rw [hyoe, h₄, Option.bind_some, ← hy, h₅, Option.bind_some, h₆, Option.bind_some, h₇,
    Option.bind_some, h₈, Option.bind_some, hdoy, h₉, Option.bind_some, asI32_eq h]
  rfl

lemma monthMachine_eq {y : ℤ} {doy : ℕ} (h : doy < 366) (hy : -2147483648 ≤ y ∧ y < 2147483647) :
    monthMachine y doy = some (marchYear y ((5 * doy + 2) / 153),
      ↑(marchMonth ((5 * doy + 2) / 153)), ↑(doy - marchDays ((5 * doy + 2) / 153) + 1)) := by
  obtain ⟨hmp, hle, -⟩ := marchDays_le h
  have hmp' : (5 * (doy : ℤ) + 2) / 153 = ((5 * doy + 2) / 153 : ℕ) := by omega
  generalize (5 * doy + 2) / 153 = mp at *
  have hmonths : (153 * (mp : ℤ) + 2) / 5 = marchDays mp := by
    unfold marchDays
    omega
  generalize marchDays mp = months at *
  have h₁ := @u64_eq (5 * (doy : ℤ)) (by omega)
  have h₂ := @u64_eq (5 * (doy : ℤ) + 2) (by omega)
  have h₃ := @u64_eq (153 * (mp : ℤ)) (by omega)
  have h₄ := @u64_eq (153 * (mp : ℤ) + 2) (by omega)
  have h₅ := @u64_eq ((doy : ℤ) - months) (by omega)
  have h₆ := @u64_eq ((doy : ℤ) - months + 1) (by omega)
  have h₇ : (if (mp : ℤ) < 10 then u64 (mp + 3) else u64 (mp - 9)) = some ↑(marchMonth mp) := by
    unfold marchMonth
    split_ifs with h₁ h₂ h₂
    · exact u64_eq (by omega)
    · omega
    · omega
    · rw [Nat.cast_sub (by omega)]
      exact u64_eq (by omega)
  have h₈ : asU32 (marchMonth mp) = marchMonth mp :=
    asU32_eq (by unfold marchMonth; split_ifs <;> omega)
  have h₉ : (if (marchMonth mp : ℤ) ≤ 2 then i32 (y + 1) else some y) = some (marchYear y mp) := by
    unfold marchYear
    split_ifs with h₁ h₂ h₂
    · exact i32_eq (by omega)
    · omega
    · omega
    · rfl
  have hday : asU32 ((doy : ℤ) - months + 1) = ((doy - months + 1 : ℕ) : ℤ) := by
    rw [asU32_eq (by omega)]
    omega
  unfold monthMachine
  rw [h₁, Option.bind_eq_bind, Option.bind_some, h₂, Option.bind_some]
  dsimp only
  rw [hmp', h₃, Option.bind_some, h₄, Option.bind_some, hmonths, h₅, Option.bind_some, h₆,
    Option.bind_some, h₇, Option.bind_some, h₈, h₉, Option.bind_some, hday]
  rfl

/-- **No operation** leaves the range of its type, for a year that fits into `i32`. -/
lemma civilFromDaysMachine_eq {days : ℤ}
    (h : -2147483648 < (civilFromDays days).1 ∧ (civilFromDays days).1 < 2147483647) :
    civilFromDaysMachine days =
      some ((civilFromDays days).1, ↑(civilFromDays days).2.1, ↑(civilFromDays days).2.2) := by
  rw [civilFromDays_eq] at h ⊢
  have hcivil : marchYear (yearFromMarch days) (monthFromMarch days) = yearFromMarch days ∨
      marchYear (yearFromMarch days) (monthFromMarch days) = yearFromMarch days + 1 := by
    unfold marchYear
    split_ifs
    · exact .inr rfl
    · exact .inl rfl
  have hy : yearFromMarch days = yearOfEra days + eraOf days * 400 := rfl
  obtain ⟨hdoe, hlt⟩ := dayOfEra_eq days
  have hyear : yearOfEra days < 400 := (eraDays_le hlt).1
  have hdoy : dayOfYear days < 366 := (dayOfYear_lt days).2.trans_le (by split_ifs <;> omega)
  have hdays : -4611686018427387904 ≤ days ∧ days < 4611686018427387904 := by omega
  rw [civilFromDaysMachine, eraMachine_eq hdays, Option.bind_some, @yearMachine_eq days (by omega),
    Option.bind_some, @monthMachine_eq (yearFromMarch days) _ hdoy (by omega)]
  rfl

/-! ## Decimal fields -/

lemma pad_succ {w : ℕ} (hw : 1 ≤ w) (n : ℕ) :
    pad (w + 1) n = pad w (n / 10) ++ [Nat.digitChar (n % 10)] := by
  unfold pad
  rcases Nat.lt_or_ge n 10 with hn | hn
  · obtain ⟨w, rfl⟩ := Nat.exists_eq_add_of_le' hw
    rw [Nat.toDigits_of_lt_base hn, Nat.div_eq_of_lt hn, Nat.mod_eq_of_lt hn, Nat.toDigits_zero]
    simp [List.replicate_succ']
  · rw [Nat.toDigits_of_base_le (by decide) hn, ← List.append_assoc]
    simp

lemma length_pad {w n : ℕ} (hw : 1 ≤ w) (hn : n < 10 ^ w) : (pad w n).length = w := by
  induction w, hw using Nat.le_induction generalizing n with
  | base =>
    rw [pad, Nat.toDigits_of_lt_base (by simpa using hn)]
    rfl
  | succ w hw ih =>
    rw [pad_succ hw, List.length_append, ih (Nat.div_lt_of_lt_mul (by rwa [← Nat.pow_succ']))]
    rfl

lemma append_lt_append {a b : List Char} (h : a < b) (hlen : a.length = b.length)
    (c d : List Char) : a ++ c < b ++ d := by
  induction h with
  | nil => simp at hlen
  | cons h ih => exact .cons (ih (Nat.succ.inj hlen))
  | rel h => exact .rel h

/-- **A field** of fixed width sorts by its number. -/
lemma pad_lt {w n m : ℕ} (hw : 1 ≤ w) (hm : m < 10 ^ w) (h : n < m) : pad w n < pad w m := by
  induction w, hw using Nat.le_induction generalizing n m with
  | base =>
    have hdigits : ∀ m < 10, ∀ n < m, Nat.digitChar n < Nat.digitChar m := by decide
    rw [pow_one] at hm
    rw [pad, pad, Nat.toDigits_of_lt_base hm, Nat.toDigits_of_lt_base (h.trans hm)]
    exact .rel (hdigits m hm n h)
  | succ w hw ih =>
    have hm' : m / 10 < 10 ^ w := Nat.div_lt_of_lt_mul (by rwa [← Nat.pow_succ'])
    rw [pad_succ hw, pad_succ hw]
    rcases (Nat.div_le_div_right (c := 10) h.le).lt_or_eq with hlt | heq
    · refine append_lt_append (ih hm' hlt) ?_ _ _
      rw [length_pad hw (hlt.trans hm'), length_pad hw hm']
    · have hdigits : ∀ m < 10, ∀ n < m, Nat.digitChar n < Nat.digitChar m := by decide
      rw [heq]
      exact List.Lex.append_left _ (.rel (hdigits _ (Nat.mod_lt m (by decide)) _ (by omega))) _

/-- Texts that start with a field sort by the field, and then by the rest. -/
lemma pad_append_lt {w n m : ℕ} {c d : List Char} (hw : 1 ≤ w) (hm : m < 10 ^ w)
    (h : n < m ∨ n = m ∧ c < d) : pad w n ++ c < pad w m ++ d := by
  rcases h with h | ⟨rfl, h⟩
  · refine append_lt_append (pad_lt hw hm h) ?_ _ _
    rw [length_pad hw (h.trans hm), length_pad hw hm]
  · exact List.Lex.append_left _ h _

/-! ## The stamp -/

/-- The year of a Unix time. -/
def yearOf (unixSecs : ℤ) : ℤ := (civilDate (unixSecs / 86400)).year

/-- The fields of a stamp. -/
def stampFields (date : Date) (secsOfDay : ℕ) : List Char :=
  pad 4 date.year.toNat ++ (pad 2 date.month ++ (pad 2 date.day ++ ('T' :: (pad 2 (secsOfDay / 3600) ++
    (pad 2 (secsOfDay / 60 % 60) ++ (pad 2 (secsOfDay % 60) ++ ['Z']))))))

lemma formatIsoZ_eq {secs : ℤ} (h : 0 ≤ yearOf secs) :
    (formatIsoZ secs).toList =
      stampFields (civilDate (secs / 86400)) (secs % 86400).toNat := by
  have hyear : padInt 4 (civilDate (secs / 86400)).year =
      pad 4 (civilDate (secs / 86400)).year.toNat := by
    obtain ⟨n, hn⟩ := Int.eq_ofNat_of_zero_le h
    unfold yearOf at hn
    rw [hn]
    rfl
  simp only [formatIsoZ, civilFromDays_civilDate, String.toList_ofList, stampFields, hyear,
    List.append_assoc, List.cons_append, List.nil_append]

lemma day_le_31 (date : Date) : date.day ≤ 31 := by
  refine date.day_le.trans ?_
  unfold monthLength
  split <;> (try split_ifs) <;> omega

/-- **The length** of a stamp. -/
lemma length_stampFields {date : Date} {secs : ℕ} (hyear : date.year ≤ 9999) (hsecs : secs < 86400) :
    (stampFields date secs).length = 16 := by
  have hmonth := date.month_le
  have hday := day_le_31 date
  simp only [stampFields, List.length_append, List.length_cons, List.length_nil]
  rw [length_pad (by decide) (by omega), length_pad (by decide) (by omega),
    length_pad (by decide) (by omega), length_pad (by decide) (by omega),
    length_pad (by decide) (by omega), length_pad (by decide) (by omega)]

/-- **Stamps** sort by the date and then by the second of the day. -/
lemma stampFields_lt {d e : Date} {s t : ℕ} (hd : 0 ≤ d.year) (he : e.year ≤ 9999) (ht : t < 86400)
    (h : d.Before e ∨ d = e ∧ s < t) : stampFields d s < stampFields e t := by
  have hmonth := e.month_le
  have hday := day_le_31 e
  rcases h with h | ⟨rfl, hst⟩
  · unfold Date.Before at h
    refine pad_append_lt (by decide) (by omega) ?_
    rcases h with hy | ⟨hy, h⟩
    · exact .inl (by omega)
    · refine .inr ⟨by rw [hy], pad_append_lt (by decide) (by omega) ?_⟩
      rcases h with hm | ⟨hm, h⟩
      · exact .inl hm
      · exact .inr ⟨hm, pad_append_lt (by decide) (by omega) (.inl h)⟩
  · refine List.Lex.append_left _ (List.Lex.append_left _ (List.Lex.append_left _ (.cons ?_) _) _) _
    refine pad_append_lt (by decide) (by omega) ?_
    rcases (Nat.div_le_div_right (c := 3600) hst.le).lt_or_eq with hh | hh
    · exact .inl hh
    · refine .inr ⟨hh, pad_append_lt (by decide) (by omega) ?_⟩
      by_cases hm : s / 60 % 60 < t / 60 % 60
      · exact .inl hm
      · exact .inr ⟨by omega, pad_append_lt (by decide) (by omega) (.inl (by omega))⟩

/-- **A later time** has a greater stamp. -/
lemma formatIsoZ_lt {s t : ℤ} (hs : 0 ≤ yearOf s) (ht : yearOf t ≤ 9999) (hst : s < t) :
    formatIsoZ s < formatIsoZ t := by
  have hlater : s / 86400 < t / 86400 ∨ s / 86400 = t / 86400 ∧ s % 86400 < t % 86400 := by
    omega
  have hdate : (civilDate (s / 86400)).Before (civilDate (t / 86400)) ∨
      civilDate (s / 86400) = civilDate (t / 86400) ∧ (s % 86400).toNat < (t % 86400).toNat := by
    rcases hlater with hlt | ⟨heq, hlt⟩
    · refine .inl (Date.dayNumber_lt_iff.mp ?_)
      rwa [civilDate_dayNumber, civilDate_dayNumber]
    · exact .inr ⟨by rw [heq], by omega⟩
  have ht' : 0 ≤ yearOf t := by
    unfold yearOf at hs ⊢
    rcases hdate with (h | ⟨h, -⟩) | ⟨h, -⟩
    · exact hs.trans h.le
    · exact h ▸ hs
    · exact h ▸ hs
  rw [String.lt_iff, formatIsoZ_eq hs, formatIsoZ_eq ht']
  exact stampFields_lt hs ht (by omega) hdate

/-- Times with one stamp are one. -/
lemma formatIsoZ_inj {s t : ℤ} (hs : 0 ≤ yearOf s ∧ yearOf s ≤ 9999)
    (ht : 0 ≤ yearOf t ∧ yearOf t ≤ 9999) (h : formatIsoZ s = formatIsoZ t) : s = t := by
  rcases lt_trichotomy s t with hlt | heq | hgt
  · exact absurd h (formatIsoZ_lt hs.1 ht.2 hlt).ne
  · exact heq
  · exact absurd h (formatIsoZ_lt ht.1 hs.2 hgt).ne'

/-- There is no dot in a field. -/
lemma dot_notMem_pad (w n : ℕ) : '.' ∉ pad w n := by
  intro hmem
  rcases List.mem_append.mp hmem with h | h
  · exact absurd (List.eq_of_mem_replicate h) (by decide)
  · exact absurd (Nat.isDigit_of_mem_toDigits (by decide) (by decide) h) (by decide)

/-- **There is no dot** in a stamp. -/
lemma dot_notMem_formatIsoZ {secs : ℤ} (h : 0 ≤ yearOf secs) : '.' ∉ (formatIsoZ secs).toList := by
  rw [formatIsoZ_eq h]
  simp [stampFields, dot_notMem_pad]

/-- **The conflict stamps are a calendar** that sorts by time. For a Unix time of a year from 0 to
9999, `civil_from_days` gives the Gregorian date with the number of its day, and gives every date
back; none of its operations leaves the range of its type; the stamp has 16 characters, and a later
time has a greater stamp. -/
theorem stamp_is_calendar :
    (∀ secs, 0 ≤ yearOf secs → yearOf secs ≤ 9999 →
      (∃ date : Date, date.dayNumber = secs / 86400 ∧
        civilFromDays (secs / 86400) = (date.year, date.month, date.day) ∧
        civilFromDaysMachine (secs / 86400) = some (date.year, ↑date.month, ↑date.day)) ∧
      (formatIsoZ secs).length = 16) ∧
      (∀ date : Date, civilFromDays date.dayNumber = (date.year, date.month, date.day)) ∧
      ∀ s t, 0 ≤ yearOf s → yearOf t ≤ 9999 → s < t → formatIsoZ s < formatIsoZ t := by
  refine ⟨fun secs hlow hhigh => ⟨⟨civilDate (secs / 86400), civilDate_dayNumber _,
    civilFromDays_civilDate _, ?_⟩, ?_⟩, fun date => ?_, fun s t hs ht hst => ?_⟩
  · have hcivil := civilFromDays_civilDate (secs / 86400)
    unfold yearOf at hlow hhigh
    rw [civilFromDaysMachine_eq (by rw [hcivil]; dsimp only; omega), hcivil]
  · rw [← String.length_toList, formatIsoZ_eq hlow]
    exact length_stampFields hhigh (by omega)
  · rw [civilFromDays_civilDate, civilDate_of_dayNumber]
  · exact formatIsoZ_lt hs ht hst

/-- The leap day of 2024, the last second before 1970, and the first one after. -/
theorem leap_day_stamp :
    ((∃ date : Date, date.dayNumber = 1709164800 / 86400 ∧
        civilFromDays (1709164800 / 86400) = (date.year, date.month, date.day) ∧
        civilFromDaysMachine (1709164800 / 86400) = some (date.year, ↑date.month, ↑date.day)) ∧
      (formatIsoZ 1709164800).length = 16) ∧
      formatIsoZ (-1) < formatIsoZ 0 :=
  ⟨stamp_is_calendar.1 1709164800 (by decide) (by decide),
    stamp_is_calendar.2.2 (-1) 0 (by decide) (by decide) (by decide)⟩

end AirDrive.Conflict
