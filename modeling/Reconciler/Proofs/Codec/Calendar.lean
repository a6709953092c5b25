/-
Days and dates: the date of a day leads back to the day.

Years are taken to start in March, as in the definitions.  The year that a day falls into is found
by taking out the leap days that came before it, so that every year has 365 days.

* `Civil.newYear`: the day of an era on which one of its years starts;
* `Civil.evened`: a day of an era without the leap days before it.

Main statements:
* `Civil.newYear_le`, `lt_newYear_succ`: a day falls into the year that is found for it;
* `Civil.exists_reckoning`: era, year, month and day of any day;
* `Civil.toDay_ofDay`: the date of a day is that of no other day;
* `Civil.isValid_ofDay`: within the days that instants cover, it is a date.

Design notes:
* Where the years of an era start is checked year by year; all days in between follow, since days
  keep their order when leap days are taken out.
-/
import Reconciler.Instant

namespace Reconciler.Civil

/-! ### Years of an era -/

/-- The day of an era on which a year of the era starts. -/
def newYear (year : Int) : Int := 365 * year + year / 4 - year / 100

/-- A day of an era, not counting the leap days before it. -/
def evened (day : Int) : Int := day - day / 1460 + day / 36524 - day / 146096

theorem evened_mono {a b : Int} (h : a ≤ b) : evened a ≤ evened b := by
  have hyears : a - a / 1460 ≤ b - b / 1460 := by omega
  have hcenturies : a / 36524 - a / 146096 ≤ b / 36524 - b / 146096 := by omega
  unfold evened
  omega

/-- Without leap days, a year starts after as many times 365 days as there are years before it. -/
theorem evened_newYear : ∀ year : Nat, year < 400 →
    365 * (year : Int) ≤ evened (newYear year) ∧
      (year ≠ 0 → evened (newYear year - 1) < 365 * (year : Int)) := by
  decide +kernel

variable {day year : Int}

theorem evened_div_range (h : 0 ≤ day) (h' : day < 146097) :
    0 ≤ evened day / 365 ∧ evened day / 365 ≤ 399 := by
  unfold evened
  omega

/-- A day is not before the year that is found for it. -/
theorem newYear_le (h : 0 ≤ day) (h' : day < 146097) : newYear (evened day / 365) ≤ day := by
  obtain ⟨hleast, hgreatest⟩ := evened_div_range h h'
  obtain ⟨year, hyear⟩ := Int.eq_ofNat_of_zero_le hleast
  obtain ⟨-, hbefore⟩ := evened_newYear year (by omega)
  rw [hyear]
  by_cases hzero : year = 0
  · rw [hzero]
    exact h
  · refine Int.not_lt.1 fun hlt => ?_
    have hmono : evened day ≤ evened (newYear year - 1) := evened_mono (by omega)
    have := hbefore hzero
    omega

/-- A day is before the year that comes next. -/
theorem lt_newYear_succ (h : 0 ≤ day) (h' : day < 146097) (hlast : evened day / 365 < 399) :
    day < newYear (evened day / 365 + 1) := by
  obtain ⟨hleast, -⟩ := evened_div_range h h'
  obtain ⟨year, hyear⟩ := Int.eq_ofNat_of_zero_le hleast
  obtain ⟨hafter, -⟩ := evened_newYear (year + 1) (by omega)
  rw [hyear]
  refine Int.not_le.1 fun hle => ?_
  have hmono : evened (newYear (year + 1)) ≤ evened day := evened_mono hle
  have hcast : ((year + 1 : Nat) : Int) = (year : Int) + 1 := Int.natCast_succ year
  rw [hcast] at hafter
  omega

/-- An era begins anew with the leap years. -/
theorem isLeapYear_add_era (year era : Int) :
    isLeapYear (year + era * 400) = isLeapYear year := by
  have hfour : (year + era * 400) % 4 = year % 4 := by omega
  have hhundred : (year + era * 400) % 100 = year % 100 := by omega
  have heras : (year + era * 400) % 400 = year % 400 := by omega
  simp only [isLeapYear, hfour, hhundred, heras]

/-- The 366th day of a year that starts in March is a leap day. -/
theorem dayOfYear_le (h : 0 ≤ day) (h' : day < 146097) :
    day - newYear (evened day / 365) ≤
      if isLeapYear (evened day / 365 + 1) then 365 else 364 := by
  obtain ⟨hleast, hgreatest⟩ := evened_div_range h h'
  have hnext := lt_newYear_succ h h'
  generalize evened day / 365 = year at *
  unfold newYear at *
  simp only [isLeapYear, Bool.and_eq_true, Bool.or_eq_true, beq_iff_eq, bne_iff_ne]
  by_cases hlast : year < 399
  · have hbefore := hnext hlast
    have hfour : (year + 1) / 4 = year / 4 + if (year + 1) % 4 = 0 then 1 else 0 := by
      split <;> omega
    have hhundred : (year + 1) / 100 = year / 100 + if (year + 1) % 100 = 0 then 1 else 0 := by
      split <;> omega
    rw [hfour, hhundred] at hbefore
    split at hbefore <;> split at hbefore <;> split <;> omega
  · -- The last year of an era ends with the leap day of the era.
    have hyear : year = 399 := by omega
    subst hyear
    rw [if_pos (by omega)]
    omega

/-! ### Months -/

/-- The month of a day, counted from March, and the day of the month. -/
theorem month_range {dayOfYear month : Int} (h : 0 ≤ dayOfYear) (h' : dayOfYear ≤ 365)
    (hmonth : month = (5 * dayOfYear + 2) / 153) :
    0 ≤ month ∧ month ≤ 11 ∧ (153 * month + 2) / 5 ≤ dayOfYear ∧
      dayOfYear < (153 * (month + 1) + 2) / 5 := by
  omega

/-- The parts of a day: the era, the year of the era, the month from March and the day. -/
theorem exists_reckoning (day : Int) : ∃ era year month date : Int,
    (0 ≤ year ∧ year ≤ 399) ∧ (0 ≤ month ∧ month ≤ 11) ∧
      day + 719468 = era * 146097 + newYear year + (153 * month + 2) / 5 + date ∧
      (0 ≤ date ∧ date < (153 * (month + 1) + 2) / 5 - (153 * month + 2) / 5 ∧
        (month = 11 → date ≤ if isLeapYear (year + 1) then 28 else 27)) ∧
      ofDay day =
        { year := year + era * 400 + if month < 10 then 0 else 1
          month := (if month < 10 then month + 3 else month - 9).toNat
          day := (date + 1).toNat } := by
  let era := (day + 719468) / 146097
  let dayOfEra := day + 719468 - era * 146097
  let year := evened dayOfEra / 365
  let dayOfYear := dayOfEra - newYear year
  let month := (5 * dayOfYear + 2) / 153
  let date := dayOfYear - (153 * month + 2) / 5
  have hera : 0 ≤ dayOfEra ∧ dayOfEra < 146097 := by omega
  have hyear : 0 ≤ year ∧ year ≤ 399 := evened_div_range hera.1 hera.2
  have hfirst : newYear year ≤ dayOfEra := newYear_le hera.1 hera.2
  have hlast : dayOfYear ≤ if isLeapYear (year + 1) then 365 else 364 :=
    dayOfYear_le hera.1 hera.2
  have hmonth : 0 ≤ month ∧ month ≤ 11 ∧ (153 * month + 2) / 5 ≤ dayOfYear ∧
      dayOfYear < (153 * (month + 1) + 2) / 5 :=
    month_range (by omega) (by split at hlast <;> omega) rfl
  have hfebruary : month = 11 → date ≤ if isLeapYear (year + 1) then 28 else 27 := by
    intro hmonth
    have hstart : (153 * month + 2) / 5 = 337 := by rw [hmonth]; rfl
    split at hlast <;> split <;> omega
  have hofDay : ofDay day =
      { year := year + era * 400 + if month < 10 then 0 else 1
        month := (if month < 10 then month + 3 else month - 9).toNat
        day := (date + 1).toNat } := by
    have hreckoned : ofDay day =
        { year := year + era * 400 +
            if (if month < 10 then month + 3 else month - 9) ≤ 2 then 1 else 0
          month := (if month < 10 then month + 3 else month - 9).toNat
          day := (date + 1).toNat } := rfl
    rw [hreckoned]
    by_cases hspring : month < 10
    · rw [if_pos hspring, if_pos hspring, if_neg (by omega)]
    · rw [if_neg hspring, if_neg hspring, if_pos (by omega)]
  exact ⟨era, year, month, date, hyear, ⟨hmonth.1, hmonth.2.1⟩, by omega,
    ⟨by omega, by omega, hfebruary⟩, hofDay⟩

/-- The date of a day leads back to the day. -/
theorem toDay_ofDay (day : Int) : (ofDay day).toDay = day := by
  obtain ⟨era, year, month, date, hyear, hmonth, hday, ⟨hdate, -, -⟩, hofDay⟩ :=
    exists_reckoning day
  have hera : (year + era * 400) / 400 = era := by omega
  rw [hofDay]
  unfold toDay
  unfold newYear at hday
  -- January and February belong to the year that started in the March before.
  by_cases hspring : month < 10
  · simp only [if_pos hspring]
    rw [if_neg (by omega), if_neg (by omega)]
    simp only [Int.add_zero, hera]
    omega
  · simp only [if_neg hspring]
    rw [if_pos (by omega), if_pos (by omega)]
    simp only [Int.add_sub_cancel, hera]
    omega

theorem firstDay_eq : firstDay = -96465292 := by decide +kernel

theorem lastDay_eq : lastDay = 95026236 := by decide +kernel

/-- The number of days of a month that is counted from March. -/
theorem le_daysIn {year month date : Int} (hmonth : 0 ≤ month ∧ month ≤ 11)
    (hdate : date < (153 * (month + 1) + 2) / 5 - (153 * month + 2) / 5)
    (hfebruary : month = 11 → date ≤ if isLeapYear (year + 1) then 28 else 27) :
    (date + 1).toNat ≤ daysIn (year + if month < 10 then 0 else 1)
      (if month < 10 then month + 3 else month - 9).toNat := by
  by_cases hlast : month = 11
  · subst hlast
    have hleap := hfebruary rfl
    show (date + 1).toNat ≤ if isLeapYear (year + 1) then 29 else 28
    split at hleap <;> split <;> omega
  · have hcases : month = 0 ∨ month = 1 ∨ month = 2 ∨ month = 3 ∨ month = 4 ∨ month = 5 ∨
        month = 6 ∨ month = 7 ∨ month = 8 ∨ month = 9 ∨ month = 10 := by omega
    rcases hcases with rfl | rfl | rfl | rfl | rfl | rfl | rfl | rfl | rfl | rfl | rfl <;>
      simp [daysIn] at hdate ⊢ <;> omega

/-- The days that instants cover have valid dates. -/
theorem isValid_ofDay (h : firstDay ≤ day) (h' : day ≤ lastDay) : (ofDay day).isValid = true := by
  rw [firstDay_eq] at h
  rw [lastDay_eq] at h'
  obtain ⟨era, year, month, date, hyear, hmonth, hday, ⟨hzero, hdate, hfebruary⟩, hofDay⟩ :=
    exists_reckoning day
  unfold newYear at hday
  have hdays : (date + 1).toNat ≤ daysIn (year + era * 400 + if month < 10 then 0 else 1)
      (if month < 10 then month + 3 else month - 9).toNat := by
    refine le_daysIn hmonth hdate ?_
    have hleap : isLeapYear (year + era * 400 + 1) = isLeapYear (year + 1) := by
      rw [← isLeapYear_add_era (year + 1) era]
      congr 1
      omega
    rw [hleap]
    exact hfebruary
  -- The first and the last era are not covered as a whole.
  have heras : -656 ≤ era ∧ era ≤ 655 := by omega
  have hfirst : era = -656 → 256 ≤ year ∧ (year = 256 → 10 ≤ month) := by
    rintro rfl
    exact ⟨by omega, fun hyear => by subst hyear; omega⟩
  have hlast : era = 655 → year ≤ 142 ∧ (year = 142 → month < 10) := by
    rintro rfl
    exact ⟨by omega, fun hyear => by subst hyear; omega⟩
  rw [hofDay]
  simp only [isValid, Bool.and_eq_true, decide_eq_true_eq]
  refine ⟨⟨⟨⟨⟨?_, ?_⟩, ?_⟩, ?_⟩, ?_⟩, hdays⟩
  · split <;> omega
  · split <;> omega
  · split <;> omega
  · split <;> omega
  · omega

/-- Months and days of dates have two digits. -/
theorem range_of_isValid {c : Civil} (h : c.isValid = true) :
    1 ≤ c.month ∧ c.month ≤ 12 ∧ 1 ≤ c.day ∧ c.day ≤ 31 := by
  simp only [isValid, Bool.and_eq_true, decide_eq_true_eq] at h
  obtain ⟨⟨⟨⟨-, hmonth⟩, hmonth'⟩, hday⟩, hday'⟩ := h
  have hlong : daysIn c.year c.month ≤ 31 := by
    unfold daysIn
    split
    · split <;> omega
    · split <;> omega
  exact ⟨hmonth, hmonth', hday, Nat.le_trans hday' hlong⟩

end Reconciler.Civil
