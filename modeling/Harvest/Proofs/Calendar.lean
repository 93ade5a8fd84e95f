import Harvest.Calendar
import Mathlib.Tactic.IntervalCases
import Mathlib.Tactic.SplitIfs

/-!
# Numbers and dates

Every day number belongs to a real date, whose number it is (`Date.isReal_ofDayNumber`,
`Date.dayNumber_ofDayNumber`), and to no other one (`Date.ofDayNumber_dayNumber`).  Later dates have
larger numbers (`Date.dayNumber_lt`).

Both go through the year that starts in March: `Date.ofMarch` makes a date from such a year and a
day in it, and `Date.exists_march` says which pairs the numbering peels off.
-/

namespace Harvest.Date

/-- The date of a day, counted from zero, in a year that starts in March. -/
def ofMarch (year days : Int) : Date :=
  let month := (5 * days + 2) / 153
  { year := if month < 10 then year else year + 1
    month := (if month < 10 then month + 3 else month - 9).toNat
    day := (days - (153 * month + 2) / 5 + 1).toNat }

/-- Days from the start of the numbering to the start of a year that starts in March. -/
def marchStart (year : Int) : Int := 365 * year + year / 4 - year / 100 + year / 400

/-- A year that starts in March is long if its last day is a leap day. -/
def IsMarchDay (year days : Int) : Prop :=
  0 ≤ days ∧ days ≤ 365 ∧ (days = 365 → isLeapYear (year + 1) = true)

/-- The numbering peels a day number off to a year that starts in March and a day in it. -/
theorem exists_march (n : Int) : ∃ year days,
    ofDayNumber n = ofMarch year days ∧ IsMarchDay year days ∧
      n + epoch = marchStart year + days := by
  -- 400 years have 146097 days, a century has 36524 and four years have 1461; the last century of
  -- 400 years and the last year of four may be a day longer, hence the bounds by three
  let era := (n + epoch) / 146097
  let inEra := (n + epoch) % 146097
  let century := min (inEra / 36524) 3
  let inCentury := inEra - 36524 * century
  let olympiad := inCentury / 1461
  let inOlympiad := inCentury % 1461
  let year := min (inOlympiad / 365) 3
  have hera : n + epoch = 146097 * era + inEra ∧ 0 ≤ inEra ∧ inEra < 146097 := by omega
  have hcentury : 0 ≤ century ∧ century ≤ 3 ∧ 0 ≤ inCentury ∧
      (inCentury < 36524 ∨ inCentury = 36524 ∧ century = 3) := by omega
  have holympiad : inCentury = 1461 * olympiad + inOlympiad ∧ 0 ≤ olympiad ∧ olympiad ≤ 24 ∧
      0 ≤ inOlympiad ∧ inOlympiad < 1461 := by omega
  have hyear : 0 ≤ year ∧ year ≤ 3 ∧ 0 ≤ inOlympiad - 365 * year ∧
      (inOlympiad - 365 * year < 365 ∨ inOlympiad = 1460 ∧ year = 3) := by omega
  refine ⟨400 * era + 100 * century + 4 * olympiad + year, inOlympiad - 365 * year, rfl,
    ⟨hyear.2.2.1, by omega, fun hlong => ?_⟩, ?_⟩
  · simp only [isLeapYear, Bool.and_eq_true, Bool.or_eq_true, decide_eq_true_eq]
    omega
  · have h4 : (400 * era + 100 * century + 4 * olympiad + year) / 4 =
        100 * era + 25 * century + olympiad := by omega
    have h100 : (400 * era + 100 * century + 4 * olympiad + year) / 100 =
        4 * era + century := by omega
    have h400 : (400 * era + 100 * century + 4 * olympiad + year) / 400 = era := by omega
    simp only [marchStart, h4, h100, h400]
    omega

variable {year days : Int}

theorem dayNumber_ofMarch (h : IsMarchDay year days) :
    (ofMarch year days).dayNumber = marchStart year + days - epoch := by
  obtain ⟨h0, h1, -⟩ := h
  simp only [dayNumber, ofMarch, marchStart]
  split_ifs <;> omega

theorem isReal_ofMarch (h : IsMarchDay year days) : (ofMarch year days).isReal = true := by
  obtain ⟨h0, h1, hleap⟩ := h
  simp only [isReal, Bool.and_eq_true, decide_eq_true_eq]
  simp only [daysInMonth, ofMarch]
  refine ⟨⟨⟨?_, ?_⟩, ?_⟩, ?_⟩
  · split_ifs <;> omega
  · split_ifs <;> omega
  · omega
  · by_cases hm : (5 * days + 2) / 153 < 10
    · simp only [hm, if_true]
      split_ifs <;> omega
    · -- January and February, of which February may be too short
      simp only [hm, if_false]
      split_ifs with hfeb hyear
      · omega
      · have : days ≠ 365 := fun hd => hyear (hleap hd)
        omega
      · omega
      · omega

theorem year_ofDayNumber {n : Int} (hmin : -96465292 ≤ n) (hmax : n ≤ 95026236) :
    minYear ≤ (ofDayNumber n).year ∧ (ofDayNumber n).year ≤ maxYear := by
  obtain ⟨year, days, he, ⟨h0, h1, -⟩, hn⟩ := exists_march n
  rw [he]
  simp only [ofMarch, marchStart, epoch, minYear, maxYear] at *
  have hlow : year = -262144 ∨ -262143 ≤ year := by omega
  have hhigh : year = 262142 ∨ year ≤ 262141 := by omega
  -- the first and the last year that are kept start in January
  obtain rfl | hlow := hlow
  · split_ifs <;> omega
  · obtain rfl | hhigh := hhigh <;> split_ifs <;> omega

theorem isReal_ofDayNumber (n : Int) : (ofDayNumber n).isReal = true := by
  obtain ⟨year, days, he, h, -⟩ := exists_march n
  rw [he]
  exact isReal_ofMarch h

theorem month_day_lt {d : Date} (h : d.isReal = true) : d.month < 100 ∧ d.day < 100 := by
  have hmost : daysInMonth d.year d.month ≤ 31 := by
    unfold daysInMonth
    split_ifs <;> omega
  simp only [isReal, Bool.and_eq_true, decide_eq_true_eq] at h
  omega

theorem dayNumber_ofDayNumber (n : Int) : (ofDayNumber n).dayNumber = n := by
  obtain ⟨year, days, he, h, hn⟩ := exists_march n
  rw [he, dayNumber_ofMarch h]
  omega

/-! ### Dates by their numbers -/

theorem marchStart_mono {year' : Int} (h : year ≤ year') : marchStart year ≤ marchStart year' := by
  simp only [marchStart]
  omega

theorem lt_marchStart (h : IsMarchDay year days) :
    marchStart year + days < marchStart (year + 1) := by
  obtain ⟨h0, h1, hleap⟩ := h
  simp only [isLeapYear, Bool.and_eq_true, Bool.or_eq_true, decide_eq_true_eq] at hleap
  simp only [marchStart]
  omega

theorem march_unique {year' days' : Int} (h : IsMarchDay year days) (h' : IsMarchDay year' days')
    (heq : marchStart year + days = marchStart year' + days') : year = year' ∧ days = days' := by
  have hlt := lt_marchStart h
  have hlt' := lt_marchStart h'
  have hpos := h.1
  have hpos' := h'.1
  obtain hyear | rfl | hyear := lt_trichotomy year year'
  · have := marchStart_mono (show year + 1 ≤ year' by omega)
    omega
  · exact ⟨rfl, by omega⟩
  · have := marchStart_mono (show year' + 1 ≤ year by omega)
    omega

/-- Months from March on have as many days as the numbering gives them. -/
theorem day_lt_of_isReal {d : Date} (h : d.isReal = true) {month : Int}
    (hmonth : month = if d.month ≤ 2 then (d.month : Int) + 9 else d.month - 3) :
    0 ≤ month ∧ month ≤ 11 ∧ 1 ≤ d.day ∧
      (d.day : Int) ≤ (153 * (month + 1) + 2) / 5 - (153 * month + 2) / 5 ∧
      (month = 11 → d.day ≤ 28 ∨ d.day = 29 ∧ isLeapYear d.year = true) := by
  obtain ⟨year, m, day⟩ := d
  simp only [isReal, Bool.and_eq_true, decide_eq_true_eq, daysInMonth] at h hmonth ⊢
  obtain ⟨⟨⟨hlow, hhigh⟩, hday⟩, hlast⟩ := h
  interval_cases m <;> split_ifs at hlast hmonth <;> grind

theorem exists_ofMarch {d : Date} (h : d.isReal = true) : ∃ year days, d = ofMarch year days ∧
    IsMarchDay year days ∧ d.dayNumber = marchStart year + days - epoch := by
  obtain ⟨year, m, day⟩ := d
  have hm : 1 ≤ m ∧ m ≤ 12 := by
    simp only [isReal, Bool.and_eq_true, decide_eq_true_eq] at h
    exact h.1.1
  obtain ⟨month, hmonth⟩ : ∃ month : Int, month = if m ≤ 2 then (m : Int) + 9 else m - 3 :=
    ⟨_, rfl⟩
  obtain ⟨hlow, hhigh, hday, hlast, hleap⟩ := day_lt_of_isReal h hmonth
  simp only at hday hlast hleap
  have hback : (5 * ((153 * month + 2) / 5 + (day - 1)) + 2) / 153 = month := by omega
  refine ⟨if m ≤ 2 then year - 1 else year, (153 * month + 2) / 5 + (day - 1), ?_,
    ⟨by omega, by omega, fun hlong => ?_⟩, ?_⟩
  · simp only [ofMarch, hback, mk.injEq]
    split_ifs at hmonth ⊢ <;> omega
  · -- the last day of a long year is the last of February
    have hfebruary : m ≤ 2 := by
      by_contra hm2
      rw [if_neg hm2] at hmonth
      omega
    rw [if_pos hfebruary, Int.sub_add_cancel]
    exact ((hleap (by omega)).resolve_left (by omega)).2
  · simp only [dayNumber, marchStart]
    split_ifs at hmonth ⊢ <;> omega

/-- **A real date is the date of its number.** -/
theorem ofDayNumber_dayNumber {d : Date} (h : d.isReal = true) : ofDayNumber d.dayNumber = d := by
  obtain ⟨year, days, hd, hday, hnumber⟩ := exists_ofMarch h
  obtain ⟨year', days', hd', hday', hnumber'⟩ := exists_march d.dayNumber
  obtain ⟨rfl, rfl⟩ := march_unique hday hday' (by omega)
  rw [hd', ← hd]

/-- **Later dates have larger numbers**: years decide, then months, then days. -/
theorem dayNumber_lt {d e : Date} (hd : d.isReal = true) (he : e.isReal = true)
    (h : d.year < e.year ∨ d.year = e.year ∧
      (d.month < e.month ∨ d.month = e.month ∧ d.day < e.day)) : d.dayNumber < e.dayNumber := by
  obtain ⟨year, days, rfl, hmarch, hnumber⟩ := exists_ofMarch hd
  obtain ⟨year', days', rfl, hmarch', hnumber'⟩ := exists_ofMarch he
  have hkey : year < year' ∨ year = year' ∧ days < days' := by
    obtain ⟨h0, h1, -⟩ := hmarch
    obtain ⟨h0', h1', -⟩ := hmarch'
    simp only [ofMarch] at h
    split_ifs at h <;> omega
  rw [hnumber, hnumber']
  obtain hyear | ⟨rfl, hdays⟩ := hkey
  · have hlt := lt_marchStart hmarch
    have hnext := marchStart_mono (show year + 1 ≤ year' by omega)
    have hpos := hmarch'.1
    omega
  · omega

theorem bounds_of_year {n : Int} (hlow : 0 ≤ (ofDayNumber n).year)
    (hhigh : (ofDayNumber n).year ≤ 9999) : -719528 ≤ n ∧ n ≤ 2932896 := by
  obtain ⟨year, days, he, ⟨h0, h1, -⟩, hn⟩ := exists_march n
  rw [he] at hlow hhigh
  simp only [ofMarch, marchStart, epoch] at *
  split_ifs at hlow hhigh with hmonth <;> omega

end Harvest.Date
