import Conformance.Time.Instant
import Mathlib.Tactic.SplitIfs

/-!
The calendar date of a day is a date of the Gregorian calendar, and names that day. Days and years
are counted from March within a cycle of 400 years, as in `Date.ofDays`.
-/
namespace Conformance.Time

/-- The year of a day of the cycle. -/
def yearOfCycle (d : Int) : Int := (d - d / 1460 + d / 36524 - d / 146096) / 365

/-- How many days of the cycle come before its year `y`. -/
def daysBefore (y : Int) : Int := 365 * y + y / 4 - y / 100

theorem century_yearOfCycle {d : Int} (h0 : 0 ≤ d) (h1 : d < 146096) :
    yearOfCycle d / 100 = d / 36524 := by
  unfold yearOfCycle
  omega

theorem leaps_yearOfCycle {d : Int} (h0 : 0 ≤ d) (h1 : d < 146096) :
    yearOfCycle d / 4 ≤ d / 1460 ∧ d / 1460 ≤ yearOfCycle d / 4 + 1 := by
  unfold yearOfCycle
  omega

/-- The year of the cycle is the one in which the day lies, of at most 366 days. -/
theorem dayOfYear_bounds {d : Int} (h0 : 0 ≤ d) (h1 : d < 146097) :
    0 ≤ yearOfCycle d ∧ yearOfCycle d ≤ 399 ∧
      daysBefore (yearOfCycle d) ≤ d ∧ d ≤ daysBefore (yearOfCycle d) + 365 := by
  by_cases hlast : d = 146096
  · subst hlast
    decide
  · have hcentury := century_yearOfCycle h0 (by omega)
    have hleaps := leaps_yearOfCycle h0 (by omega)
    unfold daysBefore
    unfold yearOfCycle at *
    omega

/-- Only a year that ends with the February of a leap year has a day 365. -/
theorem isLeapYear_of_dayOfYear {d : Int} (h0 : 0 ≤ d) (h1 : d < 146097)
    (h : d = daysBefore (yearOfCycle d) + 365) (cycle : Int) :
    isLeapYear (yearOfCycle d + cycle * 400 + 1) := by
  have hleap : (yearOfCycle d + 1) % 4 = 0 ∧
      ((yearOfCycle d + 1) % 100 ≠ 0 ∨ (yearOfCycle d + 1) % 400 = 0) := by
    by_cases hlast : d = 146096
    · subst hlast
      decide
    · have hcentury := century_yearOfCycle h0 (by omega)
      have hleaps := leaps_yearOfCycle h0 (by omega)
      have hrest : d - d / 1460 + d / 36524 - d / 146096 ≤ 365 * yearOfCycle d + 364 := by
        unfold yearOfCycle
        omega
      unfold daysBefore at h
      have hpassed : d / 1460 = yearOfCycle d / 4 + 1 := by omega
      have hfourth : yearOfCycle d % 4 = 3 := by omega
      omega
  simp only [isLeapYear, Bool.and_eq_true, Bool.or_eq_true, beq_iff_eq, bne_iff_ne]
  omega

/-! Months of a year that begins with March -/

def monthOfYear (day : Nat) : Nat := (5 * day + 2) / 153

def dayOfMonth (day : Nat) : Nat := day - (153 * monthOfYear day + 2) / 5 + 1

theorem dayOfMonth_bounds {day : Nat} (h : day < 366) :
    monthOfYear day < 12 ∧ 1 ≤ dayOfMonth day ∧
      (153 * monthOfYear day + 2) / 5 + dayOfMonth day = day + 1 := by
  unfold dayOfMonth monthOfYear
  omega

/-- From March to December. -/
theorem dayOfMonth_le_of_month_lt (day : Nat) (year : Int) :
    dayOfMonth day ≤ daysInMonth year (monthOfYear day + 3) := by
  unfold daysInMonth dayOfMonth monthOfYear
  split_ifs <;> omega

/-- January, and February with its leap day. -/
theorem dayOfMonth_le_of_le_month {day : Nat} (hday : day < 366) (h : 10 ≤ monthOfYear day)
    {year : Int} (hleap : day = 365 → isLeapYear year) :
    dayOfMonth day ≤ daysInMonth year (monthOfYear day - 9) := by
  have hshort : isLeapYear year = false → day ≠ 365 := by grind
  unfold daysInMonth
  unfold dayOfMonth monthOfYear at *
  split_ifs with _ hyear
  · omega
  · have := hshort (by simpa using hyear)
    omega
  · omega
  · omega

/-! Days and their dates -/

/-- The date of a day, by the cycle, the year of the cycle and the day of the year. -/
theorem exists_ofDays (n : Int) :
    ∃ cycle d : Int, ∃ day : Nat, n + 719468 = cycle * 146097 + d ∧ 0 ≤ d ∧ d < 146097 ∧
      d = daysBefore (yearOfCycle d) + day ∧
      Date.ofDays n =
        if monthOfYear day < 10 then
          ⟨yearOfCycle d + cycle * 400, monthOfYear day + 3, dayOfMonth day⟩
        else ⟨yearOfCycle d + cycle * 400 + 1, monthOfYear day - 9, dayOfMonth day⟩ := by
  obtain ⟨d, hd⟩ : ∃ d, d = n + 719468 - (n + 719468) / 146097 * 146097 := ⟨_, rfl⟩
  have h0 : 0 ≤ d := by omega
  have h1 : d < 146097 := by omega
  have hbefore := (dayOfYear_bounds h0 h1).2.2.1
  refine ⟨(n + 719468) / 146097, d, (d - daysBefore (yearOfCycle d)).toNat, ?_, h0, h1, ?_, ?_⟩
  · omega
  · omega
  · rw [hd]
    rfl

theorem valid_ofDays (n : Int) : (Date.ofDays n).Valid := by
  obtain ⟨cycle, d, day, -, h0, h1, hday, hdate⟩ := exists_ofDays n
  have hlong := (dayOfYear_bounds h0 h1).2.2.2
  have hlt : day < 366 := by omega
  obtain ⟨hmonth, hfirst, -⟩ := dayOfMonth_bounds hlt
  rw [hdate]
  split_ifs with hearly
  · exact ⟨by simp, by simp; omega, hfirst, dayOfMonth_le_of_month_lt day _⟩
  · have hlate : 10 ≤ monthOfYear day := by omega
    refine ⟨by simp; omega, by simp; omega, hfirst, dayOfMonth_le_of_le_month hlt hlate ?_⟩
    rintro rfl
    exact isLeapYear_of_dayOfYear h0 h1 hday cycle

/-- The date of a day names that day. -/
theorem toDays_ofDays (n : Int) : (Date.ofDays n).toDays = n := by
  obtain ⟨cycle, d, day, hn, h0, h1, hday, hdate⟩ := exists_ofDays n
  obtain ⟨hy0, hy1, -, hlong⟩ := dayOfYear_bounds h0 h1
  obtain ⟨hmonth, hfirst, hsum⟩ := @dayOfMonth_bounds day (by omega)
  have hcycle : (yearOfCycle d + cycle * 400) / 400 = cycle := by omega
  have hmonths : (153 * (monthOfYear day : Int) + 2) / 5 + dayOfMonth day = day + 1 := by
    exact_mod_cast hsum
  rw [hdate]
  split_ifs with hearly
  · have hback : (monthOfYear day + 3 + 9) % 12 = monthOfYear day := by omega
    simp only [Date.toDays, hback, if_neg (show ¬monthOfYear day + 3 ≤ 2 by omega), hcycle,
      Int.add_sub_cancel]
    rw [daysBefore] at hday
    omega
  · have hback : (monthOfYear day - 9 + 9) % 12 = monthOfYear day := by omega
    simp only [Date.toDays, hback, if_pos (show monthOfYear day - 9 ≤ 2 by omega), hcycle,
      Int.add_sub_cancel]
    rw [daysBefore] at hday
    omega

end Conformance.Time
