import Chpok.Library.Calendar
import Mathlib.Tactic.IntervalCases

/-! Dates and times (`libpok/libc/time`). A quotient and a remainder have the sign that they have
in C. -/

namespace Chpok

/-- `struct tm` -/
structure Tm where
  sec : Int
  min : Int
  hour : Int
  mday : Int
  mon : Int
  year : Int
  wday : Int
  yday : Int
  isdst : Int
  deriving DecidableEq, Repr

/-- `tm0_year` -/
def tm0Year : Int := 1900

/-- `t0_year` -/
def t0Year : Int := 1970

/-- `SECS_DAY` -/
def secsDay : Int := 60 * 60 * 24

/-- `leap_year` -/
def leapYear (year : Int) : Bool :=
  if year.tmod 4 ≠ 0 then false
  else if year.tmod 100 ≠ 0 then true
  else if year.tmod 400 ≠ 0 then false
  else true

/-- `days_in_year` -/
def daysInYear (year : Int) : Int := if leapYear year then 366 else 365

/-- `days_in_month` -/
def daysInMonth : Bool → List Int
  | false => [31, 28, 31, 30, 31, 30, 31, 31, 30, 31, 30, 31]
  | true => [31, 29, 31, 30, 31, 30, 31, 31, 30, 31, 30, 31]

theorem leapYear_iff (year : Int) : leapYear year = true ↔ Calendar.Leap year := by
  have hzero (m : Int) : year.tmod m = 0 ↔ m ∣ year := (Int.dvd_iff_tmod_eq_zero ..).symm
  simp only [leapYear, ne_eq, hzero, Calendar.Leap]
  split_ifs <;> simp only [false_iff, true_iff] <;> omega

theorem daysInYear_eq (year : Int) : daysInYear year = Calendar.yearLength year := by
  simp only [daysInYear, leapYear_iff, Calendar.yearLength]

/-- The first days of the months -/
def monthStart (leap : Bool) (mon : Nat) : Int := ((daysInMonth leap).take mon).sum

/-- The number of the day, in days since the first of January of the year 1 -/
def Tm.dayNumber (tm : Tm) : Int := Calendar.jan1 (tm.year + tm0Year) + tm.yday

/-- The fields that tell the date agree. -/
structure Tm.DateValid (tm : Tm) : Prop where
  ydayNonneg : 0 ≤ tm.yday
  ydayLt : tm.yday < daysInYear (tm.year + tm0Year)
  wday : tm.wday = Calendar.weekday tm.dayNumber
  month : 0 ≤ tm.mon ∧ tm.mon < 12
  mday : 1 ≤ tm.mday ∧
    tm.mday ≤ (daysInMonth (leapYear (tm.year + tm0Year))).getD tm.mon.toNat 0
  yday : tm.yday = monthStart (leapYear (tm.year + tm0Year)) tm.mon.toNat + tm.mday - 1

theorem Tm.DateValid.december {tm : Tm} (h : tm.DateValid) (hlate : 362 ≤ tm.yday) :
    31 - tm.mday = daysInYear (tm.year + tm0Year) - 1 - tm.yday := by
  obtain ⟨hlow, hhigh⟩ := h.mday
  have hyday := h.yday
  have hmon : tm.mon.toNat < 12 := by
    have hmonth := h.month
    omega
  rw [daysInYear]
  generalize leapYear (tm.year + tm0Year) = leap at *
  generalize tm.mon.toNat = mon at *
  cases leap <;> interval_cases mon <;>
    simp only [monthStart, daysInMonth, List.take_succ_cons, List.take_zero, List.sum_cons,
      List.sum_nil, List.getD_cons_zero, List.getD_cons_succ, if_true] at hhigh hyday ⊢ <;>
    simp <;> omega

end Chpok
