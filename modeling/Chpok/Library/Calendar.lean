import Mathlib.Algebra.Order.Ring.Int
import Mathlib.Data.Int.ConditionallyCompleteOrder
import Mathlib.Order.Monotone.Basic
import Mathlib.Order.SuccPred.Basic

/-! The proleptic Gregorian calendar. Days are numbered from the first of January of the year 1,
a Monday. -/

namespace Calendar

variable {year year' n week week' : Int}

def Leap (year : Int) : Prop := 4 ∣ year ∧ (¬ 100 ∣ year ∨ 400 ∣ year)

instance : DecidablePred Leap := fun year =>
  inferInstanceAs (Decidable (4 ∣ year ∧ (¬ 100 ∣ year ∨ 400 ∣ year)))

def yearLength (year : Int) : Int := if Leap year then 366 else 365

/-- The number of the first of January -/
def jan1 (year : Int) : Int :=
  365 * (year - 1) + (year - 1) / 4 - (year - 1) / 100 + (year - 1) / 400

theorem jan1_succ (year : Int) : jan1 (year + 1) = jan1 year + yearLength year := by
  unfold jan1 yearLength Leap
  split_ifs <;> omega

theorem yearLength_pos (year : Int) : 365 ≤ yearLength year ∧ yearLength year ≤ 366 := by
  unfold yearLength
  split_ifs <;> omega

theorem jan1_strictMono : StrictMono jan1 := by
  apply strictMono_int_of_lt_succ
  intro year
  have hlen := yearLength_pos year
  rw [jan1_succ]
  omega

/-- The day of the week, from Sunday on -/
def weekday (n : Int) : Int := (n + 1) % 7

section Iso

/-- The Monday of a day's week -/
def monday (n : Int) : Int := n - n % 7

/-- The Monday of the first week, the one of January 4th -/
def isoStart (year : Int) : Int := monday (jan1 year + 3)

/-- The day lies in that week of the year, when years are made up of weeks. -/
structure IsIsoWeek (n year week : Int) : Prop where
  start : isoStart year ≤ n
  stop : n < isoStart (year + 1)
  week : week = (n - isoStart year) / 7 + 1

theorem isoStart_lt_succ (year : Int) : isoStart year < isoStart (year + 1) := by
  have hlen := yearLength_pos year
  unfold isoStart monday
  rw [jan1_succ]
  omega

theorem isoStart_strictMono : StrictMono isoStart := strictMono_int_of_lt_succ isoStart_lt_succ

/-- A day lies in one week of one year. -/
theorem IsIsoWeek.unique (h : IsIsoWeek n year week) (h' : IsIsoWeek n year' week') :
    year = year' ∧ week = week' := by
  have hyear : year = year' := by
    have hle : year < year' + 1 :=
      isoStart_strictMono.lt_iff_lt.mp (h.start.trans_lt h'.stop)
    have hge : year' < year + 1 :=
      isoStart_strictMono.lt_iff_lt.mp (h'.start.trans_lt h.stop)
    omega
  subst hyear
  exact ⟨rfl, h.week.trans h'.week.symm⟩

/-- A week begins on Monday, and on no other day. -/
theorem IsIsoWeek.next_eq_iff (h : IsIsoWeek n year week) (h' : IsIsoWeek (n + 1) year' week') :
    year' = year ∧ week' = week ↔ weekday (n + 1) ≠ 1 := by
  have hstart (year : Int) : isoStart year % 7 = 0 := by
    unfold isoStart monday
    omega
  have hs := hstart year
  have hs' := hstart (year + 1)
  unfold weekday
  constructor
  · rintro ⟨rfl, rfl⟩
    have hweek := h.week.symm.trans h'.week
    omega
  · intro hmonday
    have hin : IsIsoWeek (n + 1) year week := by
      refine ⟨h.start.trans (by omega), ?_, ?_⟩
      · have hstop := h.stop
        omega
      · rw [h.week]
        have hbegin := h.start
        omega
    obtain ⟨hyear, hweek⟩ := h'.unique hin
    exact ⟨hyear, hweek⟩

end Iso

end Calendar
