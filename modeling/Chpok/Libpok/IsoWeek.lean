import Chpok.Libpok.Time

/-! Weeks that begin on a Monday and belong to one year (`libpok/libc/time/strftime.c`). The
number of a week of the calendar year itself is one too large. -/

namespace Chpok

open Calendar

namespace Tm

/-- The day in the year of the first Monday -/
def mondayFirst (tm : Tm) : Int := (tm.yday + 1 + 7 - tm.wday).tmod 7

/-- The day of the week of December 31st, for the last days of the year -/
def wdayDec31 (tm : Tm) : Int := tm.wday + (31 - tm.mday)

/-- December 29th, 30th or 31st is a Monday, and the date comes not before it. -/
def InNextYear (tm : Tm) : Prop :=
  (tm.wdayDec31 = 1 ∨ tm.wdayDec31 = 2 ∨ tm.wdayDec31 = 3) ∧ tm.mday + tm.wdayDec31 ≥ 32

instance (tm : Tm) : Decidable tm.InNextYear := inferInstanceAs (Decidable (_ ∧ _))

/-- `weak_based_year` -/
def weakBasedYear (tm : Tm) : Int :=
  if tm.yday < 3 then
    if (tm.mondayFirst = 1 ∨ tm.mondayFirst = 2 ∨ tm.mondayFirst = 3) ∧
        tm.yday < tm.mondayFirst then tm.year - 1
    else tm.year
  else if tm.yday ≥ 362 then
    if tm.InNextYear then tm.year + 1 else tm.year
  else tm.year

/-- The first `switch` of `weak_based_week`: a result, or the Monday when the first week starts.
The third of January falls through. -/
def weekFirst (tm : Tm) : Except Int Int :=
  if tm.mondayFirst = 0 then .ok tm.mondayFirst
  else if tm.mondayFirst = 1 then
    if tm.yday < tm.mondayFirst then .error 51 else .ok tm.mondayFirst
  else if tm.mondayFirst = 2 ∧ tm.yday < tm.mondayFirst then
    .error (if leapYear (tm.year + tm0Year - 1) then 52 else 51)
  else if tm.mondayFirst = 2 ∨ tm.mondayFirst = 3 then
    if tm.yday < tm.mondayFirst then .error 52 else .ok tm.mondayFirst
  else .ok (tm.mondayFirst - 7)

/-- `weak_based_week` -/
def weakBasedWeek (tm : Tm) : Int :=
  match tm.weekFirst with
  | .error week => week
  | .ok weekFirst =>
    if tm.yday ≥ 362 ∧ tm.InNextYear then 0 else (tm.yday - weekFirst).tdiv 7 + 1

variable {tm : Tm}

theorem DateValid.iso_facts (h : tm.DateValid) :
    tm.mondayFirst = (tm.yday + 8 - tm.wday) % 7 ∧ 0 ≤ tm.wday ∧ tm.wday < 7 ∧
      (tm.wday - 1 - tm.dayNumber) % 7 = 0 := by
  have hwday := h.wday
  have hyday := h.ydayNonneg
  unfold weekday at hwday
  have hnonneg : 0 ≤ tm.yday + 1 + 7 - tm.wday := by omega
  refine ⟨?_, by omega, by omega, by omega⟩
  rw [mondayFirst, Int.tmod_eq_emod_of_nonneg hnonneg]
  congr 1
  omega

theorem DateValid.isoStart_eq (h : tm.DateValid) : isoStart (tm.year + tm0Year) =
    jan1 (tm.year + tm0Year) + (if tm.mondayFirst ≤ 3 then tm.mondayFirst else tm.mondayFirst - 7) := by
  obtain ⟨hfirst, hlow, hhigh, hmod⟩ := h.iso_facts
  unfold dayNumber at hmod
  unfold isoStart monday
  split_ifs <;> omega

theorem DateValid.inNextYear_iff (h : tm.DateValid) (hlate : 362 ≤ tm.yday) :
    tm.InNextYear ↔ isoStart (tm.year + tm0Year + 1) ≤ tm.dayNumber := by
  obtain ⟨hfirst, hlow, hhigh, hmod⟩ := h.iso_facts
  have hdec := h.december hlate
  have hlt := h.ydayLt
  rw [daysInYear_eq] at hdec hlt
  unfold InNextYear wdayDec31 isoStart monday
  rw [jan1_succ]
  unfold dayNumber at hmod ⊢
  omega

theorem late_of_next (hnext : isoStart (tm.year + tm0Year + 1) ≤ tm.dayNumber) : 362 ≤ tm.yday := by
  have hlen := yearLength_pos (tm.year + tm0Year)
  unfold isoStart monday at hnext
  rw [jan1_succ] at hnext
  unfold dayNumber at hnext
  omega

theorem DateValid.inNextYear_iff' (h : tm.DateValid) : tm.yday ≥ 362 ∧ tm.InNextYear ↔
    isoStart (tm.year + tm0Year + 1) ≤ tm.dayNumber := by
  constructor
  · rintro ⟨hlate, hin⟩
    exact (h.inNextYear_iff hlate).mp hin
  · intro hnext
    have hlate := late_of_next hnext
    exact ⟨hlate, (h.inNextYear_iff hlate).mpr hnext⟩

theorem DateValid.before_iff (h : tm.DateValid) : tm.dayNumber < isoStart (tm.year + tm0Year) ↔
    tm.mondayFirst ≤ 3 ∧ tm.yday < tm.mondayFirst := by
  have hstart := h.isoStart_eq
  have hyday := h.ydayNonneg
  have hday : tm.dayNumber = jan1 (tm.year + tm0Year) + tm.yday := rfl
  obtain ⟨hfirst, -⟩ := h.iso_facts
  split_ifs at hstart with hthree <;> omega

theorem DateValid.weakBasedYear_eq (h : tm.DateValid) : tm.weakBasedYear + tm0Year =
    if tm.dayNumber < isoStart (tm.year + tm0Year) then tm.year + tm0Year - 1
    else if isoStart (tm.year + tm0Year + 1) ≤ tm.dayNumber then tm.year + tm0Year + 1
    else tm.year + tm0Year := by
  have hyday := h.ydayNonneg
  have hlow : 0 ≤ tm.mondayFirst := by
    obtain ⟨hfirst, -⟩ := h.iso_facts
    omega
  have hbefore : (tm.mondayFirst = 1 ∨ tm.mondayFirst = 2 ∨ tm.mondayFirst = 3) ∧
      tm.yday < tm.mondayFirst ↔ tm.mondayFirst ≤ 3 ∧ tm.yday < tm.mondayFirst := by omega
  simp only [h.before_iff, ← h.inNextYear_iff']
  rw [weakBasedYear]
  by_cases hin : tm.InNextYear <;>
    simp only [hbefore, hin, and_true, and_false, if_true, if_false] <;> split_ifs <;> omega

theorem isoStart_pred (year : Int) : isoStart (year - 1) =
    jan1 year - (if leapYear (year - 1) then 366 else 365) + 3 -
      (jan1 year - (if leapYear (year - 1) then 366 else 365) + 3) % 7 := by
  have hsucc := jan1_succ (year - 1)
  rw [sub_add_cancel, ← daysInYear_eq, daysInYear] at hsucc
  rw [hsucc, isoStart, monday, add_sub_cancel_right]

theorem DateValid.weekFirst_eq (h : tm.DateValid) : tm.weekFirst =
    if tm.dayNumber < isoStart (tm.year + tm0Year) then
      .error ((tm.dayNumber - isoStart (tm.year + tm0Year - 1)) / 7)
    else .ok (isoStart (tm.year + tm0Year) - jan1 (tm.year + tm0Year)) := by
  have hyday := h.ydayNonneg
  have hstart := h.isoStart_eq
  have hprev := isoStart_pred (tm.year + tm0Year)
  have hday : tm.dayNumber = jan1 (tm.year + tm0Year) + tm.yday := rfl
  obtain ⟨hfirst, hlow, hhigh, hmod⟩ := h.iso_facts
  simp only [h.before_iff]
  rw [weekFirst]
  split_ifs at hstart hprev ⊢ <;> first | omega | (congr 1; omega)

theorem DateValid.weakBasedWeek_eq (h : tm.DateValid) : tm.weakBasedWeek =
    if tm.dayNumber < isoStart (tm.year + tm0Year) then
      (tm.dayNumber - isoStart (tm.year + tm0Year - 1)) / 7
    else if isoStart (tm.year + tm0Year + 1) ≤ tm.dayNumber then 0
    else (tm.dayNumber - isoStart (tm.year + tm0Year)) / 7 + 1 := by
  have hday : tm.dayNumber = jan1 (tm.year + tm0Year) + tm.yday := rfl
  rw [weakBasedWeek, h.weekFirst_eq]
  by_cases hbefore : tm.dayNumber < isoStart (tm.year + tm0Year)
  · rw [if_pos hbefore, if_pos hbefore]
  · rw [if_neg hbefore, if_neg hbefore]
    dsimp only
    simp only [h.inNextYear_iff']
    have hdiff : tm.yday - (isoStart (tm.year + tm0Year) - jan1 (tm.year + tm0Year)) =
        tm.dayNumber - isoStart (tm.year + tm0Year) := by omega
    rw [hdiff, Int.tdiv_eq_ediv_of_nonneg (by omega)]

theorem DateValid.weakBasedYear_isIso (h : tm.DateValid) :
    ∃ week, IsIsoWeek tm.dayNumber (tm.weakBasedYear + tm0Year) week := by
  have hlen := yearLength_pos (tm.year + tm0Year)
  have hlt := h.ydayLt
  have hyday := h.ydayNonneg
  have hday : tm.dayNumber = jan1 (tm.year + tm0Year) + tm.yday := rfl
  have hsucc := jan1_succ (tm.year + tm0Year)
  have hsucc' := jan1_succ (tm.year + tm0Year + 1)
  have hpred := jan1_succ (tm.year + tm0Year - 1)
  have hlen' := yearLength_pos (tm.year + tm0Year + 1)
  have hlen'' := yearLength_pos (tm.year + tm0Year - 1)
  rw [daysInYear_eq] at hlt
  rw [sub_add_cancel] at hpred
  rw [h.weakBasedYear_eq]
  refine ⟨_, ?_, ?_, rfl⟩
  · split_ifs with hbefore hafter
    · unfold isoStart monday
      omega
    · exact hafter
    · omega
  · split_ifs with hbefore hafter
    · rwa [sub_add_cancel]
    · unfold isoStart monday
      omega
    · omega

end Tm

/-- The ISO year is always right, the number of the week for the dates whose week belongs to
another year than the calendar's. -/
theorem iso_week (tm : Tm) (h : tm.DateValid) :
    (∃ week, IsIsoWeek tm.dayNumber (tm.weakBasedYear + tm0Year) week) ∧
      (IsIsoWeek tm.dayNumber (tm.weakBasedYear + tm0Year) (tm.weakBasedWeek + 1) ↔
        tm.dayNumber < isoStart (tm.year + tm0Year) ∨
          isoStart (tm.year + tm0Year + 1) ≤ tm.dayNumber) := by
  refine ⟨h.weakBasedYear_isIso, ?_⟩
  obtain ⟨week, hiso⟩ := h.weakBasedYear_isIso
  have hweek := hiso.week
  have hyear := h.weakBasedYear_eq
  have hcode := h.weakBasedWeek_eq
  constructor
  · intro hright
    have heq := hright.week
    split_ifs at hyear hcode with hbefore hafter
    · exact .inl hbefore
    · exact .inr hafter
    · rw [hyear] at heq
      omega
  · intro hother
    refine ⟨hiso.start, hiso.stop, ?_⟩
    split_ifs at hyear hcode with hbefore hafter
    · rw [hyear, hcode]
    · have hlt := h.ydayLt
      have hday : tm.dayNumber = jan1 (tm.year + tm0Year) + tm.yday := rfl
      have hnear : jan1 (tm.year + tm0Year + 1) ≤ isoStart (tm.year + tm0Year + 1) + 3 := by
        unfold isoStart monday
        omega
      rw [jan1_succ] at hnear
      rw [daysInYear_eq] at hlt
      rw [hyear, hcode]
      omega
    · omega

/-- Where the numbers are right on two days in a row, the week changes if the second day is a Monday.
With `iso_week`, this is what is left of the change of weeks. -/
theorem iso_week_changes {tm tm' : Tm} (h' : tm'.DateValid)
    (hnext : tm'.dayNumber = tm.dayNumber + 1)
    (hiso : IsIsoWeek tm.dayNumber (tm.weakBasedYear + tm0Year) (tm.weakBasedWeek + 1))
    (hiso' : IsIsoWeek tm'.dayNumber (tm'.weakBasedYear + tm0Year) (tm'.weakBasedWeek + 1)) :
    tm'.weakBasedYear = tm.weakBasedYear ∧ tm'.weakBasedWeek = tm.weakBasedWeek ↔ tm'.wday ≠ 1 := by
  rw [hnext] at hiso'
  rw [h'.wday, hnext, ← hiso.next_eq_iff hiso']
  omega

/-- Friday, the first of January 2021 -/
def newYear2021 : Tm := ⟨0, 0, 0, 1, 0, 121, 5, 0, 0⟩

theorem newYear2021_valid : newYear2021.DateValid :=
  ⟨by decide, by decide, by decide, by decide, by decide, by decide⟩

/-- It lies in the last week of 2020, the 53rd. -/
theorem iso_week_newYear2021 : IsIsoWeek newYear2021.dayNumber 2020 53 :=
  (iso_week newYear2021 newYear2021_valid).2.mpr (by decide)

/-- Thursday, the first of January 1970, lies in the first week of its year. -/
theorem iso_week_fails :
    ¬ ∀ tm : Tm, tm.DateValid → 1970 ≤ tm.year + tm0Year →
      IsIsoWeek tm.dayNumber (tm.weakBasedYear + tm0Year) (tm.weakBasedWeek + 1) := by
  intro h
  have hvalid : Tm.DateValid ⟨0, 0, 0, 1, 0, 70, 4, 0, 0⟩ :=
    ⟨by decide, by decide, by decide, by decide, by decide, by decide⟩
  exact absurd (h _ hvalid (by decide)).week (by decide)

end Chpok
