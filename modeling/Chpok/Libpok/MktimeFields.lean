import Chpok.Libpok.TimeRoundTrip
import Mathlib.Tactic.Ring

/-! `mktime` for fields that are out of range. It counts the months as C divides, checks the days
before it adds the time of day, and does not check the time that comes out. -/

namespace Chpok

open Calendar

variable {tm : Tm} {timezone t : Int}

theorem gmtimeR_isSome (t : Int) : (gmtimeR t).isSome := by
  rcases le_or_gt 0 t with hnonneg | hneg
  · obtain ⟨tm, hgmtime, -⟩ := gmtimeR_normal hnonneg
    rw [hgmtime]
    rfl
  · have hday : t.tdiv secsDay ≤ 0 := by
      have hquot : (-t).tdiv secsDay = -t / 86400 := Int.tdiv_eq_ediv_of_nonneg (by omega)
      rw [Int.neg_tdiv] at hquot
      omega
    have hfuel : (t.tdiv secsDay).toNat = 0 := Int.toNat_of_nonpos hday
    have htable : daysInMonth (leapYear t0Year) = 31 :: (daysInMonth (leapYear t0Year)).tail := rfl
    simp only [gmtimeR, hfuel, yearsLoop]
    rw [htable, monthsLoop, if_neg (by omega)]
    rfl

theorem monthStart_lt_year : ∀ leap, ∀ k < 12, 0 ≤ monthStart leap k ∧
    monthStart leap k < if leap then 366 else 365 := by decide

theorem Tm.countedTime_sub (tm : Tm) (hneg : tm.mon.tmod 12 < 0) :
    tm.countedTime - tm.instant = (yearLength (tm.year + tm0Year + tm.mon / 12) -
      monthStart (leapYear (tm.year + tm0Year + tm.mon / 12)) (tm.mon % 12).toNat) * 86400 := by
  have hsecs : secsDay = 86400 := rfl
  have hsum := Int.mul_tdiv_add_tmod tm.mon 12
  have hlow := Int.lt_tmod_of_pos tm.mon (show (0 : Int) < 12 by decide)
  have hdiv : tm.mon.tdiv 12 = tm.mon / 12 + 1 := by omega
  have hyear : tm.countedYear = tm.year + tm0Year + tm.mon / 12 + 1 := by
    rw [Tm.countedYear, hdiv, ← add_assoc]
  have hjanuary : (tm.mon.tmod 12).toNat = 0 := Int.toNat_of_nonpos hneg.le
  have hstart : monthStart (leapYear tm.countedYear) 0 = 0 := rfl
  rw [Tm.countedTime, Tm.countedDay, hjanuary, hstart, hyear, jan1_succ, Tm.instant, hsecs]
  ring

/-- The months are counted as in the calendar, unless a month below zero is left. -/
theorem Tm.countedTime_eq_iff (tm : Tm) :
    (tm.countedTime - tm.instant) % 2 ^ 32 = 0 ↔ 0 ≤ tm.mon.tmod 12 := by
  have hlow := Int.lt_tmod_of_pos tm.mon (show (0 : Int) < 12 by decide)
  have hhigh := Int.tmod_lt_of_pos tm.mon (show (0 : Int) < 12 by decide)
  have hsum := Int.mul_tdiv_add_tmod tm.mon 12
  constructor
  · intro hmod
    by_contra hneg
    have hlen := daysInYear_eq (tm.year + tm0Year + tm.mon / 12)
    obtain ⟨hnonneg, hlt⟩ := monthStart_lt_year (leapYear (tm.year + tm0Year + tm.mon / 12))
      (tm.mon % 12).toNat (by omega)
    have hbound := yearLength_pos (tm.year + tm0Year + tm.mon / 12)
    rw [← daysInYear, hlen] at hlt
    rw [tm.countedTime_sub (by omega)] at hmod
    clear hlow hhigh hsum hlen
    omega
  · intro hnonneg
    have hdiv : tm.mon.tdiv 12 = tm.mon / 12 := by omega
    have hmod : tm.mon.tmod 12 = tm.mon % 12 := by omega
    have heq : tm.countedTime = tm.instant := by
      rw [Tm.countedTime, Tm.countedDay, Tm.countedYear, hdiv, hmod, Tm.instant, add_sub_assoc]
    rw [heq, sub_self]
    rfl

/-- `mktime` gives the time of a date and normalises the date, or fails. -/
def MktimeRight (timezone : Int) (tm : Tm) : Prop :=
  if 0 ≤ tm.instant ∧ tm.instant < 2 ^ 31 then
    ∃ tm', mktime timezone tm = some (tm', int32 (tm.instant + timezone)) ∧ tm'.Normal ∧
      tm'.instant = tm.instant
  else ∃ tm', mktime timezone tm = some (tm', -1)

/-- When it does so -/
def MktimeWorks (timezone : Int) (tm : Tm) : Prop :=
  if 0 ≤ tm.instant ∧ tm.instant < 2 ^ 31 then 0 ≤ tm.mon.tmod 12 ∧ tm.PassesChecks
  else tm.PassesChecks → int32 (tm.countedTime + timezone) = -1

instance (timezone : Int) (tm : Tm) : Decidable (MktimeWorks timezone tm) :=
  inferInstanceAs (Decidable (if 0 ≤ tm.instant ∧ tm.instant < 2 ^ 31 then _ else _))

theorem Tm.InRange.right_iff_of_fits (h : tm.InRange)
    (hfits : 0 ≤ tm.instant ∧ tm.instant < 2 ^ 31) :
    (∃ tm', mktime timezone tm = some (tm', int32 (tm.instant + timezone)) ∧ tm'.Normal ∧
      tm'.instant = tm.instant) ↔ 0 ≤ tm.mon.tmod 12 ∧ tm.PassesChecks := by
  rw [mktime_eq h, ← tm.countedTime_eq_iff]
  constructor
  · rintro ⟨tm', hmktime, hnormal, hsame⟩
    have hpasses : tm.PassesChecks := by
      by_contra hfails
      rw [if_neg hfails] at hmktime
      obtain ⟨rfl, -⟩ := Prod.mk.inj (Option.some.inj hmktime)
      exact hfails (hnormal.counted hfits.1 hfits.2).2.1
    rw [if_pos hpasses, Option.map_eq_some_iff] at hmktime
    obtain ⟨tm'', -, heq⟩ := hmktime
    have hresult : int32 (tm.countedTime + timezone) = int32 (tm.instant + timezone) :=
      (Prod.mk.inj heq).2
    have hcounted := int32_mod (tm.countedTime + timezone)
    have hinstant := int32_mod (tm.instant + timezone)
    exact ⟨by omega, hpasses⟩
  · rintro ⟨hmod, hpasses⟩
    have htime : int32 tm.countedTime = tm.instant := by
      rw [int32_eq_of_mod hmod, int32_of_range (by omega) hfits.2]
    have hresult : int32 (tm.countedTime + timezone) = int32 (tm.instant + timezone) := by
      rw [← int32_add_left, htime]
    obtain ⟨tm', hgmtime, hnormal, hsame⟩ := gmtimeR_normal hfits.1
    refine ⟨tm', ?_, hnormal, hsame⟩
    rw [if_pos hpasses, htime, hgmtime, hresult, Option.map_some]

theorem Tm.InRange.fails_iff (h : tm.InRange) : (∃ tm', mktime timezone tm = some (tm', -1)) ↔
    (tm.PassesChecks → int32 (tm.countedTime + timezone) = -1) := by
  rw [mktime_eq h]
  by_cases hpasses : tm.PassesChecks
  · obtain ⟨tm', hgmtime⟩ := Option.isSome_iff_exists.mp (gmtimeR_isSome (int32 tm.countedTime))
    rw [if_pos hpasses, hgmtime, Option.map_some]
    simp [hpasses]
  · rw [if_neg hpasses]
    simp [hpasses]

/-- `mktime` normalises the fields exactly when the month is not left below zero and the year
and the day in the year pass its checks, and fails exactly when they do not pass. -/
theorem mktime_normalisation (h : tm.InRange) (timezone : Int) :
    (mktime timezone tm).isSome ∧ (MktimeRight timezone tm ↔ MktimeWorks timezone tm) := by
  constructor
  · rw [mktime_eq h]
    split_ifs with hpasses
    · rw [Option.isSome_map]
      exact gmtimeR_isSome _
    · rfl
  · unfold MktimeRight MktimeWorks
    split_ifs with hfits
    · exact h.right_iff_of_fits hfits
    · exact h.fails_iff

/-- One hour before March 0th, 2000, which is February 29th: 23:00 on February 28th -/
def marchZero : Tm := ⟨0, 0, -1, 0, 2, 100, 0, 0, 0⟩

theorem mktime_normalisation_marchZero : MktimeRight 0 marchZero := by
  have hrange : marchZero.InRange := ⟨by decide, by decide, by decide, by decide, by decide, by decide⟩
  exact (mktime_normalisation hrange 0).2.mpr (by decide)

/-- The first day of the month before January 1971 -/
theorem mktime_normalisation_fails :
    ¬ ∀ (timezone : Int) (tm : Tm), tm.InRange → MktimeRight timezone tm := by
  intro h
  have hrange : Tm.InRange ⟨0, 0, 0, 1, -1, 71, 0, 0, 0⟩ :=
    ⟨by decide, by decide, by decide, by decide, by decide, by decide⟩
  have hright := h 0 _ hrange
  rw [MktimeRight, if_pos (by decide)] at hright
  obtain ⟨tm', hmktime, -⟩ := hright
  have hresult : (mktime 0 ⟨0, 0, 0, 1, -1, 71, 0, 0, 0⟩).map Prod.snd = some 31536000 := by
    decide +kernel
  rw [hmktime] at hresult
  have hwrong : int32 (Tm.instant ⟨0, 0, 0, 1, -1, 71, 0, 0, 0⟩ + 0) = 31536000 :=
    Option.some.inj hresult
  exact absurd hwrong (by decide)

end Chpok
