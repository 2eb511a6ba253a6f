import Chpok.Libpok.Gmtime

/-! Times and normalised dates are converted into each other, as far as a time fits in 32 bits. -/

namespace Chpok

open Calendar

variable {tm tm' : Tm} {t timezone : Int}

section Loops

theorem yearsLoop_spec {fuel : Nat} {dayno year : Int} (hfuel : dayno.toNat ≤ fuel)
    (hday : 0 ≤ dayno) : ∃ year' yday, yearsLoop fuel dayno year = (year', yday) ∧ year ≤ year' ∧
      0 ≤ yday ∧ yday < daysInYear year' ∧ jan1 year' + yday = jan1 year + dayno := by
  induction fuel generalizing dayno year with
  | zero =>
    have hlen := yearLength_pos year
    rw [← daysInYear_eq] at hlen
    exact ⟨year, dayno, rfl, Int.le_refl year, hday, by omega, rfl⟩
  | succ fuel ih =>
    have hlen := yearLength_pos year
    rw [← daysInYear_eq] at hlen
    rw [yearsLoop]
    split_ifs with hge
    · obtain ⟨year', yday, heq, hle, hnonneg, hlt, hsum⟩ :=
        @ih (dayno - daysInYear year) (year + 1) (by omega) (by omega)
      refine ⟨year', yday, heq, by omega, hnonneg, hlt, ?_⟩
      rw [hsum, jan1_succ, ← daysInYear_eq]
      omega
    · exact ⟨year, dayno, rfl, Int.le_refl year, hday, by omega, rfl⟩

theorem monthsLoop_spec {table : List Int} {dayno mon : Int} (hday : 0 ≤ dayno)
    (hlt : dayno < table.sum) : ∃ k < table.length,
      monthsLoop table dayno mon = some (mon + k, dayno - (table.take k).sum) ∧
        0 ≤ dayno - (table.take k).sum ∧ dayno - (table.take k).sum < table.getD k 0 := by
  induction table generalizing dayno mon with
  | nil =>
    rw [List.sum_nil] at hlt
    omega
  | cons days rest ih =>
    rw [List.sum_cons] at hlt
    rw [monthsLoop]
    split_ifs with hge
    · obtain ⟨k, hk, heq, hnonneg, hbound⟩ :=
        @ih (dayno - days) (mon + 1) (by omega) (by omega)
      refine ⟨k + 1, Nat.succ_lt_succ hk, ?_, ?_, ?_⟩
      · rw [heq, List.take_succ_cons, List.sum_cons, Nat.cast_add, Nat.cast_one, sub_sub, add_assoc,
          add_comm 1 (k : Int)]
      · rw [List.take_succ_cons, List.sum_cons]
        omega
      · rw [List.take_succ_cons, List.sum_cons, List.getD_cons_succ]
        omega
    · exact ⟨0, Nat.succ_pos _, by simp, by simpa using hday, by simpa using hge⟩

theorem sum_daysInMonth (leap : Bool) : (daysInMonth leap).sum = if leap then 366 else 365 := by
  cases leap <;> rfl

theorem length_daysInMonth (leap : Bool) : (daysInMonth leap).length = 12 := by
  cases leap <;> rfl

end Loops

theorem Tm.DateValid.instant_eq (h : tm.DateValid) : tm.instant =
    (tm.dayNumber - jan1 t0Year) * secsDay + tm.hour * (60 * 60) + tm.min * 60 + tm.sec := by
  obtain ⟨hlow, hhigh⟩ := h.month
  have hdiv : tm.mon / 12 = 0 := by omega
  have hmod : tm.mon % 12 = tm.mon := by omega
  have hyday := h.yday
  have hday : jan1 (tm.year + tm0Year) - jan1 t0Year +
      monthStart (leapYear (tm.year + tm0Year)) tm.mon.toNat + tm.mday - 1 =
        tm.dayNumber - jan1 t0Year := by
    rw [Tm.dayNumber]
    omega
  simp only [Tm.instant, hdiv, hmod, add_zero, hday]

/-- `gmtime_r` gives the normalised date of a time. -/
theorem gmtimeR_normal (ht : 0 ≤ t) : ∃ tm, gmtimeR t = some tm ∧ tm.Normal ∧ tm.instant = t := by
  have hsecs : secsDay = 86400 := rfl
  have hquot : t.tdiv secsDay = t / 86400 := Int.tdiv_eq_ediv_of_nonneg ht
  have hrem : t.tmod secsDay = t % 86400 := Int.tmod_eq_emod_of_nonneg ht
  obtain ⟨year, yday, hyears, hle, hnonneg, hlt, hsum⟩ :=
    @yearsLoop_spec _ (t / 86400) t0Year le_rfl (by omega)
  have htable : yday < (daysInMonth (leapYear year)).sum := by
    rw [sum_daysInMonth]
    exact hlt
  obtain ⟨mon, hmon, hmonths, hmday, hbound⟩ :=
    @monthsLoop_spec _ yday 0 hnonneg htable
  rw [length_daysInMonth] at hmon
  have hyear : year - tm0Year + tm0Year = year := sub_add_cancel year tm0Year
  have hmonNat : (0 + (mon : Int)).toNat = mon := by omega
  have hclock : t % 86400 % 60 = (t % 86400).tmod 60 ∧ t % 86400 / 3600 = (t % 86400).tdiv 3600 ∧
      t % 86400 % 3600 / 60 = ((t % 86400).tmod 3600).tdiv 60 ∧
        (t / 86400 + 4) % 7 = (t / 86400 + 4).tmod 7 := by
    refine ⟨?_, ?_, ?_, ?_⟩
    · rw [Int.tmod_eq_emod_of_nonneg (by omega)]
    · rw [Int.tdiv_eq_ediv_of_nonneg (by omega)]
    · rw [Int.tmod_eq_emod_of_nonneg (by omega), Int.tdiv_eq_ediv_of_nonneg (by omega)]
    · rw [Int.tmod_eq_emod_of_nonneg (by omega)]
  obtain ⟨hsec, hhour, hmin, hwday⟩ := hclock
  have heq : gmtimeR t = some ⟨t % 86400 % 60, t % 86400 % 3600 / 60, t % 86400 / 3600,
      yday - ((daysInMonth (leapYear year)).take mon).sum + 1, 0 + mon, year - tm0Year,
      (t / 86400 + 4) % 7, yday, 0⟩ := by
    simp only [gmtimeR, hquot, hrem, hyears, hmonths, Option.map_some, hsec, hhour, hmin, hwday]
  have hvalid : Tm.DateValid ⟨t % 86400 % 60, t % 86400 % 3600 / 60, t % 86400 / 3600,
      yday - ((daysInMonth (leapYear year)).take mon).sum + 1, 0 + mon, year - tm0Year,
      (t / 86400 + 4) % 7, yday, 0⟩ := by
    constructor
    · exact hnonneg
    · dsimp only
      rw [hyear]
      exact hlt
    · have hepoch : jan1 t0Year = 719162 := by decide
      simp only [Tm.dayNumber, hyear, hsum, weekday, hepoch]
      omega
    · dsimp only
      omega
    · dsimp only
      rw [hyear, hmonNat]
      omega
    · simp only [hyear, hmonNat, monthStart]
      omega
  refine ⟨_, heq, ⟨hvalid, ?_, ?_, ?_, rfl⟩, ?_⟩
  · dsimp only
    omega
  · dsimp only
    omega
  · dsimp only
    omega
  · rw [hvalid.instant_eq]
    simp only [Tm.dayNumber, hyear, hsum, hsecs]
    omega

theorem monthStart_add_le : ∀ leap, ∀ k' < 12, ∀ k < k',
    monthStart leap k + (daysInMonth leap).getD k 0 ≤ monthStart leap k' := by decide

theorem Tm.DateValid.day_lt (h : tm.DateValid) : jan1 (tm.year + tm0Year) ≤ tm.dayNumber ∧
    tm.dayNumber < jan1 (tm.year + tm0Year + 1) := by
  have hlow := h.ydayNonneg
  have hlt := h.ydayLt
  rw [jan1_succ, ← daysInYear_eq, Tm.dayNumber]
  omega

/-- A time has one normalised date only. -/
theorem Tm.Normal.unique (h : tm.Normal) (h' : tm'.Normal) (heq : tm.instant = tm'.instant) :
    tm = tm' := by
  have hsecs : secsDay = 86400 := rfl
  have htime := h.toDateValid.instant_eq
  have htime' := h'.toDateValid.instant_eq
  rw [hsecs] at htime htime'
  obtain ⟨hsec, hsec'⟩ := And.intro h.sec h'.sec
  obtain ⟨hmin, hmin'⟩ := And.intro h.min h'.min
  obtain ⟨hhour, hhour'⟩ := And.intro h.hour h'.hour
  have hday : tm.dayNumber = tm'.dayNumber := by omega
  have hclock : tm.hour = tm'.hour ∧ tm.min = tm'.min ∧ tm.sec = tm'.sec := by omega
  have hyear : tm.year = tm'.year := by
    obtain ⟨hlow, hhigh⟩ := h.day_lt
    obtain ⟨hlow', hhigh'⟩ := h'.day_lt
    have hle := jan1_strictMono.lt_iff_lt.mp (hlow.trans_lt (hday ▸ hhigh'))
    have hge := jan1_strictMono.lt_iff_lt.mp (hlow'.trans_lt (hday ▸ hhigh))
    omega
  have hyday : tm.yday = tm'.yday := by
    rw [Tm.dayNumber, Tm.dayNumber, hyear] at hday
    omega
  have hmonth : tm.mon = tm'.mon ∧ tm.mday = tm'.mday := by
    obtain ⟨hmon, hmon'⟩ := And.intro h.month h'.month
    have hmday := h.mday
    have hmday' := h'.mday
    have hstart := h.yday
    have hstart' := h'.yday
    rw [hyear] at hmday hstart
    rcases Nat.lt_trichotomy tm.mon.toNat tm'.mon.toNat with hlt | hsame | hgt
    · have hle := monthStart_add_le (leapYear (tm'.year + tm0Year)) _ (by omega) _ hlt
      omega
    · rw [hsame] at hstart
      omega
    · have hle := monthStart_add_le (leapYear (tm'.year + tm0Year)) _ (by omega) _ hgt
      omega
  have hwday : tm.wday = tm'.wday := by rw [h.wday, h'.wday, hday]
  have hisdst : tm.isdst = tm'.isdst := h.isdst.trans h'.isdst.symm
  cases tm
  cases tm'
  simp only [Tm.mk.injEq]
  exact ⟨hclock.2.2, hclock.2.1, hclock.1, hmonth.2, hmonth.1, hyear, hwday, hyday, hisdst⟩

/-- The fields are values of an `int`. -/
structure Tm.InRange (tm : Tm) : Prop where
  sec : -2 ^ 31 ≤ tm.sec ∧ tm.sec < 2 ^ 31
  min : -2 ^ 31 ≤ tm.min ∧ tm.min < 2 ^ 31
  hour : -2 ^ 31 ≤ tm.hour ∧ tm.hour < 2 ^ 31
  mday : -2 ^ 31 ≤ tm.mday ∧ tm.mday < 2 ^ 31
  mon : -2 ^ 31 ≤ tm.mon ∧ tm.mon < 2 ^ 31
  year : -2 ^ 31 ≤ tm.year ∧ tm.year < 2 ^ 31

/-- The year in which `mktime` counts the months -/
def Tm.countedYear (tm : Tm) : Int := tm.year + tm0Year + tm.mon.tdiv 12

/-- The number of the day that it counts. A month below zero counts like January. -/
def Tm.countedDay (tm : Tm) : Int :=
  jan1 tm.countedYear - jan1 t0Year +
    monthStart (leapYear tm.countedYear) (tm.mon.tmod 12).toNat + (tm.mday - 1)

/-- The time of that day -/
def Tm.countedTime (tm : Tm) : Int :=
  tm.countedDay * secsDay + tm.hour * (60 * 60) + tm.min * 60 + tm.sec

/-- What gets past the checks of `mktime` -/
def Tm.PassesChecks (tm : Tm) : Prop :=
  t0Year ≤ tm.countedYear ∧ jan1 tm.countedYear - jan1 t0Year < 2 ^ 31 ∧ 0 ≤ int32 tm.countedDay

instance (tm : Tm) : Decidable tm.PassesChecks := inferInstanceAs (Decidable (_ ∧ _ ∧ _))

theorem jan1_add_le {year year' : Int} (hle : year ≤ year') :
    jan1 year + 365 * (year' - year) ≤ jan1 year' := by
  unfold jan1
  omega

/-- The sum of the days of the years, unless it leaves the range -/
theorem yearDays_eq {n : Nat} {year yday : Int} (hyday : yday = jan1 year - jan1 t0Year)
    (hlow : 0 ≤ yday) (hhigh : yday < 2 ^ 31) : yearDays n year yday =
      if jan1 (year + n) - jan1 t0Year < 2 ^ 31 then some (jan1 (year + n) - jan1 t0Year)
      else none := by
  induction n generalizing year yday with
  | zero =>
    rw [Nat.cast_zero, add_zero, ← hyday, if_pos hhigh, yearDays]
  | succ n ih =>
    have hlen := yearLength_pos year
    have hsucc := jan1_succ year
    have hshift : year + ((n + 1 : Nat) : Int) = year + 1 + n := by
      push_cast
      omega
    rw [yearDays, hshift, daysInYear_eq]
    rcases lt_or_ge (yday + yearLength year) (2 ^ 31) with hlt | hge
    · rw [int32_of_range (by omega) hlt, if_neg (by omega), ih (by omega) (by omega) hlt]
    · have hwrap : int32 (yday + yearLength year) < 0 := by
        obtain ⟨hlow', hhigh'⟩ := int32_range (yday + yearLength year)
        have hmod := int32_mod (yday + yearLength year)
        omega
      have hmono := jan1_add_le (show year + 1 ≤ year + 1 + n by omega)
      rw [if_pos hwrap, if_neg (by omega)]

theorem monthDays_eq {leap : Bool} {n month : Nat} {yday : Int} (hmonth : month + n ≤ 12)
    (hlow : -2 ^ 31 ≤ yday) (hhigh : yday < 2 ^ 31) :
    monthDays (daysInMonth leap) n month yday =
      some (int32 (yday + (monthStart leap (month + n) - monthStart leap month))) := by
  induction n generalizing month yday with
  | zero => rw [monthDays, add_zero, sub_self, add_zero, int32_of_range hlow hhigh]
  | succ n ih =>
    have hin : month < (daysInMonth leap).length := by
      rw [length_daysInMonth]
      omega
    have hstart : monthStart leap (month + 1) = monthStart leap month + (daysInMonth leap)[month] := by
      rw [monthStart, List.take_succ_eq_append_getElem hin, List.sum_append, List.sum_singleton,
        monthStart]
    obtain ⟨hlow', hhigh'⟩ := int32_range (yday + (daysInMonth leap)[month])
    rw [monthDays, List.getElem?_eq_getElem hin, Option.bind_some, ih (by omega) hlow' hhigh',
      int32_add_left, hstart]
    congr 2
    rw [Nat.add_right_comm month 1 n, Nat.add_assoc]
    omega

theorem int32_eq_of_mod {a b : Int} (h : (a - b) % 2 ^ 32 = 0) : int32 a = int32 b := by
  have ha := int32_range a
  have hb := int32_range b
  have hamod := int32_mod a
  have hbmod := int32_mod b
  omega

theorem Tm.InRange.countedYear_cases (h : tm.InRange) :
    int32 tm.countedYear = tm.countedYear ∨
      2 ^ 31 ≤ tm.countedYear ∧ int32 tm.countedYear < t0Year ∨
        tm.countedYear < t0Year ∧ 2 ^ 30 ≤ int32 tm.countedYear := by
  have hepoch : t0Year = 1970 := rfl
  have hbase : tm0Year = 1900 := rfl
  have hyear := h.year
  have hmon := h.mon
  have hdiv : -2 ^ 28 ≤ tm.mon.tdiv 12 ∧ tm.mon.tdiv 12 ≤ 2 ^ 28 := by
    rcases le_or_gt 0 tm.mon with hnonneg | hneg
    · rw [Int.tdiv_eq_ediv_of_nonneg hnonneg]
      omega
    · have hpos := Int.tdiv_eq_ediv_of_nonneg (show 0 ≤ -tm.mon by omega) (b := 12)
      rw [Int.neg_tdiv] at hpos
      omega
  obtain ⟨hlow, hhigh⟩ := int32_range tm.countedYear
  have hmod := int32_mod tm.countedYear
  have heq : tm.countedYear = tm.year + tm0Year + tm.mon.tdiv 12 := rfl
  omega

/-- `mktime` as a whole -/
theorem mktime_eq (h : tm.InRange) (timezone : Int) : mktime timezone tm =
    if tm.PassesChecks then (gmtimeR (int32 tm.countedTime)).map
      fun tm' => (tm', int32 (tm.countedTime + timezone))
    else some (tm, -1) := by
  have hepoch : t0Year = 1970 := rfl
  have hzero : jan1 t0Year - jan1 t0Year = 0 := sub_self _
  have hmonth : (tm.mon.tmod 12).toNat < 12 := by
    have hlt := Int.tmod_lt_of_pos tm.mon (show (0 : Int) < 12 by decide)
    omega
  have hcounted : tm.year + tm0Year + tm.mon.tdiv 12 = tm.countedYear := rfl
  simp only [mktime, int32_add_left, int32_add_right, hcounted]
  by_cases hearly : int32 tm.countedYear < t0Year
  · have hfails : ¬ tm.PassesChecks := by
      rintro ⟨hyear, hdays, -⟩
      have hmono := jan1_add_le hyear
      rcases h.countedYear_cases with hfits | ⟨hlarge, -⟩ | ⟨hsmall, -⟩ <;> omega
    rw [if_pos hearly, if_neg hfails]
  · rw [if_neg hearly]
    have hcount : t0Year + ((int32 tm.countedYear - t0Year).toNat : Int) = int32 tm.countedYear := by
      omega
    rw [yearDays_eq hzero.symm le_rfl (by decide), hcount]
    have hmono := jan1_add_le (show t0Year ≤ int32 tm.countedYear by omega)
    by_cases hdays : jan1 (int32 tm.countedYear) - jan1 t0Year < 2 ^ 31
    · have hfits : int32 tm.countedYear = tm.countedYear := by
        rcases h.countedYear_cases with hfits | ⟨-, hlow⟩ | ⟨-, hhigh⟩ <;> omega
      rw [hfits] at hdays hearly hmono ⊢
      have hstart : monthStart (leapYear tm.countedYear) 0 = 0 := rfl
      rw [if_pos hdays]
      dsimp only
      rw [monthDays_eq (by omega) (by omega) hdays, Option.bind_some, hstart, sub_zero, Nat.zero_add,
        int32_add_left]
      change (if int32 tm.countedDay < 0 then _ else _) = _
      by_cases hneg : int32 tm.countedDay < 0
      · have hfails : ¬ tm.PassesChecks := fun hpasses => by
          have hnonneg := hpasses.2.2
          omega
        rw [if_pos hneg, if_neg hfails]
      · have hpasses : tm.PassesChecks := ⟨by omega, hdays, by omega⟩
        have htime : int32 (int32 tm.countedDay * secsDay + tm.sec + tm.min * 60 +
            tm.hour * (60 * 60)) = int32 tm.countedTime := by
          have hmod := int32_mod tm.countedDay
          have hsecs : secsDay = 86400 := rfl
          apply int32_eq_of_mod
          rw [Tm.countedTime, hsecs]
          omega
        have hday : jan1 tm.countedYear - jan1 t0Year +
            monthStart (leapYear tm.countedYear) (tm.mon.tmod 12).toNat + (tm.mday - 1) =
              tm.countedDay := rfl
        rw [if_neg hneg, if_pos hpasses, hday, htime, ← int32_add_left _ timezone, htime,
          int32_add_left]
    · have hfails : ¬ tm.PassesChecks := by
        rintro ⟨hyear, hdays', -⟩
        have hmono' := jan1_add_le hyear
        rcases h.countedYear_cases with hfits | ⟨hlarge, -⟩ | ⟨hsmall, -⟩
        · rw [hfits] at hdays
          omega
        · omega
        · omega
      rw [if_neg hdays, if_neg hfails]

/-- Nothing is lost when a normalised date after the Epoch is counted, as long as its time fits. -/
theorem Tm.Normal.counted (h : tm.Normal) (hlow : 0 ≤ tm.instant) (hhigh : tm.instant < 2 ^ 31) :
    tm.InRange ∧ tm.PassesChecks ∧ tm.countedTime = tm.instant := by
  have hepoch : t0Year = 1970 := rfl
  have hbase : tm0Year = 1900 := rfl
  have hsecs : secsDay = 86400 := rfl
  have hinstant := h.toDateValid.instant_eq
  obtain ⟨hfirst, hnext⟩ := h.day_lt
  obtain ⟨hmon, hmon'⟩ := h.month
  have hsec := h.sec
  have hmin := h.min
  have hhour := h.hour
  have hyday := h.yday
  have hday := h.ydayNonneg
  have hmday := h.mday
  have hdiv : tm.mon.tdiv 12 = 0 := by
    rw [Int.tdiv_eq_ediv_of_nonneg hmon]
    omega
  have hmod : tm.mon.tmod 12 = tm.mon := by
    rw [Int.tmod_eq_emod_of_nonneg hmon]
    omega
  have hyear : tm.countedYear = tm.year + tm0Year := by
    rw [Tm.countedYear, hdiv, add_zero]
  have hcounted : tm.countedDay = tm.dayNumber - jan1 t0Year := by
    rw [Tm.countedDay, hyear, hmod, Tm.dayNumber]
    omega
  have htime : tm.countedTime = tm.instant := by rw [Tm.countedTime, hcounted, hinstant]
  rw [hsecs] at hinstant
  have hdays : 0 ≤ tm.dayNumber - jan1 t0Year ∧ tm.dayNumber - jan1 t0Year < 2 ^ 15 := by omega
  have hfrom : t0Year ≤ tm.year + tm0Year := by
    have hlt := jan1_strictMono.lt_iff_lt.mp (show jan1 t0Year < jan1 (tm.year + tm0Year + 1) by omega)
    omega
  have hmono := jan1_add_le hfrom
  have hlen : tm.mday ≤ 31 := by
    have hmax : ∀ leap, ∀ k < 12, (daysInMonth leap).getD k 0 ≤ 31 := by decide
    exact hmday.2.trans (hmax _ _ (by omega))
  have hwrap : int32 tm.countedDay = tm.countedDay := int32_of_range (by omega) (by omega)
  refine ⟨⟨by omega, by omega, by omega, by omega, by omega, by omega⟩, ?_, htime⟩
  rw [Tm.PassesChecks, hwrap, hyear]
  omega

theorem Tm.Normal.mktime_eq (h : tm.Normal) (hlow : 0 ≤ tm.instant) (hhigh : tm.instant < 2 ^ 31)
    (timezone : Int) : gmtimeR tm.instant = some tm ∧
      mktime timezone tm = some (tm, int32 (tm.instant + timezone)) := by
  obtain ⟨hrange, hpasses, htime⟩ := h.counted hlow hhigh
  obtain ⟨tm', hgmtime, hnormal, hsame⟩ := gmtimeR_normal hlow
  obtain rfl := hnormal.unique h hsame
  refine ⟨hgmtime, ?_⟩
  rw [Chpok.mktime_eq hrange, if_pos hpasses, htime, int32_of_range (by omega) hhigh, hgmtime,
    Option.map_some]

/-- Times are converted into normalised dates and back, and such dates into times and back. -/
theorem calendar_round_trip (timezone : Int) :
    (∀ t, 0 ≤ t → t < 2 ^ 31 → ∃ tm, gmtimeR t = some tm ∧ tm.Normal ∧ tm.instant = t ∧
        mktime timezone tm = some (tm, int32 (t + timezone))) ∧
      ∀ tm : Tm, tm.Normal → t0Year ≤ tm.year + tm0Year → tm.instant < 2 ^ 31 →
        ∃ result, mktime timezone tm = some (tm, result) ∧
          gmtimeR (int32 (result - timezone)) = some tm := by
  constructor
  · intro t hlow hhigh
    obtain ⟨tm, hgmtime, hnormal, rfl⟩ := gmtimeR_normal hlow
    exact ⟨tm, hgmtime, hnormal, rfl, (hnormal.mktime_eq hlow hhigh timezone).2⟩
  · intro tm hnormal hyear hhigh
    have hlow : 0 ≤ tm.instant := by
      have hsecs : secsDay = 86400 := rfl
      have hinstant := hnormal.toDateValid.instant_eq
      have hmono := jan1_add_le hyear
      have hfirst := hnormal.day_lt.1
      have hsec := hnormal.sec
      have hmin := hnormal.min
      have hhour := hnormal.hour
      rw [hsecs] at hinstant
      omega
    obtain ⟨hgmtime, hmktime⟩ := hnormal.mktime_eq hlow hhigh timezone
    refine ⟨_, hmktime, ?_⟩
    have hback : int32 (int32 (tm.instant + timezone) - timezone) = int32 tm.instant := by
      have hmod := int32_mod (tm.instant + timezone)
      apply int32_eq_of_mod
      omega
    rw [hback, int32_of_range (by omega) hhigh, hgmtime]

/-- Noon of February 29th, 2000 -/
def leapDay : Tm := ⟨0, 0, 12, 29, 1, 100, 2, 59, 0⟩

theorem leapDay_normal : leapDay.Normal :=
  ⟨⟨by decide, by decide, by decide, by decide, by decide, by decide⟩, by decide, by decide,
    by decide, rfl⟩

theorem calendar_round_trip_leapDay :
    (∃ tm, gmtimeR 951825600 = some tm ∧ tm.Normal ∧ tm.instant = 951825600 ∧
        mktime 3600 tm = some (tm, int32 (951825600 + 3600))) ∧
      ∃ result, mktime 3600 leapDay = some (leapDay, result) ∧
        gmtimeR (int32 (result - 3600)) = some leapDay :=
  ⟨(calendar_round_trip 3600).1 951825600 (by decide) (by decide),
    (calendar_round_trip 3600).2 leapDay leapDay_normal (by decide) (by decide)⟩

/-- The first second whose time does not fit in 32 bits: 03:14:08 on January 19th, 2038 -/
def afterLastSecond : Tm := ⟨8, 14, 3, 19, 0, 138, 2, 18, 0⟩

theorem calendar_round_trip_fails :
    ¬ ∀ (timezone : Int) (tm : Tm), tm.Normal → t0Year ≤ tm.year + tm0Year →
      ∃ result, mktime timezone tm = some (tm, result) ∧
        gmtimeR (int32 (result - timezone)) = some tm := by
  intro h
  have hnormal : afterLastSecond.Normal :=
    ⟨⟨by decide, by decide, by decide, by decide, by decide, by decide⟩, by decide, by decide,
      by decide, rfl⟩
  obtain ⟨result, hmktime, -⟩ := h 0 afterLastSecond hnormal (by decide)
  have hwrapped : (mktime 0 afterLastSecond).map (fun r => r.1.year) = some 70 := by decide +kernel
  rw [hmktime] at hwrapped
  have hyear : afterLastSecond.year = 70 := Option.some.inj hwrapped
  exact absurd hyear (by decide)

end Chpok
