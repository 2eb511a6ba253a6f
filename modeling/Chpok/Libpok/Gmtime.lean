import Chpok.Libpok.Time

/-! `gmtime_r` and `mktime` (`libpok/libc/time/gmtime.c`, `libpok/libc/time/mktime.c`). An `int`
and a `time_t` have 32 bits and wrap. An access outside the table of the months has no result. -/

namespace Chpok

/-- The value of an `int` -/
def int32 (n : Int) : Int := n.bmod (2 ^ 32)

theorem int32_of_range {n : Int} (hlow : -2 ^ 31 ≤ n) (hhigh : n < 2 ^ 31) : int32 n = n := by
  apply Int.bmod_eq_of_le
  · omega
  · omega

theorem int32_range (n : Int) : -2 ^ 31 ≤ int32 n ∧ int32 n < 2 ^ 31 := by
  have hlow : -((2 ^ 32 : Nat) / 2 : Int) ≤ int32 n := Int.le_bmod (by decide)
  have hhigh : int32 n < ((2 ^ 32 : Nat) + 1) / 2 := Int.bmod_lt (by decide)
  omega

theorem int32_mod (n : Int) : (int32 n - n) % 2 ^ 32 = 0 := by
  have hmod : int32 n % (2 ^ 32 : Nat) = n % (2 ^ 32 : Nat) := Int.bmod_emod
  omega

@[simp] theorem int32_add_left (a b : Int) : int32 (int32 a + b) = int32 (a + b) :=
  Int.bmod_add_bmod

@[simp] theorem int32_add_right (a b : Int) : int32 (a + int32 b) = int32 (a + b) :=
  Int.add_bmod_bmod

/-- The loop of `gmtime_r` over the years: the year, and the day in it. It takes fewer steps than
there are days. -/
def yearsLoop : Nat → Int → Int → Int × Int
  | 0, dayno, year => (year, dayno)
  | fuel + 1, dayno, year =>
    if dayno ≥ daysInYear year then yearsLoop fuel (dayno - daysInYear year) (year + 1)
    else (year, dayno)

/-- The loop of `gmtime_r` over the months that are left -/
def monthsLoop : List Int → Int → Int → Option (Int × Int)
  | [], _, _ => none
  | days :: rest, dayno, mon =>
    if dayno ≥ days then monthsLoop rest (dayno - days) (mon + 1) else some (mon, dayno)

/-- `gmtime_r` -/
def gmtimeR (time : Int) : Option Tm :=
  let dayclock := time.tmod secsDay
  let dayno := time.tdiv secsDay
  let (year, yday) := yearsLoop dayno.toNat dayno t0Year
  (monthsLoop (daysInMonth (leapYear year)) yday 0).map fun (mon, mday) =>
    { sec := dayclock.tmod 60
      min := (dayclock.tmod 3600).tdiv 60
      hour := dayclock.tdiv 3600
      mday := mday + 1
      mon
      year := year - tm0Year
      wday := (dayno + 4).tmod 7
      yday
      isdst := 0 }

/-- The loop of `mktime` over the years since the Epoch, unless the sum of their days is found
negative -/
def yearDays : Nat → Int → Int → Option Int
  | 0, _, yday => some yday
  | n + 1, year, yday =>
    let yday := int32 (yday + daysInYear year)
    if yday < 0 then none else yearDays n (year + 1) yday

/-- The loop of `mktime` over the months before the current one -/
def monthDays (table : List Int) : Nat → Nat → Int → Option Int
  | 0, _, yday => some yday
  | n + 1, month, yday =>
    table[month]?.bind fun days => monthDays table n (month + 1) (int32 (yday + days))

/-- `mktime`: the structure afterwards, and the result -/
def mktime (timezone : Int) (tm : Tm) : Option (Tm × Int) :=
  let actualYear := int32 (int32 (tm.year + tm0Year) + tm.mon.tdiv 12)
  let actualMonth := tm.mon.tmod 12
  if actualYear < t0Year then some (tm, -1)
  else
    match yearDays (actualYear - t0Year).toNat t0Year 0 with
    | none => some (tm, -1)
    | some yday =>
      (monthDays (daysInMonth (leapYear actualYear)) actualMonth.toNat 0 yday).bind fun yday =>
        let yday := int32 (yday + int32 (tm.mday - 1))
        if yday < 0 then some (tm, -1)
        else
          let localTimer := int32 (int32 (int32 (int32 (yday * secsDay) + tm.sec) +
            int32 (tm.min * 60)) + int32 (tm.hour * (60 * 60)))
          (gmtimeR localTimer).map fun tm => (tm, int32 (localTimer + timezone))

/-- The time of a date by calendar arithmetic, in seconds since the Epoch. Any of the month, the
day of the month and the time of day may be out of range. -/
def Tm.instant (tm : Tm) : Int :=
  let year := tm.year + tm0Year + tm.mon / 12
  (Calendar.jan1 year - Calendar.jan1 t0Year +
    monthStart (leapYear year) (tm.mon % 12).toNat + tm.mday - 1) * secsDay +
      tm.hour * (60 * 60) + tm.min * 60 + tm.sec

/-- A normalised date -/
structure Tm.Normal (tm : Tm) : Prop extends tm.DateValid where
  sec : 0 ≤ tm.sec ∧ tm.sec < 60
  min : 0 ≤ tm.min ∧ tm.min < 60
  hour : 0 ≤ tm.hour ∧ tm.hour < 24
  isdst : tm.isdst = 0

end Chpok
