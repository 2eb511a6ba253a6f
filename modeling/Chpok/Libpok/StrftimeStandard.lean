import Chpok.Libpok.StrftimeBuffer
import Chpok.Library.DecimalText

/-! What the conversions of `strftime` give, and what they should give in the C locale. -/

namespace Chpok

open BoundedOutput DecimalText

/-- The fields of a date and a time within their ranges -/
structure Tm.Valid (tm : Tm) : Prop where
  date : tm.DateValid
  hour : 0 ≤ tm.hour ∧ tm.hour < 24
  min : 0 ≤ tm.min ∧ tm.min < 60
  sec : 0 ≤ tm.sec ∧ tm.sec ≤ 60
  year : 0 ≤ tm.year + tm0Year ∧ tm.year + tm0Year < 2 ^ 31

/-! The C standard -/

namespace Standard

def weekdays : List (List Char) :=
  ["Sunday".toList, "Monday".toList, "Tuesday".toList, "Wednesday".toList, "Thursday".toList,
    "Friday".toList, "Saturday".toList]

def months : List (List Char) :=
  ["January".toList, "February".toList, "March".toList, "April".toList, "May".toList,
    "June".toList, "July".toList, "August".toList, "September".toList, "October".toList,
    "November".toList, "December".toList]

def weekday (tm : Tm) : List Char := weekdays.getD tm.wday.toNat []

def month (tm : Tm) : List Char := months.getD tm.mon.toNat []

def number (width : Nat) (x : Int) : List Char := padded width '0' x.toNat

def fullYear (tm : Tm) : Int := tm.year + 1900

/-- The day of the month, with a space before a single digit -/
def day (tm : Tm) : List Char := padded 2 ' ' tm.mday.toNat

/-- The hour on a 12-hour clock -/
def hour12 (tm : Tm) : Int := if tm.hour % 12 = 0 then 12 else tm.hour % 12

def halfDay (tm : Tm) : List Char := if tm.hour < 12 then "AM".toList else "PM".toList

/-- `%D` -/
def date (tm : Tm) : List Char :=
  number 2 (tm.mon + 1) ++ '/' :: (number 2 tm.mday ++ '/' :: number 2 (fullYear tm % 100))

/-- `%F` -/
def isoDate (tm : Tm) : List Char :=
  number 0 (fullYear tm) ++ '-' :: (number 2 (tm.mon + 1) ++ '-' :: number 2 tm.mday)

/-- `%R` -/
def time (tm : Tm) : List Char := number 2 tm.hour ++ ':' :: number 2 tm.min

/-- `%T` -/
def timeSeconds (tm : Tm) : List Char := time tm ++ ':' :: number 2 tm.sec

/-- `%r` -/
def time12 (tm : Tm) : List Char :=
  number 2 (hour12 tm) ++ ':' :: (number 2 tm.min ++ ':' :: (number 2 tm.sec ++ ' ' :: halfDay tm))

/-- `%c` -/
def dateTime (tm : Tm) : List Char :=
  (weekday tm).take 3 ++ ' ' :: ((month tm).take 3 ++ ' ' :: (day tm ++ ' ' ::
    (timeSeconds tm ++ ' ' :: number 0 (fullYear tm))))

/-- The week of the year, where the first `weekStart` begins week 1 -/
def week (tm : Tm) (weekStart : Int) : Int := (tm.yday + 7 - (tm.wday - weekStart) % 7) / 7

/-- `%z`. The seconds are counted west of UTC. -/
def zone (timezone : Int) : List Char :=
  (if 0 < timezone then '-' else '+') ::
    (number 2 (timezone.natAbs / 3600) ++ number 2 (timezone.natAbs % 3600 / 60))

/-- The conversions without those of ISO weeks -/
def conversions : List Char := "aAbBcCdDeFhHIjmMnprRStTuUwWxXyYzZ%".toList

def expansion (timezone : Int) (tm : Tm) : Char → List Char
  | 'a' => (weekday tm).take 3
  | 'A' => weekday tm
  | 'b' => (month tm).take 3
  | 'B' => month tm
  | 'c' => dateTime tm
  | 'C' => number 2 (fullYear tm / 100)
  | 'd' => number 2 tm.mday
  | 'D' => date tm
  | 'e' => day tm
  | 'F' => isoDate tm
  | 'h' => (month tm).take 3
  | 'H' => number 2 tm.hour
  | 'I' => number 2 (hour12 tm)
  | 'j' => number 3 (tm.yday + 1)
  | 'm' => number 2 (tm.mon + 1)
  | 'M' => number 2 tm.min
  | 'n' => ['\n']
  | 'p' => halfDay tm
  | 'r' => time12 tm
  | 'R' => time tm
  | 'S' => number 2 tm.sec
  | 't' => ['\t']
  | 'T' => timeSeconds tm
  | 'u' => number 0 (if tm.wday = 0 then 7 else tm.wday)
  | 'U' => number 2 (week tm 0)
  | 'w' => number 0 tm.wday
  | 'W' => number 2 (week tm 1)
  | 'x' => date tm
  | 'X' => timeSeconds tm
  | 'y' => number 2 (fullYear tm % 100)
  | 'Y' => number 0 (fullYear tm)
  | 'z' => zone timezone
  | 'Z' => []
  | '%' => ['%']
  | _ => []

end Standard

/-! What the code gives -/

/-- The text of a format with room for everything -/
def expand (timezone : Int) (tm : Tm) (format : List Char) : List Char :=
  (pieces libpokPrint timezone tm format).expansion

/-- The text of a conversion -/
def converted (timezone : Int) (tm : Tm) (c : Char) : List Char :=
  (actionPieces libpokPrint timezone tm .done (tm.conversion timezone c)).expansion

variable {timezone : Int} {tm : Tm} {format spec text rest : List Char} {c : Char}

theorem expansion_stringPieces (ss : List (List Char)) (p : Pieces Char) :
    (stringPieces ss p).expansion = ss.flatten ++ p.expansion := by
  induction ss with
  | nil => rfl
  | cons s ss ih =>
    have hfold : stringPieces (s :: ss) p =
        if s.length = 0 then stringPieces ss p else .field s (stringPieces ss p) := rfl
    rw [hfold]
    split_ifs with hempty
    · rw [ih, List.length_eq_zero_iff.mp hempty]
      rfl
    · rw [Pieces.expansion, ih, List.flatten_cons, List.append_assoc]

theorem expansion_actionPieces (timezone : Int) (tm : Tm) (p : Pieces Char) (action : Tm.Action) :
    (actionPieces libpokPrint timezone tm p action).expansion =
      (actionPieces libpokPrint timezone tm .done action).expansion ++ p.expansion := by
  cases action with
  | strings ss => simp [actionPieces, expansion_stringPieces, Pieces.expansion]
  | printf format args => simp [actionPieces, Pieces.expansion]
  | format inner => simp [actionPieces, Pieces.expansion]

theorem expand_last (h : firstSpec format = none) : expand timezone tm format = format := by
  rw [expand, pieces_last h, expansion_stringPieces]
  simp [Pieces.expansion]

theorem expand_spec (h : firstSpec format = some (text, spec)) (hspec : skipModifiers spec = c :: rest) :
    expand timezone tm format = text ++ (converted timezone tm c ++ expand timezone tm rest) := by
  rw [expand, pieces_spec h hspec, Pieces.expansion, expansion_actionPieces]
  rfl

theorem expand_missed (h : firstSpec format = some (text, spec)) (hspec : skipModifiers spec = []) :
    expand timezone tm format = text := by
  rw [expand, pieces_missed h hspec]
  simp [Pieces.expansion]

@[simp] theorem expand_nil : expand timezone tm [] = [] := expand_last rfl

theorem expand_literal (hc : c ≠ '%') :
    expand timezone tm (c :: format) = c :: expand timezone tm format := by
  have hstep : firstSpec (c :: format) =
      (firstSpec format).map fun parts => (c :: parts.1, parts.2) := if_neg hc
  cases hfirst : firstSpec format with
  | none =>
    rw [hfirst] at hstep
    rw [expand_last hstep, expand_last hfirst]
  | some parts =>
    rw [hfirst] at hstep
    cases hspec : skipModifiers parts.2 with
    | nil => rw [expand_missed hstep hspec, expand_missed hfirst hspec]
    | cons d rest =>
      rw [expand_spec hstep hspec, expand_spec hfirst hspec]
      rfl

theorem expand_conversion (h : skipModifiers spec = c :: rest) :
    expand timezone tm ('%' :: spec) = converted timezone tm c ++ expand timezone tm rest := by
  have hfirst : firstSpec ('%' :: spec) = some ([], spec) := if_pos rfl
  rw [expand_spec hfirst h, List.nil_append]

theorem expand_plain (hE : c ≠ 'E') (hO : c ≠ 'O') :
    expand timezone tm ('%' :: c :: rest) = converted timezone tm c ++ expand timezone tm rest := by
  apply expand_conversion
  simp [skipModifiers, hE, hO]

/-! The texts of the library's `printf` -/

theorem print_of_nonneg {f : IntFormat} {x : Int} (hx : 0 ≤ x) :
    f.print x = padded f.width (if f.zero then '0' else ' ') x.toNat := by
  have habs : x.natAbs = x.toNat := by omega
  have hsign : ¬ x < 0 := by omega
  simp only [IntFormat.print, habs, hsign, if_false, List.nil_append, List.length_nil, Nat.zero_add,
    padded, List.leftpad]
  split_ifs <;> simp

theorem emitted_number (zero : Bool) (width : Nat) (x : BitVec 32) :
    printfEmitter .libpok none (PrintfDirective.number .d zero width (.int x)).text [.word x] =
      some ((IntFormat.print { zero := zero, width := width } x.toInt).map .char) := by
  have h := printfEmitter_standard .libpok [.number .d zero width (.int x)] []
  simpa [PrintfDirective.args, PrintfValue.arg, PrintfDirective.emitted, PrintfDirective.standard,
    PrintfConversion.standard, PrintfValue.signed] using h

/-- The precision of a number is passed over. -/
theorem emitted_precision (x : BitVec 32) :
    printfEmitter .libpok none "%.2d".toList [.word x] =
      some ((IntFormat.print {} x.toInt).map .char) := by
  have hread : printfEmitter .libpok none "%.2d".toList [.word x] =
      printfEmitter .libpok (some { precision := 2, wasDot := true }) ['d'] [.word x] := rfl
  have hpad : ({ precision := 2, wasDot := true } : HandleFmt).pad = (0 : Nat) := rfl
  have hconversion : HandleFmt.conversion .libpok { precision := 2, wasDot := true } 'd' [.word x] =
      some ((IntFormat.print {} x.toInt).map .char, []) :=
    conversion_signed (v := .int x) (Or.inl rfl) rfl hpad []
  rw [hread, printfEmitter_conversion rfl hconversion, printfEmitter, Option.map_some,
    List.append_nil]

/-- The flag of a plus sign ends a conversion, which is printed as it is. -/
theorem emitted_plus (x : BitVec 32) (more : List PrintfArg) :
    printfEmitter .libpok none "%+02d%02d".toList (.word x :: more) =
      some (("%+02d".toList ++ IntFormat.print { zero := true, width := 2 } x.toInt).map .char) := by
  have h := printfEmitter_standard .libpok [.number .d true 2 (.int x)] more
  have hread : printfEmitter .libpok none "%+02d%02d".toList (.word x :: more) =
      (printfEmitter .libpok none "%02d".toList (.word x :: more)).map
        ("%+02d".toList.map Emitted.char ++ ·) := by
    change (((((printfEmitter .libpok none "%02d".toList (.word x :: more)).map (_ :: ·)).map
      (_ :: ·)).map (_ :: ·)).map (_ ++ ·)) = _
    simp only [Option.map_map]
    rfl
  have hnumber : printfEmitter .libpok none "%02d".toList (.word x :: more) =
      some ((IntFormat.print { zero := true, width := 2 } x.toInt).map .char) := by
    have htext : "%02d".toList = (PrintfDirective.number .d true 2 (.int x)).text := rfl
    rw [htext]
    simpa [PrintfDirective.args, PrintfValue.arg, PrintfDirective.emitted, PrintfDirective.standard,
      PrintfConversion.standard, PrintfValue.signed] using h
  rw [hread, hnumber, Option.map_some, List.map_append]

/-- What the formats of `time_printf` are -/
theorem conversion_formats {format : List Char} {args : List PrintfArg}
    (h : tm.conversion timezone c = .printf format args) :
    (∃ zero width x, format = (PrintfDirective.number .d zero width (.int x)).text ∧
      args = [.word x]) ∨ (∃ x, format = "%.2d".toList ∧ args = [.word x]) ∨
      (∃ x y, format = "%+02d%02d".toList ∧ args = [.word x, .word y]) ∨
      format = "%s".toList ∧ args = [.str (some [])] := by
  unfold Tm.conversion at h
  split at h <;> simp only [Tm.Action.printf.injEq, reduceCtorEq] at h
  case h_9 =>
    obtain ⟨rfl, rfl⟩ := h
    exact Or.inr (Or.inl ⟨_, rfl, rfl⟩)
  case h_35 =>
    obtain ⟨rfl, rfl⟩ := h
    exact Or.inr (Or.inr (Or.inl ⟨_, _, rfl, rfl⟩))
  case h_36 =>
    obtain ⟨rfl, rfl⟩ := h
    exact Or.inr (Or.inr (Or.inr ⟨rfl, rfl⟩))
  all_goals
    obtain ⟨rfl, rfl⟩ := h
    apply Or.inl
    first
      | exact ⟨true, 2, _, rfl, rfl⟩
      | exact ⟨false, 0, _, rfl, rfl⟩
      | exact ⟨false, 2, _, rfl, rfl⟩
      | exact ⟨true, 3, _, rfl, rfl⟩

/-- All texts of `time_printf` have a result. -/
theorem libpokVsnprintf_follows (timezone : Int) (tm : Tm) :
    libpokVsnprintf.Follows libpokPrint timezone tm (2 ^ 31) := by
  intro c format args h str n hn
  obtain ⟨emitted, hemitted⟩ : ∃ emitted,
      printfEmitter .libpok none format args = some emitted := by
    rcases conversion_formats h with ⟨zero, width, x, rfl, rfl⟩ | ⟨x, rfl, rfl⟩ |
      ⟨x, y, rfl, rfl⟩ | ⟨rfl, rfl⟩
    · exact ⟨_, emitted_number zero width x⟩
    · exact ⟨_, emitted_precision x⟩
    · exact ⟨_, emitted_plus x [.word y]⟩
    · exact ⟨[], rfl⟩
  simp only [libpokVsnprintf, vsnprintf_eq hemitted str hn, standardVsnprintf, libpokPrint, hemitted,
    Option.getD_some, List.length_map]

theorem print_of_emitted {args : List PrintfArg}
    (h : printfEmitter .libpok none format args = some (text.map .char)) :
    libpokPrint format args = text := by
  rw [libpokPrint, h, Option.getD_some, map_byte_char]

theorem converted_printf {args : List PrintfArg} (h : tm.conversion timezone c = .printf format args) :
    converted timezone tm c = libpokPrint format args := by
  rw [converted, h]
  exact List.append_nil _

theorem converted_strings {ss : List (List Char)} (h : tm.conversion timezone c = .strings ss) :
    converted timezone tm c = ss.flatten := by
  rw [converted, h]
  simp [actionPieces, expansion_stringPieces, Pieces.expansion]

theorem converted_format {inner : List Char} (h : tm.conversion timezone c = .format inner) :
    converted timezone tm c = expand timezone tm inner := by
  rw [converted, h]
  exact List.append_nil _

theorem toInt_word {x : Int} (hlow : 0 ≤ x) (hhigh : x < 2 ^ 31) : (BitVec.ofInt 32 x).toInt = x := by
  rw [BitVec.toInt_ofInt]
  exact Int.bmod_eq_of_le (by omega) (by omega)

/-- A number that is not negative -/
theorem converted_number (zero : Bool) {width : Nat} {x : Int}
    (h : tm.conversion timezone c = .printf
      (PrintfDirective.number .d zero width (.int (BitVec.ofInt 32 x))).text [Tm.int x])
    (hlow : 0 ≤ x) (hhigh : x < 2 ^ 31) :
    converted timezone tm c = padded width (if zero then '0' else ' ') x.toNat := by
  rw [converted_printf h, Tm.int, print_of_emitted (emitted_number zero width _),
    toInt_word hlow hhigh, print_of_nonneg hlow]

theorem converted_zeros {w : Nat} {x : Int}
    (h : tm.conversion timezone c = .printf
      (PrintfDirective.number .d true w (.int (BitVec.ofInt 32 x))).text [Tm.int x])
    (hlow : 0 ≤ x) (hhigh : x < 2 ^ 31) : converted timezone tm c = Standard.number w x :=
  converted_number true h hlow hhigh

theorem converted_digits {x : Int}
    (h : tm.conversion timezone c = .printf
      (PrintfDirective.number .d false 0 (.int (BitVec.ofInt 32 x))).text [Tm.int x])
    (hlow : 0 ≤ x) (hhigh : x < 2 ^ 31) : converted timezone tm c = Standard.number 0 x := by
  rw [converted_number false h hlow hhigh, Standard.number, padded_of_le _ (Nat.zero_le _),
    padded_of_le _ (Nat.zero_le _)]

/-- The minus sign of `%F` -/
def minusBytes : List Char := "\u00e2\u0088\u0092".toList

namespace Tm.Valid

open Standard

variable (h : tm.Valid)

include h

theorem wday_range : 0 ≤ tm.wday ∧ tm.wday < 7 := by
  obtain ⟨-, hlow, hhigh, -⟩ := h.date.iso_facts
  exact ⟨hlow, hhigh⟩

theorem mday_range : 1 ≤ tm.mday ∧ tm.mday ≤ 31 := by
  obtain ⟨hlow, hhigh⟩ := h.date.mday
  have hmonth := h.date.month
  have hlt : tm.mon.toNat < 12 := by omega
  have hdays (leap : Bool) : ∀ i < 12, (daysInMonth leap).getD i 0 ≤ 31 := by
    cases leap <;> decide
  have hle := hdays (leapYear (tm.year + tm0Year)) _ hlt
  omega

theorem yday_range : 0 ≤ tm.yday ∧ tm.yday < 366 := by
  have hlt := h.date.ydayLt
  have hlow := h.date.ydayNonneg
  rw [daysInYear] at hlt
  split_ifs at hlt <;> omega

theorem converted_weekday :
    converted timezone tm 'A' = weekday tm ∧ converted timezone tm 'a' = (weekday tm).take 3 := by
  obtain ⟨hlow, hhigh⟩ := h.wday_range
  have hlt : tm.wday.toNat < 7 := by omega
  rw [converted_strings rfl, converted_strings rfl, entry, entry, weekday]
  generalize tm.wday.toNat = i at hlt
  interval_cases i <;> exact ⟨rfl, rfl⟩

theorem converted_abbrev : converted timezone tm 'b' = (month tm).take 3 := by
  obtain ⟨hlow, hhigh⟩ := h.date.month
  have hlt : tm.mon.toNat < 12 := by omega
  rw [converted_strings rfl, entry, month]
  generalize tm.mon.toNat = i at hlt
  interval_cases i <;> rfl

theorem converted_h : converted timezone tm 'h' = (month tm).take 3 := by
  have hformat : "%b".toList = ['%', 'b'] := rfl
  rw [converted_format rfl, hformat]
  simp [expand_plain, h.converted_abbrev]

theorem converted_month (hmon : tm.mon ≠ 1) : converted timezone tm 'B' = month tm := by
  obtain ⟨hlow, hhigh⟩ := h.date.month
  have hlt : tm.mon.toNat < 12 := by omega
  have hne : tm.mon.toNat ≠ 1 := by omega
  rw [converted_strings rfl, entry, month]
  generalize tm.mon.toNat = i at hlt hne
  interval_cases i
  case «1» => contradiction
  all_goals rfl

theorem converted_halfDay : converted timezone tm 'p' = halfDay tm := by
  obtain ⟨hlow, hhigh⟩ := h.hour
  have hdiv : tm.hour.tdiv 12 = tm.hour / 12 := Int.tdiv_eq_ediv_of_nonneg hlow
  rw [converted_strings rfl, hdiv, halfDay]
  rcases lt_or_ge tm.hour 12 with hlt | hge
  · have hzero : tm.hour / 12 = 0 := by omega
    rw [hzero, if_pos hlt]
    rfl
  · have hone : tm.hour / 12 = 1 := by omega
    rw [hone, if_neg (not_lt.mpr hge)]
    rfl

theorem converted_mday : converted timezone tm 'd' = number 2 tm.mday := by
  obtain ⟨hlow, hhigh⟩ := h.mday_range
  exact converted_zeros rfl (by omega) (by omega)

theorem converted_day : converted timezone tm 'e' = number 0 tm.mday := by
  obtain ⟨hlow, hhigh⟩ := h.mday_range
  rw [converted_printf rfl, Tm.int, print_of_emitted (emitted_precision _),
    toInt_word (by omega) (by omega), print_of_nonneg (by omega), number,
    padded_of_le _ (Nat.zero_le _), padded_of_le _ (Nat.zero_le _)]

theorem converted_year : converted timezone tm 'Y' = number 0 (fullYear tm) :=
  converted_digits rfl h.year.1 h.year.2

theorem converted_year2 : converted timezone tm 'y' = number 2 (fullYear tm % 100) := by
  have hmod : (tm.year + tm0Year).tmod 100 = fullYear tm % 100 := Int.tmod_eq_emod_of_nonneg h.year.1
  rw [← hmod]
  exact converted_zeros rfl (by omega) (by omega)

theorem converted_century : converted timezone tm 'C' = padded 2 ' ' (fullYear tm % 100).toNat := by
  have hmod : (tm.year + tm0Year).tmod 100 = fullYear tm % 100 := Int.tmod_eq_emod_of_nonneg h.year.1
  rw [← hmod]
  exact converted_number false rfl (by omega) (by omega)

theorem converted_mon : converted timezone tm 'm' = number 2 tm.mon := by
  obtain ⟨hlow, hhigh⟩ := h.date.month
  exact converted_zeros rfl hlow (by omega)

theorem converted_hour12 : converted timezone tm 'I' = number 2 (tm.hour % 12 + 1) := by
  have hmod : tm.hour.tmod 12 = tm.hour % 12 := Int.tmod_eq_emod_of_nonneg h.hour.1
  rw [← hmod]
  exact converted_zeros rfl (by omega) (by omega)

theorem converted_hour : converted timezone tm 'H' = number 2 tm.hour := by
  obtain ⟨hlow, hhigh⟩ := h.hour
  exact converted_zeros rfl hlow (by omega)

theorem converted_min : converted timezone tm 'M' = number 2 tm.min := by
  obtain ⟨hlow, hhigh⟩ := h.min
  exact converted_zeros rfl hlow (by omega)

theorem converted_sec : converted timezone tm 'S' = number 2 tm.sec := by
  obtain ⟨hlow, hhigh⟩ := h.sec
  exact converted_zeros rfl hlow (by omega)

theorem converted_time : converted timezone tm 'R' = time tm := by
  have hformat : "%H:%M".toList = ['%', 'H', ':', '%', 'M'] := rfl
  rw [converted_format rfl, hformat]
  simp [expand_plain, expand_literal, h.converted_hour, h.converted_min, time]

theorem converted_timeSeconds : converted timezone tm 'T' = timeSeconds tm := by
  have hformat : "%H:%M:%S".toList = ['%', 'H', ':', '%', 'M', ':', '%', 'S'] := rfl
  rw [converted_format rfl, hformat]
  simp [expand_plain, expand_literal, h.converted_hour, h.converted_min, h.converted_sec, time,
    timeSeconds]

theorem converted_X : converted timezone tm 'X' = timeSeconds tm := by
  have hformat : localeTimeC.timeFormat = ['%', 'T'] := rfl
  rw [converted_format rfl, hformat]
  simp [expand_plain, h.converted_timeSeconds]

theorem converted_date : converted timezone tm 'D' = number 2 tm.mon ++ '/' ::
    (number 2 tm.mday ++ '/' :: number 2 (fullYear tm % 100)) := by
  have hformat : "%m/%d/%y".toList = ['%', 'm', '/', '%', 'd', '/', '%', 'y'] := rfl
  rw [converted_format rfl, hformat]
  simp [expand_plain, expand_literal, h.converted_mon, h.converted_mday, h.converted_year2]

theorem converted_isoDate : converted timezone tm 'F' = number 0 (fullYear tm) ++ (minusBytes ++
    (number 2 tm.mon ++ (minusBytes ++ number 2 tm.mday))) := by
  have hformat : "%Y\u00e2\u0088\u0092%m\u00e2\u0088\u0092%d".toList =
      ['%', 'Y', '\u00e2', '\u0088', '\u0092', '%', 'm', '\u00e2', '\u0088', '\u0092', '%', 'd'] :=
    rfl
  rw [converted_format rfl, hformat]
  simp [expand_plain, expand_literal, h.converted_mon, h.converted_mday, h.converted_year,
    minusBytes]

theorem converted_time12 : converted timezone tm 'r' = number 2 (tm.hour % 12 + 1) ++ ':' ::
    (number 2 tm.min ++ ':' :: (number 2 tm.sec ++ ' ' :: halfDay tm)) := by
  have hformat : localeTimeC.time12Format =
      ['%', 'I', ':', '%', 'M', ':', '%', 'S', ' ', '%', 'p'] := rfl
  rw [converted_format rfl, hformat]
  simp [expand_plain, expand_literal, h.converted_hour12, h.converted_min, h.converted_sec,
    h.converted_halfDay]

theorem converted_dateTime : converted timezone tm 'c' = (weekday tm).take 3 ++ ' ' ::
    ((month tm).take 3 ++ ' ' :: (number 0 tm.mday ++ ' ' ::
      (timeSeconds tm ++ ' ' :: number 0 (fullYear tm)))) := by
  have hformat : localeTimeC.dateTimeFormat =
      ['%', 'a', ' ', '%', 'b', ' ', '%', 'e', ' ', '%', 'T', ' ', '%', 'Y'] := rfl
  rw [converted_format rfl, hformat]
  simp [expand_plain, expand_literal, h.converted_weekday, h.converted_abbrev, h.converted_day,
    h.converted_timeSeconds, h.converted_year]

theorem weekNumber_cases : tm.wday ≤ tm.yday ∧ tm.weekNumber = (tm.yday - tm.wday) / 7 ∨
    tm.yday < tm.wday ∧ 51 ≤ tm.weekNumber ∧ tm.weekNumber ≤ 53 := by
  obtain ⟨hlow, hhigh⟩ := h.wday_range
  obtain ⟨hfirst, hlast⟩ := h.yday_range
  have hstarts : (tm.yday - tm.wday + 7).tmod 7 = (tm.yday - tm.wday + 7) % 7 :=
    Int.tmod_eq_emod_of_nonneg (by omega)
  have hdays : daysInYear (tm.year + tm0Year - 1) = 365 ∨
      daysInYear (tm.year + tm0Year - 1) = 366 := by
    rw [daysInYear]
    split_ifs <;> simp
  have hmod : 0 ≤ (tm.yday - tm.wday + 7) % 7 ∧ (tm.yday - tm.wday + 7) % 7 < 7 := by omega
  simp only [weekNumber, hstarts]
  generalize daysInYear (tm.year + tm0Year - 1) = days at hdays
  have hprev : (days + 7 - (tm.yday - tm.wday + 7) % 7).tmod 7 =
      (days + 7 - (tm.yday - tm.wday + 7) % 7) % 7 := Int.tmod_eq_emod_of_nonneg (by omega)
  rw [hprev]
  split_ifs with hyear
  · rw [Int.tdiv_eq_ediv_of_nonneg (by omega)]
    omega
  · rw [Int.tdiv_eq_ediv_of_nonneg (by omega)]
    omega

theorem converted_weekNumber : converted timezone tm 'U' = number 0 tm.weekNumber ∧
    converted timezone tm 'W' = number 0 tm.weekNumber := by
  obtain ⟨hfirst, hlast⟩ := h.yday_range
  obtain ⟨hlow, hhigh⟩ := h.wday_range
  have hrange : 0 ≤ tm.weekNumber ∧ tm.weekNumber < 2 ^ 31 := by
    rcases h.weekNumber_cases with ⟨hle, heq⟩ | ⟨-, hlate, hmax⟩
    · omega
    · omega
  exact ⟨converted_digits rfl hrange.1 hrange.2, converted_digits rfl hrange.1 hrange.2⟩

theorem weekNumber_ne_week : tm.weekNumber.toNat ≠ (week tm 0).toNat := by
  obtain ⟨hlow, hhigh⟩ := h.wday_range
  obtain ⟨hfirst, -⟩ := h.yday_range
  rw [week]
  rcases h.weekNumber_cases with ⟨hle, heq⟩ | ⟨hlt, hlate, -⟩ <;> omega

theorem weekNumber_eq_week_iff :
    tm.weekNumber.toNat = (week tm 1).toNat ∧ 10 ≤ (week tm 1).toNat ↔
      tm.wday = 0 ∧ tm.yday % 7 ≠ 6 ∧ 70 ≤ tm.yday := by
  obtain ⟨hlow, hhigh⟩ := h.wday_range
  obtain ⟨hfirst, -⟩ := h.yday_range
  rw [week]
  rcases h.weekNumber_cases with ⟨hle, heq⟩ | ⟨hlt, hlate, -⟩ <;> omega

end Tm.Valid

/-! The offset from UTC -/

theorem converted_zone (timezone : Int) (tm : Tm) : converted timezone tm 'z' = "%+02d".toList ++
    IntFormat.print { zero := true, width := 2 } (BitVec.ofInt 32 (Tm.tzParts timezone).1).toInt := by
  rw [converted_printf rfl, Tm.int, Tm.int, print_of_emitted (emitted_plus _ _)]

theorem percent_mem_zone (timezone : Int) (tm : Tm) : '%' ∈ converted timezone tm 'z' := by
  rw [converted_zone]
  exact List.mem_append_left _ (by decide)

theorem length_print_le (x : BitVec 32) :
    (IntFormat.print { zero := true, width := 2 } x.toInt).length ≤ 11 := by
  have hrange : x.toInt.natAbs < 10 ^ 10 := by
    have hlow := x.le_toInt
    have hhigh := x.toInt_lt
    omega
  have hdigits : (Nat.toDigits 10 x.toInt.natAbs).length ≤ 10 :=
    (Nat.length_toDigits_le_iff (by decide) (by decide)).mpr hrange
  have hpos : 0 < (Nat.toDigits 10 x.toInt.natAbs).length := Nat.length_toDigits_pos
  simp only [IntFormat.print, if_true, List.length_append, List.length_replicate]
  split_ifs
  · simp only [List.length_singleton]
    omega
  · simp only [List.length_nil]
    omega

end Chpok
