import Chpok.Libpok.IsoWeek
import Chpok.Libpok.Stdio
import Chpok.Library.BoundedOutput

/-! `strftime` (`libpok/libc/time/strftime.c`) in the C locale. The end of a list is the
terminating null of a string, a position in the buffer is an offset from its beginning. -/

namespace Chpok

/-- `struct locale_time` -/
structure LocaleTime where
  weekday : List (List Char)
  weekdayAbbrev : List (List Char)
  month : List (List Char)
  monthAbbrev : List (List Char)
  dateTimeFormat : List Char
  amPm : List (List Char)
  time12Format : List Char
  dateFormat : List Char
  timeFormat : List Char
  tzName : List Char

/-- `locale_time_c`, to which `current_locale_time` points -/
def localeTimeC : LocaleTime where
  weekday := ["Sunday".toList, "Monday".toList, "Tuesday".toList, "Wednesday".toList,
    "Thursday".toList, "Friday".toList, "Saturday".toList]
  weekdayAbbrev := ["Sun".toList, "Mon".toList, "Tue".toList, "Wed".toList, "Thu".toList,
    "Fri".toList, "Sat".toList]
  month := ["January".toList, "Febriary".toList, "March".toList, "April".toList, "May".toList,
    "June".toList, "July".toList, "August".toList, "September".toList, "October".toList,
    "November".toList, "December".toList]
  monthAbbrev := ["Jan".toList, "Feb".toList, "Mar".toList, "Apr".toList, "May".toList,
    "Jun".toList, "Jul".toList, "Aug".toList, "Sep".toList, "Oct".toList, "Nov".toList,
    "Dec".toList]
  dateTimeFormat := "%a %b %e %T %Y".toList
  amPm := ["AM".toList, "PM".toList]
  time12Format := "%I:%M:%S %p".toList
  dateFormat := "%m/%d/%y".toList
  timeFormat := "%T".toList
  tzName := []

/-- `vsnprintf` where it has a result: the memory from the beginning of the string on, and how long
the text is -/
abbrev Vsnprintf := (Nat → Char) → Nat → List Char → List PrintfArg → (Nat → Char) × Nat

/-- A `vsnprintf` that stores as the C standard says, of the texts that `print` gives -/
def standardVsnprintf (print : List Char → List PrintfArg → List Char) : Vsnprintf :=
  fun str n format args => (truncatedString str n (print format args), (print format args).length)

/-- The `vsnprintf` of the library -/
def libpokVsnprintf : Vsnprintf := fun str n format args =>
  (vsnprintf str n format args).getD (str, 0)

/-- An element of a table of strings -/
def entry (table : List (List Char)) (i : Int) : List Char := table.getD i.toNat []

namespace Tm

/-- `week_number`, which makes no use of `first_week_day` -/
def weekNumber (tm : Tm) : Int :=
  let weekStarts := (tm.yday - tm.wday + 7).tmod 7
  if tm.yday ≥ weekStarts then (tm.yday - weekStarts).tdiv 7
  else
    let daysInPrevYear := daysInYear (tm.year + tm0Year - 1)
    let weekPrevStarts := (daysInPrevYear + 7 - weekStarts).tmod 7
    (tm.yday + daysInPrevYear - weekPrevStarts).tdiv 7

/-- `tz_hours` and `tz_minutes_abs` -/
def tzParts (timezone : Int) : Int × Int :=
  if timezone ≥ 0 then
    let tzHours := timezone.tdiv 60
    (tzHours, timezone - tzHours * 60)
  else
    let tzHours := (-(-timezone)).tdiv 60
    (tzHours, tzHours * 60 - timezone)

/-- What a case of the `switch` does: strings one after the other, a call of `time_printf`, or
another format -/
inductive Action where
  | strings (ss : List (List Char))
  | printf (format : List Char) (args : List PrintfArg)
  | format (inner : List Char)

/-- An `int` as an argument -/
def int (x : Int) : PrintfArg := .word (BitVec.ofInt 32 x)

/-- The `switch` over the character behind the modifiers. A percent sign falls through to the
default case. -/
def conversion (timezone : Int) (tm : Tm) : Char → Action
  | 'a' => .strings [entry localeTimeC.weekdayAbbrev tm.wday]
  | 'A' => .strings [entry localeTimeC.weekday tm.wday]
  | 'b' => .strings [entry localeTimeC.monthAbbrev tm.mon]
  | 'B' => .strings [entry localeTimeC.month tm.mon]
  | 'c' => .format localeTimeC.dateTimeFormat
  | 'C' => .printf "%2d".toList [int ((tm.year + tm0Year).tmod 100)]
  | 'd' => .printf "%02d".toList [int tm.mday]
  | 'D' => .format "%m/%d/%y".toList
  | 'e' => .printf "%.2d".toList [int tm.mday]
  -- the signs between the parts are the three bytes of a minus sign
  | 'F' => .format "%Y\u00e2\u0088\u0092%m\u00e2\u0088\u0092%d".toList
  | 'g' => .printf "%02d".toList [int (tm.weakBasedYear.tmod 100)]
  | 'G' => .printf "%d".toList [int (tm.weakBasedYear.tmod 100)]
  | 'h' => .format "%b".toList
  | 'H' => .printf "%02d".toList [int tm.hour]
  | 'I' => .printf "%02d".toList [int (tm.hour.tmod 12 + 1)]
  | 'j' => .printf "%03d".toList [int tm.yday]
  | 'm' => .printf "%02d".toList [int tm.mon]
  | 'M' => .printf "%02d".toList [int tm.min]
  | 'n' => .strings ["\n".toList]
  | 'p' => .strings [entry localeTimeC.amPm (tm.hour.tdiv 12)]
  | 'r' => .format localeTimeC.time12Format
  | 'R' => .format "%H:%M".toList
  | 'S' => .printf "%02d".toList [int tm.sec]
  | 't' => .strings ["\t".toList]
  | 'T' => .format "%H:%M:%S".toList
  | 'u' => .printf "%d".toList [int ((tm.wday + 6).tmod 7 + 1)]
  | 'U' => .printf "%d".toList [int tm.weekNumber]
  | 'V' => .printf "%02d".toList [int (tm.weakBasedWeek + 1)]
  | 'w' => .printf "%d".toList [int tm.wday]
  | 'W' => .printf "%d".toList [int tm.weekNumber]
  | 'x' => .format localeTimeC.dateFormat
  | 'X' => .format localeTimeC.timeFormat
  | 'y' => .printf "%02d".toList [int ((tm.year + tm0Year).tmod 100)]
  | 'Y' => .printf "%d".toList [int (tm.year + tm0Year)]
  | 'z' => .printf "%+02d%02d".toList [int (tzParts timezone).1, int (tzParts timezone).2]
  | 'Z' => .printf "%s".toList [.str (some localeTimeC.tzName)]
  | '%' => .strings ["%".toList, "??".toList]
  | _ => .strings ["??".toList]

end Tm

/-- `struct time_format_state`, less the format, and the memory from the beginning of the buffer -/
structure TimeFormatState where
  out : Nat
  n : Nat
  bytesUsedTotal : Nat
  mem : Nat → Char

namespace TimeFormatState

/-- Bytes are stored at `out`. -/
def store (tfs : TimeFormatState) (s : List Char) : Nat → Char := fun k =>
  if tfs.out ≤ k ∧ k < tfs.out + s.length then s.getD (k - tfs.out) '\x00' else tfs.mem k

/-- The position is advanced. -/
def advance (tfs : TimeFormatState) (bytesNeeded : Nat) : TimeFormatState :=
  { tfs with
    out := tfs.out + bytesNeeded
    n := tfs.n - bytesNeeded
    bytesUsedTotal := tfs.bytesUsedTotal + bytesNeeded }

/-- `memcpy` to `out` -/
def copy (tfs : TimeFormatState) (s : List Char) : TimeFormatState :=
  { tfs with mem := tfs.store s }.advance s.length

/-- What `vsnprintf` has stored from `out` on -/
def stored (tfs : TimeFormatState) (str : Nat → Char) : TimeFormatState :=
  { tfs with mem := fun k => if tfs.out ≤ k then str (k - tfs.out) else tfs.mem k }

/-- Without an error the next operation goes on. -/
def andThen (r : Bool × TimeFormatState) (next : TimeFormatState → Bool × TimeFormatState) :
    Bool × TimeFormatState :=
  if r.1 then r else next r.2

end TimeFormatState

open TimeFormatState

/-- `time_printf` -/
def timePrintf (vsnprintf : Vsnprintf) (format : List Char) (args : List PrintfArg)
    (tfs : TimeFormatState) : Bool × TimeFormatState :=
  let (str, bytesNeeded) := vsnprintf (fun i => tfs.mem (tfs.out + i)) tfs.n format args
  if bytesNeeded ≥ tfs.n then (true, tfs.stored str)
  else (false, (tfs.stored str).advance bytesNeeded)

/-- `time_print_string` -/
def timePrintString (s : List Char) (tfs : TimeFormatState) : Bool × TimeFormatState :=
  if s.length = 0 then (false, tfs)
  else if s.length ≥ tfs.n then (true, tfs)
  else (false, tfs.copy s)

/-- Calls of `time_print_string` -/
def timePrintStrings : List (List Char) → TimeFormatState → Bool × TimeFormatState
  | [], tfs => (false, tfs)
  | s :: ss, tfs => andThen (timePrintString s tfs) (timePrintStrings ss)

/-- The text before the first percent sign, and what comes behind it -/
def firstSpec : List Char → Option (List Char × List Char)
  | [] => none
  | c :: format =>
    if c = '%' then some ([], format)
    else (firstSpec format).map fun parts => (c :: parts.1, parts.2)

/-- The modifiers are ignored. -/
def skipModifiers : List Char → List Char
  | [] => []
  | c :: format => if c = 'E' ∨ c = 'O' then skipModifiers format else c :: format

/-- A bound on the characters of the formats that a character stands for -/
def formatCost : Char → Nat
  | 'c' => 24
  | 'D' => 9
  | 'F' => 13
  | 'h' => 3
  | 'r' => 12
  | 'R' => 6
  | 'T' => 9
  | 'x' => 9
  | 'X' => 12
  | _ => 0

/-- What is left to do for a format -/
def formatMeasure (format : List Char) : Nat := format.length + (format.map formatCost).sum

theorem firstSpec_eq {format text spec : List Char} (h : firstSpec format = some (text, spec)) :
    format = text ++ '%' :: spec := by
  induction format generalizing text with
  | nil => simp [firstSpec] at h
  | cons c format ih =>
    simp only [firstSpec] at h
    split_ifs at h with hc
    · simp only [Option.some.injEq, Prod.mk.injEq] at h
      simp [← h, hc]
    · obtain ⟨⟨text', spec'⟩, hparts, hsome⟩ := Option.map_eq_some_iff.mp h
      simp only [Prod.mk.injEq] at hsome
      obtain ⟨rfl, rfl⟩ := hsome
      simp [ih hparts]

theorem formatMeasure_skipModifiers (spec : List Char) :
    formatMeasure (skipModifiers spec) ≤ formatMeasure spec := by
  induction spec with
  | nil => simp [skipModifiers]
  | cons c spec ih =>
    rw [skipModifiers]
    split_ifs with hc
    · simp only [formatMeasure, List.length_cons, List.map_cons, List.sum_cons] at ih ⊢
      omega
    · rfl

theorem formatMeasure_spec {format text spec : List Char} {c : Char} {rest : List Char}
    (hfirst : firstSpec format = some (text, spec)) (hspec : skipModifiers spec = c :: rest) :
    formatMeasure rest + formatCost c < formatMeasure format := by
  have hle := formatMeasure_skipModifiers spec
  rw [hspec] at hle
  rw [firstSpec_eq hfirst]
  simp only [formatMeasure, List.length_cons, List.length_append, List.map_cons, List.map_append,
    List.sum_cons, List.sum_append] at hle ⊢
  omega

theorem formatMeasure_conversion {timezone : Int} {tm : Tm} {c : Char} {inner : List Char}
    (h : tm.conversion timezone c = .format inner) : formatMeasure inner ≤ formatCost c := by
  unfold Tm.conversion at h
  split at h <;> simp only [Tm.Action.format.injEq, reduceCtorEq] at h <;> subst h <;> decide

/-- `time_format` -/
def timeFormat (vsnprintf : Vsnprintf) (timezone : Int) (tm : Tm) (format : List Char)
    (tfs : TimeFormatState) : Bool × TimeFormatState :=
  match hfirst : firstSpec format with
  | none => timePrintString format tfs
  | some (text, spec) =>
    if text.length > tfs.n then (false, tfs)
    else
      match hspec : skipModifiers spec with
      -- the specifier after the percent sign is missed
      | [] => (false, tfs.copy text)
      | c :: rest =>
        have := formatMeasure_spec hfirst hspec
        andThen
          (match hconversion : tm.conversion timezone c with
            | .strings ss => timePrintStrings ss (tfs.copy text)
            | .printf format args => timePrintf vsnprintf format args (tfs.copy text)
            | .format inner =>
              have := formatMeasure_conversion hconversion
              timeFormat vsnprintf timezone tm inner (tfs.copy text))
          (timeFormat vsnprintf timezone tm rest)
termination_by formatMeasure format

/-- `strftime`, and the memory after it -/
def strftime (vsnprintf : Vsnprintf) (timezone : Int) (mem : Nat → Char) (maxsize : Nat)
    (format : List Char) (tm : Tm) : Nat × (Nat → Char) :=
  if maxsize = 0 then (0, mem)
  else
    match timeFormat vsnprintf timezone tm format { out := 0, n := maxsize, bytesUsedTotal := 0, mem } with
    | (true, tfs) => (0, tfs.mem)
    | (false, tfs) => (tfs.bytesUsedTotal, Function.update tfs.mem tfs.out '\x00')

end Chpok
