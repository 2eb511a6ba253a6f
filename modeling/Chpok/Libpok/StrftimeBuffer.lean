import Chpok.Libpok.Strftime
import Mathlib.Data.List.GetD

/-! `strftime` stays in its buffer as long as no text comes without room. -/

namespace Chpok

open BoundedOutput TimeFormatState

/-- Strings of `time_print_string`, which prints no empty one -/
def stringPieces (ss : List (List Char)) (rest : Pieces Char) : Pieces Char :=
  ss.foldr (fun s rest => if s.length = 0 then rest else .field s rest) rest

/-- The pieces that a format gives, with the texts that `print` gives -/
def pieces (print : List Char → List PrintfArg → List Char) (timezone : Int) (tm : Tm)
    (format : List Char) : Pieces Char :=
  match hfirst : firstSpec format with
  | none => stringPieces [format] .done
  | some (text, spec) =>
    .text text
      (match hspec : skipModifiers spec with
        | [] => .done
        | c :: rest =>
          have := formatMeasure_spec hfirst hspec
          match hconversion : tm.conversion timezone c with
            | .strings ss => stringPieces ss (pieces print timezone tm rest)
            | .printf format args => .field (print format args) (pieces print timezone tm rest)
            | .format inner =>
              have := formatMeasure_conversion hconversion
              .level (pieces print timezone tm inner) (pieces print timezone tm rest))
termination_by formatMeasure format

/-- With room for up to `limit` bytes, the formats of `time_printf` are printed as the standard says
of the texts. -/
def Vsnprintf.Follows (vsnprintf : Vsnprintf) (print : List Char → List PrintfArg → List Char)
    (timezone : Int) (tm : Tm) (limit : Nat) : Prop :=
  ∀ c format args, tm.conversion timezone c = .printf format args → ∀ str, ∀ n ≤ limit,
    vsnprintf str n format args = standardVsnprintf print str n format args

variable {timezone : Int} {tm : Tm} {format s : List Char} {a b c : TimeFormatState}
  {v w : List Char} {o : Option (List Char)} {r : Bool × TimeFormatState}
  {vsnprintf : Vsnprintf} {print : List Char → List PrintfArg → List Char} {limit : Nat}

namespace TimeFormatState

/-- No byte outside of the room has changed. -/
def Within (a b : TimeFormatState) : Prop :=
  ∀ k, k < a.out ∨ a.out + a.n ≤ k → b.mem k = a.mem k

/-- The bytes `w` have been written. -/
structure Extends (a : TimeFormatState) (w : List Char) (b : TimeFormatState) : Prop where
  room : a.n = w.length + b.n
  out : b.out = a.out + w.length
  total : b.bytesUsedTotal = a.bytesUsedTotal + w.length
  written : ∀ i < w.length, b.mem (a.out + i) = w.getD i '\x00'
  within : Within a b

/-- How an operation ends, by what it should write -/
inductive Ends (a : TimeFormatState) : Option (List Char) → Bool × TimeFormatState → Prop
  | refused {b : TimeFormatState} (h : Within a b) : Ends a none (true, b)
  | written {b : TimeFormatState} {w : List Char} (h : Extends a w b) : Ends a (some w) (false, b)

theorem Within.refl (a : TimeFormatState) : Within a a := fun _ _ => rfl

theorem Extends.refl (a : TimeFormatState) : Extends a [] a where
  room := by simp
  out := by simp
  total := by simp
  written := by simp
  within := Within.refl a

theorem Extends.within_trans (hab : Extends a v b) (hbc : Within b c) : Within a c := by
  intro k hk
  have hroom := hab.room
  have hout := hab.out
  rw [hbc k (by omega), hab.within k hk]

theorem Extends.trans (hab : Extends a v b) (hbc : Extends b w c) : Extends a (v ++ w) c where
  room := by
    have hroom := hab.room
    have hroom' := hbc.room
    simp only [List.length_append]
    omega
  out := by
    simp only [hbc.out, hab.out, List.length_append, Nat.add_assoc]
  total := by
    simp only [hbc.total, hab.total, List.length_append, Nat.add_assoc]
  written := by
    intro i hi
    have hout := hab.out
    rcases Nat.lt_or_ge i v.length with hlt | hge
    · rw [hbc.within _ (by omega), hab.written i hlt, List.getD_append _ _ _ _ hlt]
    · have hlater := hbc.written (i - v.length) (by
        rw [List.length_append] at hi
        omega)
      have hpos : b.out + (i - v.length) = a.out + i := by omega
      rw [hpos] at hlater
      rw [hlater, List.getD_append_right _ _ _ _ hge]
  within := hab.within_trans hbc.within

theorem Ends.andThen {p : Pieces Char} {next : TimeFormatState → Bool × TimeFormatState}
    (h : Ends a o r) (ha : a.n ≤ limit) (hnext : ∀ b, b.n ≤ limit → Ends b (p.output b.n) (next b)) :
    Ends a (o.bind fun w => (p.output (a.n - w.length)).map (w ++ ·)) (andThen r next) := by
  cases h with
  | refused h => exact .refused h
  | @written b w h =>
    have hn : a.n - w.length = b.n := by
      have hroom := h.room
      omega
    have hend := hnext b (by omega)
    simp only [Option.bind_some, TimeFormatState.andThen, Bool.false_eq_true, if_false, hn]
    generalize p.output b.n = o', next b = r' at hend
    cases hend with
    | refused h' => exact .refused (h.within_trans h')
    | written h' => exact .written (h.trans h')

end TimeFormatState

theorem store_within (a : TimeFormatState) (h : s.length ≤ a.n) :
    Within a { a with mem := a.store s } := by
  intro k hk
  exact if_neg (by omega)

theorem store_at {i : Nat} (hi : i < s.length) : a.store s (a.out + i) = s.getD i '\x00' := by
  simp [store, hi]

theorem extends_advance (hwithin : Within a b) (hsame : b.out = a.out ∧ b.n = a.n ∧
    b.bytesUsedTotal = a.bytesUsedTotal) (hroom : s.length ≤ a.n)
    (hwritten : ∀ i < s.length, b.mem (a.out + i) = s.getD i '\x00') :
    Extends a s (b.advance s.length) where
  room := by
    simp only [advance, hsame]
    omega
  out := by simp only [advance, hsame]
  total := by simp only [advance, hsame]
  written := hwritten
  within := hwithin

theorem extends_copy (h : s.length ≤ a.n) : Extends a s (a.copy s) :=
  extends_advance (store_within a h) ⟨rfl, rfl, rfl⟩ h fun _ hi => store_at hi

theorem truncatedString_lt {str : Nat → Char} {n i : Nat} (h : s.length < n) (hi : i < s.length) :
    truncatedString str n s i = s.getD i '\x00' :=
  if_pos ⟨by omega, hi⟩

theorem truncatedString_outside {str : Nat → Char} {n i : Nat} (hi : n ≤ i) :
    truncatedString str n s i = str i := by
  rw [truncatedString, if_neg (by omega), if_neg (by omega)]

theorem within_stored (a : TimeFormatState) (s : List Char) :
    Within a (a.stored (truncatedString (fun i => a.mem (a.out + i)) a.n s)) := by
  intro k hk
  simp only [stored]
  split_ifs with hout
  · rw [truncatedString_outside (by omega), Nat.add_sub_cancel' hout]
  · rfl

theorem ends_timePrintf {args : List PrintfArg} (hprinted : ∀ str,
    vsnprintf str a.n format args = standardVsnprintf print str a.n format args) :
    Ends a (if a.n ≤ (print format args).length then none else some (print format args))
      (timePrintf vsnprintf format args a) := by
  rw [timePrintf, hprinted, standardVsnprintf]
  generalize print format args = s
  have hwithin := within_stored a s
  dsimp only
  split_ifs with hroom
  · exact .refused hwithin
  · apply Ends.written
    apply extends_advance hwithin ⟨rfl, rfl, rfl⟩ (by omega)
    intro i hi
    simp only [stored]
    rw [if_pos (Nat.le_add_right _ _), Nat.add_sub_cancel_left,
      truncatedString_lt (Nat.lt_of_not_le hroom) hi]

theorem ends_timePrintString (a : TimeFormatState) (s : List Char) :
    Ends a (if s.length = 0 then some [] else if a.n ≤ s.length then none else some s)
      (timePrintString s a) := by
  simp only [timePrintString, ge_iff_le]
  split_ifs with hempty hroom
  · exact .written (Extends.refl a)
  · exact .refused (Within.refl a)
  · exact .written (extends_copy (by omega))

theorem andThen_assoc (r : Bool × TimeFormatState)
    (next later : TimeFormatState → Bool × TimeFormatState) :
    andThen (andThen r next) later = andThen r fun b => andThen (next b) later := by
  simp only [TimeFormatState.andThen]
  split_ifs <;> rfl

theorem output_field (s : List Char) (p : Pieces Char) (n : Nat) : (Pieces.field s p).output n =
    (if n ≤ s.length then none else some s).bind fun w =>
      (p.output (n - w.length)).map (w ++ ·) := by
  rw [Pieces.output]
  split_ifs <;> rfl

theorem output_stringPieces_cons (s : List Char) (ss : List (List Char)) (p : Pieces Char)
    (n : Nat) : (stringPieces (s :: ss) p).output n =
      (if s.length = 0 then some [] else if n ≤ s.length then none else some s).bind fun w =>
        ((stringPieces ss p).output (n - w.length)).map (w ++ ·) := by
  rcases Nat.eq_zero_or_pos s.length with hempty | hpos
  · have hskip : stringPieces (s :: ss) p = stringPieces ss p := if_pos hempty
    simp [hskip, hempty]
  · have hfield : stringPieces (s :: ss) p = .field s (stringPieces ss p) := if_neg (by omega)
    rw [hfield, output_field, if_neg (by omega : ¬ s.length = 0)]

theorem ends_timePrintStrings (ss : List (List Char)) {p : Pieces Char}
    {next : TimeFormatState → Bool × TimeFormatState}
    (hnext : ∀ b, b.n ≤ limit → Ends b (p.output b.n) (next b)) (a : TimeFormatState)
    (ha : a.n ≤ limit) :
    Ends a ((stringPieces ss p).output a.n) (andThen (timePrintStrings ss a) next) := by
  induction ss generalizing a with
  | nil => exact hnext a ha
  | cons s ss ih =>
    rw [timePrintStrings, andThen_assoc, output_stringPieces_cons]
    exact (ends_timePrintString a s).andThen ha ih

/-- The case of the `switch` -/
def runAction (vsnprintf : Vsnprintf) (timezone : Int) (tm : Tm) (tfs : TimeFormatState) :
    Tm.Action → Bool × TimeFormatState
  | .strings ss => timePrintStrings ss tfs
  | .printf format args => timePrintf vsnprintf format args tfs
  | .format inner => timeFormat vsnprintf timezone tm inner tfs

def actionPieces (print : List Char → List PrintfArg → List Char) (timezone : Int) (tm : Tm)
    (rest : Pieces Char) : Tm.Action → Pieces Char
  | .strings ss => stringPieces ss rest
  | .printf format args => .field (print format args) rest
  | .format inner => .level (pieces print timezone tm inner) rest

theorem timeFormat_last (h : firstSpec format = none) :
    timeFormat vsnprintf timezone tm format a = timePrintString format a := by
  rw [timeFormat]
  grind

theorem timeFormat_missed {text spec : List Char} (h : firstSpec format = some (text, spec))
    (hspec : skipModifiers spec = []) : timeFormat vsnprintf timezone tm format a =
      if text.length > a.n then (false, a) else (false, a.copy text) := by
  rw [timeFormat]
  grind

theorem timeFormat_spec {text spec rest : List Char} {c : Char}
    (h : firstSpec format = some (text, spec)) (hspec : skipModifiers spec = c :: rest) :
    timeFormat vsnprintf timezone tm format a =
      if text.length > a.n then (false, a)
      else andThen (runAction vsnprintf timezone tm (a.copy text) (tm.conversion timezone c))
        (timeFormat vsnprintf timezone tm rest) := by
  rw [timeFormat]
  grind [runAction]

theorem pieces_last (h : firstSpec format = none) :
    pieces print timezone tm format = stringPieces [format] .done := by
  rw [pieces]
  grind

theorem pieces_missed {text spec : List Char} (h : firstSpec format = some (text, spec))
    (hspec : skipModifiers spec = []) : pieces print timezone tm format = .text text .done := by
  rw [pieces]
  grind

theorem pieces_spec {text spec rest : List Char} {c : Char}
    (h : firstSpec format = some (text, spec)) (hspec : skipModifiers spec = c :: rest) :
    pieces print timezone tm format = .text text
      (actionPieces print timezone tm (pieces print timezone tm rest) (tm.conversion timezone c)) := by
  rw [pieces]
  grind [actionPieces]

theorem extends_text {text : List Char} {p : Pieces Char}
    {next : TimeFormatState → Bool × TimeFormatState}
    (hnext : ∀ b, b.n ≤ limit → Ends b (p.output b.n) (next b)) (a : TimeFormatState)
    (ha : a.n ≤ limit) :
    Ends a ((Pieces.text text p).output a.n)
      (if text.length > a.n then (false, a) else next (a.copy text)) := by
  rw [Pieces.output]
  split_ifs with hroom
  · exact .written (Extends.refl a)
  · have hcopy : Ends a (some text) (false, a.copy text) := .written (extends_copy (by omega))
    exact hcopy.andThen ha hnext

/-- What a format gives is written, or it is refused. -/
theorem ends_timeFormat (hfollows : vsnprintf.Follows print timezone tm limit) (format : List Char)
    (a : TimeFormatState) (ha : a.n ≤ limit) :
    Ends a ((pieces print timezone tm format).output a.n) (timeFormat vsnprintf timezone tm format a) := by
  induction hm : formatMeasure format using Nat.strongRecOn generalizing format a with
  | ind m ih =>
    subst hm
    have hdone (b : TimeFormatState) (_ : b.n ≤ limit) :
        Ends b ((Pieces.done : Pieces Char).output b.n) (false, b) := .written (Extends.refl b)
    cases hfirst : firstSpec format with
    | none =>
      have hlast := (ends_timePrintString a format).andThen ha hdone
      have hend : andThen (timePrintString format a) (false, ·) = timePrintString format a := by
        rw [timePrintString]
        split_ifs <;> rfl
      rw [timeFormat_last hfirst, pieces_last hfirst, output_stringPieces_cons]
      rwa [hend] at hlast
    | some parts =>
      obtain ⟨text, spec⟩ := parts
      cases hspec : skipModifiers spec with
      | nil =>
        rw [timeFormat_missed hfirst hspec, pieces_missed hfirst hspec]
        exact extends_text hdone a ha
      | cons c rest =>
        have hlt := formatMeasure_spec hfirst hspec
        have hrest := fun b hb =>
          ih _ (Nat.lt_of_le_of_lt (Nat.le_add_right _ _) hlt) rest b hb rfl
        have haction (b : TimeFormatState) (hb : b.n ≤ limit) :
            Ends b ((actionPieces print timezone tm (pieces print timezone tm rest)
              (tm.conversion timezone c)).output b.n)
              (andThen (runAction vsnprintf timezone tm b (tm.conversion timezone c))
                (timeFormat vsnprintf timezone tm rest)) := by
          cases hconversion : tm.conversion timezone c with
          | strings ss => exact ends_timePrintStrings ss hrest b hb
          | printf format args =>
            rw [actionPieces, output_field]
            have hprinted := fun str => hfollows c format args hconversion str b.n hb
            exact (ends_timePrintf hprinted).andThen hb hrest
          | format inner =>
            have hle := formatMeasure_conversion hconversion
            have hinner := ih _ (by omega) inner b hb rfl
            exact hinner.andThen hb hrest
        rw [timeFormat_spec hfirst hspec, pieces_spec hfirst hspec]
        exact extends_text haction a ha

/-- The call writes inside the buffer only. With room for the expansion and a null, they are in the
buffer and the length is returned, otherwise 0. -/
def RespectsBuffer (print : List Char → List PrintfArg → List Char) (timezone : Int) (tm : Tm)
    (format : List Char) (maxsize : Nat) : Prop :=
  let expansion := (pieces print timezone tm format).expansion
  ∀ mem : Nat → Char,
    let result := strftime (standardVsnprintf print) timezone mem maxsize format tm
    (∀ k, maxsize ≤ k → result.2 k = mem k) ∧
      if expansion.length < maxsize then
        result.1 = expansion.length ∧
          (∀ i < expansion.length, result.2 i = expansion.getD i '\x00') ∧
          result.2 expansion.length = '\x00'
      else result.1 = 0

variable {maxsize : Nat}

theorem strftime_refused (hfollows : vsnprintf.Follows print timezone tm limit)
    (mem : Nat → Char) (hmax : maxsize ≤ limit)
    (h : (pieces print timezone tm format).output maxsize = none) :
    (strftime vsnprintf timezone mem maxsize format tm).1 = 0 ∧
      ∀ k, maxsize ≤ k → (strftime vsnprintf timezone mem maxsize format tm).2 k = mem k := by
  have hends := ends_timeFormat hfollows format ⟨0, maxsize, 0, mem⟩ hmax
  rw [strftime]
  split_ifs with hzero
  · exact ⟨rfl, fun _ _ => rfl⟩
  · simp only [h] at hends
    generalize timeFormat vsnprintf timezone tm format ⟨0, maxsize, 0, mem⟩ = r at hends
    cases hends with
    | refused hwithin =>
      constructor
      · rfl
      · intro k hk
        apply hwithin
        right
        simpa using hk

theorem strftime_written (hfollows : vsnprintf.Follows print timezone tm limit)
    (mem : Nat → Char) (hmax : maxsize ≤ limit) (hpos : 0 < maxsize)
    (h : (pieces print timezone tm format).output maxsize = some w) :
    (strftime vsnprintf timezone mem maxsize format tm).1 = w.length ∧
      (∀ i < w.length, (strftime vsnprintf timezone mem maxsize format tm).2 i = w.getD i '\x00') ∧
      (strftime vsnprintf timezone mem maxsize format tm).2 w.length = '\x00' ∧
      ∀ k, maxsize ≤ k → k ≠ w.length →
        (strftime vsnprintf timezone mem maxsize format tm).2 k = mem k := by
  have hends := ends_timeFormat hfollows format ⟨0, maxsize, 0, mem⟩ hmax
  rw [strftime, if_neg (by omega : ¬ maxsize = 0)]
  simp only [h] at hends
  generalize timeFormat vsnprintf timezone tm format ⟨0, maxsize, 0, mem⟩ = r at hends
  cases hends with
  | @written b w hext =>
    have hout : b.out = w.length := by simpa using hext.out
    simp only [hout]
    refine ⟨?_, ?_, ?_, ?_⟩
    · simpa using hext.total
    · intro i hi
      have hwritten := hext.written i hi
      rw [Function.update_of_ne (by omega)]
      simpa using hwritten
    · rw [Function.update_self]
    · intro k hk hne
      rw [Function.update_of_ne hne]
      apply hext.within
      right
      simpa using hk

theorem standardVsnprintf_follows (print : List Char → List PrintfArg → List Char) (timezone : Int)
    (tm : Tm) (limit : Nat) : (standardVsnprintf print).Follows print timezone tm limit :=
  fun _ _ _ _ _ _ _ => rfl

/-- A call respects its buffer unless a text has no room behind other output, or a percent sign
ends the format where the buffer is full. -/
theorem strftime_buffer (print : List Char → List PrintfArg → List Char) (timezone : Int) (tm : Tm)
    (format : List Char) (maxsize : Nat) : RespectsBuffer print timezone tm format maxsize ↔
      maxsize = 0 ∨ (pieces print timezone tm format).expansion.length < maxsize ∨
        ∀ n, (pieces print timezone tm format).left maxsize = some n → n = maxsize := by
  have hfollows := standardVsnprintf_follows print timezone tm maxsize
  rcases Nat.eq_zero_or_pos maxsize with rfl | hpos
  · simp [RespectsBuffer, strftime]
  rcases Nat.lt_or_ge (pieces print timezone tm format).expansion.length maxsize with hfits | hover
  · apply iff_of_true _ (.inr (.inl hfits))
    intro mem
    obtain ⟨hlength, hbytes, hnull, hkept⟩ :=
      strftime_written hfollows mem le_rfl hpos (Pieces.output_of_lt hfits)
    exact ⟨fun k hk => hkept k hk (by omega), (if_pos hfits).mpr ⟨hlength, hbytes, hnull⟩⟩
  · have hleft := (pieces print timezone tm format).left_eq maxsize
    cases hout : (pieces print timezone tm format).output maxsize with
    | none =>
      rw [hout, Option.map_none] at hleft
      apply iff_of_true
      · intro mem
        obtain ⟨hzero, hkept⟩ := strftime_refused hfollows mem le_rfl hout
        exact ⟨hkept, (if_neg (by omega)).mpr hzero⟩
      · simp [hleft]
    | some w =>
      rw [hout, Option.map_some] at hleft
      have hle := Pieces.output_length_le hout
      have hroom : (∀ n, (pieces print timezone tm format).left maxsize = some n → n = maxsize) ↔
          w.length = 0 := by
        simp only [hleft, Option.some.injEq, forall_eq']
        omega
      rw [hroom]
      constructor
      · intro h
        obtain ⟨-, hresult⟩ := h fun _ => '\x00'
        obtain ⟨hlength, -⟩ := strftime_written hfollows (fun _ => '\x00') le_rfl hpos hout
        rw [if_neg (by omega), hlength] at hresult
        exact .inr (.inr hresult)
      · rintro (hzero | hfits | hempty) mem
        · omega
        · omega
        · obtain ⟨hlength, -, -, hkept⟩ := strftime_written hfollows mem le_rfl hpos hout
          exact ⟨fun k hk => hkept k hk (by omega), (if_neg (by omega)).mpr (by omega)⟩

/-- A date of the counterexample -/
def newYear1970 : Tm :=
  { sec := 0, min := 0, hour := 0, mday := 1, mon := 0, year := 70, wday := 4, yday := 0, isdst := 0 }

/-- The text of a call of the library's `vsnprintf` that has a result -/
def libpokPrint (format : List Char) (args : List PrintfArg) : List Char :=
  ((printfEmitter .libpok none format args).getD []).map Emitted.byte

theorem pieces_twoDays : pieces libpokPrint 0 newYear1970 "%dabcdef%d".toList =
    .text [] (.field "01".toList (.text "abcdef".toList (.field "01".toList .done))) := by
  have hfirst : firstSpec "%dabcdef%d".toList = some ([], "dabcdef%d".toList) := by decide
  have hskip : skipModifiers "dabcdef%d".toList = 'd' :: "abcdef%d".toList := by decide
  have hsecond : firstSpec "abcdef%d".toList = some ("abcdef".toList, ['d']) := by decide
  have hend : firstSpec [] = none := rfl
  have hday (rest : Pieces Char) : actionPieces libpokPrint 0 newYear1970 rest
      (newYear1970.conversion 0 'd') = .field "01".toList rest := by rfl
  rw [pieces_spec hfirst hskip, pieces_spec hsecond rfl, pieces_last hend, hday, hday]
  rfl

/-- The text is cut off between two days of the month. -/
theorem strftime_buffer_fails :
    ¬ RespectsBuffer libpokPrint 0 newYear1970 "%dabcdef%d".toList 4 := by
  intro h
  have hout : (pieces libpokPrint 0 newYear1970 "%dabcdef%d".toList).output 4 =
      some "01".toList := by
    rw [pieces_twoDays]
    decide
  obtain ⟨-, hresult⟩ := h fun _ => '\x00'
  obtain ⟨hlength, -⟩ := strftime_written (standardVsnprintf_follows libpokPrint 0 newYear1970 4)
    (fun _ => '\x00') le_rfl (by decide) hout
  rw [pieces_twoDays, if_neg (by decide), hlength] at hresult
  contradiction

end Chpok
