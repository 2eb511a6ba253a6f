import Chpok.Libpok.PrintfStandard
import Chpok.Library.Run
import Mathlib.Tactic.SplitIfs

/-! Streams of characters (`libpok/libc/stdio/stream.c`, `printf.c`, `puts.c`, `putchar.c`) and
output to strings (`sprintf.c`). -/

namespace Chpok

/-- `_IOFBF`, `_IOLBF` and `_IONBF` -/
inductive BufferMode where
  | full
  | line
  | none
  deriving DecidableEq, Repr

/-- `struct stdio_stream`, with the pieces that `write_bytes` has been given. The buffer is what it
holds before `buffer_pos`. -/
structure StdioStream where
  buffer : List Char
  bufferSize : Nat
  bufferMode : BufferMode
  bytesWritten : Nat
  written : List (List Char)

namespace StdioStream

def writeBytes (s : StdioStream) (bytes : List Char) : StdioStream :=
  { s with written := s.written ++ [bytes] }

/-- `stream_flush`. An assertion that fails has no result. -/
def flush (s : StdioStream) : Option StdioStream :=
  if 0 < s.buffer.length then some { s.writeBytes s.buffer with buffer := [] } else none

/-- The end of `stdio_stream_emit_character`. A write behind the buffer has no result. -/
def bufferCharacter (s : StdioStream) (c : Char) : Option StdioStream :=
  if s.buffer.length < s.bufferSize then
    let s := { s with buffer := s.buffer ++ [c], bytesWritten := s.bytesWritten + 1 }
    if c = '\n' ∧ s.bufferMode = .line then s.flush else some s
  else none

/-- `stdio_stream_emit_character` -/
def emitCharacter (s : StdioStream) (c : Char) : Option StdioStream :=
  if s.buffer.length = s.bufferSize then
    if s.buffer.length ≠ 0 then s.flush.bind (·.bufferCharacter c)
    else some { s.writeBytes [c] with bytesWritten := s.bytesWritten + 1 }
  else s.bufferCharacter c

/-- `stdio_stream_complete_operation` -/
def completeOperation (s : StdioStream) : Option StdioStream :=
  if s.buffer.length > 0 ∧ s.bufferMode = .none then s.flush else some s

/-- `vfprintf`, `puts` and `putchar` from the characters that they emit -/
def emitAll (s : StdioStream) (text : List Char) : Option StdioStream :=
  (text.foldlM emitCharacter { s with bytesWritten := 0 }).bind completeOperation

end StdioStream

inductive StdioCall where
  | printf (format : List Char) (args : List PrintfArg)
  | puts (s : List Char)
  | putchar (c : Char)

namespace StdioCall

/-- The characters that a call emits -/
def text : StdioCall → Option (List Char)
  | printf format args => (printfEmitter .libpok none format args).map (·.map Emitted.byte)
  | puts s => some (s ++ ['\n'])
  | putchar c => some [c]

def step (s : StdioStream) (call : StdioCall) : Option StdioStream := call.text.bind s.emitAll

end StdioCall

/-- `struct string_stream`, less `bytes_max` -/
structure StringStream where
  str : Nat → Char
  bytesWritten : Nat

/-- `string_stream_emit_character` -/
def StringStream.emitCharacter (bytesMax : Int) (s : StringStream) (c : Char) : StringStream where
  str := if s.bytesWritten < bytesMax then Function.update s.str s.bytesWritten c else s.str
  bytesWritten := s.bytesWritten + 1

/-- `vsnprintf`: the memory from the beginning of the string on, and the result. A write in front of
the string has no result. -/
def vsnprintf (str : Nat → Char) (n : Nat) (format : List Char) (args : List PrintfArg) :
    Option ((Nat → Char) × Nat) :=
  (printfEmitter .libpok none format args).bind fun text =>
    -- an `int`
    let bytesMax := if n > 0 then (BitVec.ofNat 32 (n - 1)).toInt else 0
    let s := (text.map Emitted.byte).foldl (StringStream.emitCharacter bytesMax) ⟨str, 0⟩
    let res := s.bytesWritten
    if n > 0 then
      let last := if res < bytesMax then (res : Int) else bytesMax
      if 0 ≤ last then some (Function.update s.str last.toNat '\x00', res) else none
    else some (s.str, res)

namespace StdioStream

variable {s t : StdioStream} {text : List Char}

/-- The characters that a stream has been given, and where they may still be -/
structure Holds (s : StdioStream) (text : List Char) : Prop where
  text : s.written.flatten ++ s.buffer = text
  fits : s.buffer.length ≤ s.bufferSize
  line : s.bufferMode = .line → '\n' ∉ s.buffer

theorem Holds.flush (h : s.Holds text) (hpos : 0 < s.buffer.length) :
    ∃ t, s.flush = some t ∧ t.Holds text ∧ t.buffer = [] ∧ t.bufferSize = s.bufferSize ∧
      t.bufferMode = s.bufferMode ∧ t.bytesWritten = s.bytesWritten := by
  refine ⟨_, if_pos hpos, ⟨?_, Nat.zero_le _, fun _ => List.not_mem_nil⟩, rfl, rfl, rfl, rfl⟩
  have htext := h.text
  simp only [writeBytes, List.flatten_append, List.flatten_singleton, List.append_nil, htext]

theorem Holds.bufferCharacter (h : s.Holds text) (hroom : s.buffer.length < s.bufferSize)
    (c : Char) : ∃ t, s.bufferCharacter c = some t ∧ t.Holds (text ++ [c]) ∧
      t.bufferSize = s.bufferSize ∧ t.bufferMode = s.bufferMode ∧
      t.bytesWritten = s.bytesWritten + 1 := by
  set u : StdioStream :=
    { s with buffer := s.buffer ++ [c], bytesWritten := s.bytesWritten + 1 } with hu
  have htext : u.written.flatten ++ u.buffer = text ++ [c] := by
    rw [← h.text, List.append_assoc]
  unfold StdioStream.bufferCharacter
  simp only [if_pos hroom, ← hu]
  by_cases hline : c = '\n' ∧ u.bufferMode = .line
  · have hpos : 0 < u.buffer.length := by
      rw [hu, List.length_append, List.length_singleton]
      exact Nat.succ_pos _
    rw [if_pos hline]
    -- The line is written out, and with it the newline.
    refine ⟨_, if_pos hpos, ⟨?_, Nat.zero_le _, fun _ => List.not_mem_nil⟩, rfl, rfl, rfl⟩
    simp only [writeBytes, List.flatten_append, List.flatten_singleton, List.append_nil, htext]
  · rw [if_neg hline]
    refine ⟨u, rfl, ⟨htext, ?_, fun hmode => ?_⟩, rfl, rfl, rfl⟩
    · rw [hu, List.length_append, List.length_singleton]
      exact hroom
    · have hc : c ≠ '\n' := fun he => hline ⟨he, hmode⟩
      simp only [hu, List.mem_append, List.mem_singleton, not_or]
      exact ⟨h.line hmode, hc.symm⟩

theorem Holds.emitCharacter (h : s.Holds text) (c : Char) :
    ∃ t, s.emitCharacter c = some t ∧ t.Holds (text ++ [c]) ∧ t.bufferSize = s.bufferSize ∧
      t.bufferMode = s.bufferMode ∧ t.bytesWritten = s.bytesWritten + 1 := by
  unfold StdioStream.emitCharacter
  by_cases hfull : s.buffer.length = s.bufferSize
  · rw [if_pos hfull]
    by_cases hempty : s.buffer.length ≠ 0
    · obtain ⟨u, hu, hholds, hnil, hsize, hmode, hcount⟩ := h.flush (Nat.pos_of_ne_zero hempty)
      have hroom : u.buffer.length < u.bufferSize := by
        rw [hnil, hsize, ← hfull]
        exact Nat.pos_of_ne_zero hempty
      obtain ⟨t, ht, hthen, hsize', hmode', hcount'⟩ := hholds.bufferCharacter hroom c
      rw [if_pos hempty, hu]
      exact ⟨t, ht, hthen, hsize'.trans hsize, hmode'.trans hmode, by rw [hcount', hcount]⟩
    · have hnil : s.buffer = [] := List.eq_nil_of_length_eq_zero (not_not.mp hempty)
      have htext := h.text
      rw [if_neg hempty]
      refine ⟨_, rfl, ⟨?_, h.fits, h.line⟩, rfl, rfl, rfl⟩
      rw [hnil, List.append_nil] at htext
      simp only [writeBytes, List.flatten_append, List.flatten_singleton, hnil, List.append_nil,
        htext]
  · rw [if_neg hfull]
    exact h.bufferCharacter (lt_of_le_of_ne h.fits hfull) c

theorem Holds.emitCharacters (h : s.Holds text) (more : List Char) :
    ∃ t, more.foldlM StdioStream.emitCharacter s = some t ∧ t.Holds (text ++ more) ∧
      t.bufferSize = s.bufferSize ∧ t.bufferMode = s.bufferMode ∧
      t.bytesWritten = s.bytesWritten + more.length := by
  induction more generalizing s text with
  | nil => exact ⟨s, rfl, by rwa [List.append_nil], rfl, rfl, rfl⟩
  | cons c more ih =>
    obtain ⟨u, hu, hholds, hsize, hmode, hcount⟩ := h.emitCharacter c
    obtain ⟨t, ht, hthen, hsize', hmode', hcount'⟩ := ih hholds
    refine ⟨t, ?_, by rwa [List.append_assoc] at hthen, hsize'.trans hsize, hmode'.trans hmode, ?_⟩
    · rw [List.foldlM_cons, hu]
      exact ht
    · rw [hcount', hcount, List.length_cons]
      omega

/-- A call leaves nothing in the buffer of a stream that is not to be buffered. -/
theorem Holds.emitAll (h : s.Holds text) (more : List Char) :
    ∃ t, s.emitAll more = some t ∧ t.Holds (text ++ more) ∧ t.bufferSize = s.bufferSize ∧
      t.bufferMode = s.bufferMode ∧ t.bytesWritten = more.length ∧
      (t.bufferMode = .none → t.buffer = []) := by
  have hstart : Holds { s with bytesWritten := 0 } text := ⟨h.text, h.fits, h.line⟩
  obtain ⟨u, hu, hholds, hsize, hmode, hcount⟩ := hstart.emitCharacters more
  rw [Nat.zero_add] at hcount
  unfold StdioStream.emitAll
  rw [hu, Option.bind_some, completeOperation]
  split_ifs with hflush
  · obtain ⟨t, ht, hthen, hnil, hsize', hmode', hcount'⟩ := hholds.flush hflush.1
    exact ⟨t, ht, hthen, hsize'.trans hsize, hmode'.trans hmode, hcount'.trans hcount,
      fun _ => hnil⟩
  · refine ⟨u, rfl, hholds, hsize, hmode, hcount, fun hnone => ?_⟩
    by_contra hne
    exact hflush ⟨List.length_pos_iff.mpr hne, hnone⟩

end StdioStream

/-- A call with a format that `printf` prints as the standard says; more arguments do no harm. -/
inductive StandardCall where
  | printf (directives : List PrintfDirective) (more : List PrintfArg)
  | puts (s : List Char)
  | putchar (c : Char)

namespace StandardCall

def call : StandardCall → StdioCall
  | printf directives more => .printf (directives.flatMap PrintfDirective.text)
    (directives.flatMap PrintfDirective.args ++ more)
  | puts s => .puts s
  | putchar c => .putchar c

def standard : StandardCall → List Char
  | printf directives _ => directives.flatMap PrintfDirective.standard
  | puts s => s ++ ['\n']
  | putchar c => [c]

theorem text_call (call : StandardCall) : call.call.text = some call.standard := by
  cases call with
  | printf directives more =>
    change (printfEmitter .libpok none (directives.flatMap PrintfDirective.text)
      (directives.flatMap PrintfDirective.args ++ more)).map (·.map Emitted.byte) = _
    rw [printfEmitter_standard, Option.map_some, byte_emitted]
    rfl
  | puts | putchar => rfl

end StandardCall

/-- Whatever the size of the buffer and its mode are, the characters come out as they have been
printed, but for those that the buffer holds back. -/
theorem stream_prints_standard (s : StdioStream) (hbuffer : s.buffer = [])
    (calls : List StandardCall) :
    ∃ t, Run.exec StdioCall.step s (calls.map StandardCall.call) = some t ∧
      t.written.flatten ++ t.buffer =
        s.written.flatten ++ calls.flatMap StandardCall.standard ∧
      t.buffer.length ≤ s.bufferSize ∧ (s.bufferMode = .line → '\n' ∉ t.buffer) ∧
      (s.bufferMode = .none → t.buffer = []) := by
  have hrun : ∀ (calls : List StandardCall) (u : StdioStream) (text : List Char), u.Holds text →
      u.bufferSize = s.bufferSize → u.bufferMode = s.bufferMode →
      (s.bufferMode = .none → u.buffer = []) →
      ∃ t, Run.exec StdioCall.step u (calls.map StandardCall.call) = some t ∧
        t.Holds (text ++ calls.flatMap StandardCall.standard) ∧ t.bufferSize = s.bufferSize ∧
        t.bufferMode = s.bufferMode ∧ (s.bufferMode = .none → t.buffer = []) := by
    intro calls
    induction calls with
    | nil =>
      intro u text hu hsize hmode hnone
      exact ⟨u, rfl, by rwa [List.flatMap_nil, List.append_nil], hsize, hmode, hnone⟩
    | cons call calls ih =>
      intro u text hu hsize hmode hnone
      obtain ⟨v, hv, hholds, hsize', hmode', -, hnone'⟩ := hu.emitAll call.standard
      have hstep : StdioCall.step u call.call = some v := by
        rw [StdioCall.step, call.text_call]
        exact hv
      have hmode'' := hmode'.trans hmode
      obtain ⟨t, ht, hthen, hrest⟩ := ih v _ hholds (hsize'.trans hsize) hmode''
        fun he => hnone' (hmode''.trans he)
      refine ⟨t, ?_, by rwa [List.append_assoc] at hthen, hrest⟩
      rw [List.map_cons, Run.exec_cons]
      exact ⟨v, hstep, ht⟩
  have hstart : s.Holds s.written.flatten := by
    refine ⟨by rw [hbuffer, List.append_nil], ?_, fun _ => ?_⟩
    · rw [hbuffer]
      exact Nat.zero_le _
    · rw [hbuffer]
      exact List.not_mem_nil
  obtain ⟨t, ht, hholds, hsize, hmode, hnone⟩ :=
    hrun calls s s.written.flatten hstart rfl rfl fun _ => hbuffer
  exact ⟨t, ht, hholds.text, hsize ▸ hholds.fits, fun hline => hholds.line (hmode.trans hline),
    hnone⟩

/-- A stream with a small buffer -/
def smallStream : StdioStream := ⟨[], 3, .line, 0, []⟩

theorem stream_prints_standard_smallStream : ∃ t,
    Run.exec StdioCall.step smallStream (([.puts ['o', 'k'], .printf
      [.number .d true 4 (.int (-7)), .percent] []] : List StandardCall).map StandardCall.call) =
        some t ∧
      t.written.flatten ++ t.buffer = smallStream.written.flatten ++
        ([.puts ['o', 'k'], .printf [.number .d true 4 (.int (-7)), .percent] []] :
          List StandardCall).flatMap StandardCall.standard ∧
      t.buffer.length ≤ smallStream.bufferSize ∧
      (smallStream.bufferMode = .line → '\n' ∉ t.buffer) ∧
      (smallStream.bufferMode = .none → t.buffer = []) :=
  stream_prints_standard smallStream rfl _

/-- Memory with a string of limited size in it -/
def truncatedString (str : Nat → Char) (n : Nat) (text : List Char) (i : Nat) : Char :=
  if i < n - 1 ∧ i < text.length then text.getD i '\x00'
  else if 0 < n ∧ i = min (n - 1) text.length then '\x00' else str i

theorem emitCharacters_eq (bytesMax : Nat) (text : List Char) (s : StringStream) :
    (text.foldl (StringStream.emitCharacter bytesMax) s).bytesWritten =
        s.bytesWritten + text.length ∧
      ∀ i, (text.foldl (StringStream.emitCharacter bytesMax) s).str i =
        if s.bytesWritten ≤ i ∧ i < bytesMax ∧ i < s.bytesWritten + text.length then
          text.getD (i - s.bytesWritten) '\x00' else s.str i := by
  induction text generalizing s with
  | nil =>
    refine ⟨rfl, fun i => ?_⟩
    rw [if_neg (by simp only [List.length_nil]; omega)]
    rfl
  | cons c text ih =>
    obtain ⟨hcount, hstr⟩ := ih (s.emitCharacter bytesMax c)
    rw [List.foldl_cons]
    refine ⟨?_, fun i => ?_⟩
    · rw [hcount, List.length_cons]
      simp only [StringStream.emitCharacter]
      omega
    · have hother : i ≠ s.bytesWritten → (s.emitCharacter bytesMax c).str i = s.str i := by
        intro hne
        simp only [StringStream.emitCharacter]
        split_ifs
        · exact Function.update_of_ne hne _ _
        · rfl
      have hcount' : (s.emitCharacter bytesMax c).bytesWritten = s.bytesWritten + 1 := rfl
      rw [hstr, hcount', List.length_cons]
      rcases Nat.lt_trichotomy i s.bytesWritten with hlt | rfl | hgt
      · have hbefore : ¬ (s.bytesWritten + 1 ≤ i ∧ i < bytesMax ∧
          i < s.bytesWritten + 1 + text.length) := by omega
        have hbefore' : ¬ (s.bytesWritten ≤ i ∧ i < bytesMax ∧
          i < s.bytesWritten + (text.length + 1)) := by omega
        rw [if_neg hbefore, if_neg hbefore', hother hlt.ne]
      · have hbefore : ¬ (s.bytesWritten + 1 ≤ s.bytesWritten ∧ s.bytesWritten < bytesMax ∧
          s.bytesWritten < s.bytesWritten + 1 + text.length) := by omega
        rw [if_neg hbefore, Nat.sub_self]
        simp only [StringStream.emitCharacter, Nat.cast_lt]
        by_cases hroom : s.bytesWritten < bytesMax
        · rw [if_pos hroom, if_pos ⟨Nat.le_refl _, hroom, by omega⟩, Function.update_self]
          rfl
        · rw [if_neg hroom, if_neg fun h => hroom h.2.1]
      · have hindex : i - s.bytesWritten = i - (s.bytesWritten + 1) + 1 := by omega
        rw [hindex, List.getD_cons_succ, hother hgt.ne']
        refine if_congr ?_ rfl rfl
        omega

/-- The string is cut off where the room ends, and the result tells how long it would have been. -/
theorem vsnprintf_eq {format : List Char} {args : List PrintfArg} {emitted : List Emitted}
    (hemitted : printfEmitter .libpok none format args = some emitted) (str : Nat → Char) {n : Nat}
    (hn : n ≤ 2 ^ 31) :
    vsnprintf str n format args =
      some (truncatedString str n (emitted.map Emitted.byte), emitted.length) := by
  have hmax : (if n > 0 then (BitVec.ofNat 32 (n - 1)).toInt else 0) = ((n - 1 : Nat) : Int) := by
    split_ifs with hpos
    · rw [BitVec.toInt_eq_toNat_of_lt]
      · rw [BitVec.toNat_ofNat, Nat.mod_eq_of_lt (by omega)]
      · rw [BitVec.toNat_ofNat]
        omega
    · omega
  rw [vsnprintf, hemitted, Option.bind_some, hmax, ← List.length_map Emitted.byte]
  generalize emitted.map Emitted.byte = text
  obtain ⟨hcount, hstr⟩ := emitCharacters_eq (n - 1) text ⟨str, 0⟩
  rw [Nat.zero_add] at hcount
  have hlast : (if ((text.length : Nat) : Int) < ((n - 1 : Nat) : Int) then (text.length : Int)
      else ((n - 1 : Nat) : Int)) = ((min (n - 1) text.length : Nat) : Int) := by
    split_ifs <;> omega
  simp only [hcount, hlast]
  split_ifs with hpos hnonneg
  · refine congrArg some (Prod.ext (funext fun i => ?_) rfl)
    rw [Int.toNat_natCast]
    change _ = truncatedString str n text i
    by_cases hi : i = min (n - 1) text.length
    · have hout : ¬ (i < n - 1 ∧ i < text.length) := by omega
      rw [truncatedString, if_neg hout, if_pos ⟨hpos, hi⟩, hi]
      exact Function.update_self ..
    · have hend : ¬ (0 < n ∧ i = min (n - 1) text.length) := fun h => hi h.2
      rw [truncatedString, if_neg hend]
      refine (Function.update_of_ne hi ..).trans ((hstr i).trans (if_congr ?_ rfl rfl))
      simp only [Nat.zero_le, true_and, Nat.zero_add]
  · omega
  · refine congrArg some (Prod.ext (funext fun i => ?_) rfl)
    change _ = truncatedString str n text i
    have hnone : ¬ (0 ≤ i ∧ i < n - 1 ∧ i < 0 + text.length) := by omega
    have hout : ¬ (i < n - 1 ∧ i < text.length) := by omega
    rw [truncatedString, if_neg hout, if_neg fun h => hpos h.1]
    exact (hstr i).trans (if_neg hnone)

end Chpok
