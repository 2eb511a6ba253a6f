import Mathlib.Data.List.Basic
import Mathlib.Algebra.Order.Ring.Int

/-! Formatted output: `handle_fmt` and the loop around it, in `libpok/libc/stdio/printf_emitter.c`
and in `kernel/libc/printf.c`. Words, addresses and `long` have 32 bits. -/

namespace Chpok

/-- The two sources. The kernel's has no case for floating numbers. -/
inductive PrintfSource where
  | libpok
  | kernel
  deriving DecidableEq, Repr

/-- What stands behind the format of a call; a character has been promoted to a word. -/
inductive PrintfArg where
  | word (x : BitVec 32)
  | wide (x : BitVec 64)
  | str (s : Option (List Char))

/-- An argument of `emit_character` or `putc`: a `char` of a text, or the `int` of a `%c` -/
inductive Emitted where
  | char (c : Char)
  | int (x : BitVec 32)

/-- What is stored of it -/
def Emitted.byte : Emitted → Char
  | char c => c
  | int x => Char.ofNat (x.toNat % 256)

/-- `digits` -/
def printfDigits : List Char := "0123456789abcdef".toList

/-- The loop of `print_num` that fills `digit_str`, in which `room` places are left -/
def digitStr (base : Nat) : Nat → Nat → Option (List Char)
  | 0, _ => none
  | room + 1, value =>
    let digit := printfDigits.getD (value % base) '0'
    if value / base ≠ 0 then (digitStr base room (value / base)).map (digit :: ·)
    else some [digit]

/-- `print_num` -/
def printNum (value : BitVec 64) (base : Nat) (pad : Int) (neg padWithZero : Bool) :
    Option (List Char) :=
  (digitStr base 32 value.toNat).map fun digits =>
    let sign := if neg then ['-'] else []
    let pad := if neg then pad - 1 else pad
    if padWithZero then sign ++ List.replicate (pad - digits.length).toNat '0' ++ digits.reverse
    else List.replicate (pad - digits.length).toNat ' ' ++ sign ++ digits.reverse

/-- The local variables of `handle_fmt` -/
structure HandleFmt where
  l : Nat := 0
  pad : Int := 0
  padWithZero : Bool := false
  precision : Int := 0
  wasDot : Bool := false

namespace HandleFmt

/-- The cases of `handle_fmt` that go on with the next character -/
def modify (st : HandleFmt) (c : Char) : Option HandleFmt :=
  if c = '0' then
    if st.wasDot then some { st with precision := st.precision * 10 }
    else if st.pad = 0 then some { st with padWithZero := true }
    else some { st with pad := st.pad * 10 }
  else if '1' ≤ c ∧ c ≤ '9' then
    if st.wasDot then some { st with precision := (c.toNat - '0'.toNat : Nat) + st.precision * 10 }
    else some { st with pad := (c.toNat - '0'.toNat : Nat) + st.pad * 10 }
  else if c = 'l' then some { st with l := st.l + 1 }
  else if c = '.' then some { st with wasDot := true }
  else if c = 'z' then some { st with l := 0 }
  else none

/-- `va_arg` of an `unsigned long long`, `unsigned long` or `unsigned`, as `l` says -/
def unsignedArg (st : HandleFmt) : List PrintfArg → Option (BitVec 64 × List PrintfArg)
  | .wide x :: args => if st.l = 2 then some (x, args) else none
  | .word x :: args => if st.l = 2 then none else some (x.zeroExtend 64, args)
  | _ => none

def signedArg (st : HandleFmt) : List PrintfArg → Option (BitVec 64 × List PrintfArg)
  | .wide x :: args => if st.l = 2 then some (x, args) else none
  | .word x :: args => if st.l = 2 then none else some (x.signExtend 64, args)
  | _ => none

/-- The cases that return: what is emitted, and the arguments that are left. An argument of another
type than the conversion asks for, and a floating number of libpok, have no result. -/
def conversion (source : PrintfSource) (st : HandleFmt) (c : Char) (args : List PrintfArg) :
    Option (List Emitted × List PrintfArg) :=
  match c with
  | 's' =>
    match args with
    | .str s :: args =>
      let s := s.getD "(null)".toList
      let len : Int := if st.precision ≠ 0 ∧ st.precision < s.length then st.precision
        else s.length
      some ((List.replicate (st.pad - len).toNat ' ' ++ s.take len.toNat).map .char, args)
    | _ => none
  | 'p' => (st.unsignedArg args).bind fun (value, args) =>
    (printNum value 16 st.pad false st.padWithZero).map
      fun text => (('0' :: 'x' :: text).map .char, args)
  | 'x' => (st.unsignedArg args).bind fun (value, args) =>
    (printNum value 16 st.pad false st.padWithZero).map fun text => (text.map .char, args)
  | 'd' | 'i' => (st.signedArg args).bind fun (value, args) =>
    (printNum (if value.msb then -value else value) 10 st.pad value.msb st.padWithZero).map
      fun text => (text.map .char, args)
  | 'u' => (st.unsignedArg args).bind fun (value, args) =>
    (printNum value 10 st.pad false st.padWithZero).map fun text => (text.map .char, args)
  | 'f' =>
    match source with
    | .libpok => none
    | .kernel => some ([.char '%', .char 'f'], args)
  | 'c' =>
    match args with
    | .word x :: args => some ([.int x], args)
    | _ => none
  | '%' => some ([.char '%'], args)
  | c => some ([.char '%', .char c], args)

end HandleFmt

/-- `printf_emitter` or the kernel's `vprintf`, in `handle_fmt` when there is a state: what is
emitted -/
def printfEmitter (source : PrintfSource) :
    Option HandleFmt → List Char → List PrintfArg → Option (List Emitted)
  | _, [], _ => some []
  | none, c :: format, args =>
    if c = '%' then printfEmitter source (some {}) format args
    else (printfEmitter source none format args).map (.char c :: ·)
  | some st, c :: format, args =>
    match st.modify c with
    | some st => printfEmitter source (some st) format args
    | none => (st.conversion source c args).bind fun r =>
      (printfEmitter source none format r.2).map (r.1 ++ ·)

end Chpok
