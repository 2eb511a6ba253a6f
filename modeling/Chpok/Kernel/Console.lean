import Chpok.Libpok.Stdio

/-! Output of the kernel: `printf` and `snprintf` (`kernel/libc/printf.c`), the consoles
(`kernel/core/cons.c`) and their streams on x86 (`boards/x86-qemu/cons.c`), which write to a serial
line and to the screen. A `char` above 127 is negative. -/

namespace Chpok

/-- Whether the argument of `putc` is negative -/
def Emitted.negative : Emitted → Bool
  | char c => 128 ≤ c.toNat
  | int x => x.msb

/-- `struct s_file`, with the pieces that `pok_cons_write` has been given -/
structure SFile where
  buff : List Char
  out : List (List Char)

namespace SFile

def flush (f : SFile) : SFile := ⟨[], f.out ++ [f.buff]⟩

/-- `buf_putc`. A write behind the buffer has no result. -/
def putc (f : SFile) (e : Emitted) : Option SFile :=
  if e.negative then some f
  else if f.buff.length < 128 then
    let f := { f with buff := f.buff ++ [e.byte] }
    some (if f.buff.length = 128 then f.flush else f)
  else none

end SFile

/-- The kernel's `printf`: what it passes to `pok_cons_write`. -/
def kernelPrintf (format : List Char) (args : List PrintfArg) : Option (List (List Char)) :=
  (printfEmitter .kernel none format args).bind fun emitted =>
    (emitted.foldlM SFile.putc ⟨[], []⟩).map fun f => f.flush.out

/-- `struct s_sprintf`, with the memory from the beginning of the string on -/
structure SSprintf where
  str : Nat → Char
  ptr : Nat
  size : Nat

/-- `sprintf_putc` -/
def SSprintf.putc (out : SSprintf) (e : Emitted) : SSprintf :=
  if e.negative then out
  else match out.size with
    | 0 => out
    | 1 => ⟨Function.update out.str out.ptr '\x00', out.ptr + 1, 0⟩
    | size + 1 => ⟨Function.update out.str out.ptr e.byte, out.ptr + 1, size⟩

/-- The kernel's `snprintf`, whose result is the room that is left -/
def kernelSnprintf (str : Nat → Char) (size : Nat) (format : List Char) (args : List PrintfArg) :
    Option ((Nat → Char) × Nat) :=
  (printfEmitter .kernel none format args).map fun emitted =>
    let out := emitted.foldl SSprintf.putc ⟨str, 0, size⟩
    ((out.putc (.int 0)).str, out.size)

/-- `COM0` and `COM1` -/
inductive SerialPort where
  | main
  | debug
  deriving DecidableEq, Repr

/-- What has gone out on the serial lines, the memory of the screen by cells, and `g_cons` -/
structure X86Console where
  serial : SerialPort → List Char
  cells : Nat → Char × Nat
  row : Nat
  col : Nat
  curAttr : Nat

namespace X86Console

/-- `pok_cons_clear` -/
def clear (s : X86Console) : X86Console :=
  { s with
    cells := fun i => if i < 25 * 80 then ('\x00', s.curAttr) else s.cells i
    row := 0
    col := 0 }

/-- `iostream_init_common`, less the settings of the serial line -/
def init (s : X86Console) : X86Console := { s.clear with curAttr := 7 }

/-- `pok_write_vga` up to the end of a row -/
def placeChar (s : X86Console) (c : Char) : X86Console :=
  if c = '\r' then { s with col := 0 }
  else if c = '\n' then { s with col := 0, row := s.row + 1 }
  else if c = '\t' then { s with col := s.col + (8 - s.col % 8) }
  else
    { s with
      cells := Function.update s.cells (80 * s.row + s.col) (c, s.curAttr)
      col := s.col + 1 }

def endRow (s : X86Console) : X86Console :=
  if s.col ≥ 80 then { s with col := 0, row := s.row + 1 } else s

/-- The last part of `pok_write_vga`; `memcpy` copies from the front. -/
def scroll (s : X86Console) : X86Console :=
  if s.row ≥ 25 then
    { s with
      cells := fun i =>
        if i < 24 * 80 then s.cells (i + 80)
        else if i < 25 * 80 then ('\x00', s.curAttr) else s.cells i
      row := 24 }
  else s

/-- `pok_write_vga` -/
def writeVga (s : X86Console) (c : Char) : X86Console := (s.placeChar c).endRow.scroll

def serialText (c : Char) : List Char := if c ≠ '\n' then [c] else ['\r', '\n']

/-- The body of the loop of `iostream_write_common` -/
def writeChar (port : SerialPort) (s : X86Console) (c : Char) : X86Console :=
  writeVga { s with serial := Function.update s.serial port (s.serial port ++ serialText c) } c

/-- `jet_console_write` and `jet_console_write_debug`: one call of `iostream_write_common` takes
everything. -/
def write (s : X86Console) (port : SerialPort) (text : List Char) : X86Console :=
  text.foldl (writeChar port) s

end X86Console

inductive ConsoleCall where
  /-- The kernel's `printf` -/
  | printf (format : List Char) (args : List PrintfArg)
  /-- `jet_console_write_user`, `pok_cons_write` and `pok_cons_write_1` -/
  | write (port : SerialPort) (text : List Char)

def ConsoleCall.step (s : X86Console) : ConsoleCall → Option X86Console
  | printf format args => (kernelPrintf format args).map (·.foldl (·.write .main ·) s)
  | write port text => some (s.write port text)

/-- An unbounded page of 80 columns, with a place on it. -/
structure TextPage where
  cell : Nat → Nat → Char × Nat
  row : Nat
  col : Nat

namespace TextPage

def nextRow (p : TextPage) : TextPage := { p with row := p.row + 1, col := 0 }

/-- The text goes on in the next row when a row is full. -/
def advance (p : TextPage) (col : Nat) : TextPage :=
  if col ≥ 80 then p.nextRow else { p with col := col }

def put (attr : Nat) (p : TextPage) (c : Char) : TextPage :=
  if c = '\r' then { p with col := 0 }
  else if c = '\n' then p.nextRow
  else if c = '\t' then p.advance (8 * (p.col / 8 + 1))
  else TextPage.advance
    { p with cell := Function.update p.cell p.row (Function.update (p.cell p.row) p.col (c, attr)) }
    (p.col + 1)

/-- An empty page. The first rows have been cleared with other attributes. -/
def blank (attr attr' : Nat) : TextPage := ⟨fun r _ => ('\x00', if r < 25 then attr else attr'), 0, 0⟩

end TextPage

end Chpok
