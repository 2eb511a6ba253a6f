import Chpok.Library.ByteOrder
import Chpok.Library.Transducer
import Mathlib.Data.BitVec

/-! The debugger's stub (`kernel/libc/gdbserver.c`) at its serial line: the packets of `getpacket`
and `putpacket`, and the commands that read and write memory. It runs as far as the characters go
that have come, and waits for the next one at a `getDebugChar`. -/

namespace Chpok.Gdb

/-- `BUFMAX` -/
def bufmax : Nat := 1000

/-- A character of the source -/
def chr (c : Char) : Byte := BitVec.ofNat 8 c.toNat

/-- A text of the source -/
def text (s : String) : List Byte := s.toList.map chr

/-- `hex`. There is no digit where it returns -1. -/
def hex (ch : Byte) : Option (BitVec 32) :=
  if chr 'a' ≤ ch ∧ ch ≤ chr 'f' then some (ch.setWidth 32 - 97 + 10)
  else if chr '0' ≤ ch ∧ ch ≤ chr '9' then some (ch.setWidth 32 - 48)
  else if chr 'A' ≤ ch ∧ ch ≤ chr 'F' then some (ch.setWidth 32 - 65 + 10)
  else none

/-- What `hex` returns -/
def hexInt (ch : Byte) : BitVec 32 := (hex ch).getD (-1)

def hexchars : List Byte := text "0123456789abcdef"

/-- `hexchars[ch >> 4]` and `hexchars[ch % 16]` -/
def hexByte (ch : Byte) : List Byte :=
  [hexchars.getD (ch >>> 4).toNat 0, hexchars.getD (ch % 16).toNat 0]

/-- The memory of the target, in which the stub's own data are not -/
abbrev Memory := BitVec 32 → Byte

/-- The text that `mem2hex` puts into `remcomOutBuffer`, unless it runs behind it with the null that
ends the text. `count` is an `int`. -/
def mem2hex (m : Memory) (mem count : BitVec 32) : Option (List Byte) :=
  if 2 * count.toInt.toNat < bufmax then
    some ((List.range count.toInt.toNat).flatMap fun i => hexByte (m (mem + BitVec.ofNat 32 i)))
  else none

/-- The loop of `hex2mem` -/
def hex2memLoop (m : Memory) (mem : BitVec 32) : Nat → List Byte → Memory
  | 0, _ => m
  | n + 1, buf =>
    let ch := ((hexInt (buf.headD 0)).setWidth 8 <<< 4) + (hexInt (buf.tail.headD 0)).setWidth 8
    hex2memLoop (Function.update m mem ch) (mem + 1) n (buf.drop 2)

/-- `hex2mem`, unless it runs behind the text -/
def hex2mem (buf : List Byte) (m : Memory) (mem count : BitVec 32) : Option Memory :=
  if 2 * count.toInt.toNat ≤ buf.length then some (hex2memLoop m mem count.toInt.toNat buf) else none

/-- The loop of `hexToInt`: the number of characters, the value, and where it has stopped. It runs
behind a buffer in which nothing stops it. -/
def hexToIntLoop (numChars : Nat) (intValue : BitVec 32) :
    List Byte → Option (Nat × BitVec 32 × List Byte)
  | [] => none
  | ch :: ptr =>
    if ch = 0 then some (numChars, intValue, ch :: ptr)
    else match hex ch with
      | some hexValue => hexToIntLoop (numChars + 1) ((intValue <<< 4) ||| hexValue) ptr
      | none => some (numChars, intValue, ch :: ptr)

def hexToInt (ptr : List Byte) : Option (Nat × BitVec 32 × List Byte) := hexToIntLoop 0 0 ptr

/-- Whether `strncmp` finds a text of the source at the start of a buffer, for as long as it is -/
def strncmp : List Byte → List Byte → Option Bool
  | [], _ => some true
  | _ :: _, [] => none
  | c :: text, ch :: ptr => if c = ch then strncmp text ptr else some false

/-- `putpacket`: what it sends before it waits for an answer -/
def packet (buffer : List Byte) : List Byte :=
  chr '$' :: buffer ++ chr '#' :: hexByte buffer.sum

/-- Where the stub waits for a character -/
inductive Point where
  /-- `getpacket`, for a `$` -/
  | start
  | body (count : Nat) (checksum : Byte)
  | highDigit (checksum : Byte)
  | lowDigit (checksum xmitcsum : Byte)
  /-- `putpacket`, for the answer to a packet. `last` tells that `handle_exception` returns then. -/
  | answer (last : Bool)
  /-- `handle_exception` has returned -/
  | resumed
  /-- A command has run behind one of the buffers, and what comes of it is not known. -/
  | overrun
  deriving DecidableEq

/-- The stub stopped at an exception. `remcomOutBuffer` is the string in it. `thread` is the thread
that the commands are about, with what else they look at. -/
structure Stub (T : Type*) where
  point : Point
  remcomInBuffer : List Byte
  remcomOutBuffer : List Byte
  thread : T
  memory : Memory

/-- What a command leaves behind -/
structure Effect (T : Type*) where
  remcomOutBuffer : List Byte
  thread : T
  memory : Memory

/-- Whether `handle_exception` goes on after a command -/
inductive Outcome (T : Type*) where
  | reply (e : Effect T)
  | replyAndResume (e : Effect T)
  | resume (e : Effect T)
  | overrun

/-- What the stub needs of the target: `gdb_thread_read_addr`, `gdb_thread_write_addr`, the array
`trap`, and what stands here for the other commands of `handle_exception`. None of them changes the
packet. Where a command sends its reply itself, before it goes on to return, `acknowledged` is what
it does behind that `putpacket`. -/
structure Target (T : Type*) where
  readAddr : T → BitVec 32 → BitVec 32 → Option (BitVec 32)
  writeAddr : T → BitVec 32 → BitVec 32 → Option (BitVec 32)
  trap : List Byte
  other : List Byte → T → Memory → Outcome T
  acknowledged : List Byte → T → Memory → T × Memory

variable {T : Type*} (g : Target T)

namespace Stub

/-- `case 'm'` -/
def readMemory (s : Stub T) : Option (List Byte) := do
  let (numChars, addr, ptr) ← hexToInt s.remcomInBuffer.tail
  if numChars ≠ 0 ∧ ptr.headD 0 = chr ',' then
    let (numChars, length, _) ← hexToInt ptr.tail
    if numChars ≠ 0 then
      match g.readAddr s.thread addr length with
      | none => some (text "E03")
      | some gdbAddr => mem2hex s.memory gdbAddr length
    else some (text "E01")
  else some (text "E01")

/-- `case 'M'` -/
def writeMemory (s : Stub T) : Option (List Byte × Memory) := do
  let (numChars, addr, ptr) ← hexToInt s.remcomInBuffer.tail
  if numChars ≠ 0 ∧ ptr.headD 0 = chr ',' then
    let (numChars, length, ptr) ← hexToInt ptr.tail
    if numChars ≠ 0 ∧ ptr.headD 0 = chr ':' then
      match g.writeAddr s.thread addr length with
      | none => some (text "E03", s.memory)
      | some gdbAddr =>
        -- the instruction that the debugger puts at a breakpoint
        let isTrap ← strncmp (text "7d821008") ptr.tail
        let memory ← hex2mem (if isTrap then g.trap else ptr.tail) s.memory gdbAddr length
        some (text "OK", memory)
    else some (text "E02", s.memory)
  else some (text "E02", s.memory)

/-- The `switch` of `handle_exception` on a packet that has been received -/
def command (s : Stub T) : Outcome T :=
  if s.remcomInBuffer.headD 0 = chr 'm' then
    match s.readMemory g with
    | none => .overrun
    | some reply => .reply ⟨reply, s.thread, s.memory⟩
  else if s.remcomInBuffer.headD 0 = chr 'M' then
    match s.writeMemory g with
    | none => .overrun
    | some (reply, memory) => .reply ⟨reply, s.thread, memory⟩
  else g.other s.remcomInBuffer s.thread s.memory

def after (s : Stub T) (e : Effect T) (point : Point) : Stub T :=
  { s with point, remcomOutBuffer := e.remcomOutBuffer, thread := e.thread, memory := e.memory }

/-- What comes of a packet, up to the next `getDebugChar` -/
def perform (s : Stub T) : Stub T × List Byte :=
  match s.command g with
  | .reply e => (s.after e (.answer false), packet e.remcomOutBuffer)
  | .replyAndResume e => (s.after e (.answer true), packet e.remcomOutBuffer)
  | .resume e => (s.after e .resumed, [])
  | .overrun => ({ s with point := .overrun }, [])

/-- What follows the acknowledgement of a last reply -/
def leave (s : Stub T) : Stub T :=
  let r := g.acknowledged s.remcomInBuffer s.thread s.memory
  { s with point := .resumed, thread := r.1, memory := r.2 }

/-- The sequence characters of `getpacket`. The third byte may be from a packet before this one. -/
def sequenceChars (buffer : List Byte) : List Byte × List Byte :=
  if buffer.getD 2 0 = chr ':' then
    let moved := (buffer.takeWhile (· ≠ 0)).length - 2
    ((buffer.drop 3).take moved ++ buffer.drop moved, [buffer.getD 0 0, buffer.getD 1 0])
  else (buffer, [])

/-- What the stub does with a character -/
def step (s : Stub T) (c : Byte) : Stub T × List Byte :=
  let ch := c &&& 0x7f
  match s.point with
  | .start => (if ch = chr '$' then { s with point := .body 0 0 } else s, [])
  | .body count checksum =>
    if ch = chr '#' then
      ({ s with point := .highDigit checksum, remcomInBuffer := s.remcomInBuffer.set count 0 }, [])
    else
      let checksum := checksum + ch
      let s := { s with
        point := .body (count + 1) checksum, remcomInBuffer := s.remcomInBuffer.set count ch }
      if count + 1 < bufmax then (s, [])
      -- `continue` goes to the condition of the loop, where `xmitcsum` is still -1
      else if checksum ≠ -1 then ({ s with point := .start }, [])
      else s.perform g
  | .highDigit checksum =>
    ({ s with point := .lowDigit checksum ((hexInt ch).setWidth 8 <<< 4) }, [])
  | .lowDigit checksum xmitcsum =>
    if checksum ≠ xmitcsum ||| (hexInt ch).setWidth 8 then ({ s with point := .start }, [chr '-'])
    else
      let r := sequenceChars s.remcomInBuffer
      let p := { s with remcomInBuffer := r.1 }.perform g
      (p.1, chr '+' :: r.2 ++ p.2)
  | .answer last =>
    if c = chr '+' then (if last then s.leave g else { s with point := .start }, [])
    else (s, packet s.remcomOutBuffer)
  | .resumed => (s, [])
  | .overrun => (s, [])

end Stub

end Chpok.Gdb
