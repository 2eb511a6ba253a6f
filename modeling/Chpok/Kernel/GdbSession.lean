import Chpok.Kernel.GdbStub

/-! A debugger that reads and writes memory over a serial line on which packets are damaged. -/

namespace Chpok.Gdb

/-- What is left of a character on the line -/
def mask (c : Byte) : Byte := c &&& 0x7f

section Numbers

def IsHex (c : Byte) : Prop := (hex c).isSome

instance (c : Byte) : Decidable (IsHex c) := inferInstanceAs (Decidable (_ = _))

def digit (c : Byte) : Nat := ((hex c).getD 0).toNat

/-- The number that a text of hexadecimal digits stands for -/
def number (xs : List Byte) : Nat := xs.foldl (fun v x => 16 * v + digit x) 0

def IsNumber (xs : List Byte) : Prop := xs ≠ [] ∧ ∀ x ∈ xs, IsHex x

instance (xs : List Byte) : Decidable (IsNumber xs) := inferInstanceAs (Decidable (_ ∧ _))

theorem digit_lt : ∀ c : Byte, digit c < 16 := by decide +kernel

theorem hex_eq {c : Byte} (h : IsHex c) : c ≠ 0 ∧ c &&& 0x7f = c ∧ c ≠ chr '#' ∧ c ≠ chr ':' := by
  revert c
  decide +kernel

theorem shift_or (v h : BitVec 32) (hh : h.toNat < 16) :
    (v <<< 4) ||| h = BitVec.ofNat 32 (16 * v.toNat + h.toNat) := by
  apply BitVec.eq_of_toNat_eq
  have hshift : (v <<< 4).toNat = 2 ^ 4 * (v.toNat % 2 ^ 28) := by
    rw [BitVec.toNat_shiftLeft, Nat.shiftLeft_eq]
    omega
  rw [BitVec.toNat_or, hshift, ← Nat.two_pow_add_eq_or_of_lt (by simpa using hh),
    BitVec.toNat_ofNat]
  omega

theorem hexToIntLoop_eq {xs rest : List Byte} {c : Byte} (hxs : ∀ x ∈ xs, IsHex x)
    (hc : hex c = none) (n v : Nat) :
    hexToIntLoop n (BitVec.ofNat 32 v) (xs ++ c :: rest) =
      some (n + xs.length, BitVec.ofNat 32 (xs.foldl (fun v x => 16 * v + digit x) v), c :: rest) := by
  induction xs generalizing n v with
  | nil =>
    simp [hexToIntLoop, hc]
  | cons x xs ih =>
    obtain ⟨hx, hrest⟩ := List.forall_mem_cons.mp hxs
    obtain ⟨d, hd⟩ := Option.isSome_iff_exists.mp hx
    have hvalue : digit x = d.toNat := by rw [digit, hd, Option.getD_some]
    have hsmall := digit_lt x
    have hstep : (BitVec.ofNat 32 v <<< 4) ||| d = BitVec.ofNat 32 (16 * v + digit x) := by
      rw [shift_or _ _ (hvalue ▸ hsmall), hvalue]
      apply BitVec.eq_of_toNat_eq
      simp only [BitVec.toNat_ofNat]
      omega
    rw [List.cons_append, hexToIntLoop, if_neg (hex_eq hx).1, hd]
    dsimp only
    rw [hstep, ih hrest, List.foldl_cons, List.length_cons]
    congr 2
    omega

theorem hexToInt_eq {xs rest : List Byte} {c : Byte} (hxs : ∀ x ∈ xs, IsHex x)
    (hc : hex c = none) :
    hexToInt (xs ++ c :: rest) = some (xs.length, BitVec.ofNat 32 (number xs), c :: rest) := by
  have h : hexToIntLoop 0 (BitVec.ofNat 32 0) (xs ++ c :: rest) = _ := hexToIntLoop_eq hxs hc 0 0
  rwa [Nat.zero_add] at h

end Numbers

section Bytes

theorem hexByte_digits : ∀ ch : Byte, ∃ high low, hexByte ch = [high, low] ∧
    IsHex high ∧ IsHex low ∧
      ((hexInt high).setWidth 8 <<< 4) + (hexInt low).setWidth 8 = ch ∧
      ((hexInt high).setWidth 8 <<< 4) ||| (hexInt low).setWidth 8 = ch := by
  intro ch
  refine ⟨_, _, rfl, ?_⟩
  revert ch
  decide +kernel

/-- The bytes in memory -/
def Memory.write (m : Memory) (p : BitVec 32) (data : List Byte) : Memory := fun a =>
  if (a - p).toNat < data.length then data.getD (a - p).toNat 0 else m a

theorem Memory.write_cons (m : Memory) (p : BitVec 32) (d : Byte) {data : List Byte}
    (h : data.length < 2 ^ 32 - 1) :
    Memory.write (Function.update m p d) (p + 1) data = m.write p (d :: data) := by
  funext a
  unfold Memory.write
  by_cases ha : a = p
  · subst ha
    have hlast : (a - (a + 1)).toNat = 2 ^ 32 - 1 := by bv_omega
    rw [hlast, if_neg (by omega), Function.update_self, BitVec.sub_self]
    simp
  · have hnext : (a - p).toNat = (a - (p + 1)).toNat + 1 := by bv_omega
    rw [hnext, List.length_cons, Function.update_of_ne ha]
    simp

theorem hex2memLoop_eq (m : Memory) (p : BitVec 32) (rest : List Byte) {data : List Byte}
    (h : data.length < 2 ^ 32) :
    hex2memLoop m p data.length (data.flatMap hexByte ++ rest) = m.write p data := by
  induction data generalizing m p with
  | nil => rfl
  | cons d data ih =>
    obtain ⟨high, low, hd, -, -, hvalue, -⟩ := hexByte_digits d
    rw [List.length_cons] at h
    rw [List.flatMap_cons, hd, List.length_cons]
    show hex2memLoop (Function.update m p
      ((hexInt high).setWidth 8 <<< 4 + (hexInt low).setWidth 8)) (p + 1) data.length
        (data.flatMap hexByte ++ rest) = _
    rw [hvalue, ih _ _ (by omega), Memory.write_cons m p d (by omega)]

end Bytes

section Requests

inductive Request where
  | read (addr length : List Byte)
  | write (addr length : List Byte) (data : List Byte)

namespace Request

/-- `mAA..AA,LLLL` and `MAA..AA,LLLL:` -/
def text : Request → List Byte
  | .read addr length => chr 'm' :: addr ++ chr ',' :: length
  | .write addr length data =>
    chr 'M' :: addr ++ chr ',' :: (length ++ chr ':' :: data.flatMap hexByte)

/-- The bytes for which the stub takes the data of a write for a breakpoint -/
def breakpoint : List Byte := [0x7d, 0x82, 0x10, 0x08]

/-- What has been read must fit into `remcomOutBuffer`, and the data that are written must not be
taken for a breakpoint. -/
def Valid (r : Request) : Prop :=
  r.text.length < bufmax ∧ match r with
  | .read addr length => IsNumber addr ∧ IsNumber length ∧ number length < 500
  | .write addr length data => IsNumber addr ∧ IsNumber length ∧ number length = data.length ∧
      ¬ breakpoint <+: data

end Request

variable {T : Type*} (g : Target T) (thread : T)

/-- What a request means for the memory of a thread, and its reply -/
def Memory.perform (m : Memory) : Request → Memory × List Byte
  | .read addr length =>
    match g.readAddr thread (BitVec.ofNat 32 (number addr)) (BitVec.ofNat 32 (number length)) with
    | none => (m, Gdb.text "E03")
    | some p => (m, ((List.range (number length)).map fun i => m (p + BitVec.ofNat 32 i)).flatMap hexByte)
  | .write addr length data =>
    match g.writeAddr thread (BitVec.ofNat 32 (number addr)) (BitVec.ofNat 32 (number length)) with
    | none => (m, Gdb.text "E03")
    | some p => (m.write p data, Gdb.text "OK")

theorem hexByte_isHex {data : List Byte} : ∀ c ∈ data.flatMap hexByte, IsHex c := by
  intro c hc
  obtain ⟨d, -, hd⟩ := List.mem_flatMap.mp hc
  obtain ⟨high, low, he, hhigh, hlow, -⟩ := hexByte_digits d
  rw [he, List.mem_pair] at hd
  rcases hd with rfl | rfl
  · exact hhigh
  · exact hlow

theorem length_hexBytes (data : List Byte) : (data.flatMap hexByte).length = 2 * data.length := by
  induction data with
  | nil => rfl
  | cons d data ih =>
    rw [List.flatMap_cons, List.length_append, ih, List.length_cons]
    have htwo : (hexByte d).length = 2 := rfl
    omega

/-- A text that a null ends begins with some bytes if its data do. -/
theorem strncmp_hexBytes (start data rest : List Byte) :
    strncmp (start.flatMap hexByte) (data.flatMap hexByte ++ 0 :: rest) =
      some (decide (start <+: data)) := by
  induction start generalizing data with
  | nil => simp [strncmp]
  | cons d start ih =>
    obtain ⟨high, low, hd, hhigh, -, hvalue, -⟩ := hexByte_digits d
    rw [List.flatMap_cons, hd]
    cases data with
    | nil =>
      show strncmp (high :: low :: start.flatMap hexByte) (0 :: rest) = _
      have hlonger : ¬ d :: start <+: [] := mt List.eq_nil_of_prefix_nil (List.cons_ne_nil _ _)
      rw [strncmp, if_neg (hex_eq hhigh).1, decide_eq_false hlonger]
    | cons e data =>
      obtain ⟨high', low', he, -, -, hvalue', -⟩ := hexByte_digits e
      rw [List.flatMap_cons, he]
      show strncmp (high :: low :: start.flatMap hexByte)
        (high' :: low' :: (data.flatMap hexByte ++ 0 :: rest)) = _
      by_cases hsame : d = e
      · obtain ⟨rfl, rfl⟩ : high = high' ∧ low = low' := by
          have hbytes : [high, low] = [high', low'] := by rw [← hd, ← he, hsame]
          simpa using hbytes
        simp only [strncmp, if_true, ih, hsame, List.cons_prefix_cons, true_and]
      · have hbytes : ¬ (high = high' ∧ low = low') := fun ⟨hh, hl⟩ =>
          hsame (by rw [← hvalue, ← hvalue', hh, hl])
        simp only [strncmp, List.cons_prefix_cons, hsame, false_and, decide_false]
        split_ifs with hh hl
        · exact absurd ⟨hh, hl⟩ hbytes
        · rfl
        · rfl

namespace Request

theorem Valid.plain {r : Request} (h : r.Valid) :
    ∀ c ∈ r.text, c &&& 0x7f = c ∧ c ≠ chr '#' := by
  have hnumber : ∀ xs, IsNumber xs → ∀ c ∈ xs, c &&& 0x7f = c ∧ c ≠ chr '#' :=
    fun xs hxs c hc => ⟨(hex_eq (hxs.2 c hc)).2.1, (hex_eq (hxs.2 c hc)).2.2.1⟩
  cases r with
  | read addr length =>
    obtain ⟨-, haddr, hlength, -⟩ := h
    simp only [text, List.cons_append, List.forall_mem_cons, List.forall_mem_append]
    exact ⟨by decide, hnumber _ haddr, by decide, hnumber _ hlength⟩
  | write addr length data =>
    obtain ⟨-, haddr, hlength, -⟩ := h
    simp only [text, List.cons_append, List.forall_mem_cons, List.forall_mem_append]
    refine ⟨by decide, hnumber _ haddr, by decide, hnumber _ hlength, by decide, fun c hc => ?_⟩
    have hhex := hex_eq (hexByte_isHex c hc)
    exact ⟨hhex.2.1, hhex.2.2.1⟩

/-- No request has sequence characters. -/
theorem Valid.sequenceChars {r : Request} (h : r.Valid) (rest : List Byte) :
    Stub.sequenceChars (r.text ++ rest) = (r.text ++ rest, []) := by
  have hthird : ∀ (c : Byte) (addr tail : List Byte), IsNumber addr →
      (c :: addr ++ chr ',' :: tail).getD 2 0 ≠ chr ':' := by
    intro c addr tail haddr
    rcases addr with _ | ⟨a, _ | ⟨b, addr⟩⟩
    · exact absurd rfl haddr.1
    · exact (by decide : chr ',' ≠ chr ':')
    · exact (hex_eq (haddr.2 b (by simp))).2.2.2
  unfold Stub.sequenceChars
  rw [if_neg]
  cases r with
  | read addr length =>
    obtain ⟨-, haddr, -⟩ := h
    rw [text, List.append_assoc]
    exact hthird _ _ _ haddr
  | write addr length data =>
    obtain ⟨-, haddr, -⟩ := h
    rw [text, List.append_assoc]
    exact hthird _ _ _ haddr

end Request

theorem toInt_length {n : Nat} (h : n < 2 ^ 31) : (BitVec.ofNat 32 n).toInt.toNat = n := by
  rw [BitVec.toInt_eq_toNat_of_lt]
  · rw [Int.toNat_natCast, BitVec.toNat_ofNat]
    omega
  · rw [BitVec.toNat_ofNat]
    omega

section

variable {s : Stub T} {addr length data rest : List Byte}

theorem readMemory_request (hr : (Request.read addr length).Valid)
    (hbuffer : s.remcomInBuffer = (Request.read addr length).text ++ 0 :: rest) :
    s.readMemory g = some (s.memory.perform g s.thread (.read addr length)).2 := by
  obtain ⟨-, haddr, hlength, hshort⟩ := hr
  have hcomma : hex (chr ',') = none := by decide
  have hzero : hex 0 = none := by decide
  have hnonempty : addr.length ≠ 0 := by simpa using haddr.1
  have hnonempty' : length.length ≠ 0 := by simpa using hlength.1
  have htail : s.remcomInBuffer.tail = addr ++ chr ',' :: (length ++ 0 :: rest) := by
    rw [hbuffer]
    exact List.append_assoc addr _ _
  unfold Stub.readMemory Memory.perform
  simp only [htail, hexToInt_eq haddr.2 hcomma, List.tail_cons, List.headD_cons,
    hexToInt_eq hlength.2 hzero, Option.bind_eq_bind, Option.bind_some]
  rw [if_pos ⟨hnonempty, trivial⟩, if_pos hnonempty']
  cases g.readAddr s.thread (BitVec.ofNat 32 (number addr)) (BitVec.ofNat 32 (number length)) with
  | none => rfl
  | some p =>
    have hfits : 2 * number length < bufmax := by
      unfold bufmax
      omega
    dsimp only [mem2hex]
    rw [toInt_length (by omega), if_pos hfits, List.flatMap_map]

theorem writeMemory_request (hr : (Request.write addr length data).Valid)
    (hbuffer : s.remcomInBuffer = (Request.write addr length data).text ++ 0 :: rest) :
    s.writeMemory g = some ((s.memory.perform g s.thread (.write addr length data)).2,
      (s.memory.perform g s.thread (.write addr length data)).1) := by
  obtain ⟨hfits, haddr, hlength, hdata, hbreak⟩ := hr
  have hcomma : hex (chr ',') = none := by decide
  have hcolon : hex (chr ':') = none := by decide
  have hnonempty : addr.length ≠ 0 := by simpa using haddr.1
  have hnonempty' : length.length ≠ 0 := by simpa using hlength.1
  have hhex := length_hexBytes data
  have hsize : data.length < 2 ^ 31 := by
    simp only [Request.text, List.cons_append, List.length_cons, List.length_append, hhex,
      bufmax] at hfits
    omega
  have htail : s.remcomInBuffer.tail =
      addr ++ chr ',' :: (length ++ chr ':' :: (data.flatMap hexByte ++ 0 :: rest)) := by
    rw [hbuffer]
    show addr ++ chr ',' :: (length ++ chr ':' :: data.flatMap hexByte) ++ 0 :: rest = _
    rw [List.append_assoc, List.cons_append, List.append_assoc]
    rfl
  have htrap : strncmp (text "7d821008") (data.flatMap hexByte ++ 0 :: rest) = some false := by
    have htext : text "7d821008" = Request.breakpoint.flatMap hexByte := by decide
    rw [htext, strncmp_hexBytes, decide_eq_false hbreak]
  unfold Stub.writeMemory Memory.perform
  simp only [htail, hexToInt_eq haddr.2 hcomma, List.tail_cons, List.headD_cons,
    hexToInt_eq hlength.2 hcolon, Option.bind_eq_bind, Option.bind_some]
  rw [if_pos ⟨hnonempty, trivial⟩, if_pos ⟨hnonempty', trivial⟩]
  cases g.writeAddr s.thread (BitVec.ofNat 32 (number addr)) (BitVec.ofNat 32 (number length)) with
  | none => rfl
  | some p =>
    have hthere : 2 * data.length ≤ (data.flatMap hexByte ++ 0 :: rest).length := by
      rw [List.length_append, hhex]
      omega
    simp only [htrap, Option.bind_some, hex2mem, hdata, toInt_length hsize, Bool.false_eq_true,
      if_false, if_pos hthere]
    rw [hex2memLoop_eq _ _ _ (by omega)]

theorem perform_reply {e : Effect T} (h : s.command g = .reply e) :
    s.perform g = (s.after e (.answer false), packet e.remcomOutBuffer) := by
  unfold Stub.perform
  rw [h]

end

/-- The stub does with a request what it means. -/
theorem perform_request {s : Stub T} {r : Request} {rest : List Byte} (hr : r.Valid)
    (hbuffer : s.remcomInBuffer = r.text ++ 0 :: rest) :
    s.perform g =
      ({ s with
        point := .answer false
        remcomOutBuffer := (s.memory.perform g s.thread r).2
        memory := (s.memory.perform g s.thread r).1 },
        packet (s.memory.perform g s.thread r).2) := by
  cases r with
  | read addr length =>
    have hmemory : (s.memory.perform g s.thread (.read addr length)).1 = s.memory := by
      unfold Memory.perform
      dsimp only
      split <;> rfl
    have hletter : s.remcomInBuffer.headD 0 = chr 'm' := by
      rw [hbuffer]
      rfl
    have hcommand : s.command g =
        .reply ⟨(s.memory.perform g s.thread (.read addr length)).2, s.thread, s.memory⟩ := by
      unfold Stub.command
      rw [if_pos hletter, readMemory_request g hr hbuffer]
    rw [perform_reply g hcommand, hmemory]
    rfl
  | write addr length data =>
    have hletter : s.remcomInBuffer.headD 0 = chr 'M' := by
      rw [hbuffer]
      rfl
    have hother : ¬ s.remcomInBuffer.headD 0 = chr 'm' := by
      rw [hletter]
      decide
    have hcommand : s.command g =
        .reply ⟨(s.memory.perform g s.thread (.write addr length data)).2, s.thread,
          (s.memory.perform g s.thread (.write addr length data)).1⟩ := by
      unfold Stub.command
      rw [if_neg hother, if_pos hletter, writeMemory_request g hr hbuffer]
    rw [perform_reply g hcommand]
    rfl

end Requests

section Steps

variable {T : Type*} {g : Target T} {s : Stub T} {c : Byte}

theorem perform_point (g : Target T) (s : Stub T) (point : Point) :
    ({ s with point }.perform g) = s.perform g := by
  have hcommand : ({ s with point } : Stub T).command g = s.command g := rfl
  unfold Stub.perform
  rw [hcommand]
  cases s.command g with
  | reply e => rfl
  | replyAndResume e => rfl
  | resume e => rfl
  | overrun => rfl

theorem step_dollar (hs : s.point = .start) (hc : mask c = chr '$') :
    Stub.step g s c = ({ s with point := .body 0 0 }, []) := by
  have he : c &&& 0x7f = chr '$' := hc
  simp only [Stub.step, hs, if_pos he]

theorem step_outside (hs : s.point = .start) (hc : mask c ≠ chr '$') :
    Stub.step g s c = (s, []) := by
  have hne : ¬ c &&& 0x7f = chr '$' := hc
  simp only [Stub.step, hs, if_neg hne]

section

variable {count : Nat} {checksum : Byte} (hs : s.point = .body count checksum)

include hs

theorem step_hash (hc : mask c = chr '#') :
    Stub.step g s c = ({ s with
      point := .highDigit checksum, remcomInBuffer := s.remcomInBuffer.set count 0 }, []) := by
  have he : c &&& 0x7f = chr '#' := hc
  simp only [Stub.step, hs, if_pos he]

variable (hc : mask c ≠ chr '#')

include hc

theorem step_char (hroom : count + 1 < bufmax) :
    Stub.step g s c = ({ s with
      point := .body (count + 1) (checksum + mask c)
      remcomInBuffer := s.remcomInBuffer.set count (mask c) }, []) := by
  have hne : ¬ c &&& 0x7f = chr '#' := hc
  simp only [Stub.step, hs, if_neg hne, if_pos hroom]
  rfl

theorem step_overlong (hroom : ¬ count + 1 < bufmax) (hsum : checksum + mask c ≠ -1) :
    Stub.step g s c = ({ s with
      point := .start, remcomInBuffer := s.remcomInBuffer.set count (mask c) }, []) := by
  have hne : ¬ c &&& 0x7f = chr '#' := hc
  have hsum' : checksum + (c &&& 0x7f) ≠ -1 := hsum
  simp only [Stub.step, hs, if_neg hne, if_neg hroom, if_pos hsum']
  rfl

theorem step_full (hroom : ¬ count + 1 < bufmax) (hsum : checksum + mask c = -1) :
    Stub.step g s c =
      { s with remcomInBuffer := s.remcomInBuffer.set count (mask c) }.perform g := by
  rw [← perform_point g _ (.body (count + 1) (checksum + mask c))]
  have hne : ¬ c &&& 0x7f = chr '#' := hc
  have hsum' : ¬ checksum + (c &&& 0x7f) ≠ -1 := not_not.mpr hsum
  simp only [Stub.step, hs, if_neg hne, if_neg hroom, if_neg hsum']
  rfl

end

theorem step_firstDigit {checksum : Byte} (hs : s.point = .highDigit checksum) :
    Stub.step g s c =
      ({ s with point := .lowDigit checksum ((hexInt (mask c)).setWidth 8 <<< 4) }, []) := by
  simp only [Stub.step, hs]
  rfl

/-- What two characters make of the checksum of a packet -/
def xmitcsum (high low : Byte) : Byte :=
  ((hexInt high).setWidth 8 <<< 4) ||| (hexInt low).setWidth 8

section

variable {checksum high : Byte}
  (hs : s.point = .lowDigit checksum ((hexInt high).setWidth 8 <<< 4))

include hs

theorem step_damaged (hsum : checksum ≠ xmitcsum high (mask c)) :
    Stub.step g s c = ({ s with point := .start }, [chr '-']) := by
  have hsum' : checksum ≠
      ((hexInt high).setWidth 8 <<< 4) ||| (hexInt (c &&& 0x7f)).setWidth 8 := hsum
  simp only [Stub.step, hs, if_pos hsum']

theorem step_received (hsum : checksum = xmitcsum high (mask c)) :
    Stub.step g s c =
      let r := Stub.sequenceChars s.remcomInBuffer
      let p := { s with remcomInBuffer := r.1 }.perform g
      (p.1, chr '+' :: r.2 ++ p.2) := by
  have hsum' : ¬ checksum ≠
      ((hexInt high).setWidth 8 <<< 4) ||| (hexInt (c &&& 0x7f)).setWidth 8 := not_not.mpr hsum
  simp only [Stub.step, hs, if_neg hsum']

end

theorem step_acknowledged {last : Bool} (hs : s.point = .answer last) :
    Stub.step g s (chr '+') = (if last then s.leave g else { s with point := .start }, []) := by
  simp only [Stub.step, hs, if_true]

theorem step_again {last : Bool} (hs : s.point = .answer last) (hc : c ≠ chr '+') :
    Stub.step g s c = (s, packet s.remcomOutBuffer) := by
  simp only [Stub.step, hs, if_neg hc]

end Steps

section Line

variable {T : Type*} {g : Target T} {s : Stub T}

theorem run_noise {line : List Byte} (hs : s.point = .start) (h : chr '$' ∉ line.map mask) :
    Transducer.run (Stub.step g) s line = (s, []) := by
  have hstays : ∀ c ∈ line, Stub.step g s c = (s, []) := fun c hc =>
    step_outside hs fun he => h (he ▸ List.mem_map_of_mem hc)
  rw [Transducer.run_stays hstays]
  simp

/-- Anything may come before a packet. -/
theorem run_dollar {noise line : List Byte} {start : Byte} (hs : s.point = .start)
    (hnoise : chr '$' ∉ noise.map mask) (hstart : mask start = chr '$') :
    Transducer.run (Stub.step g) s (noise ++ start :: line) =
      Transducer.run (Stub.step g) { s with point := .body 0 0 } line := by
  rw [Transducer.run_append_of_eq (run_noise hs hnoise) rfl, Transducer.run, step_dollar hs hstart]
  rfl

/-- The characters of a packet go to the buffer. -/
theorem run_body {count : Nat} {checksum : Byte} {line : List Byte}
    (hs : s.point = .body count checksum) (h : chr '#' ∉ line.map mask)
    (hbuffer : s.remcomInBuffer.length = bufmax) (hfits : count + line.length < bufmax) :
    Transducer.run (Stub.step g) s line =
      ({ s with
        point := .body (count + line.length) (checksum + (line.map mask).sum)
        remcomInBuffer := s.remcomInBuffer.take count ++ line.map mask ++
          s.remcomInBuffer.drop (count + line.length) }, []) := by
  induction line generalizing s count checksum with
  | nil => simp [Transducer.run, ← hs]
  | cons c line ih =>
    rw [List.map_cons, List.mem_cons, not_or] at h
    rw [List.length_cons] at hfits
    have hlength : (s.remcomInBuffer.set count (mask c)).length = bufmax := by
      rw [List.length_set, hbuffer]
    rw [Transducer.run, step_char hs (fun he => h.1 he.symm) (by omega),
      ih rfl h.2 hlength (by omega)]
    have htake : (s.remcomInBuffer.set count (mask c)).take (count + 1) =
        s.remcomInBuffer.take count ++ [mask c] := by
      rw [List.take_add_one, List.take_set_of_le (Nat.le_refl count),
        List.getElem?_set_self (by omega)]
      rfl
    have hdrop : (s.remcomInBuffer.set count (mask c)).drop (count + 1 + line.length) =
        s.remcomInBuffer.drop (count + (line.length + 1)) := by
      rw [List.drop_set_of_lt (by omega)]
      congr 1
      omega
    simp only [htake, hdrop, List.map_cons, List.length_cons, List.sum_cons, List.append_assoc,
      List.cons_append, List.nil_append, List.append_nil]
    congr 3
    · omega
    · exact BitVec.add_assoc _ _ _

/-- A packet up to its `#` -/
theorem run_packet {line : List Byte} {noise body rest : List Byte} (hs : s.point = .start)
    (hbuffer : s.remcomInBuffer.length = bufmax)
    (hline : line.map mask = noise ++ chr '$' :: (body ++ chr '#' :: rest))
    (hnoise : chr '$' ∉ noise) (hbody : chr '#' ∉ body) (hfits : body.length < bufmax) :
    ∃ before after stale, line = before ++ after ∧ after.map mask = rest ∧
      (body ++ 0 :: stale).length = bufmax ∧
      Transducer.run (Stub.step g) s before =
        ({ s with point := .highDigit body.sum, remcomInBuffer := body ++ 0 :: stale }, []) := by
  obtain ⟨noise, framed, rfl, rfl, hframed⟩ := List.map_eq_append_iff.mp hline
  obtain ⟨start, bounded, rfl, hstart, hbounded⟩ := List.map_eq_cons_iff.mp hframed
  obtain ⟨body, closed, rfl, rfl, hclosed⟩ := List.map_eq_append_iff.mp hbounded
  obtain ⟨stop, after, rfl, hstop, hafter⟩ := List.map_eq_cons_iff.mp hclosed
  rw [List.length_map] at hfits
  refine ⟨noise ++ start :: (body ++ [stop]), after, s.remcomInBuffer.drop (body.length + 1), by simp,
    hafter, ?_, ?_⟩
  · simp only [List.length_append, List.length_map, List.length_cons, List.length_drop, hbuffer]
    omega
  · have hbodyRun := run_body (g := g) (s := { s with point := .body 0 0 }) rfl hbody hbuffer
      (by omega)
    have hset : (body.map mask ++ s.remcomInBuffer.drop body.length).set body.length 0 =
        body.map mask ++ 0 :: s.remcomInBuffer.drop (body.length + 1) := by
      have hdrop : s.remcomInBuffer.drop body.length =
          s.remcomInBuffer[body.length] :: s.remcomInBuffer.drop (body.length + 1) :=
        List.drop_eq_getElem_cons (by omega)
      rw [hdrop, List.set_append_right _ _ (by simp), List.length_map, Nat.sub_self]
      rfl
    have hlast : Stub.step g { s with
          point := .body (0 + body.length) (0 + (body.map mask).sum)
          remcomInBuffer := s.remcomInBuffer.take 0 ++ body.map mask ++
            s.remcomInBuffer.drop (0 + body.length) } stop =
        ({ s with
          point := .highDigit (body.map mask).sum
          remcomInBuffer := body.map mask ++ 0 :: s.remcomInBuffer.drop (body.length + 1) }, []) := by
      rw [step_hash rfl hstop]
      have hsum : 0 + (body.map mask).sum = (body.map mask).sum := BitVec.zero_add _
      simp only [Nat.zero_add, List.take_zero, List.nil_append, hsum, hset]
    have hclosed := Transducer.run_append_of_eq hbodyRun
      ((Transducer.run_singleton _ _).trans hlast)
    rw [run_dollar hs hnoise hstart, hclosed]
    rfl

/-- A packet with its checksum -/
theorem run_checked {line noise body : List Byte} {high low : Byte} (hs : s.point = .start)
    (hbuffer : s.remcomInBuffer.length = bufmax)
    (hline : line.map mask = noise ++ chr '$' :: (body ++ [chr '#', high, low]))
    (hnoise : chr '$' ∉ noise) (hbody : chr '#' ∉ body) (hfits : body.length < bufmax) :
    ∃ stale, (body ++ 0 :: stale).length = bufmax ∧
      Transducer.run (Stub.step g) s line =
        let s := { s with
          point := .lowDigit body.sum ((hexInt high).setWidth 8 <<< 4)
          remcomInBuffer := body ++ 0 :: stale }
        if body.sum ≠ xmitcsum high low then ({ s with point := .start }, [chr '-'])
        else
          let r := Stub.sequenceChars s.remcomInBuffer
          let p := { s with remcomInBuffer := r.1 }.perform g
          (p.1, chr '+' :: r.2 ++ p.2) := by
  obtain ⟨before, after, stale, rfl, hafter, hlength, hrun⟩ :=
    run_packet (g := g) hs hbuffer hline hnoise hbody hfits
  obtain ⟨high, rest, rfl, rfl, hrest⟩ := List.map_eq_cons_iff.mp hafter
  obtain ⟨low, rest, rfl, rfl, hnil⟩ := List.map_eq_cons_iff.mp hrest
  obtain rfl := List.map_eq_nil_iff.mp hnil
  refine ⟨stale, hlength, ?_⟩
  have hhigh : Transducer.run (Stub.step g) { s with
        point := .highDigit body.sum, remcomInBuffer := body ++ 0 :: stale } [high, low] =
      Stub.step g { s with
        point := .lowDigit body.sum ((hexInt (mask high)).setWidth 8 <<< 4)
        remcomInBuffer := body ++ 0 :: stale } low := by
    rw [Transducer.run, step_firstDigit rfl, Transducer.run_singleton]
    rfl
  exact Transducer.run_append_of_eq hrun hhigh

/-- A packet that does not fit into the buffer -/
theorem run_overlong {line noise body : List Byte} (hs : s.point = .start)
    (hbuffer : s.remcomInBuffer.length = bufmax) (hline : line.map mask = noise ++ chr '$' :: body)
    (hnoise : chr '$' ∉ noise) (hbody : chr '#' ∉ body) (hlong : body.length = bufmax)
    (hsum : body.sum ≠ -1) :
    ∃ buffer, buffer.length = bufmax ∧ Transducer.run (Stub.step g) s line =
      ({ s with point := .start, remcomInBuffer := buffer }, []) := by
  obtain ⟨noise, framed, rfl, rfl, hframed⟩ := List.map_eq_append_iff.mp hline
  obtain ⟨start, all, rfl, hstart, rfl⟩ := List.map_eq_cons_iff.mp hframed
  rw [List.length_map] at hlong
  obtain ⟨init, last, rfl⟩ : ∃ init last, all = init ++ [last] := by
    rcases List.eq_nil_or_concat all with rfl | ⟨init, last, rfl⟩
    · exact absurd hlong (by decide)
    · exact ⟨init, last, List.concat_eq_append⟩
  rw [List.length_append, List.length_singleton] at hlong
  rw [List.map_append, List.mem_append, not_or] at hbody
  rw [List.map_append, List.sum_append, List.map_singleton, List.sum_singleton] at hsum
  have hbodyRun := run_body (g := g) (s := { s with point := .body 0 0 }) rfl hbody.1 hbuffer
    (by omega)
  obtain ⟨filled, hfilled, hlast⟩ : ∃ filled, filled.length = bufmax ∧ Stub.step g { s with
        point := .body (0 + init.length) (0 + (init.map mask).sum)
        remcomInBuffer := s.remcomInBuffer.take 0 ++ init.map mask ++
          s.remcomInBuffer.drop (0 + init.length) } last =
      ({ s with point := .start, remcomInBuffer := filled }, []) := by
    refine ⟨(init.map mask ++ s.remcomInBuffer.drop init.length).set init.length (mask last), ?_, ?_⟩
    · rw [List.length_set, List.length_append, List.length_map, List.length_drop, hbuffer]
      omega
    · have hzero : 0 + (init.map mask).sum = (init.map mask).sum := BitVec.zero_add _
      rw [step_overlong rfl (fun he => hbody.2 (List.mem_singleton.mpr he.symm)) (by omega)
        (hzero.symm ▸ hsum)]
      simp only [Nat.zero_add, List.take_zero, List.nil_append]
  refine ⟨filled, hfilled, ?_⟩
  have hall := Transducer.run_append_of_eq hbodyRun
    ((Transducer.run_singleton _ _).trans hlast)
  rw [run_dollar hs hnoise hstart, hall]
  rfl

end Line

/-- A packet that the stub does not take: it has been damaged so that its checksum does not fit, or
its `#` has been lost for as long as the buffer is. The line may carry anything else before it. -/
inductive Attempt where
  | damaged (line : List Byte)
  | overlong (line : List Byte)

namespace Attempt

def line : Attempt → List Byte
  | .damaged line => line
  | .overlong line => line

def answer : Attempt → List Byte
  | .damaged _ => [chr '-']
  | .overlong _ => []

def Valid : Attempt → Prop
  | .damaged line => ∃ noise body high low,
    line.map mask = noise ++ chr '$' :: (body ++ [chr '#', high, low]) ∧ chr '$' ∉ noise ∧
      chr '#' ∉ body ∧ body.length < bufmax ∧ body.sum ≠ xmitcsum high low
  | .overlong line => ∃ noise body,
    line.map mask = noise ++ chr '$' :: body ∧ chr '$' ∉ noise ∧ chr '#' ∉ body ∧
      body.length = bufmax ∧ body.sum ≠ -1

end Attempt

/-- A request is sent until it comes through. The reply is sent again for every character that comes
before a `+`. -/
structure Exchange where
  attempts : List Attempt
  sent : List Byte
  request : Request
  repeats : List Byte

namespace Exchange

def line (x : Exchange) : List Byte :=
  x.attempts.flatMap Attempt.line ++ (x.sent ++ (x.repeats ++ [chr '+']))

structure Valid (x : Exchange) : Prop where
  attempts : ∀ a ∈ x.attempts, a.Valid
  request : x.request.Valid
  sent : ∃ noise, chr '$' ∉ noise ∧ x.sent.map mask = noise ++ packet x.request.text
  repeats : chr '+' ∉ x.repeats

end Exchange

variable {T : Type*} (g : Target T) (thread : T)

/-- What an exchange means: the request is performed once. -/
def Memory.exchange (m : Memory) (x : Exchange) : Memory × List Byte :=
  ((m.perform g thread x.request).1,
    x.attempts.flatMap Attempt.answer ++ (chr '+' :: packet (m.perform g thread x.request).2 ++
      x.repeats.flatMap fun _ => packet (m.perform g thread x.request).2))

/-- The stub waits for a packet, with the memory as it should be. -/
structure Ready (m : Memory) (s : Stub T) : Prop where
  point : s.point = .start
  buffer : s.remcomInBuffer.length = bufmax
  memory : s.memory = m
  thread : s.thread = thread

variable {g thread} {m : Memory} {s : Stub T}

theorem Ready.attempt (h : Ready thread m s) {a : Attempt} (ha : a.Valid) :
    ∃ t, Transducer.run (Stub.step g) s a.line = (t, a.answer) ∧ Ready thread m t := by
  cases a with
  | damaged line =>
    obtain ⟨noise, body, high, low, hline, hnoise, hbody, hfits, hsum⟩ := ha
    obtain ⟨stale, hlength, hrun⟩ :=
      run_checked (g := g) h.point h.buffer hline hnoise hbody hfits
    dsimp only at hrun
    rw [if_pos hsum] at hrun
    exact ⟨_, hrun, rfl, hlength, h.memory, h.thread⟩
  | overlong line =>
    obtain ⟨noise, body, hline, hnoise, hbody, hlong, hsum⟩ := ha
    obtain ⟨buffer, hlength, hrun⟩ :=
      run_overlong (g := g) h.point h.buffer hline hnoise hbody hlong hsum
    exact ⟨_, hrun, rfl, hlength, h.memory, h.thread⟩

theorem Ready.attempts (h : Ready thread m s) {attempts : List Attempt}
    (hvalid : ∀ a ∈ attempts, a.Valid) :
    ∃ t, Transducer.run (Stub.step g) s (attempts.flatMap Attempt.line) =
        (t, attempts.flatMap Attempt.answer) ∧ Ready thread m t := by
  have hrefused : ∀ m, Transducer.run (fun m (a : Attempt) => (m, a.answer)) m attempts =
      ((m : Memory), attempts.flatMap Attempt.answer) := by
    intro m
    clear hvalid
    induction attempts with
    | nil => rfl
    | cons a attempts ih =>
      rw [Transducer.run, ih]
      rfl
  have hrun := Transducer.run_words (fun m (a : Attempt) => (m, a.answer)) Attempt.line Attempt.Valid
    (Ready thread) (fun _ _ _ hrel ha => hrel.attempt (g := g) ha) h hvalid
  rwa [hrefused] at hrun

theorem Ready.exchange (h : Ready thread m s) {x : Exchange} (hx : x.Valid) :
    ∃ t, Transducer.run (Stub.step g) s x.line = (t, (m.exchange g thread x).2) ∧
      Ready thread (m.exchange g thread x).1 t := by
  obtain ⟨r, hattempts, hr⟩ := h.attempts (g := g) hx.attempts
  obtain ⟨noise, hnoise, hsent⟩ := hx.sent
  obtain ⟨high, low, hdigits, hhigh, hlow, -, hsum⟩ := hexByte_digits x.request.text.sum
  rw [packet, hdigits, List.cons_append] at hsent
  have hplain := hx.request.plain
  obtain ⟨stale, hlength, hrun⟩ := run_checked (g := g) hr.point hr.buffer hsent hnoise
    (fun hmem => (hplain _ hmem).2 rfl) hx.request.1
  have hchecksum : ¬ x.request.text.sum ≠ xmitcsum high low := not_not.mpr hsum.symm
  dsimp only at hrun
  rw [if_neg hchecksum, hx.request.sequenceChars, perform_request g hx.request rfl] at hrun
  dsimp only at hrun
  rw [hr.memory, hr.thread] at hrun
  have hrepeats : ∀ t : Stub T, t.point = .answer false →
      Transducer.run (Stub.step g) t x.repeats =
        (t, x.repeats.flatMap fun _ => packet t.remcomOutBuffer) := fun t ht =>
    Transducer.run_stays fun c hc => step_again ht fun he => hx.repeats (he ▸ hc)
  have hend : ∀ t : Stub T, t.point = .answer false →
      Transducer.run (Stub.step g) t (x.repeats ++ [chr '+']) =
        ({ t with point := .start }, (x.repeats.flatMap fun _ => packet t.remcomOutBuffer) ++ []) :=
    fun t ht => Transducer.run_append_of_eq (hrepeats t ht)
      ((Transducer.run_singleton _ _).trans (step_acknowledged ht))
  have hall := Transducer.run_append_of_eq hattempts
    (Transducer.run_append_of_eq hrun (hend _ rfl))
  refine ⟨_, hall.trans (congrArg (Prod.mk _) ?_), rfl, hlength, rfl, rfl⟩
  rw [List.append_nil]
  rfl

/-- The whole memory is that of the thread. -/
def wholeMemory : Target Unit where
  readAddr _ addr _ := some addr
  writeAddr _ addr _ := some addr
  trap := text "7fe00008"
  other _ thread memory := .reply ⟨[], thread, memory⟩
  acknowledged _ thread memory := (thread, memory)

def stopped : Stub Unit where
  point := .start
  remcomInBuffer := List.replicate bufmax 0
  remcomOutBuffer := []
  thread := ()
  memory _ := 0

/-- A write the first packet of which is damaged, and a read the reply to which is asked for twice -/
def writeAndRead : List Exchange :=
  [⟨[.damaged (text "$M10,2:2qff#a5")], text "$M10,2:2aff#a5", .write (text "10") (text "2") [0x2a, 0xff],
      []⟩,
    ⟨[], text "+$mf,4#33", .read (text "f") (text "4"), text "-"⟩]

end Chpok.Gdb
