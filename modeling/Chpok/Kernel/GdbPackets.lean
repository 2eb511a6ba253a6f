import Chpok.Kernel.GdbSession
import Mathlib.Data.List.TakeWhile

/-! Whatever comes on the line, the stub performs nothing but the packets in it. -/

namespace Chpok.Gdb

/-- The line ends with a packet and its checksum. -/
def PacketEnds (line body : List Byte) : Prop :=
  ∃ before high low, line.map mask = before ++ chr '$' :: (body ++ [chr '#', high, low]) ∧
    chr '#' ∉ body ∧ body.length < bufmax ∧ body.sum = xmitcsum high low

/-- The line ends with as many characters as the buffer holds, the sum of which is 255. -/
def FullBuffer (line body : List Byte) : Prop :=
  ∃ before, line.map mask = before ++ chr '$' :: body ∧
    chr '#' ∉ body ∧ body.length = bufmax ∧ body.sum = -1

/-- A packet as the commands see it: up to a null, and without sequence characters -/
def contents (body : List Byte) : List Byte :=
  let text := body.takeWhile (· ≠ 0)
  if text.getD 2 0 = chr ':' then text.drop 3 else text

/-- What the end of the line leaves in the buffer. Behind the null that ends a packet the buffer is
what the packets before have made of it. -/
def Sent (line buffer : List Byte) : Prop :=
  (∃ body behind, PacketEnds line body ∧ buffer = contents body ++ 0 :: behind) ∨
    FullBuffer line buffer

variable {T : Type*} {g : Target T} {s t : Stub T} {line : List Byte}

section Text

/-- A read, or a write with all its data -/
inductive OnMemory : List Byte → Prop where
  | read {numbers : List Byte} : 0 ∉ numbers → OnMemory (chr 'm' :: numbers)
  | write {addr length data : List Byte} : (∀ x ∈ addr, IsHex x) → (∀ x ∈ length, IsHex x) →
      2 * (BitVec.ofNat 32 (number length)).toInt.toNat ≤ data.length →
      OnMemory (chr 'M' :: (addr ++ chr ',' :: (length ++ chr ':' :: data)))

/-- A number ends at the null at the latest. -/
theorem hexToIntLoop_text {text : List Byte} (h : 0 ∉ text) (n : Nat) (v : BitVec 32) :
    ∃ m w rest, 0 ∉ rest ∧ ∀ behind,
      hexToIntLoop n v (text ++ 0 :: behind) = some (m, w, rest ++ 0 :: behind) := by
  induction text generalizing n v with
  | nil => exact ⟨n, v, [], List.not_mem_nil, fun _ => rfl⟩
  | cons c text ih =>
    obtain ⟨hc, htext⟩ := not_or.mp (mt List.mem_cons.mpr h)
    cases hd : hex c with
    | none =>
      refine ⟨n, v, c :: text, h, fun behind => ?_⟩
      rw [List.cons_append, hexToIntLoop, if_neg (Ne.symm hc), hd]
    | some d =>
      obtain ⟨m, w, rest, hrest, hloop⟩ := ih htext (n + 1) ((v <<< 4) ||| d)
      refine ⟨m, w, rest, hrest, fun behind => ?_⟩
      rw [List.cons_append, hexToIntLoop, if_neg (Ne.symm hc), hd]
      exact hloop behind

theorem strncmp_text {text : List Byte} (h : 0 ∉ text) (data behind behind' : List Byte) :
    strncmp text (data ++ 0 :: behind) = strncmp text (data ++ 0 :: behind') := by
  induction text generalizing data with
  | nil => rfl
  | cons c text ih =>
    obtain ⟨hc, htext⟩ := not_or.mp (mt List.mem_cons.mpr h)
    cases data with
    | nil => simp only [List.nil_append, strncmp, Ne.symm hc, if_false]
    | cons d data => simp only [List.cons_append, strncmp, ih htext]

theorem hex2memLoop_append (m : Memory) (p : BitVec 32) {n : Nat} {data : List Byte}
    (h : 2 * n ≤ data.length) (rest : List Byte) :
    hex2memLoop m p n (data ++ rest) = hex2memLoop m p n data := by
  induction n generalizing m p data with
  | zero => rfl
  | succ n ih =>
    obtain ⟨high, low, data, rfl⟩ : ∃ high low tail, data = high :: low :: tail := by
      match data, h with
      | high :: low :: tail, _ => exact ⟨high, low, tail, rfl⟩
    rw [List.length_cons, List.length_cons] at h
    exact ih _ _ (by omega)

theorem readMemory_text {numbers : List Byte} (h : 0 ∉ numbers) (behind behind' : List Byte) :
    { s with remcomInBuffer := chr 'm' :: numbers ++ 0 :: behind }.readMemory g =
      { s with remcomInBuffer := chr 'm' :: numbers ++ 0 :: behind' }.readMemory g := by
  obtain ⟨n, addr, rest, hrest, haddr⟩ := hexToIntLoop_text h 0 0
  unfold Stub.readMemory hexToInt
  simp only [List.cons_append, List.tail_cons, haddr, Option.bind_eq_bind, Option.bind_some]
  cases rest with
  | nil =>
    have hend : (0 : Byte) ≠ chr ',' := by decide
    simp only [List.nil_append, List.headD_cons, hend, and_false, if_false]
  | cons c rest =>
    obtain ⟨m, length, tail, -, hlength⟩ :=
      hexToIntLoop_text (not_or.mp (mt List.mem_cons.mpr hrest)).2 0 0
    simp only [List.cons_append, List.tail_cons, List.headD_cons, hlength, Option.bind_some]

theorem writeMemory_text {text addr length data : List Byte}
    (htext : text = chr 'M' :: (addr ++ chr ',' :: (length ++ chr ':' :: data)))
    (haddr : ∀ x ∈ addr, IsHex x) (hlength : ∀ x ∈ length, IsHex x)
    (hall : 2 * (BitVec.ofNat 32 (number length)).toInt.toNat ≤ data.length)
    (behind behind' : List Byte) :
    { s with remcomInBuffer := text ++ 0 :: behind }.writeMemory g =
      { s with remcomInBuffer := text ++ 0 :: behind' }.writeMemory g := by
  have hcomma : hex (chr ',') = none := by decide
  have hcolon : hex (chr ':') = none := by decide
  have htrap : strncmp (Gdb.text "7d821008") (data ++ 0 :: behind) =
      strncmp (Gdb.text "7d821008") (data ++ 0 :: behind') :=
    strncmp_text (by decide) data behind behind'
  have hbytes : ∀ (m : Memory) (p : BitVec 32) (rest : List Byte),
      hex2mem (data ++ rest) m p (BitVec.ofNat 32 (number length)) =
        some (hex2memLoop m p (BitVec.ofNat 32 (number length)).toInt.toNat data) := by
    intro m p rest
    have hfits : 2 * (BitVec.ofNat 32 (number length)).toInt.toNat ≤ (data ++ rest).length := by
      rw [List.length_append]
      omega
    rw [hex2mem, if_pos hfits, hex2memLoop_append m p hall]
  have hwritten : ∀ (isTrap : Bool) (m : Memory) (p : BitVec 32),
      hex2mem (if isTrap then g.trap else data ++ 0 :: behind) m p
          (BitVec.ofNat 32 (number length)) =
        hex2mem (if isTrap then g.trap else data ++ 0 :: behind') m p
          (BitVec.ofNat 32 (number length)) := by
    intro isTrap m p
    cases isTrap with
    | false => exact (hbytes m p _).trans (hbytes m p _).symm
    | true => rfl
  unfold Stub.writeMemory
  simp only [htext, List.cons_append, List.append_assoc, List.tail_cons, hexToInt_eq haddr hcomma,
    List.headD_cons, hexToInt_eq hlength hcolon, Option.bind_eq_bind, Option.bind_some, htrap, hwritten]

/-- What a command on memory does is decided by its packet alone. -/
theorem command_text {text : List Byte} (h : OnMemory text) (behind behind' : List Byte) :
    { s with remcomInBuffer := text ++ 0 :: behind }.command g =
      { s with remcomInBuffer := text ++ 0 :: behind' }.command g := by
  cases h with
  | read h =>
    unfold Stub.command
    rw [readMemory_text h behind behind']
    rfl
  | write haddr hlength hall =>
    unfold Stub.command
    rw [writeMemory_text rfl haddr hlength hall behind behind']
    rfl

theorem takeWhile_text {text : List Byte} (h : 0 ∉ text) (rest : List Byte) :
    (text ++ 0 :: rest).takeWhile (· ≠ 0) = text := by
  have hall : ∀ c ∈ text, decide (c ≠ 0) = true := fun c hc => decide_eq_true fun he => h (he ▸ hc)
  rw [List.takeWhile_append_of_pos hall]
  simp

theorem text_of_packet (body stale : List Byte) :
    ∃ rest, body ++ 0 :: stale = body.takeWhile (· ≠ 0) ++ 0 :: rest := by
  induction body with
  | nil => exact ⟨stale, rfl⟩
  | cons c body ih =>
    by_cases hc : c = 0
    · refine ⟨body ++ 0 :: stale, ?_⟩
      rw [hc, List.takeWhile_cons_of_neg (by decide)]
      rfl
    · obtain ⟨rest, hrest⟩ := ih
      refine ⟨rest, ?_⟩
      have hkeep : (c :: body).takeWhile (· ≠ 0) = c :: body.takeWhile (· ≠ 0) :=
        List.takeWhile_cons_of_pos (decide_eq_true hc)
      rw [hkeep, List.cons_append, hrest]
      rfl

/-- The sequence characters are gone from the buffer. -/
theorem sequenceChars_packet (body stale : List Byte) :
    ∃ behind, (Stub.sequenceChars (body ++ 0 :: stale)).1 = contents body ++ 0 :: behind := by
  have hnull : 0 ∉ body.takeWhile (· ≠ 0) := fun hmem => by
    simpa using List.mem_takeWhile_imp hmem
  obtain ⟨rest, hrest⟩ := text_of_packet body stale
  unfold contents Stub.sequenceChars
  dsimp only
  rw [hrest, takeWhile_text hnull]
  generalize body.takeWhile (· ≠ 0) = text
  by_cases hlong : 3 ≤ text.length
  · have hthird : (text ++ 0 :: rest).getD 2 0 = text.getD 2 0 := List.getD_append _ _ _ _ (by omega)
    rw [hthird]
    split_ifs with hcolon
    · -- the null is moved with the text
      have hdrop : (text ++ 0 :: rest).drop 3 = text.drop 3 ++ 0 :: rest :=
        List.drop_append_of_le_length hlong
      have hmoved : (text.drop 3 ++ 0 :: rest).take (text.length - 2) = text.drop 3 ++ [0] := by
        have hsize : text.length - 2 = (text.drop 3).length + 1 := by
          rw [List.length_drop]
          omega
        rw [hsize, List.take_length_add_append]
        rfl
      refine ⟨(text ++ 0 :: rest).drop (text.length - 2), ?_⟩
      rw [hdrop, hmoved, List.append_assoc]
      rfl
    · exact ⟨rest, rfl⟩
  · have hthird : text.getD 2 0 = 0 := List.getD_eq_default _ _ (by omega)
    have hnone : ¬ (0 : Byte) = chr ':' := by decide
    have hzero : text.length - 2 = 0 := by omega
    rw [hthird, if_neg hnone, hzero]
    refine ⟨rest, ?_⟩
    split_ifs
    · rfl
    · rfl

end Text

/-- The line ends with the start of a packet, the body of which is in the buffer. -/
structure Started (line : List Byte) (s : Stub T) (checksum : Byte) (body digits : List Byte) :
    Prop where
  ends : ∃ before, line.map mask = before ++ chr '$' :: (body ++ digits)
  unclosed : chr '#' ∉ body
  sum_eq : body.sum = checksum
  buffered : s.remcomInBuffer.take body.length = body

/-- What the line so far says about the stub -/
structure Tracks (line : List Byte) (s : Stub T) : Prop where
  size : s.remcomInBuffer.length = bufmax
  reading : ∀ count checksum, s.point = .body count checksum →
    ∃ body, Started line s checksum body [] ∧ body.length = count ∧ count < bufmax
  highDigit : ∀ checksum, s.point = .highDigit checksum →
    ∃ body, Started line s checksum body [chr '#'] ∧ body.length < bufmax ∧
      s.remcomInBuffer.getD body.length 0 = 0
  lowDigit : ∀ checksum x, s.point = .lowDigit checksum x →
    ∃ body high, Started line s checksum body [chr '#', high] ∧ body.length < bufmax ∧
      s.remcomInBuffer.getD body.length 0 = 0 ∧ x = (hexInt high).setWidth 8 <<< 4
  answered : ∀ last, s.point = .answer last → ∃ before, before <+: line ∧ Sent before s.remcomInBuffer

theorem length_sequenceChars {buffer : List Byte} {n : Nat} (hn : n < buffer.length)
    (hzero : buffer.getD n 0 = 0) : (Stub.sequenceChars buffer).1.length = buffer.length := by
  have hshort : (buffer.takeWhile (· ≠ 0)).length < buffer.length := by
    have hstart := List.takeWhile_prefix (l := buffer) (· ≠ 0)
    refine lt_of_le_of_ne hstart.length_le fun he => ?_
    have hall := List.takeWhile_eq_self_iff.mp (hstart.eq_of_length he)
    have hmem := hall _ (List.getElem_mem hn)
    rw [List.getD_eq_getElem _ _ hn] at hzero
    simp [hzero] at hmem
  unfold Stub.sequenceChars
  split_ifs with hcolon
  · simp only [List.length_append, List.length_take, List.length_drop]
    omega
  · rfl

theorem perform_spec (g : Target T) (s : Stub T) :
    (s.perform g).1.remcomInBuffer = s.remcomInBuffer ∧
      ((∃ last, (s.perform g).1.point = .answer last) ∨ (s.perform g).1.point = .resumed ∨
        (s.perform g).1.point = .overrun) := by
  unfold Stub.perform
  cases s.command g with
  | reply e => exact ⟨rfl, .inl ⟨false, rfl⟩⟩
  | replyAndResume e => exact ⟨rfl, .inl ⟨true, rfl⟩⟩
  | resume e => exact ⟨rfl, .inr (.inl rfl)⟩
  | overrun => exact ⟨rfl, .inr (.inr rfl)⟩

/-- Where no packet is being read, only the size of the buffer matters. -/
theorem tracks_of_idle (hsize : s.remcomInBuffer.length = bufmax)
    (h : s.point = .start ∨ s.point = .resumed ∨ s.point = .overrun) : Tracks line s := by
  refine ⟨hsize, fun _ _ hp => ?_, fun _ hp => ?_, fun _ _ hp => ?_, fun _ hp => ?_⟩ <;>
    · rw [hp] at h
      simp at h

theorem tracks_answer (hsize : s.remcomInBuffer.length = bufmax) {last : Bool}
    (hp : s.point = .answer last) {before : List Byte} (hbefore : before <+: line)
    (hsent : Sent before s.remcomInBuffer) : Tracks line s := by
  refine ⟨hsize, fun _ _ h => ?_, fun _ h => ?_, fun _ _ h => ?_, fun _ _ => ⟨before, hbefore, hsent⟩⟩
  all_goals
    rw [hp] at h
    cases h

section

variable {checksum : Byte} {body : List Byte} (hsize : s.remcomInBuffer.length = bufmax)
  (hfits : body.length < bufmax)

include hsize hfits

theorem tracks_reading (hp : s.point = .body body.length checksum)
    (hbody : Started line s checksum body []) : Tracks line s := by
  refine ⟨hsize, fun _ _ h => ?_, fun _ h => ?_, fun _ _ h => ?_, fun _ h => ?_⟩
  · rw [hp] at h
    obtain ⟨rfl, rfl⟩ := Point.body.inj h
    exact ⟨body, hbody, rfl, hfits⟩
  all_goals
    rw [hp] at h
    cases h

theorem tracks_highDigit (hp : s.point = .highDigit checksum)
    (hbody : Started line s checksum body [chr '#'])
    (hzero : s.remcomInBuffer.getD body.length 0 = 0) : Tracks line s := by
  refine ⟨hsize, fun _ _ h => ?_, fun _ h => ?_, fun _ _ h => ?_, fun _ h => ?_⟩
  · rw [hp] at h
    cases h
  · rw [hp] at h
    obtain rfl := Point.highDigit.inj h
    exact ⟨body, hbody, hfits, hzero⟩
  all_goals
    rw [hp] at h
    cases h

theorem tracks_lowDigit {high : Byte}
    (hp : s.point = .lowDigit checksum ((hexInt high).setWidth 8 <<< 4))
    (hbody : Started line s checksum body [chr '#', high])
    (hzero : s.remcomInBuffer.getD body.length 0 = 0) : Tracks line s := by
  refine ⟨hsize, fun _ _ h => ?_, fun _ h => ?_, fun _ _ h => ?_, fun _ h => ?_⟩
  · rw [hp] at h
    cases h
  · rw [hp] at h
    cases h
  · rw [hp] at h
    obtain ⟨rfl, rfl⟩ := Point.lowDigit.inj h
    exact ⟨body, high, hbody, hfits, hzero, rfl⟩
  · rw [hp] at h
    cases h

end

theorem tracks_perform {buffer : List Byte} (hsize : buffer.length = bufmax)
    (hsent : Sent line buffer) : Tracks line ({ s with remcomInBuffer := buffer }.perform g).1 := by
  obtain ⟨hbuffer, ⟨last, hpoint⟩ | hpoint⟩ := perform_spec g { s with remcomInBuffer := buffer }
  · exact tracks_answer (hbuffer ▸ hsize) hpoint List.prefix_rfl (hbuffer ▸ hsent)
  · exact tracks_of_idle (hbuffer ▸ hsize) (.inr hpoint)

/-- What a step leaves alone when it performs nothing -/
structure Quiet (s t : Stub T) : Prop where
  memory : t.memory = s.memory
  thread : t.thread = s.thread
  resumed : t.point = .resumed → s.point = .resumed

/-- What a character may do: it ends a packet, which is performed, or it acknowledges the reply to a
packet, after which the target goes on. -/
def Performs (g : Target T) (line : List Byte) (s t : Stub T) : Prop :=
  Quiet s t ∨
    (∃ buffer, Sent line buffer ∧ t = ({ s with remcomInBuffer := buffer }.perform g).1) ∨
    (s.point = .answer true ∧ (∃ before, before <+: line ∧ Sent before s.remcomInBuffer) ∧
      t = s.leave g)

theorem map_concat {before tail : List Byte} (c : Byte)
    (h : line.map mask = before ++ chr '$' :: tail) :
    (line ++ [c]).map mask = before ++ chr '$' :: (tail ++ [mask c]) := by
  rw [List.map_append, h, List.append_assoc]
  rfl

/-- A step that performs nothing does not end at `.resumed`. -/
theorem quiet_of_point {point : Point} {buffer : List Byte} (hpoint : point ≠ .resumed) :
    Quiet s { s with point, remcomInBuffer := buffer } := ⟨rfl, rfl, fun h => absurd h hpoint⟩

theorem Tracks.step_start (h : Tracks line s) (hs : s.point = .start) (c : Byte) :
    Tracks (line ++ [c]) (Stub.step g s c).1 ∧ Performs g (line ++ [c]) s (Stub.step g s c).1 := by
  by_cases hc : mask c = chr '$'
  · have hends : (line ++ [c]).map mask = line.map mask ++ chr '$' :: ([] ++ []) := by
      rw [List.map_append, List.map_singleton, hc]
      rfl
    have hstarted : Started (line ++ [c]) { s with point := .body 0 0 } 0 [] [] :=
      ⟨⟨_, hends⟩, List.not_mem_nil, rfl, rfl⟩
    rw [step_dollar hs hc]
    exact ⟨tracks_reading h.size (by decide) rfl hstarted, .inl (quiet_of_point (by simp))⟩
  · rw [step_outside hs hc]
    exact ⟨tracks_of_idle h.size (.inl hs), .inl ⟨rfl, rfl, id⟩⟩

theorem Tracks.step_body (h : Tracks line s) {count : Nat} {checksum : Byte}
    (hs : s.point = .body count checksum) (c : Byte) :
    Tracks (line ++ [c]) (Stub.step g s c).1 ∧ Performs g (line ++ [c]) s (Stub.step g s c).1 := by
  obtain ⟨body, hbody, rfl, hfits⟩ := h.reading count checksum hs
  obtain ⟨before, hends⟩ := hbody.ends
  rw [List.append_nil] at hends
  have hends' := map_concat c hends
  have hsize : ∀ b, (s.remcomInBuffer.set body.length b).length = bufmax := fun b => by
    rw [List.length_set, h.size]
  have hin : body.length < s.remcomInBuffer.length := by
    rw [h.size]
    exact hfits
  by_cases hc : mask c = chr '#'
  · rw [step_hash hs hc]
    refine ⟨tracks_highDigit (hsize 0) hfits rfl ⟨⟨before, hc ▸ hends'⟩, hbody.unclosed, hbody.sum_eq,
      ?_⟩ ?_, .inl (quiet_of_point (by simp))⟩
    · exact (List.take_set_of_le (Nat.le_refl _)).trans hbody.buffered
    · simp [List.getD_eq_getElem?_getD, hin]
  · have hlength : (body ++ [mask c]).length = body.length + 1 := by simp
    have hbuffered : (s.remcomInBuffer.set body.length (mask c)).take (body ++ [mask c]).length =
        body ++ [mask c] := by
      rw [hlength, List.take_add_one, List.take_set_of_le (Nat.le_refl _), hbody.buffered,
        List.getElem?_set_self hin]
      rfl
    have hunclosed : chr '#' ∉ body ++ [mask c] := by
      rw [List.mem_append, List.mem_singleton, not_or]
      exact ⟨hbody.unclosed, fun he => hc he.symm⟩
    have hsum : (body ++ [mask c]).sum = checksum + mask c := by
      rw [List.sum_append, List.sum_singleton, hbody.sum_eq]
    by_cases hroom : body.length + 1 < bufmax
    · rw [step_char hs hc hroom, ← hlength]
      refine ⟨tracks_reading (hsize _) (hlength ▸ hroom) rfl ⟨⟨before, ?_⟩, hunclosed, hsum,
        hbuffered⟩, .inl (quiet_of_point (by simp))⟩
      rw [List.append_nil]
      exact hends'
    by_cases hlast : checksum + mask c ≠ -1
    · rw [step_overlong hs hc hroom hlast]
      exact ⟨tracks_of_idle (hsize _) (.inl rfl), .inl (quiet_of_point (by simp))⟩
    · have hfull : s.remcomInBuffer.set body.length (mask c) = body ++ [mask c] := by
        rw [← hbuffered, hlength, List.take_of_length_le]
        rw [hsize]
        omega
      rw [step_full hs hc hroom (not_not.mp hlast), hfull]
      have hsent : FullBuffer (line ++ [c]) (body ++ [mask c]) :=
        ⟨before, hends', hunclosed, by omega, hsum.trans (not_not.mp hlast)⟩
      exact ⟨tracks_perform (hfull ▸ hsize _) (.inr hsent), .inr (.inl ⟨_, .inr hsent, rfl⟩)⟩

theorem Tracks.step_highDigit (h : Tracks line s) {checksum : Byte}
    (hs : s.point = .highDigit checksum) (c : Byte) :
    Tracks (line ++ [c]) (Stub.step g s c).1 ∧ Performs g (line ++ [c]) s (Stub.step g s c).1 := by
  obtain ⟨body, hbody, hfits, hzero⟩ := h.highDigit checksum hs
  obtain ⟨before, hends⟩ := hbody.ends
  have hends' := map_concat c hends
  rw [List.append_assoc] at hends'
  rw [step_firstDigit hs]
  exact ⟨tracks_lowDigit h.size hfits rfl ⟨⟨before, hends'⟩, hbody.unclosed, hbody.sum_eq,
    hbody.buffered⟩ hzero, .inl (quiet_of_point (by simp))⟩

theorem Tracks.step_lowDigit (h : Tracks line s) {checksum x : Byte}
    (hs : s.point = .lowDigit checksum x) (c : Byte) :
    Tracks (line ++ [c]) (Stub.step g s c).1 ∧ Performs g (line ++ [c]) s (Stub.step g s c).1 := by
  obtain ⟨body, high, hbody, hfits, hzero, rfl⟩ := h.lowDigit checksum x hs
  obtain ⟨before, hends⟩ := hbody.ends
  have hends' := map_concat c hends
  rw [List.append_assoc] at hends'
  have hin : body.length < s.remcomInBuffer.length := by
    rw [h.size]
    exact hfits
  by_cases hsum : checksum ≠ xmitcsum high (mask c)
  · rw [step_damaged hs hsum]
    exact ⟨tracks_of_idle h.size (.inl rfl), .inl (quiet_of_point (by simp))⟩
  · have hbuffer : s.remcomInBuffer = body ++ 0 :: s.remcomInBuffer.drop (body.length + 1) := by
      conv_lhs => rw [← List.take_append_drop body.length s.remcomInBuffer, hbody.buffered,
        List.drop_eq_getElem_cons hin]
      rw [List.getD_eq_getElem _ _ hin] at hzero
      rw [hzero]
    have hpacket : PacketEnds (line ++ [c]) body :=
      ⟨before, high, mask c, hends', hbody.unclosed, hfits, hbody.sum_eq.trans (not_not.mp hsum)⟩
    obtain ⟨behind, hbehind⟩ :=
      sequenceChars_packet body (s.remcomInBuffer.drop (body.length + 1))
    rw [← hbuffer] at hbehind
    have hsent : Sent (line ++ [c]) (Stub.sequenceChars s.remcomInBuffer).1 :=
      .inl ⟨body, behind, hpacket, hbehind⟩
    rw [step_received hs (not_not.mp hsum)]
    exact ⟨tracks_perform ((length_sequenceChars hin hzero).trans h.size) hsent,
      .inr (.inl ⟨_, hsent, rfl⟩)⟩

theorem Tracks.step_answer (h : Tracks line s) {last : Bool} (hs : s.point = .answer last)
    (c : Byte) :
    Tracks (line ++ [c]) (Stub.step g s c).1 ∧ Performs g (line ++ [c]) s (Stub.step g s c).1 := by
  obtain ⟨before, hbefore, hsent⟩ := h.answered last hs
  have hbefore' : before <+: line ++ [c] := hbefore.trans (List.prefix_append _ _)
  by_cases hc : c = chr '+'
  · rw [hc, step_acknowledged hs]
    cases last with
    | false => exact ⟨tracks_of_idle h.size (.inl rfl), .inl (quiet_of_point (by simp))⟩
    | true =>
      exact ⟨tracks_of_idle h.size (.inr (.inl rfl)),
        .inr (.inr ⟨hs, ⟨before, hc ▸ hbefore', hsent⟩, rfl⟩)⟩
  · rw [step_again hs hc]
    exact ⟨tracks_answer h.size hs hbefore' hsent, .inl ⟨rfl, rfl, id⟩⟩

theorem Tracks.step (h : Tracks line s) (c : Byte) :
    Tracks (line ++ [c]) (Stub.step g s c).1 ∧ Performs g (line ++ [c]) s (Stub.step g s c).1 := by
  cases hs : s.point with
  | start => exact h.step_start hs c
  | body count checksum => exact h.step_body hs c
  | highDigit checksum => exact h.step_highDigit hs c
  | lowDigit checksum x => exact h.step_lowDigit hs c
  | answer last => exact h.step_answer hs c
  | resumed =>
    have hstep : (Stub.step g s c).1 = s := by
      unfold Stub.step
      simp only [hs]
    rw [hstep]
    exact ⟨tracks_of_idle h.size (.inr (.inl hs)), .inl ⟨rfl, rfl, id⟩⟩
  | overrun =>
    have hstep : (Stub.step g s c).1 = s := by
      unfold Stub.step
      simp only [hs]
    rw [hstep]
    exact ⟨tracks_of_idle h.size (.inr (.inr hs)), .inl ⟨rfl, rfl, id⟩⟩

/-- In every run, as long as no command has run behind a buffer, the target changes, or goes on, only
at the end of a packet with its checksum, or when the last reply has been acknowledged, and then by
what the packet says. The exception is a buffer that is full. What is behind the packet does not
matter to a read, nor to a write that has all its data. -/
theorem performs_packets (hs : s.point = .start) (hbuffer : s.remcomInBuffer.length = bufmax)
    (line : List Byte) (c : Byte) :
    let t := (Transducer.run (Stub.step g) s line).1
    (t.point ≠ .overrun → Performs g (line ++ [c]) t (Stub.step g t c).1) ∧
      ∀ text, OnMemory text → ∀ behind behind',
        { t with remcomInBuffer := text ++ 0 :: behind }.command g =
          { t with remcomInBuffer := text ++ 0 :: behind' }.command g := by
  have hinit : Tracks [] s := tracks_of_idle hbuffer (.inl hs)
  have htracks : Tracks line (Transducer.run (Stub.step g) s line).1 :=
    Transducer.run_invariant (fun _ _ c h => (h.step c).1) hinit line
  exact ⟨fun _ => (htracks.step c).2, fun _ h => command_text h⟩

theorem performs_packets_stopped :
    let t := (Transducer.run (Stub.step wholeMemory) stopped (text "$M10,1:2a#f")).1
    Performs wholeMemory (text "$M10,1:2a#f" ++ [chr '4']) t (Stub.step wholeMemory t (chr '4')).1 :=
  (performs_packets rfl (by decide +kernel) _ _).1 (by decide +kernel)

end Chpok.Gdb
