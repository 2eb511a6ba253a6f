import Chpok.Syspart.Reception

/-! Which frames are received without an access outside of them. -/

namespace Chpok

namespace Reception

open ByteMemory

variable {m : NetMemory} {data len l : BitVec 32} {run found : NetRun} {event : NetEvent}

/-- The event has to do with the frame only, and no length gets below 0. -/
def NetEvent.Safe (data len : BitVec 32) : NetEvent → Prop
  | .read p n => ∀ a, Covers p n a → Covers data len.toNat a
  | .subtract l less => less ≤ l
  | .pass p l => ∀ a, Covers p l.toNat a → Covers data len.toNat a
  | .answer _ => True

def NetRun.Safe (data len : BitVec 32) (run : NetRun) : Prop :=
  ∀ event ∈ run.events, event.Safe data len

/-- `EINVAL`, without an answer -/
def NetRun.Rejected (run : NetRun) : Prop :=
  run.ret = .einval ∧ ∀ call, .answer call ∉ run.events

@[simp] theorem safe_einval : NetRun.einval.Safe data len := by
  simp [NetRun.Safe, NetRun.einval]

@[simp] theorem safe_after : (run.after event).Safe data len ↔ event.Safe data len ∧ run.Safe data len := by
  simp [NetRun.Safe, NetRun.after]

@[simp] theorem safe_ite {c : Prop} [Decidable c] {other : NetRun} :
    (if c then run else other).Safe data len ↔ (c → run.Safe data len) ∧ (¬ c → other.Safe data len) := by
  rw [apply_ite (NetRun.Safe data len), ite_prop_iff_and]

@[simp] theorem rejected_einval : NetRun.einval.Rejected := by
  simp [NetRun.Rejected, NetRun.einval]

@[simp] theorem rejected_after :
    (run.after event).Rejected ↔ run.Rejected ∧ ∀ call, event ≠ .answer call := by
  simp only [NetRun.Rejected, NetRun.after, List.mem_cons, not_or, forall_and]
  tauto

@[simp] theorem rejected_ite {c : Prop} [Decidable c] {other : NetRun} :
    (if c then run else other).Rejected ↔ (c → run.Rejected) ∧ (¬ c → other.Rejected) := by
  rw [apply_ite NetRun.Rejected, ite_prop_iff_and]

theorem covers_at_iff (data len off : BitVec 32) (n : Nat) :
    (∀ a, Covers (data + off) n a → Covers data len.toNat a) ↔
      n = 0 ∨ off.toNat + n ≤ len.toNat := by
  rw [covers_inside_iff len.isLt, add_sub_cancel_left]

theorem payload_at (data : BitVec 32) (hlen : 14 ≤ len.toNat) {off : BitVec 32}
    (hoff : off.toNat < 2 ^ 31) (n : Nat) :
    (∀ a, Covers (data + 14 + off) n a → Covers data len.toNat a) ↔
      n = 0 ∨ off.toNat + n ≤ (len - 14).toNat := by
  have hle : (14 : BitVec 32) ≤ len := BitVec.le_def.mpr hlen
  have hsum : (14 + off).toNat = 14 + off.toNat := by
    rw [BitVec.toNat_add_of_lt]
    · rfl
    · rw [show (14 : BitVec 32).toNat = 14 from rfl]
      omega
  rw [add_assoc, covers_at_iff, hsum, BitVec.toNat_sub_of_le hle, show (14 : BitVec 32).toNat = 14 from rfl]
  omega

/-! ARP -/

/-- The fields of a request -/
structure ArpRequest (m : NetMemory) (data len : BitVec 32) : Prop where
  fits : 28 ≤ len.toNat
  htype : m.half data = hton16 m.order 1
  ptype : m.half (data + 2) = hton16 m.order ethPIp
  hlen : m.bytes (data + 4) = ethAlen
  plen : m.bytes (data + 5) = 4
  oper : m.half (data + 6) = hton16 m.order 1

/-- The packet is long enough, or is rejected for a field that is there. -/
def ArpFits (m : NetMemory) (self : ArpAnswerer) (data len : BitVec 32) : Prop :=
  28 ≤ len.toNat ∨ 2 ≤ len.toNat ∧ m.half data ≠ hton16 m.order 1 ∨
    4 ≤ len.toNat ∧ m.half (data + 2) ≠ hton16 m.order ethPIp ∨
    5 ≤ len.toNat ∧ m.bytes (data + 4) ≠ ethAlen ∨ 6 ≤ len.toNat ∧ m.bytes (data + 5) ≠ 4 ∨
    8 ≤ len.toNat ∧ (m.half (data + 6) ≠ hton16 m.order 1 ∨ self.goodIps = [])

theorem arpSearch_safe {ips : List (BitVec 32)}
    (hfound : found.Safe data len ↔ (NetEvent.read (l + 24) 4).Safe data len) :
    (arpSearch m l found ips).Safe data len ↔
      ips = [] ∨ (NetEvent.read (l + 24) 4).Safe data len := by
  induction ips with
  | nil => simp [arpSearch]
  | cons ip ips ih =>
    rw [arpSearch, safe_after, safe_ite, ih, hfound]
    constructor
    · intro h
      exact .inr h.1
    · rintro (h | h)
      · cases h
      · exact ⟨h, fun _ => h, fun _ => .inr h⟩

theorem read_payload (hlen : 14 ≤ len.toNat) (n : Nat) :
    (NetEvent.read (data + 14) n).Safe data len ↔ n = 0 ∨ n ≤ (len - 14).toNat := by
  have h := payload_at data hlen (show (0 : BitVec 32).toNat < 2 ^ 31 by decide) n
  rw [add_zero, show (0 : BitVec 32).toNat = 0 from rfl, Nat.zero_add] at h
  exact h

theorem read_payload_at (hlen : 14 ≤ len.toNat) (off : BitVec 32) (n : Nat) (hn : n ≠ 0)
    (hoff : off.toNat < 2 ^ 31) :
    (NetEvent.read (data + 14 + off) n).Safe data len ↔ off.toNat + n ≤ (len - 14).toNat := by
  have h := payload_at data hlen hoff n
  rw [or_iff_right hn] at h
  exact h

theorem arpReceive_safe {self : ArpAnswerer} (hlen : 14 ≤ len.toNat) :
    (arpReceive m self (data + 14) l).Safe data len ↔ ArpFits m self (data + 14) (len - 14) := by
  have h2 : (NetEvent.read (data + 14 + 2) 2).Safe data len ↔ 4 ≤ (len - 14).toNat :=
    read_payload_at hlen 2 2 (by decide) (by decide)
  have h4 : (NetEvent.read (data + 14 + 4) 1).Safe data len ↔ 5 ≤ (len - 14).toNat :=
    read_payload_at hlen 4 1 (by decide) (by decide)
  have h5 : (NetEvent.read (data + 14 + 5) 1).Safe data len ↔ 6 ≤ (len - 14).toNat :=
    read_payload_at hlen 5 1 (by decide) (by decide)
  have h6 : (NetEvent.read (data + 14 + 6) 2).Safe data len ↔ 8 ≤ (len - 14).toNat :=
    read_payload_at hlen 6 2 (by decide) (by decide)
  have h24 : (NetEvent.read (data + 14 + 24) 4).Safe data len ↔ 28 ≤ (len - 14).toNat :=
    read_payload_at hlen 24 4 (by decide) (by decide)
  have hanswer : ((NetRun.after (.read (data + 14) 28) (.after (.answer (arpAnswer m self (data + 14)))
      ⟨[], .eok⟩)).Safe data len ↔ (NetEvent.read (data + 14 + 24) 4).Safe data len) := by
    rw [safe_after, safe_after, h24, read_payload hlen]
    simp [NetEvent.Safe, NetRun.Safe]
  simp only [arpReceive, ArpFits, safe_after, safe_ite, safe_einval, arpSearch_safe hanswer,
    read_payload hlen, h2, h4, h5, h6, h24, ne_eq]
  generalize (len - 14).toNat = n
  generalize (m.half (data + 14) = hton16 m.order 1) = htype
  generalize (m.half (data + 14 + 2) = hton16 m.order ethPIp) = ptype
  generalize (m.bytes (data + 14 + 4) = ethAlen) = hlenOk
  generalize (m.bytes (data + 14 + 5) = 4) = plenOk
  generalize (m.half (data + 14 + 6) = hton16 m.order 1) = oper
  generalize (self.goodIps = []) = noIps
  by_cases c1 : htype
  · by_cases c2 : ptype
    · by_cases c3 : hlenOk
      · by_cases c4 : plenOk
        · by_cases c5 : oper ∧ ¬ noIps
          · simp [c1, c2, c3, c4, c5]
            omega
          · simp [c1, c2, c3, c4]
            grind
        · simp [c1, c2, c3, c4]
          omega
      · simp [c1, c2, c3]
        omega
    · simp [c1, c2]
      omega
  · simp [c1]
    omega

theorem arpReceive_rejected {self : ArpAnswerer} (hfits : ArpFits m self data len)
    (h : ¬ ArpRequest m data len) : (arpReceive m self data l).Rejected := by
  by_cases hfields : m.half data = hton16 m.order 1 ∧ m.half (data + 2) = hton16 m.order ethPIp ∧
      m.bytes (data + 4) = ethAlen ∧ m.bytes (data + 5) = 4 ∧ m.half (data + 6) = hton16 m.order 1
  · obtain ⟨htype, hptype, hhlen, hplen, hoper⟩ := hfields
    have hips : self.goodIps = [] := by
      by_contra hne
      have hlong : 28 ≤ len.toNat := by
        simpa only [ArpFits, htype, hptype, hhlen, hplen, hoper, hne, ne_eq, not_true_eq_false,
          and_false, or_false, false_or] using hfits
      exact h ⟨hlong, htype, hptype, hhlen, hplen, hoper⟩
    simp [arpReceive, hips, arpSearch]
  · simp only [not_and] at hfields
    simp only [arpReceive, rejected_after, rejected_ite, rejected_einval, ne_eq, reduceCtorEq,
      not_false_eq_true, implies_true, and_true, true_and, not_not]
    intro c1 c2 c3 c4 c5
    exact absurd c5 (hfields c1 c2 c3 c4)

/-! UDP -/

theorem ipHdrLen_le (versionLen : Byte) : ipHdrLen versionLen ≤ 60 := by
  have h : (versionLen &&& 0xf).toNat ≤ 15 := by
    rw [BitVec.toNat_and]
    exact Nat.and_le_right
  rw [ipHdrLen]
  omega

theorem ipHdrLen_toNat (versionLen : Byte) :
    (BitVec.ofNat 32 (ipHdrLen versionLen)).toNat = ipHdrLen versionLen := by
  have := ipHdrLen_le versionLen
  rw [BitVec.toNat_ofNat, Nat.mod_eq_of_lt (by omega)]

/-- `length` of the IP header -/
def ipLength (m : NetMemory) (data : BitVec 32) : Nat := (hton16 m.order (m.half (data + 2))).toNat

/-- `length` of the UDP header -/
def udpLength (m : NetMemory) (data : BitVec 32) : Nat :=
  (hton16 m.order (m.half (data + BitVec.ofNat 32 (ipHdrLen (m.bytes data)) + 4))).toNat

/-- A UDP packet in an IP packet whose header says how long it is -/
structure UdpPacket (m : NetMemory) (data len : BitVec 32) : Prop where
  fits : 20 ≤ len.toNat
  version : m.bytes data >>> 4 = 4
  header : 20 ≤ ipHdrLen (m.bytes data)
  length : ipLength m data ≤ len.toNat
  checksum : ipHdrChecksum m.order (m.bytes data) (m.range data (ipHdrLen (m.bytes data))) = 0
  proto : m.bytes (data + 9) = ipprotoUdp
  udpFits : ipHdrLen (m.bytes data) + 8 ≤ ipLength m data
  udpLength : udpLength m data = ipLength m data - ipHdrLen (m.bytes data)

/-- The packet is rejected before the header is subtracted, or it is not shorter than its header
and then either the header is right or one of the other checks fails. -/
def UdpFits (m : NetMemory) (data len : BitVec 32) : Prop :=
  len.toNat < 20 ∨ len.toNat < ipHdrLen (m.bytes data) ∨ len.toNat < ipLength m data ∨
    ipHdrLen (m.bytes data) ≤ ipLength m data ∧
      (m.bytes data >>> 4 = 4 ∧ 20 ≤ ipHdrLen (m.bytes data) ∨
        ipHdrChecksum m.order (m.bytes data) (m.range data (ipHdrLen (m.bytes data))) ≠ 0 ∨
        m.bytes (data + 9) ≠ ipprotoUdp ∨ ipLength m data < ipHdrLen (m.bytes data) + 8 ∨
        udpLength m data ≠ ipLength m data - ipHdrLen (m.bytes data))

theorem udp_at (hlen : 14 ≤ len.toNat) (versionLen : Byte) (k : BitVec 32) (n : Nat)
    (hk : k.toNat ≤ 8) (hend : ipHdrLen versionLen + k.toNat + n ≤ (len - 14).toNat) :
    ∀ a, Covers (data + 14 + BitVec.ofNat 32 (ipHdrLen versionLen) + k) n a →
      Covers data len.toNat a := by
  have hle := ipHdrLen_le versionLen
  have hoff : (BitVec.ofNat 32 (ipHdrLen versionLen) + k).toNat = ipHdrLen versionLen + k.toNat := by
    rw [BitVec.toNat_add_of_lt, ipHdrLen_toNat]
    rw [ipHdrLen_toNat]
    omega
  rw [add_assoc (data + 14), payload_at data hlen (by omega), hoff]
  exact .inr hend

/-- With a length that the frame has, the rest of `udp_receive` is safe exactly if the header is
not longer. -/
theorem udpReceiveBody_safe (hlen : 14 ≤ len.toNat) (hfits : 20 ≤ (len - 14).toNat)
    (hhdr : ipHdrLen (m.bytes (data + 14)) ≤ (len - 14).toNat) (hl : l.toNat ≤ (len - 14).toNat) :
    (udpReceiveBody m (data + 14) l).Safe data len ↔ ipHdrLen (m.bytes (data + 14)) ≤ l.toNat := by
  have hsubtract : (NetEvent.subtract l (BitVec.ofNat 32 (ipHdrLen (m.bytes (data + 14))))).Safe data
      len ↔ ipHdrLen (m.bytes (data + 14)) ≤ l.toNat := by
    rw [NetEvent.Safe, BitVec.le_def, ipHdrLen_toNat]
  simp only [udpReceiveBody, safe_after, safe_ite, safe_einval, hsubtract]
  refine ⟨And.left, fun hle => ⟨hle, ?_⟩⟩
  have hrest : (l - BitVec.ofNat 32 (ipHdrLen (m.bytes (data + 14)))).toNat =
      l.toNat - ipHdrLen (m.bytes (data + 14)) := by
    rw [BitVec.toNat_sub_of_le (BitVec.le_def.mpr (by rw [ipHdrLen_toNat]; exact hle)),
      ipHdrLen_toNat]
  have hchecksum : (NetEvent.read (data + 14)
      (BitVec.ofNat 32 (ipHdrLen (m.bytes (data + 14)))).toNat).Safe data len := by
    rw [read_payload hlen, ipHdrLen_toNat]
    exact .inr hhdr
  have hproto : (NetEvent.read (data + 14 + 9) 1).Safe data len :=
    (read_payload_at hlen 9 1 (by decide) (by decide)).mpr (Nat.le_trans (by decide) hfits)
  have hdst : (NetEvent.read (data + 14 + 16) 4).Safe data len :=
    (read_payload_at hlen 16 4 (by decide) (by decide)).mpr hfits
  refine ⟨hchecksum, fun _ => trivial, fun _ => ⟨hproto, fun _ => trivial, fun _ =>
    ⟨fun _ => trivial, fun hlong => ?_⟩⟩⟩
  have hudp : ipHdrLen (m.bytes (data + 14)) + 8 ≤ l.toNat := by
    have h8 : ¬ l.toNat - ipHdrLen (m.bytes (data + 14)) < 8 :=
      fun h => hlong (BitVec.lt_def.mpr (hrest ▸ h))
    omega
  have hdone : (8 : BitVec 32) ≤ l - BitVec.ofNat 32 (ipHdrLen (m.bytes (data + 14))) :=
    BitVec.not_lt.mp hlong
  refine ⟨udp_at hlen _ 4 2 (by decide) ?_, fun _ => trivial, fun _ =>
    ⟨hdst, udp_at hlen _ 2 2 (by decide) ?_, hdone, udp_at hlen _ 8 _ (by decide) ?_, ?_⟩⟩
  · simp only [BitVec.reduceToNat]
    omega
  · simp only [BitVec.reduceToNat]
    omega
  · rw [BitVec.toNat_sub_of_le hdone, hrest]
    simp only [BitVec.reduceToNat]
    omega
  · simp [NetRun.Safe]

/-- The rest of `udp_receive` rejects what has no UDP header with the right length. -/
theorem udpReceiveBody_rejected (hhdr : ipHdrLen (m.bytes data) ≤ l.toNat) :
    (udpReceiveBody m data l).Rejected ↔
      ipHdrChecksum m.order (m.bytes data) (m.range data (ipHdrLen (m.bytes data))) ≠ 0 ∨
        m.bytes (data + 9) ≠ ipprotoUdp ∨ l.toNat < ipHdrLen (m.bytes data) + 8 ∨
        udpLength m data ≠ l.toNat - ipHdrLen (m.bytes data) := by
  have hrest : (l - BitVec.ofNat 32 (ipHdrLen (m.bytes data))).toNat =
      l.toNat - ipHdrLen (m.bytes data) := by
    rw [BitVec.toNat_sub_of_le (BitVec.le_def.mpr (by rw [ipHdrLen_toNat]; exact hhdr)),
      ipHdrLen_toNat]
  have hshort : l - BitVec.ofNat 32 (ipHdrLen (m.bytes data)) < 8 ↔
      l.toNat < ipHdrLen (m.bytes data) + 8 := by
    rw [BitVec.lt_def, hrest, show (8 : BitVec 32).toNat = 8 from rfl]
    omega
  have hlength : (hton16 m.order (m.half (data + BitVec.ofNat 32 (ipHdrLen (m.bytes data)) +
      4))).setWidth 32 = l - BitVec.ofNat 32 (ipHdrLen (m.bytes data)) ↔
      udpLength m data = l.toNat - ipHdrLen (m.bytes data) := by
    have hwide := (hton16 m.order (m.half (data + BitVec.ofNat 32 (ipHdrLen (m.bytes data)) +
      4))).isLt
    rw [← BitVec.toNat_inj, hrest, BitVec.toNat_setWidth, udpLength, Nat.mod_eq_of_lt (by omega)]
  have hhandled : ∀ (p n ip : BitVec 32) (port : BitVec 16),
      ¬ (⟨[], .handled p n ip port⟩ : NetRun).Rejected := by
    rintro p n ip port ⟨hret, -⟩
    cases hret
  simp only [udpReceiveBody, rejected_after, rejected_ite, rejected_einval, hshort, hlength,
    ipHdrLen_toNat, hhandled, ne_eq, reduceCtorEq, not_false_eq_true, implies_true, and_true,
    true_and]
  generalize (ipHdrChecksum m.order (m.bytes data) (m.range data (ipHdrLen (m.bytes data))) = 0) =
    checksum
  generalize (m.bytes (data + 9) = ipprotoUdp) = proto
  generalize (udpLength m data = l.toNat - ipHdrLen (m.bytes data)) = length
  generalize (l.toNat < ipHdrLen (m.bytes data) + 8) = short
  clear hhandled hlength hshort hrest hhdr
  tauto

theorem udpReceive_eq (hfits : 20 ≤ len.toNat) (hhdr : ipHdrLen (m.bytes data) ≤ len.toNat)
    (hlength : ipLength m data ≤ len.toNat) :
    udpReceive m data len = .after (.read data 1) (.after (.read (data + 2) 2)
      (udpReceiveBody m data ((hton16 m.order (m.half (data + 2))).setWidth 32))) := by
  have hlong : ¬ len < 20 := fun h => absurd (BitVec.lt_def.mp h) (Nat.not_lt.mpr hfits)
  have hin : ¬ len < BitVec.ofNat 32 (ipHdrLen (m.bytes data)) := by
    rw [BitVec.lt_def, ipHdrLen_toNat]
    omega
  have hle : ((hton16 m.order (m.half (data + 2))).setWidth 32).toNat ≤ len.toNat := by
    have := (hton16 m.order (m.half (data + 2))).isLt
    rw [BitVec.toNat_setWidth, Nat.mod_eq_of_lt (by omega)]
    exact hlength
  rw [udpReceive, if_neg hlong, if_neg hin]
  by_cases hsame : len = (hton16 m.order (m.half (data + 2))).setWidth 32
  · simp only [← hsame, ne_eq, not_true_eq_false, if_false]
  · have hgreater : len > (hton16 m.order (m.half (data + 2))).setWidth 32 := by
      have hne : len.toNat ≠ ((hton16 m.order (m.half (data + 2))).setWidth 32).toNat :=
        fun h => hsame (BitVec.eq_of_toNat_eq h)
      exact BitVec.lt_def.mpr (by omega)
    simp only [ne_eq, hsame, not_false_eq_true, if_true, hgreater]

/-- A packet that is too short for its headers is rejected at once. -/
theorem udpReceive_early (hlen : 14 ≤ len.toNat)
    (h : (len - 14).toNat < 20 ∨ (len - 14).toNat < ipHdrLen (m.bytes (data + 14)) ∨
      (len - 14).toNat < ipLength m (data + 14)) :
    (udpReceive m (data + 14) (len - 14)).Safe data len ∧
      (udpReceive m (data + 14) (len - 14)).Rejected := by
  by_cases hshort : (len - 14).toNat < 20
  · rw [udpReceive, if_pos (BitVec.lt_def.mpr hshort)]
    exact ⟨safe_einval, rejected_einval⟩
  have hfirst : (NetEvent.read (data + 14) 1).Safe data len :=
    (read_payload hlen 1).mpr (.inr (by omega))
  rw [udpReceive, if_neg fun hlt => hshort (BitVec.lt_def.mp hlt)]
  by_cases hhdr : (len - 14).toNat < ipHdrLen (m.bytes (data + 14))
  · rw [if_pos (BitVec.lt_def.mpr (by rw [ipHdrLen_toNat]; exact hhdr))]
    rw [safe_after, rejected_after]
    exact ⟨⟨hfirst, safe_einval⟩, rejected_einval, by simp⟩
  have hsecond : (NetEvent.read (data + 14 + 2) 2).Safe data len :=
    (read_payload_at hlen 2 2 (by decide) (by decide)).mpr
      (Nat.le_trans (by decide : 4 ≤ 20) (not_lt.mp hshort))
  have hless : (len - 14).toNat < ((hton16 m.order (m.half (data + 14 + 2))).setWidth 32).toNat := by
    have hwide := (hton16 m.order (m.half (data + 14 + 2))).isLt
    rw [BitVec.toNat_setWidth, Nat.mod_eq_of_lt (by omega)]
    exact (h.resolve_left hshort).resolve_left hhdr
  have hne : len - 14 ≠ (hton16 m.order (m.half (data + 14 + 2))).setWidth 32 := by
    intro he
    rw [← he] at hless
    omega
  rw [if_neg fun hlt => hhdr (by rw [BitVec.lt_def, ipHdrLen_toNat] at hlt; exact hlt),
    if_pos hne, if_neg fun hgt => absurd (BitVec.lt_def.mp hgt) (by omega)]
  rw [safe_after, safe_after, rejected_after, rejected_after]
  exact ⟨⟨hfirst, hsecond, safe_einval⟩, ⟨rejected_einval, by simp⟩, by simp⟩

theorem arpReceive_iff {self : ArpAnswerer} (hlen : 14 ≤ len.toNat) :
    ((arpReceive m self (data + 14) (len - 14)).Safe data len ∧
        (¬ ArpRequest m (data + 14) (len - 14) →
          (arpReceive m self (data + 14) (len - 14)).Rejected)) ↔
      ArpFits m self (data + 14) (len - 14) := by
  rw [arpReceive_safe hlen]
  exact ⟨And.left, fun hfits => ⟨hfits, arpReceive_rejected hfits⟩⟩

theorem udpReceive_iff (hlen : 14 ≤ len.toNat) :
    ((udpReceive m (data + 14) (len - 14)).Safe data len ∧
        (¬ UdpPacket m (data + 14) (len - 14) →
          (udpReceive m (data + 14) (len - 14)).Rejected)) ↔
      UdpFits m (data + 14) (len - 14) := by
  by_cases hearly : (len - 14).toNat < 20 ∨ (len - 14).toNat < ipHdrLen (m.bytes (data + 14)) ∨
      (len - 14).toNat < ipLength m (data + 14)
  · obtain ⟨hsafe, hrejected⟩ := udpReceive_early hlen hearly
    apply iff_of_true ⟨hsafe, fun _ => hrejected⟩
    rcases hearly with h | h | h
    · exact .inl h
    · exact .inr (.inl h)
    · exact .inr (.inr (.inl h))
  obtain ⟨hfits, hrest⟩ := not_or.mp hearly
  obtain ⟨hhdr, hlength⟩ := not_or.mp hrest
  rw [not_lt] at hfits hhdr hlength
  have hl : ((hton16 m.order (m.half (data + 14 + 2))).setWidth 32).toNat =
      ipLength m (data + 14) := by
    have hwide := (hton16 m.order (m.half (data + 14 + 2))).isLt
    rw [BitVec.toNat_setWidth, Nat.mod_eq_of_lt (by omega), ipLength]
  have hbody := udpReceiveBody_safe hlen hfits hhdr (hl ▸ hlength)
  have hread : (NetEvent.read (data + 14) 1).Safe data len ∧
      (NetEvent.read (data + 14 + 2) 2).Safe data len :=
    ⟨(read_payload hlen 1).mpr (.inr (by omega)),
      (read_payload_at hlen 2 2 (by decide) (by decide)).mpr (Nat.le_trans (by decide : 4 ≤ 20) hfits)⟩
  rw [udpReceive_eq hfits hhdr hlength, safe_after, safe_after, hbody, hl,
    and_iff_right hread.1, and_iff_right hread.2]
  simp only [rejected_after, ne_eq, reduceCtorEq, not_false_eq_true, implies_true, and_true]
  rw [UdpFits, or_iff_right (not_lt.mpr hfits), or_iff_right (not_lt.mpr hhdr),
    or_iff_right (not_lt.mpr hlength)]
  refine and_congr_right fun hle => ?_
  rw [udpReceiveBody_rejected (hl ▸ hle), hl]
  constructor
  · intro h
    by_cases hheader : m.bytes (data + 14) >>> 4 = 4 ∧ 20 ≤ ipHdrLen (m.bytes (data + 14))
    · exact .inl hheader
    · exact .inr (h fun hpacket => hheader ⟨hpacket.version, hpacket.header⟩)
  · rintro (⟨hversion, hheader⟩ | hother) hnot
    · by_contra haccepted
      simp only [not_or, not_not, not_lt] at haccepted
      obtain ⟨hchecksum, hproto, hudp, hudpLength⟩ := haccepted
      exact hnot ⟨hfits, hversion, hheader, hlength, hchecksum, hproto, hudp, hudpLength⟩
    · exact hother

/-- The frame is an ARP request or a UDP packet. -/
def WellFormed (m : NetMemory) (data len : BitVec 32) : Prop :=
  14 ≤ len.toNat ∧
    (m.half (data + 12) = hton16 m.order ethPArp ∧ ArpRequest m (data + 14) (len - 14) ∨
      m.half (data + 12) = hton16 m.order ethPIp ∧ UdpPacket m (data + 14) (len - 14))

/-- What the components are to do with a frame -/
structure ReceivedWell (m : NetMemory) (data len : BitVec 32) (run : NetRun) : Prop where
  safe : run.Safe data len
  malformed : ¬ WellFormed m data len → run.Rejected

/-- The frame is for this address. -/
def ForUs (m : NetMemory) (self : MacReceiver) (data : BitVec 32) : Prop :=
  m.bytes data &&& 1 ≠ 0 ∨ m.range data 6 = self.myMac

theorem hton16_types (order : ByteOrder) : hton16 order ethPIp ≠ hton16 order ethPArp := by
  cases order with
  | little => decide
  | big => decide

theorem receivedWell_of_rejected (hsafe : run.Safe data len) (hrejected : run.Rejected) :
    ReceivedWell m data len run :=
  ⟨hsafe, fun _ => hrejected⟩

theorem pass_iff (m : NetMemory) (run : NetRun) (events : List NetEvent)
    (hevents : ∀ event ∈ events, event.Safe data len ∧ ∀ call, event ≠ .answer call) :
    ReceivedWell m data len (events.foldr .after run) ↔
      run.Safe data len ∧ (¬ WellFormed m data len → run.Rejected) := by
  induction events with
  | nil => exact ⟨fun h => ⟨h.1, h.2⟩, fun h => ⟨h.1, h.2⟩⟩
  | cons event events ih =>
    obtain ⟨hsafe, hanswer⟩ := hevents event List.mem_cons_self
    rw [← ih fun e he => hevents e (List.mem_cons_of_mem _ he), List.foldr_cons]
    constructor
    · intro h
      exact ⟨(safe_after.mp h.1).2, fun hm => (rejected_after.mp (h.2 hm)).1⟩
    · intro h
      exact ⟨safe_after.mpr ⟨hsafe, h.1⟩, fun hm => rejected_after.mpr ⟨h.2 hm, hanswer⟩⟩

/-- A frame is received well exactly if what it is for has a packet that is long enough. -/
theorem macReceive_receivedWell (m : NetMemory) (self : MacReceiver) (arp : ArpAnswerer)
    (data len : BitVec 32) :
    ReceivedWell m data len (macReceive m self arp data len) ↔
      (14 ≤ len.toNat → ForUs m self data →
        (m.half (data + 12) = hton16 m.order ethPArp → ArpFits m arp (data + 14) (len - 14)) ∧
          (m.half (data + 12) = hton16 m.order ethPIp → UdpFits m (data + 14) (len - 14))) := by
  by_cases hlen : 14 ≤ len.toNat
  · have hnot : ¬ len < 14 := fun h => absurd (BitVec.lt_def.mp h) (Nat.not_lt.mpr hlen)
    have hsubtract : (NetEvent.subtract len 14).Safe data len := BitVec.le_def.mpr hlen
    have hdst : (NetEvent.read data 6).Safe data len := by
      have h := covers_at_iff data len 0 6
      rw [add_zero] at h
      exact h.mpr (.inr (Nat.le_trans (by decide : 6 ≤ 14) hlen))
    have htype : (NetEvent.read (data + 12) 2).Safe data len :=
      (covers_at_iff data len 12 2).mpr (.inr hlen)
    have hpass : (NetEvent.pass (data + 14) (len - 14)).Safe data len := by
      refine (covers_at_iff data len 14 _).mpr (.inr ?_)
      rw [BitVec.toNat_sub_of_le (show (14 : BitVec 32) ≤ len from BitVec.le_def.mpr hlen)]
      exact Nat.le_of_eq (Nat.add_sub_cancel' hlen)
    have hevents : ∀ event ∈ [NetEvent.subtract len 14, .read data 6, .read (data + 12) 2,
        .pass (data + 14) (len - 14)], event.Safe data len ∧ ∀ call, event ≠ .answer call := by
      simp only [List.forall_mem_cons, hsubtract, hdst, htype, hpass, ne_eq, reduceCtorEq,
        not_false_eq_true, implies_true, and_self, List.not_mem_nil, false_imp_iff]
    have hpassed := pass_iff m (arpReceive m arp (data + 14) (len - 14)) _ hevents
    have hpassed' := pass_iff m (udpReceive m (data + 14) (len - 14)) _ hevents
    by_cases hus : m.bytes data &&& 1 = 0 ∧ m.range data 6 ≠ self.myMac
    · have hother : ¬ ForUs m self data := by
        rintro (hmulticast | hmac)
        · exact hmulticast hus.1
        · exact hus.2 hmac
      rw [macReceive, if_neg hnot]
      dsimp only
      rw [if_pos hus]
      apply iff_of_true _ fun _ h => absurd h hother
      apply receivedWell_of_rejected
      · rw [safe_after, safe_after]
        exact ⟨hsubtract, hdst, safe_einval⟩
      · simp only [rejected_after, rejected_einval, ne_eq, reduceCtorEq, not_false_eq_true,
          implies_true, and_self]
    have hforUs : ForUs m self data := by
      by_cases hmulticast : m.bytes data &&& 1 = 0
      · exact .inr (not_not.mp fun hne => hus ⟨hmulticast, hne⟩)
      · exact .inl hmulticast
    rw [macReceive, if_neg hnot]
    dsimp only
    rw [if_neg hus, imp_iff_right hlen, imp_iff_right hforUs]
    by_cases harp : m.half (data + 12) = hton16 m.order ethPArp
    · have hnotIp : m.half (data + 12) ≠ hton16 m.order ethPIp :=
        fun h => hton16_types m.order (h.symm.trans harp)
      have hformed : WellFormed m data len ↔ ArpRequest m (data + 14) (len - 14) := by
        rw [WellFormed, and_iff_right hlen, and_iff_right harp,
          or_iff_left fun h => hnotIp h.1]
      rw [if_pos harp]
      refine hpassed.trans ?_
      rw [hformed, arpReceive_iff hlen]
      exact ⟨fun h => ⟨fun _ => h, fun h => absurd h hnotIp⟩, fun h => h.1 harp⟩
    rw [if_neg harp]
    by_cases hip : m.half (data + 12) = hton16 m.order ethPIp
    · have hformed : WellFormed m data len ↔ UdpPacket m (data + 14) (len - 14) := by
        rw [WellFormed, and_iff_right hlen, and_iff_right hip, or_iff_right fun h => harp h.1]
      rw [if_pos hip]
      refine hpassed'.trans ?_
      rw [hformed, udpReceive_iff hlen]
      exact ⟨fun h => ⟨fun h => absurd h harp, fun _ => h⟩, fun h => h.2 hip⟩
    · rw [if_neg hip]
      apply iff_of_true _ ⟨fun h => absurd h harp, fun h => absurd h hip⟩
      apply receivedWell_of_rejected
      · simp only [safe_after, hsubtract, hdst, htype, safe_einval, and_self]
      · simp only [rejected_after, rejected_einval, ne_eq, reduceCtorEq, not_false_eq_true,
          implies_true, and_self]
  · have hshort : len < 14 := BitVec.lt_def.mpr (Nat.lt_of_not_le hlen)
    rw [macReceive, if_pos hshort]
    exact iff_of_true (receivedWell_of_rejected safe_einval rejected_einval)
      fun h => absurd h hlen

/-- A frame at address 256 -/
def frameMemory (frame : List Byte) : NetMemory where
  order := .little
  bytes a := frame.getD (a - 256).toNat 0

def broadcast (ethertype payload : List Byte) : List Byte :=
  List.replicate 6 0xff ++ List.replicate 6 0 ++ ethertype ++ payload

/-- An IP header of 20 bytes and one for UDP -/
def ipUdp (versionLen length : Byte) (checksum : List Byte) : List Byte :=
  [versionLen, 0, 0, length, 0, 0, 0, 0, 0x20, 0x11] ++ checksum ++
    [0, 0, 0, 0, 0, 0, 0, 0, 0, 1, 0, 2, 0, 8, 0, 0]

def arpOne : ArpAnswerer := ⟨[1, 2, 3, 4, 5, 6], [0x0a000001]⟩

def macOne : MacReceiver := ⟨[1, 2, 3, 4, 5, 6]⟩

/-- An ARP frame without a packet, an IP packet shorter than its header, and one of version 0 -/
theorem macReceive_unsafe :
    ¬ ReceivedWell (frameMemory (broadcast [8, 6] [])) 256 14
        (macReceive (frameMemory (broadcast [8, 6] [])) macOne arpOne 256 14) ∧
      ¬ ReceivedWell (frameMemory (broadcast [8, 0] (ipUdp 0x45 0 [0, 0]))) 256 42
        (macReceive (frameMemory (broadcast [8, 0] (ipUdp 0x45 0 [0, 0]))) macOne arpOne 256 42) ∧
      ¬ ReceivedWell (frameMemory (broadcast [8, 0] (ipUdp 0x05 28 [0xda, 0xd2]))) 256 42
        (macReceive (frameMemory (broadcast [8, 0] (ipUdp 0x05 28 [0xda, 0xd2]))) macOne arpOne
          256 42) := by
  refine ⟨fun h => ?_, fun h => ?_, fun h => ?_⟩
  · -- the type of the hardware is behind the end of the frame
    have hbehind := h.safe (.read 270 2) (by decide) 270 (by decide)
    revert hbehind
    decide
  · have hwraps := h.safe (.subtract 0 20) (by decide)
    exact absurd (BitVec.le_def.mp hwraps) (by decide)
  · have hversion : ¬ WellFormed (frameMemory (broadcast [8, 0] (ipUdp 0x05 28 [0xda, 0xd2]))) 256
        42 := by
      rintro ⟨-, ⟨harp, -⟩ | ⟨-, hpacket⟩⟩
      · revert harp
        decide
      · have := hpacket.version
        revert this
        decide
    have hrejected := (h.malformed hversion).1
    revert hrejected
    decide

end Reception

end Chpok
