import Chpok.Syspart.Network
import Chpok.Syspart.ReceptionBounds
import Chpok.Library.Run

/-! What the components of a module send reaches the components of the others. -/

namespace Chpok

open OnesComplement Reception

namespace Reception

namespace NetMemory

variable {m : NetMemory} {data : BitVec 32} {j k n : Nat} {xs ys : List Byte}

theorem at_add (data : BitVec 32) (j k : Nat) :
    data + BitVec.ofNat 32 j + BitVec.ofNat 32 k = data + BitVec.ofNat 32 (j + k) := by
  rw [BitVec.add_assoc, BitVec.ofNat_add]

theorem ofNat_sub (k n : Nat) : BitVec.ofNat 32 (k + n) - BitVec.ofNat 32 k = BitVec.ofNat 32 n := by
  rw [BitVec.ofNat_add, BitVec.add_comm, BitVec.add_sub_cancel]

theorem range_add (m : NetMemory) (data : BitVec 32) (n k : Nat) :
    m.range data (n + k) = m.range data n ++ m.range (data + BitVec.ofNat 32 n) k := by
  simp only [range, List.range_add, List.map_append, List.map_map, Function.comp_def, at_add]

/-- The bytes lie at the offset. -/
def HoldsAt (m : NetMemory) (data : BitVec 32) (k : Nat) (xs : List Byte) : Prop :=
  m.range (data + BitVec.ofNat 32 k) xs.length = xs

theorem holdsAt_append : m.HoldsAt data k (xs ++ ys) ↔
    m.HoldsAt data k xs ∧ m.HoldsAt data (k + xs.length) ys := by
  have hlength : (m.range (data + BitVec.ofNat 32 k) xs.length).length = xs.length := by
    simp [range]
  rw [HoldsAt, List.length_append, range_add, at_add]
  exact ⟨fun h => List.append_inj h hlength, fun h => by rw [HoldsAt, HoldsAt] at h; rw [h.1, h.2]⟩

theorem holdsAt_base : m.HoldsAt (data + BitVec.ofNat 32 j) k xs ↔ m.HoldsAt data (j + k) xs := by
  rw [HoldsAt, HoldsAt, at_add]

theorem HoldsAt.byte {b : Byte} (h : m.HoldsAt data k [b]) : m.bytes (data + BitVec.ofNat 32 k) = b := by
  have h : [m.bytes (data + BitVec.ofNat 32 k + BitVec.ofNat 32 0)] = [b] := h
  rw [at_add] at h
  exact List.singleton_inj.mp h

theorem HoldsAt.half {x : BitVec 16} (h : m.HoldsAt data k (m.order.store16 x)) :
    m.half (data + BitVec.ofNat 32 k) = x := by
  obtain ⟨a, b, hstore, hload⟩ := ByteOrder.store16_eq m.order x
  rw [hstore, ← List.singleton_append, holdsAt_append] at h
  have hsecond := h.2.byte
  rw [← at_add] at hsecond
  rw [NetMemory.half, h.1.byte]
  exact (congrArg (m.order.load16 a) hsecond).trans hload

theorem HoldsAt.word {x : BitVec 32} (h : m.HoldsAt data k (m.order.store32 x)) :
    m.word (data + BitVec.ofNat 32 k) = x := by
  obtain ⟨a, b, c, d, hstore, hload⟩ := ByteOrder.store32_eq m.order x
  have hfour : [a, b, c, d] = [a] ++ ([b] ++ ([c] ++ [d])) := rfl
  rw [hstore, hfour, holdsAt_append, holdsAt_append, holdsAt_append] at h
  obtain ⟨ha, hb, hc, hd⟩ := h
  have hb := hb.byte
  have hc := hc.byte
  have hd := hd.byte
  rw [Nat.add_assoc, ← at_add] at hc
  rw [Nat.add_assoc, Nat.add_assoc, ← at_add] at hd
  rw [← at_add] at hb
  rw [NetMemory.word, ha.byte, ← hload]
  exact congr (congr (congrArg (m.order.load32 a) hb) hc) hd

end NetMemory

open NetMemory

variable {m : NetMemory} {data : BitVec 32} {state : UdpIpSender} {message padding : List Byte}

/-- The receiver's checksum of a header, when the sender has filled in its own -/
theorem headerChecksum_iff {checksum : BitVec 16} (order : ByteOrder) (state : UdpIpSender) (n : Nat)
    (hchecksum : checksum.toNat = 2 ^ 16 - 1 - fold (state.headerSum order n) % 2 ^ 16) :
    ipHdrChecksum order 0x45 (({ state.ipHdr order n with checksum } : IpHdr).store order) = 0 ↔
      fold (state.headerSum order n) < 2 ^ 16 := by
  have hsum := IpHdr.checksum_toNat order { state.ipHdr order n with checksum } rfl []
  rw [List.append_nil, UdpIpSender.words_sum, hchecksum] at hsum
  rw [← fold_complement (UdpIpSender.headerSum_lt order state n), ← BitVec.toNat_inj]
  have hversion : ({ state.ipHdr order n with checksum } : IpHdr).versionLen = 0x45 := rfl
  rw [hversion] at hsum
  rw [hsum]
  have hzero : (0 : BitVec 16).toNat = 0 := rfl
  omega

@[simp] theorem ret_after (event : NetEvent) (run : NetRun) : (run.after event).ret = run.ret := rfl

/-- The fields of a packet that `udp_receive` reads -/
structure PacketAt (m : NetMemory) (data : BitVec 32) (hdr : IpHdr) (udpHdr : UdpHdr)
    (message : List Byte) : Prop where
  header : m.HoldsAt data 0 (hdr.store m.order)
  versionLen : m.bytes data = hdr.versionLen
  length : m.half (data + 2) = hdr.length
  proto : m.bytes (data + 9) = hdr.proto
  dst : m.word (data + 16) = hdr.dst
  dstPort : m.half (data + 22) = udpHdr.dstPort
  udpLength : m.half (data + 24) = udpHdr.length
  message : m.HoldsAt data 28 message

theorem packetAt {hdr : IpHdr} {udpHdr : UdpHdr}
    (h : m.HoldsAt data 0 (hdr.store m.order ++ udpHdr.store m.order ++ message)) :
    PacketAt m data hdr udpHdr message := by
  have hheader := (holdsAt_append.mp (holdsAt_append.mp h).1).1
  have htwo : ∀ (a b : Byte), [a, b] = [a] ++ [b] := fun _ _ => rfl
  simp only [IpHdr.store, UdpHdr.store, htwo, holdsAt_append, List.length_append,
    ByteOrder.length_store16, ByteOrder.length_store32,
    List.length_cons, List.length_nil, Nat.zero_add, Nat.reduceAdd] at h
  obtain ⟨⟨⟨⟨⟨⟨⟨⟨⟨⟨hversion, -⟩, hlength⟩, -⟩, -⟩, -, hproto⟩, -⟩, -⟩, hdst⟩,
    ⟨⟨-, hport⟩, hudpLength⟩, -⟩, hmessage⟩ := h
  have hversion := hversion.byte
  rw [BitVec.add_zero] at hversion
  exact ⟨hheader, hversion, hlength.half, hproto.byte, hdst.word, hport.half, hudpLength.half,
    hmessage⟩

theorem udpReceive_packet
    (h : m.HoldsAt data 0 (state.fillInUdpIpHeader m.order message.length ++ message ++ padding))
    (hsize : message.length ≤ 65507) (htotal : 28 + message.length + padding.length < 2 ^ 32) :
    (udpReceive m data (BitVec.ofNat 32 (28 + message.length + padding.length))).ret =
      if fold (state.headerSum m.order message.length) < 2 ^ 16 then
        .handled (data + 28) (BitVec.ofNat 32 message.length) state.dstIp state.dstPort
      else .einval := by
  obtain ⟨checksum, hchecksum, hfill⟩ :=
    UdpIpSender.fillInUdpIpHeader_eq m.order state message.length
  set hdr : IpHdr := { state.ipHdr m.order message.length with checksum } with hhdr
  rw [hfill] at h
  have hp := packetAt (holdsAt_append.mp h).1
  have hversion : m.bytes data = 0x45 := hp.versionLen
  have hlen : ipHdrLen 0x45 = 20 := by decide
  have hfits : ipHdrLen (m.bytes data) = 20 := by rw [hversion, hlen]
  have hlength : (hton16 m.order (m.half (data + 2))).toNat = 28 + message.length := by
    have hfield : hton16 m.order hdr.length = BitVec.ofNat 16 (20 + 8 + message.length) :=
      hton16_hton16 _
    rw [hp.length, hfield, BitVec.toNat_ofNat]
    omega
  have htotalNat : (BitVec.ofNat 32 (28 + message.length + padding.length)).toNat =
      28 + message.length + padding.length := by
    rw [BitVec.toNat_ofNat]
    exact Nat.mod_eq_of_lt htotal
  have heq : udpReceive m data (BitVec.ofNat 32 (28 + message.length + padding.length)) = _ :=
    udpReceive_eq (by omega) (by omega) (by rw [ipLength]; omega)
  set l := (hton16 m.order (m.half (data + 2))).setWidth 32 with hl
  have hlNat : l.toNat = 28 + message.length := by
    rw [hl, BitVec.toNat_setWidth, hlength]
    exact Nat.mod_eq_of_lt (by omega)
  have hudpLen : l - BitVec.ofNat 32 20 = BitVec.ofNat 32 (8 + message.length) := by
    have hlEq : l = BitVec.ofNat 32 (20 + (8 + message.length)) := by
      apply BitVec.eq_of_toNat_eq
      rw [hlNat, BitVec.toNat_ofNat]
      omega
    rw [hlEq, ofNat_sub]
  have hrange : m.range data 20 = hdr.store m.order := by
    have hheader := hp.header
    rw [HoldsAt, IpHdr.length_store] at hheader
    simpa using hheader
  have hudpLength : (hton16 m.order (m.half (data + BitVec.ofNat 32 20 + 4))).setWidth 32 =
      BitVec.ofNat 32 (8 + message.length) := by
    have hfield : hton16 m.order (state.udpHdr m.order message.length).length =
      BitVec.ofNat 16 (message.length + 8) := hton16_hton16 _
    have hat : data + BitVec.ofNat 32 20 + 4 = data + 24 := at_add data 20 4
    apply BitVec.eq_of_toNat_eq
    rw [hat, hp.udpLength, hfield, BitVec.toNat_setWidth, BitVec.toNat_ofNat, BitVec.toNat_ofNat]
    omega
  have hchecksumIff := headerChecksum_iff m.order state message.length hchecksum
  rw [heq]
  show (udpReceiveBody m data l).ret = _
  have hproto : m.bytes (data + 9) = ipprotoUdp := hp.proto
  have hlong : ¬ BitVec.ofNat 32 (8 + message.length) < 8 := by
    rw [BitVec.lt_def, BitVec.toNat_ofNat, Nat.mod_eq_of_lt (by omega)]
    exact Nat.not_lt.mpr (Nat.le_add_right 8 _)
  have hdst : hton32 m.order (m.word (data + 16)) = state.dstIp := by
    rw [hp.dst]
    exact hton32_hton32 _
  have hport : hton16 m.order (m.half (data + BitVec.ofNat 32 20 + 2)) = state.dstPort := by
    have hat : data + BitVec.ofNat 32 20 + 2 = data + 22 := at_add data 20 2
    rw [hat, hp.dstPort]
    exact hton16_hton16 _
  have hmessage : BitVec.ofNat 32 (8 + message.length) - 8 = BitVec.ofNat 32 message.length :=
    ofNat_sub 8 message.length
  have hpayload : data + BitVec.ofNat 32 20 + 8 = data + 28 := at_add data 20 8
  have htwenty : (BitVec.ofNat 32 20).toNat = 20 := rfl
  unfold udpReceiveBody
  simp only [ret_after, apply_ite NetRun.ret, hlen, hudpLen, hversion, htwenty, hrange, hproto,
    hlong, hudpLength, hdst, hport, hmessage, hpayload, ne_eq, not_true_eq_false, if_false]
  rw [ite_not]
  exact if_congr hchecksumIff rfl rfl

/-- The fields of the header of a frame -/
theorem frameAt {dst src rest : List Byte} {type : BitVec 16} (hdst : dst.length = 6)
    (hsrc : src.length = 6) (h : m.HoldsAt data 0 (fillInMacHeader m.order src dst type ++ rest)) :
    m.bytes data = dst.getD 0 0 ∧ m.range data 6 = dst ∧ m.half (data + 12) = hton16 m.order type ∧
      m.HoldsAt (data + 14) 0 rest := by
  simp only [fillInMacHeader, holdsAt_append, List.length_append, ByteOrder.length_store16, hdst,
    hsrc, Nat.zero_add, Nat.reduceAdd] at h
  obtain ⟨⟨⟨hstart, -⟩, htype⟩, hrest⟩ := h
  have hrange : m.range data 6 = dst := by
    rw [HoldsAt, hdst] at hstart
    simpa using hstart
  refine ⟨?_, hrange, htype.half, ?_⟩
  · rw [← hrange]
    simp [range]
  · exact holdsAt_base.mpr hrest

/-- Nothing is passed on to the router. -/
def NetRun.Unhandled (run : NetRun) : Prop := run.ret = .eok ∨ run.ret = .einval

@[simp] theorem unhandled_einval : NetRun.einval.Unhandled := .inr rfl

@[simp] theorem unhandled_after {event : NetEvent} {run : NetRun} :
    (run.after event).Unhandled ↔ run.Unhandled := Iff.rfl

@[simp] theorem unhandled_ite {c : Prop} [Decidable c] {run other : NetRun} :
    (if c then run else other).Unhandled ↔ (c → run.Unhandled) ∧ (¬ c → other.Unhandled) := by
  rw [apply_ite NetRun.Unhandled, ite_prop_iff_and]

variable {self : MacReceiver} {arp : ArpAnswerer} {len : BitVec 32}

theorem arpSearch_unhandled {found : NetRun} (hfound : found.Unhandled) (ips : List (BitVec 32)) :
    (arpSearch m data found ips).Unhandled := by
  induction ips with
  | nil => exact unhandled_einval
  | cons ip ips ih =>
    rw [arpSearch, unhandled_after, unhandled_ite]
    exact ⟨fun _ => hfound, fun _ => ih⟩

theorem arpReceive_unhandled : (arpReceive m arp data len).Unhandled := by
  have hfound : (NetRun.after (.read data 28)
      (.after (.answer (arpAnswer m arp data)) ⟨[], .eok⟩)).Unhandled := .inl rfl
  simp [arpReceive, arpSearch_unhandled hfound]

/-- Only an IP packet gets as far as the router. -/
theorem macReceive_other (htype : m.half (data + 12) ≠ hton16 m.order ethPIp) :
    (macReceive m self arp data len).Unhandled := by
  simp only [macReceive, unhandled_ite, unhandled_after, unhandled_einval, arpReceive_unhandled, htype,
    false_implies, implies_true, and_self]

/-- All answers are from `arp_receive`. -/
def NetRun.AnswersArp (run : NetRun) : Prop :=
  ∀ call, .answer call ∈ run.events → call.dstMac.length = 6 ∧ call.ethertype = ethPArp

@[simp] theorem answersArp_einval : NetRun.einval.AnswersArp := fun _ hcall => nomatch hcall

@[simp] theorem answersArp_after {event : NetEvent} {run : NetRun} :
    (run.after event).AnswersArp ↔
      (∀ call, event = .answer call → call.dstMac.length = 6 ∧ call.ethertype = ethPArp) ∧
        run.AnswersArp := by
  simp only [NetRun.AnswersArp, NetRun.after, List.mem_cons]
  constructor
  · intro h
    exact ⟨fun call he => h call (.inl he.symm), fun call hcall => h call (.inr hcall)⟩
  · rintro ⟨hevent, hrun⟩ call (he | hcall)
    · exact hevent call he.symm
    · exact hrun call hcall

@[simp] theorem answersArp_ite {c : Prop} [Decidable c] {run other : NetRun} :
    (if c then run else other).AnswersArp ↔ (c → run.AnswersArp) ∧ (¬ c → other.AnswersArp) := by
  rw [apply_ite NetRun.AnswersArp, ite_prop_iff_and]

theorem arpReceive_answersArp : (arpReceive m arp data len).AnswersArp := by
  have hsearch : ∀ (found : NetRun) (ips : List (BitVec 32)), found.AnswersArp →
      (arpSearch m data found ips).AnswersArp := by
    intro found ips hfound
    induction ips with
    | nil => exact answersArp_einval
    | cons ip ips ih =>
      rw [arpSearch, answersArp_after, answersArp_ite]
      refine ⟨fun _ h => NetEvent.noConfusion h, fun _ => hfound, fun _ => ih⟩
  have hfound : (NetRun.after (.read data 28)
      (.after (.answer (arpAnswer m arp data)) ⟨[], .eok⟩)).AnswersArp := by
    simp [NetRun.AnswersArp, NetRun.after, arpAnswer, range]
  simp [arpReceive, hsearch _ _ hfound]

theorem udpReceive_answersArp : (udpReceive m data len).AnswersArp := by
  have hbody : ∀ l, (udpReceiveBody m data l).AnswersArp := by
    intro l
    simp only [udpReceiveBody, answersArp_after, answersArp_ite, answersArp_einval]
    simp [NetRun.AnswersArp]
  simp [udpReceive, hbody]

theorem macReceive_answersArp : (macReceive m self arp data len).AnswersArp := by
  simp [macReceive, arpReceive_answersArp, udpReceive_answersArp]

theorem macReceive_packet {dst src : List Byte} (hdst : dst.length = 6) (hsrc : src.length = 6)
    (h : m.HoldsAt data 0 (fillInMacHeader m.order src dst ethPIp ++
      (state.fillInUdpIpHeader m.order message.length ++ message ++ padding)))
    (hsize : message.length ≤ 65507) (htotal : 42 + message.length + padding.length < 2 ^ 32) :
    (macReceive m self arp data (BitVec.ofNat 32 (42 + message.length + padding.length))).ret =
      if (dst.getD 0 0 &&& 1 ≠ 0 ∨ dst = self.myMac) ∧
          fold (state.headerSum m.order message.length) < 2 ^ 16 then
        .handled (data + 42) (BitVec.ofNat 32 message.length) state.dstIp state.dstPort
      else .einval := by
  obtain ⟨hfirst, hrange, htype, hrest⟩ := frameAt hdst hsrc h
  have hlong : ¬ BitVec.ofNat 32 (42 + message.length + padding.length) < 14 := by
    rw [BitVec.lt_def, BitVec.toNat_ofNat, Nat.mod_eq_of_lt htotal]
    show ¬ 42 + message.length + padding.length < 14
    omega
  have hpayload : BitVec.ofNat 32 (42 + message.length + padding.length) - 14 =
      BitVec.ofNat 32 (28 + message.length + padding.length) := by
    have hsum : 42 + message.length + padding.length = 14 + (28 + message.length + padding.length) := by
      omega
    rw [hsum]
    exact ofNat_sub 14 _
  have hudp := udpReceive_packet hrest hsize (by omega)
  have hat : data + 14 + 28 = data + 42 := at_add data 14 28
  rw [hat] at hudp
  have hnot : hton16 m.order ethPIp ≠ hton16 m.order ethPArp := hton16_types m.order
  have hpass : dst.getD 0 0 &&& 1 = 0 ∧ dst ≠ self.myMac ↔
      ¬ (dst.getD 0 0 &&& 1 ≠ 0 ∨ dst = self.myMac) := by
    rw [not_or, not_not]
  unfold macReceive
  rw [if_neg hlong]
  simp only [ret_after, apply_ite NetRun.ret, hpayload, hfirst, hrange, htype, hnot, if_false,
    if_true, hudp, hpass]
  by_cases haccept : dst.getD 0 0 &&& 1 ≠ 0 ∨ dst = self.myMac
  · rw [if_neg (not_not.mpr haccept)]
    exact if_congr (and_iff_right haccept).symm rfl rfl
  · rw [if_pos haccept, if_neg fun h => haccept h.1]
    rfl

end Reception

theorem UdpIpSender.length_fillInUdpIpHeader (order : ByteOrder) (state : UdpIpSender) (n : Nat) :
    (state.fillInUdpIpHeader order n).length = 28 := by
  obtain ⟨checksum, -, hfill⟩ := UdpIpSender.fillInUdpIpHeader_eq order state n
  rw [hfill, List.length_append, IpHdr.length_store, UdpHdr.length_store]

namespace Station

open NetMemory

variable {order : ByteOrder} {st : Station} {m : NetMemory} {data : BitVec 32} {k : Nat}
  {message bytes padding : List Byte} {sender : Nat × UdpIpSender}

/-- The addresses of the configuration are addresses. -/
structure Sized (st : Station) : Prop where
  srcMac : st.srcMac.length = 6
  dstMac : ∀ sender ∈ st.senders, sender.2.dstMac.length = 6

/-- The frame of a message -/
def packet (order : ByteOrder) (st : Station) (sender : UdpIpSender) (message : List Byte) :
    List Byte :=
  fillInMacHeader order st.srcMac sender.dstMac ethPIp ++
    (sender.fillInUdpIpHeader order message.length ++ message)

/-- A sender sends with the overhead for exactly its headers. -/
theorem send_eq (hsender : st.senders[k]? = some sender) :
    st.send order k message =
      if sender.1 = 42 then some (st.packet order sender.2 message) else none := by
  unfold send
  rw [hsender, Option.bind_some, UdpIpSender.udpIpSend]
  by_cases hudp : sender.1 < UdpIpSender.headerSize
  · have hne : sender.1 ≠ 42 := fun he => absurd (he ▸ hudp) (by decide)
    rw [if_pos hudp, if_neg hne]
    rfl
  rw [if_neg hudp, Option.bind_some, frameOf, macSend]
  have hroom : ¬ sender.1 < 28 := hudp
  by_cases hmac : sender.1 - UdpIpSender.headerSize < macHeaderSize
  · have hlt : sender.1 - 28 < 14 := hmac
    have hne : sender.1 ≠ 42 := by omega
    rw [if_pos hmac, if_neg hne]
    rfl
  rw [if_neg hmac, Option.bind_some]
  have hfits : ¬ sender.1 - 28 < 14 := hmac
  refine if_congr ?_ rfl rfl
  show sender.1 - 28 - 14 = 0 ↔ sender.1 = 42
  omega

/-- `ether_is_multicast`, or the address of the station -/
def Accepts (st : Station) (dst : List Byte) : Prop :=
  dst.getD 0 0 &&& 1 ≠ 0 ∨ dst = st.mac.myMac

instance (st : Station) (dst : List Byte) : Decidable (st.Accepts dst) :=
  inferInstanceAs (Decidable (_ ∨ _))

/-- The receiver of a datagram at a station, with the message -/
def takes (st : Station) (d : Datagram) : Option (Nat × List Byte) :=
  if st.Accepts d.dstMac ∧ d.intact then (st.getIpPortIndex d.ip d.port).map (·, d.message) else none

theorem receive_packet {from' : Station} (hsized : from'.Sized) (hsender : sender ∈ from'.senders)
    (h : m.HoldsAt data 0 (from'.packet m.order sender.2 message ++ padding))
    (hsize : message.length ≤ 65507)
    (htotal : (from'.packet m.order sender.2 message).length + padding.length < 2 ^ 32) :
    st.receive m data
        (BitVec.ofNat 32 ((from'.packet m.order sender.2 message).length + padding.length)) =
      st.takes
        { dstMac := sender.2.dstMac
          ip := sender.2.dstIp
          port := sender.2.dstPort
          message
          intact := fold (sender.2.headerSum m.order message.length) < 2 ^ 16 } := by
  have hdst := hsized.dstMac sender hsender
  have hlength : (from'.packet m.order sender.2 message).length = 42 + message.length := by
    simp only [packet, fillInMacHeader, List.length_append, hdst, hsized.srcMac,
      ByteOrder.length_store16, UdpIpSender.length_fillInUdpIpHeader]
    omega
  rw [hlength] at htotal ⊢
  rw [packet, List.append_assoc] at h
  have hret : (macReceive m st.mac st.arp data
      (BitVec.ofNat 32 (42 + message.length + padding.length))).ret =
        if st.Accepts sender.2.dstMac ∧
            fold (sender.2.headerSum m.order message.length) < 2 ^ 16 then
          .handled (data + 42) (BitVec.ofNat 32 message.length) sender.2.dstIp sender.2.dstPort
        else .einval := macReceive_packet hdst hsized.srcMac h hsize htotal
  have hmessage : m.range (data + 42) (BitVec.ofNat 32 message.length).toNat = message := by
    have hrest := (frameAt hdst hsized.srcMac h).2.2.2
    have hat := (holdsAt_append.mp (holdsAt_append.mp hrest).1).2
    rw [UdpIpSender.length_fillInUdpIpHeader, Nat.zero_add, HoldsAt] at hat
    have hbase : data + 14 + BitVec.ofNat 32 28 = data + 42 := at_add data 14 28
    rw [hbase] at hat
    rwa [BitVec.toNat_ofNat, Nat.mod_eq_of_lt (by omega)]
  unfold receive run takes
  rw [hret]
  by_cases htaken : st.Accepts sender.2.dstMac ∧
      fold (sender.2.headerSum m.order message.length) < 2 ^ 16
  · have htaken' : st.Accepts sender.2.dstMac ∧
        decide (fold (sender.2.headerSum m.order message.length) < 2 ^ 16) = true :=
      ⟨htaken.1, decide_eq_true htaken.2⟩
    rw [if_pos htaken, if_pos htaken']
    dsimp only
    rw [hmessage]
  · have htaken' : ¬ (st.Accepts sender.2.dstMac ∧
        decide (fold (sender.2.headerSum m.order message.length) < 2 ^ 16) = true) := fun h =>
      htaken ⟨h.1, of_decide_eq_true h.2⟩
    rw [if_neg htaken, if_neg htaken']

/-- A frame with something else than an IP packet in it -/
def Foreign (bytes : List Byte) : Prop := 14 ≤ bytes.length ∧ (bytes.drop 12).take 2 ≠ [8, 0]

instance (bytes : List Byte) : Decidable (Foreign bytes) := inferInstanceAs (Decidable (_ ∧ _))

theorem receive_foreign (hforeign : Foreign bytes) (h : m.HoldsAt data 0 (bytes ++ padding))
    (len : BitVec 32) : st.receive m data len = none := by
  obtain ⟨hlong, htype⟩ := hforeign
  have hsplit : bytes = bytes.take 12 ++ ((bytes.drop 12).take 2 ++ bytes.drop 14) := by
    conv_lhs => rw [← List.take_append_drop 12 bytes, ← List.take_append_drop 2 (bytes.drop 12)]
    rw [List.drop_drop]
  have htwelve : (bytes.take 12).length = 12 := by
    rw [List.length_take]
    omega
  have hother : m.half (data + 12) ≠ hton16 m.order ethPIp := by
    intro hip
    rw [hsplit, List.append_assoc, List.append_assoc, holdsAt_append, holdsAt_append] at h
    have hat := h.2.1
    rw [htwelve, Nat.zero_add, HoldsAt] at hat
    have htwo : ((bytes.drop 12).take 2).length = 2 := by
      rw [List.length_take, List.length_drop]
      omega
    rw [htwo] at hat
    have hstored : m.order.store16 (m.half (data + 12)) = (bytes.drop 12).take 2 := by
      rw [← hat, NetMemory.half, ByteOrder.store16_load16]
      simp [range, List.range_succ]
    rw [hip] at hstored
    have hwire : m.order.store16 (hton16 m.order ethPIp) = [8, 0] := by
      cases m.order <;> rfl
    exact htype (hstored.symm.trans hwire)
  unfold receive run
  have hret : (macReceive m st.mac st.arp data len).Unhandled := macReceive_other hother
  rcases hret with hret | hret
  · rw [hret]
  · rw [hret]

theorem answers_foreign (hsized : st.Sized) (len : BitVec 32) :
    ∀ bytes ∈ st.answers m.order m data len, Foreign bytes := by
  intro bytes hbytes
  obtain ⟨event, hevent, hframe⟩ := List.mem_filterMap.mp hbytes
  cases event with
  | answer call =>
    obtain ⟨hdst, htype⟩ : call.dstMac.length = 6 ∧ call.ethertype = ethPArp :=
      macReceive_answersArp call hevent
    obtain ⟨r, hr, hroom⟩ := Option.bind_eq_some_iff.mp hframe
    unfold macSend at hr
    split_ifs at hr hroom
    obtain rfl := Option.some.inj hr
    obtain rfl := Option.some.inj hroom
    have hwire : m.order.store16 (hton16 m.order ethPArp) = [8, 6] := by
      cases m.order <;> rfl
    have htwelve : (call.dstMac ++ st.srcMac).length = 12 := by
      rw [List.length_append, hdst, hsized.srcMac]
    rw [Foreign, htype, fillInMacHeader, hwire, List.append_assoc]
    refine ⟨?_, ?_⟩
    · rw [List.length_append, htwelve, List.length_append]
      exact Nat.add_le_add_left (Nat.le_add_right 2 _) 12
    · rw [List.drop_left' htwelve]
      show [(8 : Byte), 6] ≠ [8, 0]
      decide
  | _ => cases hframe

end Station

namespace Network

open Station NetMemory

variable {order : ByteOrder} {stations : Nat → Station} {s t : Network} {i k : Nat}
  {message bytes : List Byte}

theorem place_holds {memory : BitVec 32 → Byte} {data : BitVec 32} (h : bytes.length < 2 ^ 32) :
    (place order memory data bytes).HoldsAt data 0 bytes := by
  refine List.ext_getElem (by simp [range]) fun j hj hj' => ?_
  have hindex : (data + BitVec.ofNat 32 0 + BitVec.ofNat 32 j - data).toNat = j := by
    rw [at_add, Nat.zero_add, BitVec.add_comm, BitVec.add_sub_cancel, BitVec.toNat_ofNat]
    exact Nat.mod_eq_of_lt (by omega)
  simp only [range, List.getElem_map, List.getElem_range, place, hindex, if_pos hj']
  rw [List.getD_eq_getElem?_getD, List.getElem?_eq_getElem hj']
  rfl

/-- What a frame is: a message that a sender has sent, or something else than an IP packet -/
def Sound (order : ByteOrder) (stations : Nat → Station) (f : Frame) : Prop :=
  match f.origin with
  | none => Foreign f.bytes
  | some d => ∃ i k message, (stations i).send order k message = some f.bytes ∧
      datagram order k (stations i) message = some d ∧ message.length ≤ 65507

theorem receive_frame (hsized : ∀ i, (stations i).Sized) {f : Frame} (hf : Sound order stations f)
    (st : Station) (a : Arrival) (htotal : f.bytes.length + a.padding.length < 2 ^ 32) :
    st.receive (place order a.memory a.data (f.bytes ++ a.padding)) a.data
      (BitVec.ofNat 32 (f.bytes ++ a.padding).length) = f.origin.bind st.takes := by
  rw [← List.length_append] at htotal
  have hholds : (place order a.memory a.data (f.bytes ++ a.padding)).HoldsAt a.data 0
      (f.bytes ++ a.padding) := place_holds htotal
  rw [List.length_append] at htotal ⊢
  obtain ⟨bytes, origin⟩ := f
  cases origin with
  | none => exact receive_foreign hf hholds _
  | some d =>
    obtain ⟨i, k, message, hsend, hd, hsize⟩ := hf
    obtain ⟨sender, hsender, rfl⟩ := Option.map_eq_some_iff.mp hd
    rw [send_eq hsender] at hsend
    split_ifs at hsend
    obtain rfl := Option.some.inj hsend
    exact receive_packet (hsized i) (List.mem_of_getElem? hsender) hholds hsize htotal

/-- The message of a datagram, if it is for one of the receivers of a station -/
def addressed (st : Station) (i : Nat) (d : Datagram) : Option (List Byte) :=
  (st.takes d).bind fun r => if r.1 = i then some r.2 else none

/-- What a receiver of a station gets from a frame that has reached some stations -/
def given (stations : Nat → Station) (n i : Nat) (d : Option Datagram × List Nat) : List (List Byte) :=
  d.2.filterMap fun station =>
    if station = n then d.1.bind (addressed (stations n) i) else none

/-- The frame that leaves the medium in a step, with the stations that it reaches -/
def departed (s : Network) : NetworkInput → List (Option Datagram × List Nat)
  | .carry arrivals => s.medium.head?.toList.map fun f => (f.origin, arrivals.map (·.station))
  | _ => []

/-- The same for a run -/
def departures (order : ByteOrder) (stations : Nat → Station) :
    Network → List NetworkInput → List (Option Datagram × List Nat)
  | _, [] => []
  | s, e :: es => s.departed e ++ match s.step order stations e with
    | some t => departures order stations t es
    | none => []

/-- The datagram that is sent in a step -/
def sentDatagram (order : ByteOrder) (stations : Nat → Station) : NetworkInput → Option Datagram
  | .send i k message =>
    ((stations i).send order k message).bind fun _ => datagram order k (stations i) message
  | _ => none

/-- What the sizes of the fields of the headers allow, and what other hosts may send -/
def Admissible (s : Network) : NetworkInput → Prop
  | .send _ _ message => message.length ≤ 65507
  | .inject bytes => Foreign bytes
  | .carry arrivals =>
    ∀ a ∈ arrivals, ∀ f ∈ s.medium.head?.toList, f.bytes.length + a.padding.length < 2 ^ 32

instance (s : Network) (e : NetworkInput) : Decidable (Admissible s e) :=
  match e with
  | .send _ _ message => inferInstanceAs (Decidable (message.length ≤ 65507))
  | .inject bytes => inferInstanceAs (Decidable (Foreign bytes))
  | .carry arrivals =>
    inferInstanceAs (Decidable (∀ a ∈ arrivals, ∀ f ∈ s.medium.head?.toList,
      f.bytes.length + a.padding.length < 2 ^ 32))

theorem deliver_medium (s : Network) (n : Nat) (r : Option (Nat × List Byte)) :
    (s.deliver n r).medium = s.medium := by
  cases r with
  | none => rfl
  | some r => rfl

theorem deliver_received (s : Network) (st : Station) (j : Nat) (d : Option Datagram) (n i : Nat) :
    (s.deliver j (d.bind st.takes)).received n i =
      s.received n i ++ if j = n then (d.bind (addressed st i)).toList else [] := by
  have hreceived : ∀ r : Option (Nat × List Byte), (s.deliver j r).received n i =
      s.received n i ++
        if j = n then (r.bind fun r => if r.1 = i then some r.2 else none).toList else [] := by
    intro r
    cases r with
    | none =>
      rw [Option.bind_none, Option.toList_none, ite_self, List.append_nil]
      rfl
    | some r =>
      obtain ⟨i', message⟩ := r
      simp only [deliver, Option.bind_some, Function.update_apply]
      by_cases hn : n = j
      · subst hn
        by_cases hi : i = i'
        · subst hi
          simp
        · simp [hi, Ne.symm hi]
      · simp [hn, Ne.symm hn]
  rw [hreceived, Option.bind_assoc]
  rfl

section

variable (hsized : ∀ i, (stations i).Sized)

include hsized

theorem arrive_spec {f : Frame} (hf : Sound order stations f) {a : Arrival}
    (htotal : f.bytes.length + a.padding.length < 2 ^ 32) (s : Network) :
    (∃ answers, (arrive order stations f.bytes s a).medium = s.medium ++ answers ∧
      ∀ g ∈ answers, g.origin = none ∧ Sound order stations g) ∧
    ∀ n i, (arrive order stations f.bytes s a).received n i =
      s.received n i ++ given stations n i (f.origin, [a.station]) := by
  have hreceive := receive_frame hsized hf (stations a.station) a htotal
  constructor
  · refine ⟨((stations a.station).answers order (place order a.memory a.data (f.bytes ++ a.padding))
      a.data (BitVec.ofNat 32 (f.bytes ++ a.padding).length)).map fun bytes => ⟨bytes, none⟩,
      ?_, fun g hg => ?_⟩
    · exact congrArg (· ++ _) (deliver_medium s a.station _)
    · obtain ⟨bytes, hbytes, rfl⟩ := List.mem_map.mp hg
      have hforeign : ∀ bytes ∈ (stations a.station).answers order
          (place order a.memory a.data (f.bytes ++ a.padding)) a.data
          (BitVec.ofNat 32 (f.bytes ++ a.padding).length), Foreign bytes :=
        answers_foreign (m := place order a.memory a.data _) (hsized a.station) _
      exact ⟨rfl, hforeign bytes hbytes⟩
  · intro n i
    show (s.deliver a.station _).received n i = _
    rw [hreceive, deliver_received]
    congr 1
    by_cases hn : a.station = n
    · subst hn
      cases hd : f.origin.bind (addressed (stations a.station) i) with
      | none => simp [given, hd]
      | some message => simp [given, hd]
    · simp [given, hn]

theorem arrivals_spec {f : Frame} (hf : Sound order stations f) {arrivals : List Arrival}
    (htotal : ∀ a ∈ arrivals, f.bytes.length + a.padding.length < 2 ^ 32) (s : Network) :
    (∃ answers, (arrivals.foldl (arrive order stations f.bytes) s).medium = s.medium ++ answers ∧
      ∀ g ∈ answers, g.origin = none ∧ Sound order stations g) ∧
    ∀ n i, (arrivals.foldl (arrive order stations f.bytes) s).received n i =
      s.received n i ++ given stations n i (f.origin, arrivals.map (·.station)) := by
  induction arrivals generalizing s with
  | nil =>
    exact ⟨⟨[], (List.append_nil _).symm, fun g hg => absurd hg List.not_mem_nil⟩,
      fun n i => (List.append_nil _).symm⟩
  | cons a arrivals ih =>
    obtain ⟨⟨first, hfirst, hfirstSound⟩, hgiven⟩ :=
      arrive_spec hsized hf (htotal a List.mem_cons_self) s
    obtain ⟨⟨rest, hrest, hrestSound⟩, hgivenRest⟩ :=
      ih (fun b hb => htotal b (List.mem_cons_of_mem _ hb)) (arrive order stations f.bytes s a)
    refine ⟨⟨first ++ rest, ?_, fun g hg => ?_⟩, fun n i => ?_⟩
    · rw [List.foldl_cons, hrest, hfirst, List.append_assoc]
    · rcases List.mem_append.mp hg with hg | hg
      · exact hfirstSound g hg
      · exact hrestSound g hg
    · have hsplit : given stations n i (f.origin, (a :: arrivals).map (·.station)) =
          given stations n i (f.origin, [a.station]) ++
            given stations n i (f.origin, arrivals.map (·.station)) :=
        List.filterMap_append (l := [a.station])
      rw [List.foldl_cons, hgivenRest, hgiven, List.append_assoc, hsplit]

theorem step_spec (hsound : ∀ f ∈ s.medium, Sound order stations f) {e : NetworkInput}
    (hok : Admissible s e) (hstep : s.step order stations e = some t) :
    (∀ f ∈ t.medium, Sound order stations f) ∧
      (∀ n i, t.received n i = s.received n i ++ (s.departed e).flatMap (given stations n i)) ∧
      (s.departed e).filterMap (·.1) ++ t.medium.filterMap (·.origin) =
        s.medium.filterMap (·.origin) ++ (sentDatagram order stations e).toList := by
  have hadd : ∀ f, Sound order stations f → ∀ g ∈ s.medium ++ [f], Sound order stations g := by
    intro f hf g hg
    rcases List.mem_append.mp hg with hg | hg
    · exact hsound g hg
    · exact List.mem_singleton.mp hg ▸ hf
  cases e with
  | send i k message =>
    cases hsend : (stations i).send order k message with
    | none =>
      simp only [step, hsend] at hstep
      obtain rfl := Option.some.inj hstep
      refine ⟨hsound, fun n i => (List.append_nil _).symm, ?_⟩
      simp [departed, sentDatagram, hsend]
    | some bytes =>
      simp only [step, hsend] at hstep
      obtain rfl := Option.some.inj hstep
      obtain ⟨sender, hsender, -⟩ := Option.bind_eq_some_iff.mp hsend
      obtain ⟨d, hd⟩ : ∃ d, datagram order k (stations i) message = some d :=
        ⟨_, congrArg (Option.map _) hsender⟩
      refine ⟨hadd _ ?_, fun n i => (List.append_nil _).symm, ?_⟩
      · rw [Sound, hd]
        exact ⟨i, k, message, hsend, hd, hok⟩
      · simp [departed, sentDatagram, hsend, hd]
  | inject bytes =>
    obtain rfl := Option.some.inj hstep
    refine ⟨hadd ⟨bytes, none⟩ hok, fun n i => (List.append_nil _).symm, ?_⟩
    simp [departed, sentDatagram]
  | carry arrivals =>
    obtain ⟨medium, received⟩ := s
    cases medium with
    | nil => cases hstep
    | cons f medium =>
      obtain rfl := Option.some.inj hstep
      obtain ⟨hf, hrest⟩ := List.forall_mem_cons.mp hsound
      obtain ⟨⟨answers, hmedium, hanswers⟩, hgiven⟩ :=
        arrivals_spec hsized hf (fun a ha => hok a ha f List.mem_cons_self) ⟨medium, received⟩
      have hnone : answers.filterMap (·.origin) = [] :=
        List.filterMap_eq_nil_iff.mpr fun g hg => (hanswers g hg).1
      refine ⟨fun g hg => ?_, fun n i => ?_, ?_⟩
      · rw [hmedium] at hg
        rcases List.mem_append.mp hg with hg | hg
        · exact hrest g hg
        · exact (hanswers g hg).2
      · rw [hgiven]
        simp [departed]
      · rw [hmedium, List.filterMap_append, hnone]
        cases horigin : f.origin with
        | none => simp [departed, sentDatagram, horigin]
        | some d => simp [departed, sentDatagram, horigin]

theorem run_spec {es : List NetworkInput} (hsound : ∀ f ∈ s.medium, Sound order stations f)
    (hok : Run.Meets (step order stations) Admissible s es)
    (hrun : Run.exec (step order stations) s es = some t) :
    (∀ n i, t.received n i =
        s.received n i ++ (departures order stations s es).flatMap (given stations n i)) ∧
      (departures order stations s es).filterMap (·.1) ++ t.medium.filterMap (·.origin) =
        s.medium.filterMap (·.origin) ++ es.filterMap (sentDatagram order stations) := by
  induction es generalizing s with
  | nil =>
    obtain rfl := Option.some.inj hrun
    exact ⟨fun n i => (List.append_nil _).symm, (List.append_nil _).symm⟩
  | cons e es ih =>
    obtain ⟨m, hm, hrest⟩ := Run.exec_cons.mp hrun
    obtain ⟨hsound', hreceived, hmedium⟩ := step_spec hsized hsound hok.1 hm
    obtain ⟨hreceivedRest, hmediumRest⟩ := ih hsound' (hok.2 m hm) hrest
    have hcons : (e :: es).filterMap (sentDatagram order stations) =
        (sentDatagram order stations e).toList ++ es.filterMap (sentDatagram order stations) := by
      cases he : sentDatagram order stations e with
      | none => simp [he]
      | some d => simp [he]
    rw [departures, hm]
    refine ⟨fun n i => ?_, ?_⟩
    · rw [hreceivedRest, hreceived, List.append_assoc, List.flatMap_append]
    · rw [List.filterMap_append, List.append_assoc, hmediumRest, ← List.append_assoc, hmedium,
        List.append_assoc, hcons]

/-- Every receiver has been given exactly the messages for it, of the frames that have reached its
station, and in the order of the frames; and the frames leave the medium in the order in which their
messages have been sent. -/
theorem network_delivers {es : List NetworkInput}
    (hok : Run.Meets (step order stations) Admissible boot es)
    (hrun : Run.exec (step order stations) boot es = some t) :
    (∀ n i, t.received n i = (departures order stations boot es).flatMap (given stations n i)) ∧
      (departures order stations boot es).filterMap (·.1) ++ t.medium.filterMap (·.origin) =
        es.filterMap (sentDatagram order stations) :=
  run_spec hsized (fun _ hf => absurd hf List.not_mem_nil) hok hrun

end

def twoStations : Nat → Station
  | 0 => ⟨[2, 0, 0, 0, 0, 1], [(42, ⟨0xc0a80101, 1000, 0xc0a80201, 2000, [2, 0, 0, 0, 0, 2]⟩)],
      ⟨[2, 0, 0, 0, 0, 1]⟩, ⟨[2, 0, 0, 0, 0, 1], []⟩, []⟩
  | _ => ⟨[2, 0, 0, 0, 0, 2], [], ⟨[2, 0, 0, 0, 0, 2]⟩, ⟨[2, 0, 0, 0, 0, 2], [0xc0a80201]⟩,
      [(0xc0a80101, 2000), (0xc0a80201, 2000)]⟩

/-- A broadcast that asks who has 192.168.2.1 -/
def arpRequest : List Byte :=
  List.replicate 6 0xff ++ [2, 0, 0, 0, 0, 1, 8, 6] ++ [0, 1, 8, 0, 6, 4, 0, 1, 2, 0, 0, 0, 0, 1,
    0xc0, 0xa8, 1, 1, 0, 0, 0, 0, 0, 0, 0xc0, 0xa8, 2, 1]

/-- A message arrives twice, the next is lost, and the last arrives. -/
def exchange : List NetworkInput :=
  let here : Arrival := ⟨0, 0x2000, [], fun _ => 0xff⟩
  let there : Arrival := ⟨1, 0x1000, [0, 0, 0], fun _ => 0⟩
  [.send 0 0 [1, 2, 3], .inject arpRequest, .send 0 0 [4], .carry [there, here, there],
    .carry [there], .carry [], .send 0 0 [5], .carry [here], .carry [there]]

theorem network_delivers_exchange : ∃ t,
    Run.exec (step .little twoStations) boot exchange = some t ∧
      t.received 1 1 = [[1, 2, 3], [1, 2, 3], [5]] := by
  have hsome : (Run.exec (step .little twoStations) boot exchange).isSome = true := by
    decide +kernel
  obtain ⟨t, hrun⟩ := Option.isSome_iff_exists.mp hsome
  have hsized : ∀ i, (twoStations i).Sized := by
    intro i
    cases i with
    | zero => exact ⟨rfl, by decide⟩
    | succ i => exact ⟨rfl, fun _ h => absurd h List.not_mem_nil⟩
  have hok : Run.Meets (step .little twoStations) Admissible boot exchange := by
    decide +kernel
  refine ⟨t, hrun, ((network_delivers hsized hok hrun).1 1 1).trans ?_⟩
  decide +kernel

end Network

end Chpok
