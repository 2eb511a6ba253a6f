import Chpok.Syspart.UdpIp
import Mathlib.Tactic.IntervalCases
import Mathlib.Algebra.Order.BigOperators.Group.List

/-! What is sent is received. The checksum adds the carries of the sum once only, so that
the receiver does not accept every header that the sender makes. -/

namespace Chpok

open OnesComplement

variable {order : ByteOrder} {state : UdpIpSender}

theorem hton16_hton16 (x : BitVec 16) : hton16 order (hton16 order x) = x := by
  cases order with
  | big => rfl
  | little =>
    apply BitVec.eq_of_getLsbD_eq
    intro i hi
    simp only [hton16, BitVec.getLsbD_or, BitVec.getLsbD_and, BitVec.getLsbD_ushiftRight,
      BitVec.getLsbD_shiftLeft]
    by_cases hlow : i < 8
    · interval_cases i <;> simp
    · interval_cases i <;> simp at hlow ⊢

theorem hton32_hton32 (x : BitVec 32) : hton32 order (hton32 order x) = x := by
  cases order with
  | big => rfl
  | little =>
    apply BitVec.eq_of_getLsbD_eq
    intro i hi
    simp only [hton32, BitVec.getLsbD_append, BitVec.getLsbD_extractLsb']
    interval_cases i <;> simp

theorem halves_hton32 (x : BitVec 32) : order.halves (hton32 order x) =
    [hton16 order (x.extractLsb' 16 16), hton16 order (x.extractLsb' 0 16)] := by
  cases order with
  | big => rfl
  | little =>
    rw [ByteOrder.halves, List.cons.injEq, List.cons.injEq]
    refine ⟨?_, ?_, rfl⟩ <;>
    · apply BitVec.eq_of_getLsbD_eq
      intro i hi
      simp only [hton32, hton16, BitVec.getLsbD_append, BitVec.getLsbD_extractLsb',
        BitVec.getLsbD_or, BitVec.getLsbD_and, BitVec.getLsbD_ushiftRight, BitVec.getLsbD_shiftLeft]
      interval_cases i <;> simp

namespace IpHdr

theorem load_store (hdr : IpHdr) (rest : List Byte) :
    load order (hdr.store order ++ rest) = some hdr := by
  obtain ⟨a1, b1, hs1, hl1⟩ := ByteOrder.store16_eq order hdr.length
  obtain ⟨a2, b2, hs2, hl2⟩ := ByteOrder.store16_eq order hdr.id
  obtain ⟨a3, b3, hs3, hl3⟩ := ByteOrder.store16_eq order hdr.offset
  obtain ⟨a4, b4, hs4, hl4⟩ := ByteOrder.store16_eq order hdr.checksum
  obtain ⟨a5, b5, c5, d5, hs5, hl5⟩ := ByteOrder.store32_eq order hdr.src
  obtain ⟨a6, b6, c6, d6, hs6, hl6⟩ := ByteOrder.store32_eq order hdr.dst
  rw [store, hs1, hs2, hs3, hs4, hs5, hs6]
  simp only [List.cons_append, List.nil_append, load, hl1, hl2, hl3, hl4, hl5, hl6]

theorem length_store (hdr : IpHdr) : (hdr.store order).length = 20 := by
  cases order <;> rfl

/-- The words of a header -/
def words (order : ByteOrder) (hdr : IpHdr) : List (BitVec 16) :=
  [order.load16 hdr.versionLen hdr.dscp, hdr.length, hdr.id, hdr.offset,
    order.load16 hdr.ttl hdr.proto, hdr.checksum] ++ order.halves hdr.src ++ order.halves hdr.dst

theorem words_store (hdr : IpHdr) (rest : List Byte) :
    order.words (hdr.store order ++ rest) = hdr.words order ++ order.words rest := by
  have hpair : ∀ (a b : Byte) (rest : List Byte),
      order.words (a :: b :: rest) = order.load16 a b :: order.words rest := fun _ _ _ => rfl
  simp only [store, List.append_assoc, hpair, ByteOrder.words_store16, ByteOrder.words_store32, words,
    List.cons_append, List.nil_append]

theorem checksum_toNat (order : ByteOrder) (hdr : IpHdr) (hver : hdr.versionLen = 0x45)
    (rest : List Byte) :
    (ipHdrChecksum order hdr.versionLen (hdr.store order ++ rest)).toNat =
      2 ^ 16 - 1 - fold ((hdr.words order).map BitVec.toNat).sum % 2 ^ 16 := by
  have htake : (order.words (hdr.store order ++ rest)).take ((hdr.versionLen &&& 0xf).toNat * 2) =
      hdr.words order := by
    rw [words_store, hver]
    cases order <;> rfl
  have hfit : ((hdr.words order).map BitVec.toNat).sum < 2 ^ 32 := by
    have hbound : ∀ n ∈ (hdr.words order).map BitVec.toNat, n ≤ 2 ^ 16 := by
      intro n hn
      obtain ⟨w, -, rfl⟩ := List.mem_map.mp hn
      exact w.isLt.le
    have hle := List.sum_le_card_nsmul _ _ hbound
    have hlength : ((hdr.words order).map BitVec.toNat).length = 10 := by
      cases order <;> rfl
    rw [hlength] at hle
    exact Nat.lt_of_le_of_lt hle (by decide)
  rw [ipHdrChecksum, htake, complement_toNat, sum32_toNat hfit]

end IpHdr

namespace UdpHdr

theorem load_store (hdr : UdpHdr) (rest : List Byte) :
    load order (hdr.store order ++ rest) = some hdr := by
  obtain ⟨a1, b1, hs1, hl1⟩ := ByteOrder.store16_eq order hdr.srcPort
  obtain ⟨a2, b2, hs2, hl2⟩ := ByteOrder.store16_eq order hdr.dstPort
  obtain ⟨a3, b3, hs3, hl3⟩ := ByteOrder.store16_eq order hdr.length
  obtain ⟨a4, b4, hs4, hl4⟩ := ByteOrder.store16_eq order hdr.checksum
  rw [store, hs1, hs2, hs3, hs4]
  simp only [List.cons_append, List.nil_append, load, hl1, hl2, hl3, hl4]

theorem length_store (hdr : UdpHdr) : (hdr.store order).length = 8 := by
  cases order <;> rfl

end UdpHdr

namespace UdpIpSender

/-- The sum of the words of the IP header, each in the order of the processor. Sum and
condition depend on the two addresses and the size of the payload only. -/
def headerSum (order : ByteOrder) (state : UdpIpSender) (payloadSize : Nat) : Nat :=
  ([0x4500, BitVec.ofNat 16 (20 + 8 + payloadSize), 0x2011, state.srcIp.extractLsb' 16 16,
    state.srcIp.extractLsb' 0 16, state.dstIp.extractLsb' 16 16, state.dstIp.extractLsb' 0 16].map
      fun word => (hton16 order word).toNat).sum

theorem words_sum (order : ByteOrder) (state : UdpIpSender) (payloadSize : Nat)
    (checksum : BitVec 16) :
    ((({ state.ipHdr order payloadSize with checksum } : IpHdr).words order).map BitVec.toNat).sum =
      state.headerSum order payloadSize + checksum.toNat := by
  have hfirst : order.load16 0x45 0 = hton16 order 0x4500 := by
    cases order <;> decide
  have hproto : order.load16 32 ipprotoUdp = hton16 order 0x2011 := by
    cases order <;> decide
  have hversion : ((4 <<< 4) ||| 5 : Byte) = 0x45 := by decide
  simp only [IpHdr.words, ipHdr, hversion, hfirst, hproto, halves_hton32, headerSum, List.map_cons,
    List.map_nil, List.sum_cons, List.sum_nil, List.cons_append, List.nil_append]
  have hzero : (0 : BitVec 16).toNat = 0 := rfl
  omega

theorem fillInUdpIpHeader_eq (order : ByteOrder) (state : UdpIpSender) (payloadSize : Nat) :
    ∃ checksum : BitVec 16,
      checksum.toNat = 2 ^ 16 - 1 - fold (state.headerSum order payloadSize) % 2 ^ 16 ∧
      state.fillInUdpIpHeader order payloadSize =
        ({ state.ipHdr order payloadSize with checksum } : IpHdr).store order ++
          (state.udpHdr order payloadSize).store order := by
  refine ⟨_, ?_, rfl⟩
  have hchecksum := IpHdr.checksum_toNat order (state.ipHdr order payloadSize) rfl []
  have hsum : (((state.ipHdr order payloadSize).words order).map BitVec.toNat).sum =
      state.headerSum order payloadSize := words_sum order state payloadSize 0
  rw [List.append_nil, hsum] at hchecksum
  exact hchecksum

theorem headerSum_lt (order : ByteOrder) (state : UdpIpSender) (payloadSize : Nat) :
    state.headerSum order payloadSize / 2 ^ 16 < 2 ^ 16 := by
  have hword : ∀ w : BitVec 16, (hton16 order w).toNat < 2 ^ 16 := fun w => (hton16 order w).isLt
  have h1 := hword 0x4500
  have h2 := hword (BitVec.ofNat 16 (20 + 8 + payloadSize))
  have h3 := hword 0x2011
  have h4 := hword (state.srcIp.extractLsb' 16 16)
  have h5 := hword (state.srcIp.extractLsb' 0 16)
  have h6 := hword (state.dstIp.extractLsb' 16 16)
  have h7 := hword (state.dstIp.extractLsb' 0 16)
  simp only [headerSum, List.map_cons, List.map_nil, List.sum_cons, List.sum_nil]
  omega

end UdpIpSender

theorem udpReceive_eq {data : List Byte} {hdr : IpHdr} (hload : IpHdr.load order data = some hdr)
    (hfits : ipHdrLen hdr.versionLen ≤ data.length)
    (hlength : (hton16 order hdr.length).toNat ≤ data.length) :
    udpReceive order data = udpReceiveBody order hdr data (hton16 order hdr.length).toNat := by
  rw [udpReceive, hload]
  dsimp only
  rw [if_neg (not_lt.mpr hfits)]
  split_ifs with hne hgt
  · rfl
  · omega
  · rw [not_not.mp hne]

/-- The receiver hands on what has been sent exactly if the sum of the header needs one fold only. -/
theorem udp_ip_round_trip {payload padding : List Byte} {maxBackstep : Nat} {call : MacSend}
    (hlen : payload.length ≤ 65507)
    (hsend : state.udpIpSend order payload maxBackstep = some call) :
    udpReceive order (call.packet ++ padding) =
        some (.handled payload state.dstIp state.dstPort) ↔
      fold (state.headerSum order payload.length) < 2 ^ 16 := by
  obtain ⟨checksum, hchecksum, hfill⟩ :=
    UdpIpSender.fillInUdpIpHeader_eq order state payload.length
  set hdr : IpHdr := { state.ipHdr order payload.length with checksum } with hhdr
  set udpHdr := state.udpHdr order payload.length with hudp
  have hpacket : call.packet ++ padding =
      hdr.store order ++ (udpHdr.store order ++ (payload ++ padding)) := by
    rw [UdpIpSender.udpIpSend] at hsend
    split_ifs at hsend
    obtain rfl := Option.some.inj hsend
    simp only [hfill, List.append_assoc]
  have hlength : (hton16 order hdr.length).toNat = 20 + 8 + payload.length := by
    have hfield : hton16 order hdr.length = BitVec.ofNat 16 (20 + 8 + payload.length) :=
      hton16_hton16 _
    rw [hfield, BitVec.toNat_ofNat]
    omega
  have hudpLength : (hton16 order udpHdr.length).toNat = payload.length + 8 := by
    have hfield : hton16 order udpHdr.length = BitVec.ofNat 16 (payload.length + 8) :=
      hton16_hton16 _
    rw [hfield, BitVec.toNat_ofNat]
    omega
  have hheader : ipHdrLen hdr.versionLen = 20 :=
    show ipHdrLen ((4 <<< 4) ||| 5) = 20 by decide
  have htotal : (hdr.store order ++ (udpHdr.store order ++ (payload ++ padding))).length =
      20 + (8 + (payload.length + padding.length)) := by
    simp only [List.length_append, IpHdr.length_store, UdpHdr.length_store]
  have hload : IpHdr.load order
      (hdr.store order ++ (udpHdr.store order ++ (payload ++ padding))) = some hdr :=
    IpHdr.load_store hdr _
  have hbody := udpReceive_eq hload (by omega) (by omega)
  have hsum : (ipHdrChecksum order hdr.versionLen
      (hdr.store order ++ (udpHdr.store order ++ (payload ++ padding)))).toNat =
        2 ^ 16 - 1 - fold (state.headerSum order payload.length +
          (2 ^ 16 - 1 - fold (state.headerSum order payload.length) % 2 ^ 16)) % 2 ^ 16 := by
    rw [IpHdr.checksum_toNat order hdr rfl, hhdr, UdpIpSender.words_sum, hchecksum]
  have haccept : ipHdrChecksum order hdr.versionLen
      (hdr.store order ++ (udpHdr.store order ++ (payload ++ padding))) = 0 ↔
        fold (state.headerSum order payload.length) < 2 ^ 16 := by
    rw [← fold_complement (UdpIpSender.headerSum_lt order state payload.length),
      ← BitVec.toNat_inj, hsum]
    have hzero : (0 : BitVec 16).toNat = 0 := rfl
    omega
  rw [hpacket, hbody, hlength, udpReceiveBody, ← haccept]
  by_cases hzero : ipHdrChecksum order hdr.versionLen
      (hdr.store order ++ (udpHdr.store order ++ (payload ++ padding))) = 0
  · have hdrop : (hdr.store order ++ (udpHdr.store order ++ (payload ++ padding))).drop 20 =
        udpHdr.store order ++ (payload ++ padding) :=
      List.drop_left' (IpHdr.length_store hdr)
    have hpayload : ((udpHdr.store order ++ (payload ++ padding)).drop 8).take
        (payload.length + 8 - 8) = payload := by
      rw [List.drop_left' (UdpHdr.length_store udpHdr), Nat.add_sub_cancel, List.take_left]
    have hlen : (20 + 8 + payload.length + 2 ^ 32 - 20) % 2 ^ 32 = payload.length + 8 := by omega
    have hroom : ¬ (udpHdr.store order ++ (payload ++ padding)).length < payload.length + 8 := by
      rw [List.length_append, List.length_append, UdpHdr.length_store]
      omega
    have hproto : hdr.proto = ipprotoUdp := rfl
    rw [if_neg (not_not.mpr hzero), if_neg (not_not.mpr hproto), hheader, hdrop, hlen,
      if_neg (Nat.not_lt.mpr (Nat.le_add_left 8 _)), UdpHdr.load_store, Option.bind_some,
      if_neg (not_not.mpr hudpLength), if_neg hroom, hpayload]
    have hdst : hton32 order hdr.dst = state.dstIp := hton32_hton32 _
    have hport : hton16 order udpHdr.dstPort = state.dstPort := hton16_hton16 _
    rw [hdst, hport]
    exact ⟨fun _ => hzero, fun _ => rfl⟩
  · rw [if_pos hzero]
    exact ⟨fun h => absurd (UdpReceived.noConfusion (Option.some.inj h)) id, fun h => absurd h hzero⟩

/-- Four bytes from 192.168.1.1 to 192.168.2.1 -/
def shortMessage : UdpIpSender := ⟨0xC0A80101, 1000, 0xC0A80201, 2000, []⟩

theorem udp_ip_round_trip_shortMessage : ∃ call,
    shortMessage.udpIpSend .little [1, 2, 3, 4] 64 = some call ∧
      udpReceive .little (call.packet ++ List.replicate 14 0) =
        some (.handled [1, 2, 3, 4] shortMessage.dstIp shortMessage.dstPort) := by
  have hlen : ([1, 2, 3, 4] : List Byte).length ≤ 65507 := by decide
  have hfold : fold (shortMessage.headerSum .little 4) < 2 ^ 16 := by decide
  refine ⟨_, rfl, ?_⟩
  exact (udp_ip_round_trip hlen (rfl : shortMessage.udpIpSend .little [1, 2, 3, 4] 64 = _)).mpr hfold

/-- The same to 192.168.25.124: the sum is 0x1ffff. -/
theorem udp_ip_round_trip_fails :
    ¬ ∀ (order : ByteOrder) (state : UdpIpSender) (payload padding : List Byte) (maxBackstep : Nat)
      (call : MacSend), payload.length ≤ 65507 →
        state.udpIpSend order payload maxBackstep = some call →
          udpReceive order (call.packet ++ padding) =
            some (.handled payload state.dstIp state.dstPort) := by
  intro h
  have hreceived := h .little ⟨0xC0A80101, 1000, 0xC0A8197C, 2000, []⟩ [1, 2, 3, 4] [] 64 _
    (by decide) rfl
  exact absurd hreceived (by decide)

end Chpok
