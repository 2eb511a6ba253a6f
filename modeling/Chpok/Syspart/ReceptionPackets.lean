import Chpok.Syspart.NetworkDelivery

/-! `udp_receive` on a frame in memory does what it does on the packet as a list of bytes, as long
as nothing behind the packet is read. -/

namespace Chpok

namespace Reception

open NetMemory

variable {m : NetMemory} {data len : BitVec 32}

namespace NetMemory

variable {n k : Nat}

theorem length_range (m : NetMemory) (data : BitVec 32) (n : Nat) : (m.range data n).length = n := by
  simp [range]

theorem drop_range (m : NetMemory) (data : BitVec 32) (h : k ≤ n) :
    (m.range data n).drop k = m.range (data + BitVec.ofNat 32 k) (n - k) := by
  obtain ⟨rest, rfl⟩ := Nat.exists_eq_add_of_le h
  rw [range_add, Nat.add_sub_cancel_left]
  exact List.drop_left' (length_range m data k)

theorem take_range (m : NetMemory) (data : BitVec 32) (h : k ≤ n) :
    (m.range data n).take k = m.range data k := by
  obtain ⟨rest, rfl⟩ := Nat.exists_eq_add_of_le h
  rw [range_add]
  exact List.take_left' (length_range m data k)

/-- The header at the start of a packet -/
def ipHdr (m : NetMemory) (data : BitVec 32) : IpHdr where
  versionLen := m.bytes data
  dscp := m.bytes (data + 1)
  length := m.half (data + 2)
  id := m.half (data + 4)
  offset := m.half (data + 6)
  ttl := m.bytes (data + 8)
  proto := m.bytes (data + 9)
  checksum := m.half (data + 10)
  src := m.word (data + 12)
  dst := m.word (data + 16)

theorem load_ipHdr (h : 20 ≤ n) : IpHdr.load m.order (m.range data n) = some (m.ipHdr data) := by
  obtain ⟨rest, rfl⟩ := Nat.exists_eq_add_of_le h
  rw [range_add]
  simp only [range, List.range, List.range.loop, List.map_cons, List.cons_append, IpHdr.load, ipHdr,
    half, word, BitVec.add_zero]
  simp [BitVec.add_assoc]

theorem load_udpHdr (h : 8 ≤ n) : UdpHdr.load m.order (m.range data n) =
    some ⟨m.half data, m.half (data + 2), m.half (data + 4), m.half (data + 6)⟩ := by
  obtain ⟨rest, rfl⟩ := Nat.exists_eq_add_of_le h
  rw [range_add]
  simp only [range, List.range, List.range.loop, List.map_cons, List.cons_append, UdpHdr.load, half,
    BitVec.add_zero]
  simp [BitVec.add_assoc]

theorem length_of_udpHdr {order : ByteOrder} {bytes : List Byte} {hdr : UdpHdr}
    (h : UdpHdr.load order bytes = some hdr) : 8 ≤ bytes.length := by
  unfold UdpHdr.load at h
  split at h
  · simp
  · cases h

theorem load_ipHdr_short {order : ByteOrder} {bytes : List Byte} (h : bytes.length < 20) :
    IpHdr.load order bytes = none := by
  unfold IpHdr.load
  split
  · simp only [List.length_cons] at h
    omega
  · rfl

theorem checksum_range {versionLen : Byte} (h : ipHdrLen versionLen ≤ n) :
    ipHdrChecksum m.order versionLen (m.range data n) =
      ipHdrChecksum m.order versionLen (m.range data (ipHdrLen versionLen)) := by
  obtain ⟨rest, rfl⟩ := Nat.exists_eq_add_of_le h
  have heven : (m.range data (ipHdrLen versionLen)).length % 2 = 0 := by
    rw [length_range, ipHdrLen]
    omega
  have hcount : (m.order.words (m.range data (ipHdrLen versionLen))).length =
      (versionLen &&& 0xf).toNat * 2 := by
    rw [ByteOrder.length_words, length_range, ipHdrLen]
    omega
  rw [ipHdrChecksum, ipHdrChecksum, range_add, ByteOrder.words_append heven,
    List.take_left' hcount, List.take_of_length_le (Nat.le_of_eq hcount)]

end NetMemory

/-- The two results mean the same. -/
def Agrees (m : NetMemory) : UdpReceived → NetRet → Prop
  | .discarded _, ret => ret = .einval
  | .handled payload ip port, ret =>
    ∃ data len, ret = .handled data len ip port ∧ m.range data len.toNat = payload

theorem udpReceiveBody_agrees {l : BitVec 32} {received : UdpReceived}
    (hhdr : ipHdrLen (m.bytes data) ≤ len.toNat)
    (h : Chpok.udpReceiveBody m.order (m.ipHdr data) (m.range data len.toNat) l.toNat =
      some received) :
    Agrees m received (udpReceiveBody m data l).ret := by
  have hudpLen : (l.toNat + 2 ^ 32 - ipHdrLen (m.bytes data)) % 2 ^ 32 =
      (l - BitVec.ofNat 32 (ipHdrLen (m.bytes data))).toNat := by
    have hle := ipHdrLen_le (m.bytes data)
    rw [BitVec.toNat_sub, ipHdrLen_toNat]
    congr 1
    omega
  have hversion : (m.ipHdr data).versionLen = m.bytes data := rfl
  unfold Chpok.udpReceiveBody at h
  simp only [hversion, drop_range m data hhdr, checksum_range hhdr, hudpLen] at h
  unfold udpReceiveBody
  simp only [ret_after, apply_ite NetRun.ret, ipHdrLen_toNat]
  generalize l - BitVec.ofNat 32 (ipHdrLen (m.bytes data)) = udpLen at h ⊢
  by_cases hsum : ipHdrChecksum m.order (m.bytes data)
      (m.range data (ipHdrLen (m.bytes data))) ≠ 0
  · rw [if_pos hsum] at h ⊢
    obtain rfl := Option.some.inj h
    rfl
  rw [if_neg hsum] at h ⊢
  by_cases hproto : m.bytes (data + 9) ≠ ipprotoUdp
  · have hproto' : (m.ipHdr data).proto ≠ ipprotoUdp := hproto
    rw [if_pos hproto'] at h
    rw [if_pos hproto]
    obtain rfl := Option.some.inj h
    rfl
  have hproto' : ¬ (m.ipHdr data).proto ≠ ipprotoUdp := hproto
  rw [if_neg hproto'] at h
  rw [if_neg hproto]
  by_cases hshort : udpLen < 8
  · have hshort' : udpLen.toNat < 8 := BitVec.lt_def.mp hshort
    rw [if_pos hshort'] at h
    rw [if_pos hshort]
    obtain rfl := Option.some.inj h
    rfl
  have hshort' : ¬ udpLen.toNat < 8 := fun hlt => hshort (BitVec.lt_def.mpr hlt)
  rw [if_neg hshort'] at h
  rw [if_neg hshort]
  -- the header of UDP is read as far as it lies in the packet
  obtain ⟨udpHdr, hload, h⟩ := Option.bind_eq_some_iff.mp h
  have hudp := length_of_udpHdr hload
  rw [length_range] at hudp
  obtain rfl := Option.some.inj ((load_udpHdr hudp).symm.trans hload)
  dsimp only at h
  have hlength : ∀ x : BitVec 16, x.toNat ≠ udpLen.toNat ↔ x.setWidth 32 ≠ udpLen := by
    intro x
    have hx := x.isLt
    rw [ne_eq, ne_eq, ← BitVec.toNat_inj, BitVec.toNat_setWidth, Nat.mod_eq_of_lt (by omega)]
  simp only [hlength] at h
  by_cases hmismatch : (hton16 m.order
      (m.half (data + BitVec.ofNat 32 (ipHdrLen (m.bytes data)) + 4))).setWidth 32 ≠ udpLen
  · rw [if_pos hmismatch] at h ⊢
    obtain rfl := Option.some.inj h
    rfl
  rw [if_neg hmismatch] at h ⊢
  rw [length_range] at h
  split_ifs at h with hbehind
  obtain rfl := Option.some.inj h
  refine ⟨_, _, rfl, ?_⟩
  have hminus : (udpLen - 8).toNat = udpLen.toNat - 8 :=
    BitVec.toNat_sub_of_le (BitVec.le_def.mpr (Nat.le_of_not_lt hshort'))
  rw [hminus, drop_range m _ hudp, take_range m _ (by omega)]
  rfl

/-- Whatever `udp_receive` makes of a packet that it does not read behind, it makes of the memory
with the packet. -/
theorem udpReceive_agrees {received : UdpReceived}
    (h : Chpok.udpReceive m.order (m.range data len.toNat) = some received) :
    Agrees m received (udpReceive m data len).ret := by
  unfold Chpok.udpReceive at h
  unfold udpReceive
  by_cases hshort : len < 20
  · have hbytes : (m.range data len.toNat).length < 20 := by
      rw [length_range]
      exact BitVec.lt_def.mp hshort
    rw [load_ipHdr_short hbytes] at h
    rw [if_pos hshort]
    obtain rfl := Option.some.inj h
    rfl
  have hfits : 20 ≤ len.toNat := Nat.le_of_not_lt fun hlt => hshort (BitVec.lt_def.mpr hlt)
  have hversion : (m.ipHdr data).versionLen = m.bytes data := rfl
  have hlength : (m.ipHdr data).length = m.half (data + 2) := rfl
  rw [load_ipHdr hfits] at h
  simp only [length_range, hversion, hlength] at h
  rw [if_neg hshort]
  by_cases hhdr : len.toNat < ipHdrLen (m.bytes data)
  · have hhdr' : len < BitVec.ofNat 32 (ipHdrLen (m.bytes data)) := by
      rw [BitVec.lt_def, ipHdrLen_toNat]
      exact hhdr
    rw [if_pos hhdr] at h
    rw [if_pos hhdr']
    obtain rfl := Option.some.inj h
    rfl
  have hhdr' : ¬ len < BitVec.ofNat 32 (ipHdrLen (m.bytes data)) := by
    rw [BitVec.lt_def, ipHdrLen_toNat]
    exact hhdr
  rw [if_neg hhdr] at h
  rw [if_neg hhdr']
  simp only [ret_after, apply_ite NetRun.ret]
  have hwide : ((hton16 m.order (m.half (data + 2))).setWidth 32).toNat =
      (hton16 m.order (m.half (data + 2))).toNat := by
    have hx := (hton16 m.order (m.half (data + 2))).isLt
    rw [BitVec.toNat_setWidth, Nat.mod_eq_of_lt (by omega)]
  rw [← hwide] at h
  generalize (hton16 m.order (m.half (data + 2))).setWidth 32 = l at h ⊢
  by_cases hsame : len = l
  · subst hsame
    rw [if_neg (not_not.mpr rfl)] at h ⊢
    exact udpReceiveBody_agrees (Nat.le_of_not_lt hhdr) h
  · have hsame' : len.toNat ≠ l.toNat := fun he => hsame (BitVec.eq_of_toNat_eq he)
    rw [if_pos hsame'] at h
    rw [if_pos hsame]
    by_cases hgreater : len > l
    · rw [if_pos (BitVec.lt_def.mp hgreater)] at h
      rw [if_pos hgreater]
      exact udpReceiveBody_agrees (Nat.le_of_not_lt hhdr) h
    · rw [if_neg (fun hlt => hgreater (BitVec.lt_def.mpr hlt))] at h
      rw [if_neg hgreater]
      obtain rfl := Option.some.inj h
      rfl

end Reception

end Chpok
