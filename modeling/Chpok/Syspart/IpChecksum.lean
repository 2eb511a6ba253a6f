import Chpok.Syspart.UdpIp

/-! The checksum of an IP header with any options. `ip_hdr_checksum` adds the carries of the sum
to its low half once, which may make another carry. -/

namespace Chpok

open OnesComplement

/-- A header in memory, as long as its first byte says -/
structure IpHeader where
  versionLen : Byte
  rest : List Byte
  atLeast : 20 ≤ ipHdrLen versionLen
  size : rest.length + 1 = ipHdrLen versionLen

namespace IpHeader

variable {order : ByteOrder} {hdr : IpHeader}

def bytes (hdr : IpHeader) : List Byte := hdr.versionLen :: hdr.rest

/-- `ip_hdr_checksum` -/
def checksum (order : ByteOrder) (hdr : IpHeader) : BitVec 16 :=
  ipHdrChecksum order hdr.versionLen hdr.bytes

theorem length_bytes (hdr : IpHeader) : hdr.bytes.length = ipHdrLen hdr.versionLen := by
  rw [← hdr.size, bytes, List.length_cons]

theorem ipHdrLen_le (versionLen : Byte) : ipHdrLen versionLen ≤ 60 := by
  have hmask : (versionLen &&& 0xf).toNat ≤ 15 := by
    rw [BitVec.toNat_and]
    exact Nat.and_le_right
  unfold ipHdrLen
  omega

theorem length_words_le (order : ByteOrder) (hdr : IpHeader) :
    (order.words hdr.bytes).length ≤ 30 := by
  have hle := ipHdrLen_le hdr.versionLen
  rw [ByteOrder.length_words, length_bytes]
  omega

/-- The sum of the words of a header, without any carries added back -/
def sum (order : ByteOrder) (hdr : IpHeader) : Nat :=
  ((order.words hdr.bytes).map BitVec.toNat).sum

theorem sum_fits (order : ByteOrder) (hdr : IpHeader) : hdr.sum order < 2 ^ 32 := by
  have hlen := length_words_le order hdr
  exact sum_lt (by omega)

theorem checksum_toNat (order : ByteOrder) (hdr : IpHeader) :
    (hdr.checksum order).toNat = 2 ^ 16 - 1 - fold (hdr.sum order) % 2 ^ 16 := by
  have hall : (order.words hdr.bytes).length ≤ (hdr.versionLen &&& 0xf).toNat * 2 := by
    rw [ByteOrder.length_words, length_bytes, ipHdrLen]
    omega
  rw [checksum, ipHdrChecksum, List.take_of_length_le hall, complement_toNat,
    sum32_toNat (sum_fits order hdr), sum]

/-- The header with a word stored in its checksum field -/
def setChecksum (order : ByteOrder) (hdr : IpHeader) (word : BitVec 16) : IpHeader where
  versionLen := hdr.versionLen
  rest := hdr.rest.take 9 ++ order.store16 word ++ hdr.rest.drop 11
  atLeast := hdr.atLeast
  size := by
    have hleast := hdr.atLeast
    have hsize := hdr.size
    obtain ⟨a, b, hstore, -⟩ := order.store16_eq word
    simp only [List.length_append, List.length_take, List.length_drop, hstore, List.length_cons,
      List.length_nil]
    omega

theorem bytes_setChecksum (order : ByteOrder) (hdr : IpHeader) (word : BitVec 16) :
    (hdr.setChecksum order word).bytes =
      (hdr.versionLen :: hdr.rest.take 9) ++ (order.store16 word ++ hdr.rest.drop 11) := by
  simp [bytes, setChecksum]

theorem sum_setChecksum (order : ByteOrder) (hdr : IpHeader) (word : BitVec 16) :
    (hdr.setChecksum order word).sum order = (hdr.setChecksum order 0).sum order + word.toNat := by
  have hfront : (hdr.versionLen :: hdr.rest.take 9).length % 2 = 0 := by
    have hleast := hdr.atLeast
    have hsize := hdr.size
    rw [List.length_cons, List.length_take]
    omega
  have hwords (field : BitVec 16) : order.words (hdr.setChecksum order field).bytes =
      order.words (hdr.versionLen :: hdr.rest.take 9) ++
        field :: order.words (hdr.rest.drop 11) := by
    rw [bytes_setChecksum, ByteOrder.words_append hfront, ByteOrder.words_store16]
  have hzero : (0 : BitVec 16).toNat = 0 := rfl
  simp only [sum, hwords, List.map_append, List.map_cons, List.sum_append, List.sum_cons, hzero]
  omega

/-- The checksum is the complement of the one's complement sum. -/
def IsOnesComplement (order : ByteOrder) (hdr : IpHeader) : Prop :=
  hdr.checksum order = ~~~onesSum (order.words hdr.bytes)

/-- A header that carries the checksum of the header without one -/
def withChecksum (order : ByteOrder) (hdr : IpHeader) : IpHeader :=
  hdr.setChecksum order ((hdr.setChecksum order 0).checksum order)

theorem isOnesComplement_iff (order : ByteOrder) (hdr : IpHeader) :
    hdr.IsOnesComplement order ↔ fold (hdr.sum order) < 2 ^ 16 := by
  have hfits := sum_fits order hdr
  have hcarry : hdr.sum order / 2 ^ 16 < 2 ^ 16 := by omega
  have hresidue := fold_eq_residue hcarry
  have hones : (onesSum (order.words hdr.bytes)).toNat = residue (hdr.sum order) :=
    onesSum_toNat _
  have hlt := (onesSum (order.words hdr.bytes)).isLt
  rw [← hresidue, IsOnesComplement, ← BitVec.toNat_inj, BitVec.toNat_not, checksum_toNat, hones]
  rw [hones] at hlt
  omega

theorem checksum_withChecksum_iff (order : ByteOrder) (hdr : IpHeader) :
    (hdr.withChecksum order).checksum order = 0 ↔
      fold ((hdr.setChecksum order 0).sum order) < 2 ^ 16 := by
  have hfits := sum_fits order (hdr.setChecksum order 0)
  have hzero : (0 : BitVec 16).toNat = 0 := rfl
  rw [← fold_complement (n := (hdr.setChecksum order 0).sum order) (by omega), ← BitVec.toNat_inj,
    checksum_toNat, withChecksum, sum_setChecksum, checksum_toNat, hzero]
  omega

end IpHeader

/-- The IP header of `fill_in_udp_ip_header` before its checksum is there, in memory -/
def UdpIpSender.ipHeader (order : ByteOrder) (state : UdpIpSender) (payloadSize : Nat) :
    IpHeader where
  versionLen := (state.ipHdr order payloadSize).versionLen
  rest := ((state.ipHdr order payloadSize).store order).tail
  atLeast := by
    change 20 ≤ ipHdrLen ((4 <<< 4) ||| 5)
    decide
  size := by
    change _ = ipHdrLen ((4 <<< 4) ||| 5)
    cases order <;> rfl

theorem UdpIpSender.fillInUdpIpHeader_withChecksum (order : ByteOrder) (state : UdpIpSender)
    (payloadSize : Nat) : state.fillInUdpIpHeader order payloadSize =
      ((state.ipHeader order payloadSize).withChecksum order).bytes ++
        (state.udpHdr order payloadSize).store order := by
  cases order <;> rfl

/-- The header, and the header that carries the checksum, are as they should be exactly when
adding the carries once makes no further carry. -/
theorem ip_header_checksum (order : ByteOrder) (hdr : IpHeader) :
    (hdr.IsOnesComplement order ↔ fold (hdr.sum order) < 2 ^ 16) ∧
      ((hdr.withChecksum order).checksum order = 0 ↔
        fold ((hdr.setChecksum order 0).sum order) < 2 ^ 16) :=
  ⟨hdr.isOnesComplement_iff order, hdr.checksum_withChecksum_iff order⟩

/-- From 192.168.1.1 to 192.168.25.124, with four bytes to carry: the sum is 0x1ffff. -/
def carriesTwice : IpHeader where
  versionLen := 0x45
  rest := [0, 0, 32, 0, 0, 0, 0, 32, 17, 0, 0, 0xC0, 0xA8, 1, 1, 0xC0, 0xA8, 0x19, 0x7C]
  atLeast := by decide
  size := by decide

theorem ip_header_checksum_fails :
    ¬ ∀ (order : ByteOrder) (hdr : IpHeader), hdr.IsOnesComplement order ∧
      (hdr.withChecksum order).checksum order = 0 := by
  intro h
  exact absurd (h .little carriesTwice).2 (by decide)

end Chpok
