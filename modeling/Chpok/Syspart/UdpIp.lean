import Chpok.Library.ByteOrder
import Chpok.Library.OnesComplement

/-! UDP over IP in the system partition (`syspart/components/udp_ip`). The headers are packed
structures, read and written in the byte order of the processor. -/

namespace Chpok

/-- `hton16`, `ntoh16` -/
def hton16 : ByteOrder → BitVec 16 → BitVec 16
  | .little, x => ((x >>> 8) &&& 0xFF#16) ||| ((x &&& 0xFF#16) <<< 8)
  | .big, x => x

/-- `hton32`, `ntoh32` -/
def hton32 : ByteOrder → BitVec 32 → BitVec 32
  | .little, x =>
    x.extractLsb' 0 8 ++ x.extractLsb' 8 8 ++ x.extractLsb' 16 8 ++ x.extractLsb' 24 8
  | .big, x => x

/-- `IPPROTO_UDP` -/
def ipprotoUdp : Byte := 17

/-- `ETH_P_IP` -/
def ethPIp : BitVec 16 := 0x0800

/-- `struct ip_hdr` -/
structure IpHdr where
  versionLen : Byte
  dscp : Byte
  length : BitVec 16
  id : BitVec 16
  offset : BitVec 16
  ttl : Byte
  proto : Byte
  checksum : BitVec 16
  src : BitVec 32
  dst : BitVec 32
  deriving DecidableEq, Repr

/-- `struct udp_hdr` -/
structure UdpHdr where
  srcPort : BitVec 16
  dstPort : BitVec 16
  length : BitVec 16
  checksum : BitVec 16
  deriving DecidableEq, Repr

namespace IpHdr

def store (order : ByteOrder) (hdr : IpHdr) : List Byte :=
  [hdr.versionLen, hdr.dscp] ++ order.store16 hdr.length ++ order.store16 hdr.id ++
    order.store16 hdr.offset ++ [hdr.ttl, hdr.proto] ++ order.store16 hdr.checksum ++
    order.store32 hdr.src ++ order.store32 hdr.dst

def load (order : ByteOrder) : List Byte → Option IpHdr
  | b0 :: b1 :: b2 :: b3 :: b4 :: b5 :: b6 :: b7 :: b8 :: b9 :: b10 :: b11 :: b12 :: b13 :: b14 ::
      b15 :: b16 :: b17 :: b18 :: b19 :: _ =>
    some
      { versionLen := b0
        dscp := b1
        length := order.load16 b2 b3
        id := order.load16 b4 b5
        offset := order.load16 b6 b7
        ttl := b8
        proto := b9
        checksum := order.load16 b10 b11
        src := order.load32 b12 b13 b14 b15
        dst := order.load32 b16 b17 b18 b19 }
  | _ => none

end IpHdr

namespace UdpHdr

def store (order : ByteOrder) (hdr : UdpHdr) : List Byte :=
  order.store16 hdr.srcPort ++ order.store16 hdr.dstPort ++ order.store16 hdr.length ++
    order.store16 hdr.checksum

def load (order : ByteOrder) : List Byte → Option UdpHdr
  | b0 :: b1 :: b2 :: b3 :: b4 :: b5 :: b6 :: b7 :: _ =>
    some
      { srcPort := order.load16 b0 b1
        dstPort := order.load16 b2 b3
        length := order.load16 b4 b5
        checksum := order.load16 b6 b7 }
  | _ => none

end UdpHdr

/-- The number of bytes of the header, with its options -/
def ipHdrLen (versionLen : Byte) : Nat := (versionLen &&& 0xf).toNat * 4

/-- `ip_hdr_checksum`, of the header at the start of a piece of memory -/
def ipHdrChecksum (order : ByteOrder) (versionLen : Byte) (data : List Byte) : BitVec 16 :=
  let acc := OnesComplement.sum32 ((order.words data).take ((versionLen &&& 0xf).toNat * 2))
  (~~~((acc &&& 0xFFFF#32) + (acc >>> 16))).setWidth 16

/-- `UDP_IP_SENDER_state` -/
structure UdpIpSender where
  srcIp : BitVec 32
  srcPort : BitVec 16
  dstIp : BitVec 32
  dstPort : BitVec 16
  dstMac : List Byte
  deriving DecidableEq, Repr

/-- A call of `mac_send` -/
structure MacSend where
  packet : List Byte
  maxBackstep : Nat
  dstMac : List Byte
  ethertype : BitVec 16
  deriving DecidableEq, Repr

namespace UdpIpSender

/-- `UDP_IP_HEADER_SIZE` -/
def headerSize : Nat := 20 + 8

/-- The IP header of `fill_in_udp_ip_header` before its checksum is there -/
def ipHdr (order : ByteOrder) (state : UdpIpSender) (payloadSize : Nat) : IpHdr where
  versionLen := (4 <<< 4) ||| 5
  dscp := 0
  length := hton16 order (BitVec.ofNat 16 (20 + 8 + payloadSize))
  id := 0
  offset := 0
  ttl := 32
  proto := ipprotoUdp
  checksum := 0
  src := hton32 order state.srcIp
  dst := hton32 order state.dstIp

def udpHdr (order : ByteOrder) (state : UdpIpSender) (payloadSize : Nat) : UdpHdr where
  srcPort := hton16 order state.srcPort
  dstPort := hton16 order state.dstPort
  length := hton16 order (BitVec.ofNat 16 (payloadSize + 8))
  checksum := 0

/-- `fill_in_udp_ip_header`: the bytes before the payload -/
def fillInUdpIpHeader (order : ByteOrder) (state : UdpIpSender) (payloadSize : Nat) : List Byte :=
  let hdr := state.ipHdr order payloadSize
  let checksum := ipHdrChecksum order hdr.versionLen (hdr.store order)
  { hdr with checksum }.store order ++ (state.udpHdr order payloadSize).store order

/-- `udp_ip_send`. There is no result where it returns `EINVAL`. -/
def udpIpSend (order : ByteOrder) (state : UdpIpSender) (payload : List Byte) (maxBackstep : Nat) :
    Option MacSend :=
  if maxBackstep < headerSize then none
  else some
    { packet := state.fillInUdpIpHeader order payload.length ++ payload
      maxBackstep := maxBackstep - headerSize
      dstMac := state.dstMac
      ethertype := ethPIp }

end UdpIpSender

/-- Why `udp_receive` discards a packet -/
inductive UdpDiscard where
  | ipHeaderDoesNotFit
  | ipLengthMismatch
  | incorrectChecksum
  | notUdp
  | udpHeaderDoesNotFit
  | udpLengthMismatch
  deriving DecidableEq, Repr

/-- `EINVAL`, or the call of `udp_message_handle` -/
inductive UdpReceived where
  | discarded (reason : UdpDiscard)
  | handled (payload : List Byte) (ip : BitVec 32) (port : BitVec 16)
  deriving DecidableEq, Repr

/-- `udp_receive` after the check of the lengths. Nothing results from an access outside the
packet. -/
def udpReceiveBody (order : ByteOrder) (hdr : IpHdr) (data : List Byte) (len : Nat) :
    Option UdpReceived :=
  let udpData := data.drop (ipHdrLen hdr.versionLen)
  let len := (len + 2 ^ 32 - ipHdrLen hdr.versionLen) % 2 ^ 32
  if ipHdrChecksum order hdr.versionLen data ≠ 0 then some (.discarded .incorrectChecksum)
  else if hdr.proto ≠ ipprotoUdp then some (.discarded .notUdp)
  else if len < 8 then some (.discarded .udpHeaderDoesNotFit)
  else
    (UdpHdr.load order udpData).bind fun udpHdr =>
      if (hton16 order udpHdr.length).toNat ≠ len then some (.discarded .udpLengthMismatch)
      else if udpData.length < len then none
      else some (.handled ((udpData.drop 8).take (len - 8)) (hton32 order hdr.dst)
        (hton16 order udpHdr.dstPort))

/-- `udp_receive` -/
def udpReceive (order : ByteOrder) (data : List Byte) : Option UdpReceived :=
  match IpHdr.load order data with
  | none => some (.discarded .ipHeaderDoesNotFit)
  | some hdr =>
    let length := (hton16 order hdr.length).toNat
    if data.length < ipHdrLen hdr.versionLen then some (.discarded .ipHeaderDoesNotFit)
    else if data.length ≠ length then
      if data.length > length then udpReceiveBody order hdr data length
      else some (.discarded .ipLengthMismatch)
    else udpReceiveBody order hdr data data.length

end Chpok
