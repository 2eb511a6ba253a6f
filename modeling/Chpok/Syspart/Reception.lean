import Chpok.Library.ByteMemory
import Chpok.Syspart.UdpIp

/-! The reception of frames in the system partition (`syspart/components/mac/mac_receive.c`,
`arp/arp_answer.c`, `udp_ip/udp_ip_receive.c`), with what the components read on the way. A
frame lies in memory, and a component gets a pointer and a length of 32 bits. -/

namespace Chpok

namespace Reception

/-- What a component does with the memory of a frame, before it returns -/
inductive NetEvent where
  | read (data : BitVec 32) (n : Nat)
  | subtract (len less : BitVec 32)
  | pass (data len : BitVec 32)
  | answer (call : MacSend)
  deriving DecidableEq, Repr

/-- `ret_t`; `handled` is what `udp_message_handle` returns. -/
inductive NetRet where
  | eok
  | einval
  | handled (payload len ip : BitVec 32) (port : BitVec 16)
  deriving DecidableEq, Repr

structure NetRun where
  events : List NetEvent
  ret : NetRet
  deriving DecidableEq, Repr

def NetRun.einval : NetRun := ⟨[], .einval⟩

def NetRun.after (event : NetEvent) (run : NetRun) : NetRun :=
  { run with events := event :: run.events }

/-- `ETH_P_ARP` -/
def ethPArp : BitVec 16 := 0x0806

/-- `ETH_ALEN` -/
def ethAlen : Byte := 6

/-- The memory in which the frame lies -/
structure NetMemory where
  order : ByteOrder
  bytes : BitVec 32 → Byte

namespace NetMemory

variable (m : NetMemory)

def half (data : BitVec 32) : BitVec 16 := m.order.load16 (m.bytes data) (m.bytes (data + 1))

def word (data : BitVec 32) : BitVec 32 :=
  m.order.load32 (m.bytes data) (m.bytes (data + 1)) (m.bytes (data + 2)) (m.bytes (data + 3))

def range (data : BitVec 32) (n : Nat) : List Byte :=
  (List.range n).map fun i => m.bytes (data + BitVec.ofNat 32 i)

end NetMemory

/-- `ARP_ANSWERER_state` -/
structure ArpAnswerer where
  srcMac : List Byte
  goodIps : List (BitVec 32)
  deriving DecidableEq, Repr

/-- `arp_answer_buffer.arp_answer` -/
def arpAnswer (m : NetMemory) (self : ArpAnswerer) (data : BitVec 32) : MacSend where
  packet := m.range data 6 ++ m.order.store16 (hton16 m.order 2) ++ self.srcMac ++
    m.range (data + 24) 4 ++ m.range (data + 8) 6 ++ m.range (data + 14) 4
  maxBackstep := 14
  dstMac := m.range (data + 8) 6
  ethertype := ethPArp

/-- The loop of `arp_receive` over `good_ips`, and what comes when the address is there -/
def arpSearch (m : NetMemory) (data : BitVec 32) (found : NetRun) : List (BitVec 32) → NetRun
  | [] => .einval
  | ip :: ips =>
    .after (.read (data + 24) 4)
      (if m.word (data + 24) = hton32 m.order ip then found else arpSearch m data found ips)

/-- `arp_receive`. The length is never looked at. -/
def arpReceive (m : NetMemory) (self : ArpAnswerer) (data _len : BitVec 32) : NetRun :=
  .after (.read data 2) <|
  if m.half data ≠ hton16 m.order 1 then .einval
  else .after (.read (data + 2) 2) <|
  if m.half (data + 2) ≠ hton16 m.order ethPIp then .einval
  else .after (.read (data + 4) 1) <|
  if m.bytes (data + 4) ≠ ethAlen then .einval
  else .after (.read (data + 5) 1) <|
  if m.bytes (data + 5) ≠ 4 then .einval
  else .after (.read (data + 6) 2) <|
  if m.half (data + 6) ≠ hton16 m.order 1 then .einval
  else
    arpSearch m data
      (.after (.read data 28) (.after (.answer (arpAnswer m self data)) ⟨[], .eok⟩)) self.goodIps

/-- `udp_receive` from the step behind the IP header on -/
def udpReceiveBody (m : NetMemory) (data len : BitVec 32) : NetRun :=
  let hdrLen := BitVec.ofNat 32 (ipHdrLen (m.bytes data))
  let udp := data + hdrLen
  let udpLen := len - hdrLen
  .after (.subtract len hdrLen) <| .after (.read data hdrLen.toNat) <|
  if ipHdrChecksum m.order (m.bytes data) (m.range data hdrLen.toNat) ≠ 0 then .einval
  else .after (.read (data + 9) 1) <|
  if m.bytes (data + 9) ≠ ipprotoUdp then .einval
  else if udpLen < 8 then .einval
  else .after (.read (udp + 4) 2) <|
  if (hton16 m.order (m.half (udp + 4))).setWidth 32 ≠ udpLen then .einval
  else
    .after (.read (data + 16) 4) <| .after (.read (udp + 2) 2) <| .after (.subtract udpLen 8) <|
    .after (.pass (udp + 8) (udpLen - 8))
      ⟨[], .handled (udp + 8) (udpLen - 8) (hton32 m.order (m.word (data + 16)))
        (hton16 m.order (m.half (udp + 2)))⟩

/-- `udp_receive` -/
def udpReceive (m : NetMemory) (data len : BitVec 32) : NetRun :=
  if len < 20 then .einval
  else .after (.read data 1) <|
  if len < BitVec.ofNat 32 (ipHdrLen (m.bytes data)) then .einval
  else .after (.read (data + 2) 2) <|
  let length := (hton16 m.order (m.half (data + 2))).setWidth 32
  if len ≠ length then
    if len > length then udpReceiveBody m data length else .einval
  else udpReceiveBody m data len

/-- `MAC_RECEIVER_state` -/
structure MacReceiver where
  myMac : List Byte
  deriving DecidableEq, Repr

/-- `mac_receive`, with the components that its ports are connected to -/
def macReceive (m : NetMemory) (self : MacReceiver) (arp : ArpAnswerer) (data len : BitVec 32) :
    NetRun :=
  if len < 14 then .einval
  else
    let payload := data + 14
    let payloadLen := len - 14
    .after (.subtract len 14) <| .after (.read data 6) <|
    if m.bytes data &&& 1 = 0 ∧ m.range data 6 ≠ self.myMac then .einval
    else .after (.read (data + 12) 2) <|
    if m.half (data + 12) = hton16 m.order ethPArp then
      .after (.pass payload payloadLen) (arpReceive m arp payload payloadLen)
    else if m.half (data + 12) = hton16 m.order ethPIp then
      .after (.pass payload payloadLen) (udpReceive m payload payloadLen)
    else .einval

end Reception

end Chpok
