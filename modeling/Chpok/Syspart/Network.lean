import Chpok.Syspart.Reception
import Chpok.Syspart.UdpIpRoundTrip

/-! The components of a module on the network (`syspart/components`), from the queuing port of a
partition to the frame (`arinc/ARINC_send.c`, `udp_ip/udp_ip_send.c`, `mac/mac_send.c`) and back
(`mac/mac_receive.c`, `udp_ip/router.c`, `arinc/ARINC_receive.c`), as the glue connects them; and a
medium between the modules. -/

namespace Chpok

open OnesComplement Reception

/-- `MAC_HEADER_SIZE` -/
def macHeaderSize : Nat := 14

/-- `fill_in_mac_header`: the bytes before the payload -/
def fillInMacHeader (order : ByteOrder) (srcMac dstMac : List Byte) (type : BitVec 16) : List Byte :=
  dstMac ++ srcMac ++ order.store16 (hton16 order type)

/-- What `mac_send` passes to the driver, with the room that is left before it. There is no result
where it returns `EINVAL`. -/
def macSend (order : ByteOrder) (srcMac : List Byte) (call : MacSend) : Option (List Byte × Nat) :=
  if call.maxBackstep < macHeaderSize then none
  else some (fillInMacHeader order srcMac call.dstMac call.ethertype ++ call.packet,
    call.maxBackstep - macHeaderSize)

/-- The components of a module. Each `ARINC_SENDER` has a `UDP_IP_SENDER` of its own; the place of
an `ARINC_RECEIVER` is its index in the router. -/
structure Station where
  srcMac : List Byte
  senders : List (Nat × UdpIpSender)
  mac : MacReceiver
  arp : ArpAnswerer
  mapIpPortToIdx : List (BitVec 32 × BitVec 16)

namespace Station

/-- The frame of a call of `mac_send`. A driver sends only what has no room before it. -/
def frameOf (order : ByteOrder) (st : Station) (call : MacSend) : Option (List Byte) :=
  (macSend order st.srcMac call).bind fun r => if r.2 = 0 then some r.1 else none

/-- `arinc_sender_activity` with a message that has been received from its port. The buffer has
`overhead` bytes before the message. -/
def send (order : ByteOrder) (st : Station) (k : Nat) (message : List Byte) : Option (List Byte) :=
  st.senders[k]?.bind fun sender =>
    (sender.2.udpIpSend order message sender.1).bind (st.frameOf order)

/-- `get_ip_port_index` -/
def getIpPortIndex (st : Station) (ip : BitVec 32) (port : BitVec 16) : Option Nat :=
  st.mapIpPortToIdx.findIdx? fun pair => pair.1 = ip ∧ pair.2 = port

/-- What a component does with a frame: `mac_receive` and what it calls -/
def run (st : Station) (m : NetMemory) (data len : BitVec 32) : NetRun :=
  macReceive m st.mac st.arp data len

/-- `receive_packet` for a frame: which `ARINC_RECEIVER` gets which message -/
def receive (st : Station) (m : NetMemory) (data len : BitVec 32) : Option (Nat × List Byte) :=
  match (st.run m data len).ret with
  | .handled payload len ip port =>
    (st.getIpPortIndex ip port).map fun i => (i, m.range payload len.toNat)
  | _ => none

/-- The frames that `arp_receive` sends -/
def answers (order : ByteOrder) (st : Station) (m : NetMemory) (data len : BitVec 32) :
    List (List Byte) :=
  (st.run m data len).events.filterMap fun
    | .answer call => st.frameOf order call
    | _ => none

end Station

/-- What is said to the receivers of a frame: an address, and the message. `intact` tells that the
header of the packet has a checksum that is accepted. -/
structure Datagram where
  dstMac : List Byte
  ip : BitVec 32
  port : BitVec 16
  message : List Byte
  intact : Bool
  deriving DecidableEq

/-- A frame on the medium, with the datagram that it has been made from. Nothing depends on that. -/
structure Frame where
  bytes : List Byte
  origin : Option Datagram

/-- A frame reaches a station. It lies at `data` in a memory, and bytes may have been added to it. -/
structure Arrival where
  station : Nat
  data : BitVec 32
  padding : List Byte
  memory : BitVec 32 → Byte

inductive NetworkInput where
  | send (station k : Nat) (message : List Byte)
  /-- The first frame leaves the medium. It may reach any stations, or none. -/
  | carry (arrivals : List Arrival)
  /-- Some other host sends a frame. -/
  | inject (bytes : List Byte)

/-- The medium, and the messages that each `ARINC_RECEIVER` of each station has been given -/
structure Network where
  medium : List Frame
  received : Nat → Nat → List (List Byte)

namespace Network

variable (order : ByteOrder) (stations : Nat → Station)

def boot : Network := ⟨[], fun _ _ => []⟩

/-- The datagram that a sender sends -/
def datagram (k : Nat) (st : Station) (message : List Byte) : Option Datagram :=
  st.senders[k]?.map fun sender =>
    { dstMac := sender.2.dstMac
      ip := sender.2.dstIp
      port := sender.2.dstPort
      message
      intact := fold (sender.2.headerSum order message.length) < 2 ^ 16 }

/-- The frame at its place in the memory -/
def place (memory : BitVec 32 → Byte) (data : BitVec 32) (bytes : List Byte) : NetMemory where
  order
  bytes := fun a => if (a - data).toNat < bytes.length then bytes.getD (a - data).toNat 0 else memory a

def deliver (s : Network) (i : Nat) (r : Option (Nat × List Byte)) : Network :=
  match r with
  | none => s
  | some (k, message) =>
    { s with
      received := Function.update s.received i
        (Function.update (s.received i) k (s.received i k ++ [message])) }

def arrive (bytes : List Byte) (s : Network) (a : Arrival) : Network :=
  let frame := bytes ++ a.padding
  let m := place order a.memory a.data frame
  let len := BitVec.ofNat 32 frame.length
  let st := stations a.station
  let s := s.deliver a.station (st.receive m a.data len)
  { s with medium := s.medium ++ (st.answers order m a.data len).map fun bytes => ⟨bytes, none⟩ }

def step (s : Network) : NetworkInput → Option Network
  | .send i k message =>
    match (stations i).send order k message with
    | none => some s
    | some bytes =>
      some { s with medium := s.medium ++ [⟨bytes, datagram order k (stations i) message⟩] }
  | .carry arrivals =>
    match s.medium with
    | [] => none
    | frame :: medium =>
      some (arrivals.foldl (arrive order stations frame.bytes) { s with medium })
  | .inject bytes => some { s with medium := s.medium ++ [⟨bytes, none⟩] }

end Network

end Chpok
