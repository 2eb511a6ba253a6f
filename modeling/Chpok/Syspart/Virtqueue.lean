import Chpok.Library.Run
import Mathlib.Data.List.Basic
import Mathlib.Algebra.Order.Ring.Nat

/-! The virtio network driver of the system partition (`syspart/components/virtio`) and the
device behind it. A driver function that does not end has no result. -/

namespace Chpok

/-- `VRING_DESC_F_NEXT` -/
def vringDescFNext : BitVec 16 := 1

/-- `VRING_DESC_F_WRITE` -/
def vringDescFWrite : BitVec 16 := 2

/-- `struct vring_desc` -/
structure VringDesc where
  addr : BitVec 64
  len : BitVec 32
  flags : BitVec 16
  next : BitVec 16
  deriving DecidableEq, Repr

/-- `struct vring_used_elem` -/
structure VringUsedElem where
  id : BitVec 32
  len : BitVec 32
  deriving DecidableEq, Repr

/-- `struct virtio_virtqueue`, with the table and the two rings of `struct vring` -/
structure Virtqueue where
  num : Nat
  desc : Nat → VringDesc
  availIdx : BitVec 16
  availRing : Nat → BitVec 16
  usedIdx : BitVec 16
  usedRing : Nat → VringUsedElem
  freeIndex : BitVec 16
  numFree : BitVec 16
  lastSeenUsed : BitVec 16

/-- `POK_MAX_RECEIVE_BUFFERS` -/
abbrev pokMaxReceiveBuffers : Nat := 100

/-- The memory that the driver shows to the device -/
inductive NetBuffer where
  | netHdr
  | send (head : BitVec 16)
  | receive (i : Fin pokMaxReceiveBuffers)
  deriving DecidableEq, Repr

/-- `pok_virt_to_phys`, which returns 0 when it fails, and `pok_phys_to_virt` -/
structure Translation where
  virtToPhys : NetBuffer → BitVec 64
  physToVirt : BitVec 64 → Option NetBuffer

namespace Virtqueue

/-- `virtio_virtqueue_setup` -/
def setup (size : BitVec 16) : Virtqueue where
  num := size.toNat
  desc := fun i => ⟨0, 0, 0, if i < size.toNat - 1 then BitVec.ofNat 16 (i + 1) else 0⟩
  availIdx := 0
  availRing := fun _ => 0
  usedIdx := 0
  usedRing := fun _ => ⟨0, 0⟩
  freeIndex := 0
  numFree := size
  lastSeenUsed := 0

def updateDesc (vq : Virtqueue) (i : Nat) (f : VringDesc → VringDesc) : Virtqueue :=
  { vq with desc := Function.update vq.desc i (f (vq.desc i)) }

/-- `idx & (num - 1)` -/
def slot (vq : Virtqueue) (idx : BitVec 16) : Nat :=
  (idx.setWidth 32 &&& (BitVec.ofNat 32 vq.num - 1)).toNat

/-- A chain is put into the ring of those that are available. -/
def makeAvailable (vq : Virtqueue) (head : BitVec 16) : Virtqueue :=
  { vq with
    availRing := Function.update vq.availRing (vq.slot vq.availIdx) head
    availIdx := vq.availIdx + 1 }

/-- `use_receive_buffer`, and the head of the chain that it makes available -/
def useReceiveBuffer (tr : Translation) (vq : Virtqueue) (buf : NetBuffer) :
    Virtqueue × Option (BitVec 16) :=
  if vq.numFree < 1 then (vq, none)
  else
    let head := vq.freeIndex
    let addr := tr.virtToPhys buf
    let vq := { vq with numFree := vq.numFree - 1, freeIndex := (vq.desc head.toNat).next }
    if addr = 0 then (vq.updateDesc head.toNat fun desc => { desc with addr }, none)
    else
      let vq := vq.updateDesc head.toNat fun desc =>
        { desc with addr, len := 1510, flags := vringDescFWrite }
      (vq.makeAvailable head, some head)

/-- The loop of `reclaim_send_buffers` that walks along a chain -/
def tailOf (vq : Virtqueue) : Nat → Nat → BitVec 16 → Option (Nat × BitVec 16)
  | 0, _, _ => none
  | fuel + 1, tail, total =>
    if (vq.desc tail).flags &&& vringDescFNext ≠ 0 then
      vq.tailOf fuel (vq.desc tail).next.toNat (total + 1)
    else some (tail, total)

/-- A chain of `total` descriptors comes back to the beginning of the free list. -/
def giveBack (vq : Virtqueue) (e : VringUsedElem) (tail : Nat) (total : BitVec 16) : Virtqueue :=
  { vq.updateDesc tail fun desc => { desc with next := vq.freeIndex } with
    numFree := vq.numFree + total
    freeIndex := e.id.setWidth 16
    lastSeenUsed := vq.lastSeenUsed + 1 }

/-- The body of the loop of `reclaim_send_buffers` -/
def reclaim (vq : Virtqueue) (e : VringUsedElem) : Option Virtqueue :=
  (vq.tailOf vq.num e.id.toNat 1).map fun r => vq.giveBack e r.1 r.2

/-- `reclaim_send_buffers`, and what it has processed -/
def reclaimSendBuffers : Nat → Virtqueue → List VringUsedElem →
    Option (Virtqueue × List VringUsedElem)
  | 0, _, _ => none
  | fuel + 1, vq, processed =>
    if vq.lastSeenUsed ≠ vq.usedIdx then
      let e := vq.usedRing (vq.slot vq.lastSeenUsed)
      (vq.reclaim e).bind fun vq => reclaimSendBuffers fuel vq (processed ++ [e])
    else some (vq, processed)

/-- Two descriptors are taken; the first one is for the header of the frame. -/
def putNetHdr (tr : Translation) (vq : Virtqueue) : Virtqueue :=
  { vq with numFree := vq.numFree - 2 }.updateDesc vq.freeIndex.toNat fun desc =>
    { desc with addr := tr.virtToPhys .netHdr, len := 10, flags := vringDescFNext }

/-- `send_frame` when there are free descriptors, and the head of the chain that it makes
available -/
def postFrame (tr : Translation) (vq : Virtqueue) (size : Nat) : Virtqueue × Option (BitVec 16) :=
  let head := vq.freeIndex
  let vq := vq.putNetHdr tr
  let second := (vq.desc head.toNat).next
  let addr := tr.virtToPhys (.send head)
  if addr = 0 then (vq.updateDesc second.toNat fun desc => { desc with addr }, none)
  else
    let vq := vq.updateDesc second.toNat fun desc =>
      { desc with addr, len := BitVec.ofNat 32 size, flags := 0 }
    let vq := { vq with freeIndex := (vq.desc second.toNat).next }
    (vq.makeAvailable head, some head)

/-- A buffer that the device has filled goes back to the free list. -/
def reclaimReceived (vq : Virtqueue) (e : VringUsedElem) : Virtqueue := vq.giveBack e e.id.toNat 1

end Virtqueue

/-- One queue, the device's index into the ring of available chains and the chains that it is
working on; with everything that was posted, fetched, completed and processed so far. -/
structure QueueRun where
  vq : Virtqueue
  deviceIdx : BitVec 16
  pending : List (BitVec 16)
  posted : List (BitVec 16)
  fetched : List (BitVec 16)
  completed : List VringUsedElem
  processed : List VringUsedElem

namespace QueueRun

def setup (size : BitVec 16) : QueueRun where
  vq := .setup size
  deviceIdx := 0
  pending := []
  posted := []
  fetched := []
  completed := []
  processed := []

/-- What a driver function has done to the queue -/
def post (s : QueueRun) (r : Virtqueue × Option (BitVec 16)) : QueueRun :=
  { s with vq := r.1, posted := s.posted ++ r.2.toList }

/-- The device takes the next chain that is available. -/
def fetch (s : QueueRun) : Option QueueRun :=
  if s.deviceIdx = s.vq.availIdx then none
  else
    let head := s.vq.availRing (s.vq.slot s.deviceIdx)
    some { s with
      deviceIdx := s.deviceIdx + 1
      pending := s.pending ++ [head]
      fetched := s.fetched ++ [head] }

/-- The device gives back one of the chains that it works on. -/
def complete (s : QueueRun) (i : Nat) (len : BitVec 32) : Option QueueRun :=
  s.pending[i]?.map fun head =>
    let e : VringUsedElem := ⟨head.setWidth 32, len⟩
    { s with
      vq := { s.vq with
        usedRing := Function.update s.vq.usedRing (s.vq.slot s.vq.usedIdx) e
        usedIdx := s.vq.usedIdx + 1 }
      pending := s.pending.eraseIdx i
      completed := s.completed ++ [e] }

/-- `reclaim_send_buffers`. The indices have 16 bits. -/
def reclaimSent (s : QueueRun) : Option QueueRun :=
  (Virtqueue.reclaimSendBuffers (2 ^ 16) s.vq []).map fun r =>
    { s with vq := r.1, processed := s.processed ++ r.2 }

/-- The loop of `reclaim_receive_buffers`, and the buffers that are handed on with the sizes
of their packets. It returns when an address cannot be translated. -/
def receiveLoop (tr : Translation) : Nat → QueueRun → List (NetBuffer × BitVec 32) →
    Option (QueueRun × List (NetBuffer × BitVec 32))
  | 0, _, _ => none
  | fuel + 1, s, handled =>
    if s.vq.lastSeenUsed ≠ s.vq.usedIdx then
      let e := s.vq.usedRing (s.vq.slot s.vq.lastSeenUsed)
      match tr.physToVirt (s.vq.desc e.id.toNat).addr with
      | none => some (s, handled)
      | some buf =>
        let s := { s with vq := s.vq.reclaimReceived e, processed := s.processed ++ [e] }
        receiveLoop tr fuel (s.post (s.vq.useReceiveBuffer tr buf)) (handled ++ [(buf, e.len - 10)])
    else some (s, handled)

end QueueRun

/-- `struct virtio_network_device` -/
structure VirtioNet where
  rx : QueueRun
  tx : QueueRun
  sendBuffers : Nat → List (BitVec 8)
  inited : Bool

/-- What `send_frame` returns -/
inductive SendStatus where
  | einval
  | refused
  | sent
  deriving DecidableEq, Repr

inductive NetQueue where
  | rx
  | tx
  deriving DecidableEq, Repr

inductive NetEvent where
  | send (buffer : List (BitVec 8)) (maxBackStep : Nat)
  | receive
  | refill (i : Fin pokMaxReceiveBuffers)
  | fetch (queue : NetQueue)
  | complete (queue : NetQueue) (i : Nat) (len : BitVec 32)
  deriving DecidableEq, Repr

namespace VirtioNet

/-- The device is ready; no buffer for receiving has been posted yet. -/
def setup (rxSize txSize : BitVec 16) : VirtioNet where
  rx := .setup rxSize
  tx := .setup txSize
  sendBuffers := fun _ => []
  inited := true

/-- `send_frame` -/
def sendFrame (tr : Translation) (dev : VirtioNet) (buffer : List (BitVec 8)) (maxBackStep : Nat) :
    Option (VirtioNet × SendStatus) :=
  if ¬ dev.inited then some (dev, .einval)
  else if maxBackStep ≠ 0 then some (dev, .einval)
  else
    dev.tx.reclaimSent.map fun tx =>
      if tx.vq.numFree < 1 then ({ dev with tx }, .refused)
      else
        let r := tx.vq.postFrame tr buffer.length
        ({ dev with
            tx := tx.post r
            sendBuffers := Function.update dev.sendBuffers tx.vq.freeIndex.toNat buffer },
          if r.2.isSome then .sent else .refused)

/-- `virtio_receive_activity` -/
def receiveActivity (tr : Translation) (dev : VirtioNet) :
    Option (VirtioNet × List (NetBuffer × BitVec 32)) :=
  if dev.inited then
    (dev.rx.receiveLoop tr (2 ^ 16) []).map fun r => ({ dev with rx := r.1 }, r.2)
  else some (dev, [])

def queue (dev : VirtioNet) : NetQueue → QueueRun
  | .rx => dev.rx
  | .tx => dev.tx

def setQueue (dev : VirtioNet) (s : QueueRun) : NetQueue → VirtioNet
  | .rx => { dev with rx := s }
  | .tx => { dev with tx := s }

def step (tr : Translation) (dev : VirtioNet) : NetEvent → Option VirtioNet
  | .send buffer maxBackStep => (dev.sendFrame tr buffer maxBackStep).map Prod.fst
  | .receive => (dev.receiveActivity tr).map Prod.fst
  | .refill i => some { dev with rx := dev.rx.post (dev.rx.vq.useReceiveBuffer tr (.receive i)) }
  | .fetch queue => (dev.queue queue).fetch.map fun s => dev.setQueue s queue
  | .complete queue i len => ((dev.queue queue).complete i len).map fun s => dev.setQueue s queue

end VirtioNet

end Chpok
