import Chpok.Arinc.BufferFifo
import Chpok.Arinc.IntraObjects

/-! What buffers and blackboards return does not depend on the memory that holds no message of
theirs. -/

namespace Chpok

open Lockstep

theorem copyBytes_congr {dst src src' : Nat → UInt8} {len : Int}
    (h : messageOf src len = messageOf src' len) : copyBytes dst src len = copyBytes dst src' len := by
  funext i
  by_cases hi : i < len.toNat
  · have hsame := List.map_inj_left.mp h i (List.mem_range.mpr hi)
    simp [copyBytes, hi, hsame]
  · simp [copyBytes, hi]

namespace BufferQueue

variable {b c : BufferQueue}

def withMessages (b : BufferQueue) (messages : Nat → Nat → UInt8) (sizes : Nat → Int) :
    BufferQueue :=
  { b with messages := messages, messagesSize := sizes }

def cell (b : BufferQueue) (i : Nat) : Int × List UInt8 := (b.messagesSize i, b.slot i)

/-- The same messages in the same ring -/
def SameRing (b c : BufferQueue) : Prop :=
  ∃ n p k, b.InRing n p k ∧ c.InRing n p k ∧
    RingIndex.segment n b.cell p k = RingIndex.segment n c.cell p k

/-- Only the memory of messages differs, outside of the ring. -/
def Agrees (b c : BufferQueue) : Prop :=
  (∃ messages sizes, c = b.withMessages messages sizes) ∧ b.SameRing c

theorem Agrees.setQueue (h : b.Agrees c) (w : WaitQueue) (wq : Nat → WqMessage) :
    Agrees { b with processQueue := w, wq := wq } { c with processQueue := w, wq := wq } := by
  obtain ⟨⟨messages, sizes, rfl⟩, n, p, k, hb, hc, hsame⟩ := h
  exact ⟨⟨messages, sizes, rfl⟩, n, p, k,
    ⟨hb.capacity, hb.small, hb.base, hb.inside, hb.count, hb.fits⟩,
    ⟨hc.capacity, hc.small, hc.base, hc.inside, hc.count, hc.fits⟩, hsame⟩

theorem cell_storeMessage (src : Nat → UInt8) (length : Int) (i : Nat) :
    (b.storeMessage src length i).cell =
      Function.update b.cell i (length, messageOf src length) := by
  funext j
  have hslot := congrFun (slot_storeMessage (b := b) src length i) j
  by_cases hj : j = i
  · subst hj
    simp only [cell, hslot, Function.update_self]
    simp [storeMessage]
  · simp only [cell, hslot, Function.update_of_ne hj]
    simp [storeMessage, Function.update_of_ne hj]

/-- A message is put into both, if there is room. -/
theorem Agrees.putMessage (h : b.Agrees c) (hroom : b.nbMessage < b.maxNbMessage)
    (src : Nat → UInt8) (length : Int) :
    ∃ i, b.putMessage src length = some (b.storeMessage src length i) ∧
      c.putMessage src length = some (c.storeMessage src length i) ∧
      (b.storeMessage src length i).Agrees (c.storeMessage src length i) := by
  obtain ⟨⟨messages, sizes, rfl⟩, n, p, k, hb, hc, hsame⟩ := h
  have hk : k < n := by
    have hcount := hb.count
    have hcapacity := hb.capacity
    omega
  have hcells : ∀ {d : BufferQueue}, d.InRing n p k →
      RingIndex.segment n (d.storeMessage src length (RingIndex.add n p k)).cell p (k + 1) =
        RingIndex.segment n d.cell p k ++ [(length, messageOf src length)] := by
    intro d hd
    rw [cell_storeMessage, RingIndex.segment_snoc hd.inside hk,
      RingIndex.segment_update hk (Nat.le_refl k), Function.update_self]
  refine ⟨RingIndex.add n p k, hb.putMessage_eq src length, hc.putMessage_eq src length,
    ⟨_, _, rfl⟩, n, p, k + 1, hb.storeMessage hk src length _, hc.storeMessage hk src length _, ?_⟩
  rw [hcells hb, hcells hc, hsame]

theorem Agrees.taken (h : b.Agrees c) (hpos : 0 < b.nbMessage) :
    ∃ i, b.messageAt (b.messageIndex 0) = some i ∧ c.messageAt (c.messageIndex 0) = some i ∧
      b.cell i = c.cell i ∧
      Agrees { b with baseOffset := b.messageIndex 1, nbMessage := b.nbMessage - 1 }
        { c with baseOffset := c.messageIndex 1, nbMessage := c.nbMessage - 1 } := by
  obtain ⟨⟨messages, sizes, rfl⟩, n, p, k, hb, hc, hsame⟩ := h
  obtain ⟨k, rfl⟩ : ∃ j, k = j + 1 := Nat.exists_eq_succ_of_ne_zero (by
    have hcount := hb.count
    omega)
  rw [RingIndex.segment_cons hb.inside hb.fits, RingIndex.segment_cons hc.inside hc.fits] at hsame
  obtain ⟨hcell, hrest⟩ := List.cons.inj hsame
  exact ⟨p, hb.messageAt_first, hc.messageAt_first, hcell, ⟨messages, sizes, rfl⟩, n, RingIndex.add n p 1, k,
    (hb.taken rfl).1, (hc.taken rfl).1, hrest⟩

theorem sendBuffer_alike (h : b.Agrees c) (t : Nat) (src : Nat → UInt8) (length timeOut : Int)
    (start : WaitStart) : Alike Agrees (b.sendBuffer t src length timeOut start)
      (c.sendBuffer t src length timeOut start) := by
  obtain ⟨⟨messages, sizes, rfl⟩, -⟩ := id h
  refine Alike.ite Iff.rfl (fun _ => alike_some h _) fun _ => ?_
  refine Alike.ite Iff.rfl (fun hroom => ?_) fun _ =>
    Alike.ite Iff.rfl (fun _ => alike_some h _) fun _ =>
      alike_map_same _ fun r => ⟨h.setQueue r.1 _, rfl⟩
  refine alike_bind_same _ fun r => Alike.ite Iff.rfl (fun _ => ?_) fun _ => ?_
  · exact alike_map_same _ fun tAwoken => ⟨h.setQueue _ _, rfl⟩
  · obtain ⟨i, hb, hc, hput⟩ := (h.setQueue r.1 b.wq).putMessage hroom src length
    simp only [withMessages] at hc ⊢
    rw [hb, hc]
    exact alike_some hput _

theorem receiveBuffer_alike (h : b.Agrees c) (t : Nat) (timeOut : Int) (dst : Nat → UInt8)
    (start : WaitStart) : Alike Agrees (b.receiveBuffer t timeOut dst start)
      (c.receiveBuffer t timeOut dst start) := by
  obtain ⟨⟨messages, sizes, rfl⟩, n, p, k, hb, -⟩ := id h
  refine Alike.ite Iff.rfl (fun hpos => ?_) fun _ =>
    Alike.ite Iff.rfl (fun _ => alike_some h _) fun _ =>
      alike_map_same _ fun r => ⟨h.setQueue r.1 _, rfl⟩
  obtain ⟨i, hib, hic, hcell, htaken⟩ := h.taken hpos
  obtain ⟨hsize, hslot⟩ := Prod.mk.inj hcell
  have hslot' : messageOf (b.messages i) (b.messagesSize i) =
      messageOf (messages i) (b.messagesSize i) := by
    rw [hsize]
    simpa [slot, hsize, withMessages] using hslot
  have hret : (⟨.noError, b.messagesSize i, copyBytes dst (b.messages i) (b.messagesSize i)⟩ :
      MessageReturn) = ⟨.noError, sizes i, copyBytes dst (messages i) (sizes i)⟩ := by
    have hsize' : b.messagesSize i = sizes i := hsize
    rw [copyBytes_congr hslot', hsize']
  rw [hib, hic]
  simp only [Option.bind_some]
  refine alike_bind_same _ fun r => Alike.ite Iff.rfl (fun _ => ?_) fun _ => ?_
  · refine alike_bind_same _ fun tAwoken => ?_
    have hroom : b.nbMessage - 1 < b.maxNbMessage := by
      have hcount := hb.count
      have hcapacity := hb.capacity
      have hfits := hb.fits
      omega
    obtain ⟨j, hjb, hjc, hput⟩ :=
      htaken.putMessage hroom (b.wq tAwoken).bytes (b.wq tAwoken).len
    simp only [withMessages] at hjc ⊢
    rw [hjb, hjc]
    exact .some ⟨hput.setQueue _ _, by rw [hret]⟩
  · exact .some ⟨htaken.setQueue r.1 _, by rw [hret]; rfl⟩

theorem call_alike (h : b.Agrees c) (t : Nat) (e : BufferCall) :
    Alike Agrees (b.call t e) (c.call t e) := by
  cases e with
  | send src length timeOut start =>
    exact (sendBuffer_alike h t src length timeOut start).map fun _ _ _ hrel => ⟨hrel, rfl⟩
  | receive timeOut dst start =>
    exact (receiveBuffer_alike h t timeOut dst start).map fun _ _ _ hrel => ⟨hrel, rfl⟩
  | getStatus =>
    obtain ⟨⟨messages, sizes, rfl⟩, -⟩ := id h
    simp only [call, getBufferStatus, Option.map_map]
    exact alike_map_same _ fun r => ⟨h.setQueue r.1 _, rfl⟩

end BufferQueue

namespace Blackboard

variable {b c : Blackboard}

/-- Only the memory of the message differs, outside of the message. -/
def Agrees (b c : Blackboard) : Prop :=
  (∃ message, c = { b with message := message }) ∧
    messageOf b.message b.messageSize = messageOf c.message b.messageSize

theorem Agrees.setQueue (h : b.Agrees c) (w : WaitQueue) (wq : Nat → WqMessage) :
    Agrees { b with processQueue := w, wq := wq } { c with processQueue := w, wq := wq } := by
  obtain ⟨⟨message, rfl⟩, hsame⟩ := h
  exact ⟨⟨message, rfl⟩, hsame⟩

theorem deliver_congr {message message' : Nat → UInt8} {length : Int}
    (h : messageOf message length = messageOf message' length) :
    deliver message length = deliver message' length := by
  funext wq t
  simp only [deliver, copyBytes_congr h]

theorem displayBlackboard_alike (h : b.Agrees c) (src : Nat → UInt8) (length : Int) :
    Alike Agrees (b.displayBlackboard src length) (c.displayBlackboard src length) := by
  obtain ⟨⟨message, rfl⟩, hsame⟩ := id h
  refine Alike.ite Iff.rfl (fun _ => alike_some h _) fun _ => ?_
  have hmessage : messageOf (copyBytes b.message src length) length =
      messageOf (copyBytes message src length) length := by simp
  simp only [deliver_congr hmessage]
  exact alike_map_same _ fun r => ⟨⟨⟨_, rfl⟩, hmessage⟩, rfl⟩

theorem readBlackboard_alike (h : b.Agrees c) (t : Nat) (timeOut : Int) (dst : Nat → UInt8)
    (start : WaitStart) : Alike Agrees (b.readBlackboard t timeOut dst start)
      (c.readBlackboard t timeOut dst start) := by
  obtain ⟨⟨message, rfl⟩, hsame⟩ := id h
  refine Alike.ite Iff.rfl (fun _ => ?_) fun _ =>
    Alike.ite Iff.rfl (fun _ => alike_some h _) fun _ =>
      alike_map_same _ fun r => ⟨h.setQueue r.1 _, rfl⟩
  exact .some ⟨h, by simp only [copyBytes_congr hsame]⟩

theorem call_alike (h : b.Agrees c) (t : Nat) (e : BlackboardCall) :
    Alike Agrees (b.call t e) (c.call t e) := by
  cases e with
  | display src length =>
    exact (displayBlackboard_alike h src length).map fun _ _ _ hrel => ⟨hrel, rfl⟩
  | read timeOut dst start =>
    exact (readBlackboard_alike h t timeOut dst start).map fun _ _ _ hrel => ⟨hrel, rfl⟩
  | clear =>
    obtain ⟨⟨message, rfl⟩, -⟩ := h
    exact .some ⟨⟨⟨message, rfl⟩, rfl⟩, rfl⟩
  | getStatus =>
    obtain ⟨⟨message, rfl⟩, -⟩ := id h
    simp only [call, getBlackboardStatus, Option.map_map]
    exact alike_map_same _ fun r => ⟨h.setQueue r.1 _, rfl⟩

end Blackboard

end Chpok
