import Chpok.Syspart.VirtqueueRuns
import Chpok.Library.WorkQueue

/-! The frames that go out through the virtio device. The driver copies them to its send buffers,
from which the device reads while it works on a chain. -/

namespace Chpok

open ChainPool

/-- `MAX_PACKET_SIZE` -/
abbrev maxPacketSize : Nat := 1500

/-- The driver with the memory from `send_buffers` on, which has one buffer for each descriptor -/
structure VirtioMemory where
  dev : VirtioNet
  bytes : Nat → BitVec 8

namespace VirtioMemory

/-- `memcpy` -/
def memcpy (bytes : Nat → BitVec 8) (dest : Nat) (data : List (BitVec 8)) : Nat → BitVec 8 :=
  fun i => if dest ≤ i ∧ i < dest + data.length then data.getD (i - dest) 0 else bytes i

/-- The buffer to which `send_frame` copies a frame -/
def copyTarget (dev : VirtioNet) (maxBackStep : Nat) : Option (BitVec 16) :=
  if ¬ dev.inited ∨ maxBackStep ≠ 0 then none
  else dev.tx.reclaimSent.bind fun tx => if tx.vq.numFree < 1 then none else some tx.vq.freeIndex

/-- What a step of the driver or of the device does to the send buffers -/
def bytesAfter (s : VirtioMemory) : NetEvent → Nat → BitVec 8
  | .send buffer maxBackStep =>
    match copyTarget s.dev maxBackStep with
    | some head => memcpy s.bytes (maxPacketSize * head.toNat) buffer
    | none => s.bytes
  | _ => s.bytes

def step (tr : Translation) (s : VirtioMemory) (e : NetEvent) : Option VirtioMemory :=
  (s.dev.step tr e).map fun dev => ⟨dev, s.bytesAfter e⟩

/-- The frame is not longer than a buffer. A longer one goes on in the buffer behind. -/
def Fits : NetEvent → Prop
  | .send buffer _ => buffer.length ≤ maxPacketSize
  | _ => True

/-- What the device finds in memory for a chain of two descriptors, the first of which is for the
header -/
def frameAt (tr : Translation) (s : VirtioMemory) (head : BitVec 16) : Option (List (BitVec 8)) :=
  let first := s.dev.tx.vq.desc head.toNat
  let second := s.dev.tx.vq.desc first.next.toNat
  if first.flags &&& vringDescFNext ≠ 0 ∧ tr.physToVirt first.addr = some .netHdr ∧ first.len = 10 ∧
      second.flags &&& vringDescFNext = 0 then
    match tr.physToVirt second.addr with
    | some (.send buffer) =>
      some ((List.range second.len.toNat).map fun i => s.bytes (maxPacketSize * buffer.toNat + i))
    | _ => none
  else none

/-- The chains of the transmit queue, as the device finds them: those that it may fetch and those
that it works on -/
def frames (tr : Translation) (s : VirtioMemory) : WorkQueue (Option (List (BitVec 8))) where
  waiting := (s.dev.tx.posted.drop s.dev.tx.fetched.length).map (s.frameAt tr)
  working := s.dev.tx.pending.map (s.frameAt tr)

/-- What a step means for the transmit queue -/
def workEvents (tr : Translation) (s : VirtioMemory) :
    NetEvent → List (WorkEvent (Option (List (BitVec 8))))
  | .send buffer maxBackStep =>
    if (s.dev.sendFrame tr buffer maxBackStep).map Prod.snd = some .sent then [.post (some buffer)]
    else []
  | .fetch .tx => [.take]
  | .complete .tx i _ => [.finish i]
  | _ => []

/-- The same for a run -/
def runEvents (tr : Translation) : VirtioMemory → List NetEvent →
    List (WorkEvent (Option (List (BitVec 8))))
  | _, [] => []
  | s, e :: es =>
    s.workEvents tr e ++ match s.step tr e with
      | some t => runEvents tr t es
      | none => []

section

variable {tr : Translation} {k j : Nat} {vq vq' : Virtqueue} {bytes bytes' : Nat → BitVec 8}
  {frame : List (BitVec 8)} {head : BitVec 16} {c : List Nat} {free : List Nat}
  {chains : List (List Nat)}

theorem memcpy_inside {dest i : Nat} {data : List (BitVec 8)} (hi : i < data.length) :
    memcpy bytes dest data (dest + i) = data.getD i 0 := by
  rw [memcpy, if_pos ⟨Nat.le_add_right _ _, Nat.add_lt_add_left hi _⟩, Nat.add_sub_cancel_left]

theorem memcpy_outside {dest i : Nat} {data : List (BitVec 8)}
    (hi : i < dest ∨ dest + data.length ≤ i) : memcpy bytes dest data i = bytes i :=
  if_neg (by omega)

/-- The chain leads to a buffer with the frame. -/
structure Carries (tr : Translation) (vq : Virtqueue) (bytes : Nat → BitVec 8)
    (frame : List (BitVec 8)) (head : BitVec 16) (second : Nat) : Prop where
  fits : frame.length ≤ maxPacketSize
  first : (vq.desc head.toNat).addr = tr.virtToPhys .netHdr ∧ (vq.desc head.toNat).len = 10
  second : (vq.desc second).addr = tr.virtToPhys (.send head) ∧
    (vq.desc second).len = BitVec.ofNat 32 frame.length
  stored : ∀ i < frame.length, bytes (maxPacketSize * head.toNat + i) = frame.getD i 0

/-- The part of a descriptor that says where its memory is -/
def SameMemory (d d' : VringDesc) : Prop := d'.addr = d.addr ∧ d'.len = d.len

theorem Carries.congr {second : Nat} (h : Carries tr vq bytes frame head second)
    (hfirst : SameMemory (vq.desc head.toNat) (vq'.desc head.toNat))
    (hsecond : SameMemory (vq.desc second) (vq'.desc second))
    (hbytes : ∀ i < maxPacketSize, bytes' (maxPacketSize * head.toNat + i) =
      bytes (maxPacketSize * head.toNat + i)) : Carries tr vq' bytes' frame head second where
  fits := h.fits
  first := ⟨hfirst.1.trans h.first.1, hfirst.2.trans h.first.2⟩
  second := ⟨hsecond.1.trans h.second.1, hsecond.2.trans h.second.2⟩
  stored i hi := (hbytes i (Nat.lt_of_lt_of_le hi h.fits)).trans (h.stored i hi)

theorem Carries.frameAt {s : VirtioMemory} {second : Nat}
    (hback : ∀ buf, tr.physToVirt (tr.virtToPhys buf) = some buf)
    (h : Carries tr s.dev.tx.vq s.bytes frame head second)
    (hchain : Chain s.dev.tx.vq.next s.dev.tx.vq.more [head.toNat, second]) :
    s.frameAt tr head = some frame := by
  obtain ⟨hmore, hnext, hend⟩ := hchain
  have hnext : (s.dev.tx.vq.desc head.toNat).next.toNat = second := hnext
  have hend : (s.dev.tx.vq.desc second).flags &&& vringDescFNext = 0 :=
    not_not.mp (of_decide_eq_false hend)
  have hlen : (BitVec.ofNat 32 frame.length).toNat = frame.length := by
    have hfits : frame.length ≤ 1500 := h.fits
    rw [BitVec.toNat_ofNat]
    exact Nat.mod_eq_of_lt (by omega)
  have hbytes : ((List.range frame.length).map fun i =>
      s.bytes (maxPacketSize * head.toNat + i)) = frame := by
    refine List.ext_getElem (by simp) fun i hi hi' => ?_
    rw [List.getElem_map, List.getElem_range, h.stored i hi', List.getD_eq_getElem?_getD,
      List.getElem?_eq_getElem hi']
    rfl
  unfold VirtioMemory.frameAt
  simp only [hnext, h.first.1, h.first.2, h.second.1, h.second.2, hback, hlen, hbytes, hend]
  rw [if_pos ⟨of_decide_eq_true hmore, trivial, trivial, trivial⟩]

/-- Each chain carries the frame that has been loaded for its head. -/
def Loaded (tr : Translation) (vq : Virtqueue) (bytes : Nat → BitVec 8) (load : Nat → List (BitVec 8))
    (chains : List (List Nat)) : Prop :=
  ∀ c ∈ chains, ∃ (head : BitVec 16) (second : Nat),
    c = [head.toNat, second] ∧ Carries tr vq bytes (load head.toNat) head second

theorem Loaded.congr {load : Nat → List (BitVec 8)} (h : Loaded tr vq bytes load chains)
    (hdesc : ∀ i ∈ chains.flatten, SameMemory (vq.desc i) (vq'.desc i)) :
    Loaded tr vq' bytes load chains := by
  intro c hc
  obtain ⟨head, second, rfl, hcarries⟩ := h c hc
  have hmem : ∀ i ∈ [head.toNat, second], i ∈ chains.flatten := fun i hi =>
    List.mem_flatten_of_mem hc hi
  exact ⟨head, second, rfl, hcarries.congr (hdesc _ (hmem _ (by simp))) (hdesc _ (hmem _ (by simp)))
    fun _ _ => rfl⟩

theorem sameMemory_giveBack (vq : Virtqueue) (e : VringUsedElem) (tail i : Nat) (total : BitVec 16) :
    SameMemory (vq.desc i) ((vq.giveBack e tail total).desc i) := by
  change SameMemory (vq.desc i) (Function.update vq.desc tail _ i)
  by_cases hi : i = tail
  · subst hi
    rw [Function.update_self]
    exact ⟨rfl, rfl⟩
  · rw [Function.update_of_ne hi]
    exact ⟨rfl, rfl⟩

/-- Reclaiming takes chains away and leaves the memory of the others as it is. -/
theorem reclaimLoop_chains {s : QueueRun} {len fuel : Nat} (h : s.Sound tr k len free chains)
    (hlen : 0 < len) (hfuel : s.completed.length - s.processed.length < fuel)
    (acc : List VringUsedElem) :
    ∃ vq new free' chains', Virtqueue.reclaimSendBuffers fuel s.vq acc = some (vq, acc ++ new) ∧
      QueueRun.Sound tr k len { s with vq, processed := s.processed ++ new } free' chains' ∧
      (∀ c ∈ chains', c ∈ chains) ∧ ∀ i, SameMemory (s.vq.desc i) (vq.desc i) := by
  induction fuel generalizing s free chains acc with
  | zero => exact absurd hfuel (Nat.not_lt_zero _)
  | succ fuel ih =>
    rw [Virtqueue.reclaimSendBuffers]
    by_cases hmore : s.vq.lastSeenUsed ≠ s.vq.usedIdx
    · obtain ⟨e, c, before, after, vq, hread, hget, -, rfl, hreclaim, hsound⟩ :=
        h.reclaim hlen hmore
      have hlt : s.processed.length < s.completed.length := (List.getElem?_eq_some_iff.mp hget).1
      have hlength : (s.processed ++ [e]).length = s.processed.length + 1 := by
        rw [List.length_append]
        rfl
      have hrestFuel : s.completed.length - (s.processed ++ [e]).length < fuel := by omega
      obtain ⟨vq', new, free', chains', hrest, hsound', hsub, hsame⟩ :=
        ih hsound hrestFuel (acc ++ [e])
      refine ⟨vq', e :: new, free', chains', ?_, ?_, fun d hd => ?_, fun i => ?_⟩
      · rw [if_pos hmore, hread]
        dsimp only
        rw [hreclaim, Option.bind_some, List.append_cons acc e new]
        exact hrest
      · rw [List.append_cons s.processed e new]
        exact hsound'
      · rcases List.mem_append.mp (hsub d hd) with hd | hd <;> simp [hd]
      · obtain ⟨r, -, rfl⟩ := Option.map_eq_some_iff.mp hreclaim
        have hone := sameMemory_giveBack s.vq e r.1 i r.2
        exact ⟨(hsame i).1.trans hone.1, (hsame i).2.trans hone.2⟩
    · rw [if_neg hmore]
      refine ⟨s.vq, [], free, chains, by rw [List.append_nil], ?_, fun _ hc => hc,
        fun _ => ⟨rfl, rfl⟩⟩
      rw [List.append_nil]
      exact h

theorem reclaimSent_chains {s : QueueRun} {len : Nat} (h : s.Sound tr k len free chains)
    (hlen : 0 < len) :
    ∃ vq new free' chains', s.reclaimSent = some { s with vq, processed := s.processed ++ new } ∧
      QueueRun.Sound tr k len { s with vq, processed := s.processed ++ new } free' chains' ∧
      (∀ c ∈ chains', c ∈ chains) ∧ ∀ i, SameMemory (s.vq.desc i) (vq.desc i) := by
  obtain ⟨hwindow, hchains⟩ := h.window hlen
  have hnum := h.num_lt
  have hfuel : s.completed.length - s.processed.length < 2 ^ 16 := by omega
  obtain ⟨vq, new, free', chains', hloop, hsound, hsub, hsame⟩ :=
    reclaimLoop_chains h hlen hfuel []
  refine ⟨vq, new, free', chains', ?_, hsound, hsub, hsame⟩
  rw [QueueRun.reclaimSent, hloop]
  rfl

/-- Where the descriptors of a frame that has been posted lead to -/
theorem postFrame_desc (htr : ∀ buf, tr.virtToPhys buf ≠ 0) {second : Nat}
    (hsecond : (vq.desc vq.freeIndex.toNat).next.toNat = second)
    (hne : vq.freeIndex.toNat ≠ second) (size : Nat) :
    let desc := (vq.postFrame tr size).1.desc
    ((desc vq.freeIndex.toNat).addr = tr.virtToPhys .netHdr ∧
        (desc vq.freeIndex.toNat).len = 10) ∧
      ((desc second).addr = tr.virtToPhys (.send vq.freeIndex) ∧
        (desc second).len = BitVec.ofNat 32 size) ∧
      ∀ i, i ≠ vq.freeIndex.toNat → i ≠ second → desc i = vq.desc i := by
  have hput : ((vq.putNetHdr tr).desc vq.freeIndex.toNat).next.toNat = second := by
    simp [Virtqueue.putNetHdr, Virtqueue.updateDesc, hsecond]
  unfold Virtqueue.postFrame
  dsimp only
  rw [if_neg (htr _), hput]
  refine ⟨⟨?_, ?_⟩, ⟨?_, ?_⟩, fun i hi hi' => ?_⟩
  · simp [Virtqueue.makeAvailable, Virtqueue.updateDesc, Virtqueue.putNetHdr, hne]
  · simp [Virtqueue.makeAvailable, Virtqueue.updateDesc, Virtqueue.putNetHdr, hne]
  · simp [Virtqueue.makeAvailable, Virtqueue.updateDesc]
  · simp [Virtqueue.makeAvailable, Virtqueue.updateDesc]
  · simp [Virtqueue.makeAvailable, Virtqueue.updateDesc, Virtqueue.putNetHdr, hi, hi']

/-- The queue is sound, and the chains in it carry frames. -/
def Ready (tr : Translation) (k : Nat) (s : VirtioMemory) (load : Nat → List (BitVec 8)) : Prop :=
  ∃ free chains, s.dev.tx.Sound tr k 2 free chains ∧ Loaded tr s.dev.tx.vq s.bytes load chains

theorem inFlight {s : QueueRun} {len : Nat} (h : s.Sound tr k len free chains)
    (hhead : head ∈ s.posted.drop s.fetched.length ∨ head ∈ s.pending) :
    ∃ c ∈ chains, c.headD 0 = head.toNat := by
  have hmem : head.toNat ∈ chains.map (·.headD 0) := by
    refine h.heads.mem_iff.mpr ?_
    rcases hhead with hhead | hhead
    · exact List.mem_append_left _ (List.mem_map_of_mem hhead)
    · exact List.mem_append_right _ (List.mem_append_left _ (List.mem_map_of_mem hhead))
  exact List.mem_map.mp hmem

variable {s t : VirtioMemory} {load : Nat → List (BitVec 8)}
  (hback : ∀ buf, tr.physToVirt (tr.virtToPhys buf) = some buf)

include hback

theorem Ready.frameAt (h : Ready tr k s load)
    (hhead : head ∈ s.dev.tx.posted.drop s.dev.tx.fetched.length ∨ head ∈ s.dev.tx.pending) :
    s.frameAt tr head = some (load head.toNat) := by
  obtain ⟨free, chains, hsound, hloaded⟩ := h
  obtain ⟨c, hc, hfirst⟩ := inFlight hsound hhead
  obtain ⟨head', second, rfl, hcarries⟩ := hloaded c hc
  obtain rfl : head' = head := BitVec.eq_of_toNat_eq hfirst
  exact hcarries.frameAt hback (hsound.pool.chained _ hc)

theorem Ready.frames (h : Ready tr k s load) : s.frames tr =
    ⟨(s.dev.tx.posted.drop s.dev.tx.fetched.length).map fun head => some (load head.toNat),
      s.dev.tx.pending.map fun head => some (load head.toNat)⟩ := by
  unfold VirtioMemory.frames
  congr 1
  · exact List.map_congr_left fun head hhead => h.frameAt hback (.inl hhead)
  · exact List.map_congr_left fun head hhead => h.frameAt hback (.inr hhead)

omit hback in
/-- What has been posted keeps its frame when another frame is posted. -/
theorem Ready.postFrame (htr : ∀ buf, tr.virtToPhys buf ≠ 0) {tx : QueueRun}
    (hsound : tx.Sound tr k 2 free chains) (hloaded : Loaded tr tx.vq bytes load chains)
    (hfree : free ≠ []) {buffer : List (BitVec 8)} (hfits : buffer.length ≤ maxPacketSize) :
    ∃ rest chains', (tx.vq.postFrame tr buffer.length).2 = some tx.vq.freeIndex ∧
      QueueRun.Sound tr k 2 (tx.post (tx.vq.postFrame tr buffer.length)) rest chains' ∧
      Loaded tr (tx.vq.postFrame tr buffer.length).1
        (memcpy bytes (maxPacketSize * tx.vq.freeIndex.toNat) buffer)
        (Function.update load tx.vq.freeIndex.toNat buffer) chains' ∧
      ∀ c ∈ chains, c.headD 0 ≠ tx.vq.freeIndex.toNat := by
  obtain ⟨a, b, rest, rfl, hhead, hpost⟩ := hsound.postFrame htr hfree buffer.length
  obtain rfl : tx.vq.freeIndex.toNat = a := hsound.pool.first a rfl
  have hsecond : (tx.vq.desc tx.vq.freeIndex.toNat).next.toNat = b :=
    (List.isChain_cons_cons.mp hsound.pool.linked).1
  obtain ⟨-, hnodup, -⟩ := List.nodup_append'.mp hpost.pool.nodup
  rw [List.flatten_cons, List.nodup_append'] at hnodup
  obtain ⟨hpair, -, hdisjoint⟩ := hnodup
  have hne : tx.vq.freeIndex.toNat ≠ b := fun he => by simp [he] at hpair
  obtain ⟨hfirst, hlast, hother⟩ := postFrame_desc htr hsecond hne buffer.length
  have hapart : ∀ c ∈ chains, ∀ i ∈ c, i ≠ tx.vq.freeIndex.toNat ∧ i ≠ b := by
    intro c hc i hi
    have hmem := List.mem_flatten_of_mem hc hi
    exact ⟨fun he => hdisjoint (by simp [he]) hmem, fun he => hdisjoint (by simp [he]) hmem⟩
  refine ⟨rest, _, hhead, hpost, fun c hc => ?_, fun c hc he => ?_⟩
  · rcases List.mem_cons.mp hc with rfl | hc
    · refine ⟨tx.vq.freeIndex, b, rfl, ?_⟩
      rw [Function.update_self]
      exact ⟨hfits, hfirst, hlast, fun i hi => memcpy_inside hi⟩
    · obtain ⟨head, second, rfl, hcarries⟩ := hloaded c hc
      obtain ⟨hhead, hhead'⟩ := hapart _ hc head.toNat (by simp)
      obtain ⟨hsec, hsec'⟩ := hapart _ hc second (by simp)
      refine ⟨head, second, rfl, ?_⟩
      rw [Function.update_of_ne hhead]
      refine hcarries.congr ?_ ?_ fun i hi => memcpy_outside ?_
      · rw [hother _ hhead hhead']
        exact ⟨rfl, rfl⟩
      · rw [hother _ hsec hsec']
        exact ⟨rfl, rfl⟩
      -- The buffers of two descriptors do not overlap.
      · have hsize : buffer.length ≤ 1500 := hfits
        have hi : i < 1500 := hi
        show 1500 * head.toNat + i < 1500 * tx.vq.freeIndex.toNat ∨
          1500 * tx.vq.freeIndex.toNat + buffer.length ≤ 1500 * head.toNat + i
        omega
  · obtain ⟨head, second, rfl, -⟩ := hloaded c hc
    exact (hapart _ hc head.toNat (by simp)).1 he

theorem Ready.frames_eq (h : Ready tr k s load) (h' : Ready tr k t load)
    (hposted : t.dev.tx.posted = s.dev.tx.posted) (hfetched : t.dev.tx.fetched = s.dev.tx.fetched)
    (hpending : t.dev.tx.pending = s.dev.tx.pending) : t.frames tr = s.frames tr := by
  rw [h.frames hback, h'.frames hback, hposted, hfetched, hpending]

/-- Steps that leave the transmit queue alone -/
theorem Ready.same (h : Ready tr k s load) (htx : t.dev.tx = s.dev.tx) (hbytes : t.bytes = s.bytes) :
    Ready tr k t load ∧ t.frames tr = s.frames tr := by
  have hready : Ready tr k t load := by
    unfold Ready
    rw [htx, hbytes]
    exact h
  exact ⟨hready, h.frames_eq hback hready (by rw [htx]) (by rw [htx]) (by rw [htx])⟩

theorem Ready.send (htr : ∀ buf, tr.virtToPhys buf ≠ 0) (h : Ready tr k s load)
    {buffer : List (BitVec 8)} {maxBackStep : Nat} (hfits : buffer.length ≤ maxPacketSize)
    (hstep : s.step tr (.send buffer maxBackStep) = some t) :
    (∃ load', Ready tr k t load') ∧
      Run.exec WorkQueue.step (s.frames tr) (s.workEvents tr (.send buffer maxBackStep)) =
        some (t.frames tr) := by
  obtain ⟨dev, hdev, rfl⟩ := Option.map_eq_some_iff.mp hstep
  obtain ⟨⟨dev, status⟩, hsend, rfl⟩ := Option.map_eq_some_iff.mp hdev
  have hevents : s.workEvents tr (.send buffer maxBackStep) =
      if status = .sent then [.post (some buffer)] else [] := by
    simp [workEvents, hsend]
  rw [hevents]
  by_cases hearly : ¬ s.dev.inited = true ∨ maxBackStep ≠ 0
  · have hbytes : s.bytesAfter (.send buffer maxBackStep) = s.bytes := by
      simp only [bytesAfter, copyTarget, if_pos hearly]
    have hrefused : s.dev.sendFrame tr buffer maxBackStep = some (s.dev, .einval) := by
      unfold VirtioNet.sendFrame
      by_cases hinit : ¬ s.dev.inited = true
      · exact if_pos hinit
      · rw [if_neg hinit, if_pos (hearly.resolve_left hinit)]
    obtain ⟨rfl, rfl⟩ := Prod.mk.inj (Option.some.inj (hrefused.symm.trans hsend))
    have hsame : Ready tr k ⟨s.dev, s.bytesAfter (.send buffer maxBackStep)⟩ load ∧ _ :=
      h.same hback rfl hbytes
    exact ⟨⟨load, hsame.1⟩, congrArg some hsame.2.symm⟩
  unfold VirtioNet.sendFrame at hsend
  have hready := h
  obtain ⟨free, chains, hsound, hloaded⟩ := h
  obtain ⟨vq, new, free', chains', hreclaim, hsound', hsub, hsame⟩ :=
    reclaimSent_chains hsound Nat.two_pos
  have hloaded' : Loaded tr vq s.bytes load chains' := fun c hc =>
    (hloaded.congr fun i _ => hsame i) c (hsub c hc)
  rw [if_neg (fun hi => hearly (.inl hi)), if_neg (fun hb => hearly (.inr hb)), hreclaim,
    Option.map_some] at hsend
  by_cases hnone : vq.numFree < 1
  · rw [if_pos hnone] at hsend
    obtain ⟨rfl, rfl⟩ := Prod.mk.inj (Option.some.inj hsend)
    have hbytes : s.bytesAfter (.send buffer maxBackStep) = s.bytes := by
      simp only [bytesAfter, copyTarget, if_neg hearly, hreclaim, Option.bind_some, if_pos hnone]
    have hready' : Ready tr k ⟨{ s.dev with tx := { s.dev.tx with
        vq, processed := s.dev.tx.processed ++ new } }, s.bytesAfter (.send buffer maxBackStep)⟩
        load := by
      rw [hbytes]
      exact ⟨free', chains', hsound', hloaded'⟩
    exact ⟨⟨load, hready'⟩, congrArg some (hready.frames_eq hback hready' rfl rfl rfl).symm⟩
  · rw [if_neg hnone] at hsend
    have hbytes : s.bytesAfter (.send buffer maxBackStep) =
        memcpy s.bytes (maxPacketSize * vq.freeIndex.toNat) buffer := by
      simp only [bytesAfter, copyTarget, if_neg hearly, hreclaim, Option.bind_some, if_neg hnone]
    have hfree : free' ≠ [] := by
      rintro rfl
      have hcount : vq.numFree.toNat = 0 := hsound'.count
      exact hnone (BitVec.lt_def.mpr (hcount ▸ Nat.one_pos))
    obtain ⟨rest, chains'', hhead, hpost, hcarry, hapart⟩ :=
      Ready.postFrame htr hsound' hloaded' hfree hfits
    dsimp only at hhead hsend
    rw [hhead, Option.isSome_some, if_pos rfl] at hsend
    obtain ⟨rfl, rfl⟩ := Prod.mk.inj (Option.some.inj hsend)
    rw [if_pos rfl]
    have hready' : Ready tr k ⟨{ s.dev with
        tx := { s.dev.tx with vq, processed := s.dev.tx.processed ++ new }.post
          (vq.postFrame tr buffer.length)
        sendBuffers := Function.update s.dev.sendBuffers vq.freeIndex.toNat buffer },
        s.bytesAfter (.send buffer maxBackStep)⟩
        (Function.update load vq.freeIndex.toNat buffer) := by
      rw [hbytes]
      exact ⟨rest, chains'', hpost, hcarry⟩
    refine ⟨⟨_, hready'⟩, congrArg some ?_⟩
    rw [hready.frames hback, hready'.frames hback]
    have hold : ∀ head, head ∈ s.dev.tx.posted.drop s.dev.tx.fetched.length ∨
        head ∈ s.dev.tx.pending →
          Function.update load vq.freeIndex.toNat buffer head.toNat = load head.toNat := by
      intro head hflight
      obtain ⟨c, hc, hfirst⟩ := inFlight hsound' hflight
      exact Function.update_of_ne (hfirst ▸ hapart c hc) _ _
    have hle : s.dev.tx.fetched.length ≤ s.dev.tx.posted.length := hsound.fetched.length_le
    congr 1
    · show _ ++ [some buffer] = ((s.dev.tx.posted ++
        (vq.postFrame tr buffer.length).2.toList).drop s.dev.tx.fetched.length).map _
      rw [hhead, Option.toList_some, List.drop_append_of_le_length hle, List.map_append, List.map_singleton,
        Function.update_self]
      congr 1
      exact List.map_congr_left fun head hflight => congrArg some (hold head (.inl hflight)).symm
    · exact List.map_congr_left fun head hflight => congrArg some (hold head (.inr hflight)).symm

omit hback in
theorem fetch_waiting {q r : QueueRun} {len : Nat} (h : q.Sound tr k len free chains)
    (hlen : 0 < len) (hr : q.fetch = some r) :
    r.Sound tr k len free chains ∧ r.vq = q.vq ∧ ∃ head,
      q.posted.drop q.fetched.length = head :: r.posted.drop r.fetched.length ∧
        r.pending = q.pending ++ [head] := by
  have hsound := h.fetch hlen hr
  unfold QueueRun.fetch at hr
  split_ifs at hr
  obtain rfl := Option.some.inj hr
  obtain ⟨rest, hrest⟩ := hsound.fetched
  refine ⟨hsound, rfl, _, ?_, rfl⟩
  rw [← hrest, List.drop_left, List.append_assoc, List.drop_left]
  rfl

theorem Ready.fetch (h : Ready tr k s load) (hstep : s.step tr (.fetch .tx) = some t) :
    Ready tr k t load ∧ (s.frames tr).step .take = some (t.frames tr) := by
  obtain ⟨dev, hdev, rfl⟩ := Option.map_eq_some_iff.mp hstep
  obtain ⟨tx, htx, rfl⟩ := Option.map_eq_some_iff.mp hdev
  have hready := h
  obtain ⟨free, chains, hsound, hloaded⟩ := h
  obtain ⟨hsound', hvq, head, hwaiting, hpending⟩ := fetch_waiting hsound Nat.two_pos htx
  have hready' : Ready tr k ⟨s.dev.setQueue tx .tx, s.bytes⟩ load :=
    ⟨free, chains, hsound', hvq ▸ hloaded⟩
  refine ⟨hready', ?_⟩
  rw [hready.frames hback]
  refine Eq.trans ?_ (congrArg some (hready'.frames hback).symm)
  rw [hwaiting, List.map_cons]
  show some (WorkQueue.mk _ (_ ++ [_])) = some ⟨_, tx.pending.map _⟩
  rw [hpending, List.map_append]
  rfl

theorem Ready.complete (h : Ready tr k s load) {i : Nat} {len : BitVec 32}
    (hstep : s.step tr (.complete .tx i len) = some t) :
    Ready tr k t load ∧ (s.frames tr).step (.finish i) = some (t.frames tr) := by
  obtain ⟨dev, hdev, rfl⟩ := Option.map_eq_some_iff.mp hstep
  obtain ⟨tx, htx, rfl⟩ := Option.map_eq_some_iff.mp hdev
  have hready := h
  obtain ⟨free, chains, hsound, hloaded⟩ := h
  have hsound' : tx.Sound tr k 2 free chains := hsound.complete Nat.two_pos htx
  obtain ⟨head, hhead, rfl⟩ := Option.map_eq_some_iff.mp htx
  have hi : i < s.dev.tx.pending.length := (List.getElem?_eq_some_iff.mp hhead).1
  have hready' : Ready tr k ⟨s.dev.setQueue _ .tx, s.bytes⟩ load :=
    ⟨free, chains, hsound', hloaded.congr fun _ _ => ⟨rfl, rfl⟩⟩
  refine ⟨hready', ?_⟩
  rw [hready.frames hback]
  refine Eq.trans ?_ (congrArg some (hready'.frames hback).symm)
  show (if i < (s.dev.tx.pending.map _).length then some (WorkQueue.mk _ _) else none) =
    some (WorkQueue.mk _ ((s.dev.tx.pending.eraseIdx i).map _))
  rw [if_pos (by rwa [List.length_map]), List.eraseIdx_map]
  rfl

theorem Ready.next (htr : ∀ buf, tr.virtToPhys buf ≠ 0) (h : Ready tr k s load) {e : NetEvent}
    (hfits : Fits e) (hstep : s.step tr e = some t) :
    (∃ load', Ready tr k t load') ∧
      Run.exec WorkQueue.step (s.frames tr) (s.workEvents tr e) = some (t.frames tr) := by
  have hquiet : t.dev.tx = s.dev.tx → t.bytes = s.bytes → (∃ load', Ready tr k t load') ∧
      Run.exec WorkQueue.step (s.frames tr) [] = some (t.frames tr) := fun htx hbytes =>
    ⟨⟨load, (h.same hback htx hbytes).1⟩, congrArg some (h.same hback htx hbytes).2.symm⟩
  cases e with
  | send buffer maxBackStep => exact h.send hback htr hfits hstep
  | receive =>
    obtain ⟨dev, hdev, rfl⟩ := Option.map_eq_some_iff.mp hstep
    obtain ⟨⟨dev, handled⟩, hreceive, rfl⟩ := Option.map_eq_some_iff.mp hdev
    refine hquiet ?_ rfl
    unfold VirtioNet.receiveActivity at hreceive
    split_ifs at hreceive
    · obtain ⟨r, -, hr⟩ := Option.map_eq_some_iff.mp hreceive
      obtain ⟨rfl, -⟩ := Prod.mk.inj hr
      rfl
    · obtain ⟨rfl, -⟩ := Prod.mk.inj (Option.some.inj hreceive)
      rfl
  | refill i =>
    obtain rfl := Option.some.inj hstep
    exact hquiet rfl rfl
  | fetch queue =>
    cases queue with
    | rx =>
      obtain ⟨dev, hdev, rfl⟩ := Option.map_eq_some_iff.mp hstep
      obtain ⟨rx, -, rfl⟩ := Option.map_eq_some_iff.mp hdev
      exact hquiet rfl rfl
    | tx =>
      obtain ⟨hready, hframes⟩ := h.fetch hback hstep
      exact ⟨⟨load, hready⟩, by simpa [workEvents, Run.exec] using hframes⟩
  | complete queue i len =>
    cases queue with
    | rx =>
      obtain ⟨dev, hdev, rfl⟩ := Option.map_eq_some_iff.mp hstep
      obtain ⟨rx, -, rfl⟩ := Option.map_eq_some_iff.mp hdev
      exact hquiet rfl rfl
    | tx =>
      obtain ⟨hready, hframes⟩ := h.complete hback hstep
      exact ⟨⟨load, hready⟩, by simpa [workEvents, Run.exec] using hframes⟩

theorem Ready.run (htr : ∀ buf, tr.virtToPhys buf ≠ 0) (h : Ready tr k s load) {es : List NetEvent}
    (hfits : ∀ e ∈ es, Fits e) (hrun : Run.exec (step tr) s es = some t) :
    Run.exec WorkQueue.step (s.frames tr) (s.runEvents tr es) = some (t.frames tr) := by
  induction es generalizing s load with
  | nil => exact congrArg (Option.map (VirtioMemory.frames tr)) hrun
  | cons e es ih =>
    obtain ⟨m, hm, hrest⟩ := Run.exec_cons.mp hrun
    obtain ⟨hfirst, hothers⟩ := List.forall_mem_cons.mp hfits
    obtain ⟨⟨load', hready⟩, hstep⟩ := h.next hback htr hfirst hm
    rw [runEvents, hm]
    exact Run.exec_append.mpr ⟨_, hstep, ih hready hothers hrest⟩

end

/-- As long as no frame is longer than a buffer, the device finds in memory what has been sent: it
takes the frames in order and may finish them in any order. -/
theorem virtio_transmits_frames {tr : Translation} {k : Nat} {rxSize txSize : BitVec 16}
    {bytes : Nat → BitVec 8} {es : List NetEvent} {t : VirtioMemory}
    (htr : ∀ buf, tr.virtToPhys buf ≠ 0)
    (hback : ∀ buf, tr.physToVirt (tr.virtToPhys buf) = some buf) (htx : txSize.toNat = 2 ^ k)
    (hk : 1 ≤ k) (hfits : ∀ e ∈ es, Fits e)
    (hrun : Run.exec (step tr) ⟨.setup rxSize txSize, bytes⟩ es = some t) :
    let events := runEvents tr ⟨.setup rxSize txSize, bytes⟩ es
    Run.exec WorkQueue.step .empty events = some (t.frames tr) ∧
      (t.frames tr).waiting = (WorkQueue.posted events).drop (WorkQueue.takes events) := by
  have hready : Ready tr k ⟨.setup rxSize txSize, bytes⟩ fun _ => [] :=
    ⟨_, [], QueueRun.setup_sound htx hk, fun c hc => nomatch hc⟩
  have hexec := Ready.run hback htr hready hfits hrun
  exact ⟨hexec, (WorkQueue.exec_waiting hexec).1⟩

open VirtioNet in
theorem virtio_transmits_frames_exchange : ∃ t,
    Run.exec (step segments) ⟨.setup 2 4, fun _ => 0⟩ exchange = some t ∧
      Run.exec WorkQueue.step .empty [.post (some [1, 2, 3]), .post (some [4]), .take, .take,
        .finish 1, .post (some [6]), .finish 0] = some (t.frames segments) := by
  have hsome : (Run.exec (step segments) ⟨.setup 2 4, fun _ => 0⟩ exchange).isSome = true := rfl
  obtain ⟨t, hrun⟩ := Option.isSome_iff_exists.mp hsome
  have hfits : ∀ e ∈ exchange, Fits e := by simp [exchange, Fits, maxPacketSize]
  exact ⟨t, hrun, (virtio_transmits_frames (k := 2) segments_ne segments_back rfl (by decide) hfits
    hrun).1⟩

end VirtioMemory

end Chpok
