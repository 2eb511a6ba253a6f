import Chpok.Syspart.Virtqueue
import Chpok.Library.ChainPool
import Chpok.Library.FreeRunning
import Mathlib.Data.List.Perm.Basic
import Mathlib.Tactic.Ring

/-! The descriptors of a virtio queue: each one is free or belongs to one chain in flight, and
both rings hold what has not been read yet. -/

namespace Chpok

open ChainPool FreeRunning

namespace Virtqueue

variable {vq : Virtqueue} {c : List Nat} {fuel a last : Nat} {total : BitVec 16}

def next (vq : Virtqueue) (i : Nat) : Nat := (vq.desc i).next.toNat

/-- The descriptor is continued by the next one. -/
def more (vq : Virtqueue) (i : Nat) : Bool := (vq.desc i).flags &&& vringDescFNext ≠ 0

theorem next_updateDesc (i : Nat) (f : VringDesc → VringDesc) :
    (vq.updateDesc i f).next = Function.update vq.next i (f (vq.desc i)).next.toNat := by
  funext j
  by_cases hj : j = i
  · subst hj
    simp [next, updateDesc]
  · simp [next, updateDesc, hj]

theorem more_updateDesc (i : Nat) (f : VringDesc → VringDesc) : (vq.updateDesc i f).more =
    Function.update vq.more i (decide ((f (vq.desc i)).flags &&& vringDescFNext ≠ 0)) := by
  funext j
  by_cases hj : j = i
  · subst hj
    simp [more, updateDesc]
  · simp [more, updateDesc, hj]

theorem next_updateDesc_of_eq {i : Nat} {f : VringDesc → VringDesc}
    (hf : (f (vq.desc i)).next = (vq.desc i).next) : (vq.updateDesc i f).next = vq.next := by
  rw [next_updateDesc, hf]
  exact Function.update_eq_self i vq.next

theorem more_updateDesc_of_flags {i : Nat} {f : VringDesc → VringDesc} {b : Bool}
    (hf : decide ((f (vq.desc i)).flags &&& vringDescFNext ≠ 0) = b) :
    (vq.updateDesc i f).more = Function.update vq.more i b := by
  rw [more_updateDesc, hf]

theorem next_giveBack (e : VringUsedElem) (i : Nat) :
    (vq.giveBack e i total).next = Function.update vq.next i vq.freeIndex.toNat :=
  next_updateDesc i fun desc => { desc with next := vq.freeIndex }

theorem more_giveBack (e : VringUsedElem) (i : Nat) : (vq.giveBack e i total).more = vq.more := by
  refine (more_updateDesc i fun desc => { desc with next := vq.freeIndex }).trans ?_
  exact Function.update_eq_self i vq.more

theorem addr_giveBack (e : VringUsedElem) (i j : Nat) :
    ((vq.giveBack e i total).desc j).addr = (vq.desc j).addr := by
  change (Function.update vq.desc i { vq.desc i with next := vq.freeIndex } j).addr = _
  by_cases hj : j = i
  · subst hj
    rw [Function.update_self]
  · rw [Function.update_of_ne hj]

/-- The walk along a chain ends at its last descriptor, with the number of all. -/
theorem tailOf_eq (h : Chain vq.next vq.more c) (ha : a ∈ c.head?) (hlast : last ∈ c.getLast?)
    (hfuel : c.length ≤ fuel) :
    vq.tailOf fuel a total = some (last, total + BitVec.ofNat 16 (c.length - 1)) := by
  induction c generalizing fuel a total with
  | nil => cases ha
  | cons x c ih =>
    obtain rfl : x = a := Option.some.inj ha
    obtain ⟨fuel, rfl⟩ := Nat.exists_eq_succ_of_ne_zero (Nat.ne_zero_of_lt hfuel)
    rw [tailOf]
    cases c with
    | nil =>
      obtain rfl : x = last := Option.some.inj hlast
      have hend : ¬ (vq.desc x).flags &&& vringDescFNext ≠ 0 := of_decide_eq_false h
      rw [if_neg hend]
      simp
    | cons y c =>
      obtain ⟨hmore, hnext, hrest⟩ := h
      have hnext : (vq.desc x).next.toNat = y := hnext
      have hlast : last ∈ (y :: c).getLast? := by simpa using hlast
      rw [if_pos (of_decide_eq_true hmore), hnext,
        ih hrest rfl hlast (Nat.le_of_succ_le_succ hfuel)]
      have hcount : total + 1 + BitVec.ofNat 16 ((y :: c).length - 1) =
          total + BitVec.ofNat 16 ((x :: y :: c).length - 1) := by
        rw [List.length_cons, List.length_cons, Nat.add_sub_cancel, Nat.add_sub_cancel,
          List.length_cons, ← ofNat_succ, BitVec.add_assoc, BitVec.add_comm 1]
      rw [hcount]

theorem reclaim_eq {e : VringUsedElem} (h : Chain vq.next vq.more c) (ha : e.id.toNat ∈ c.head?)
    (hlast : last ∈ c.getLast?) (hfuel : c.length ≤ vq.num) :
    vq.reclaim e = some (vq.giveBack e last (BitVec.ofNat 16 c.length)) := by
  have hpos : 0 < c.length := List.length_pos_iff.mpr h.ne_nil
  have hcount : (1 : BitVec 16) + BitVec.ofNat 16 (c.length - 1) = BitVec.ofNat 16 c.length := by
    rw [BitVec.add_comm, ofNat_succ, Nat.sub_add_cancel hpos]
  rw [reclaim, tailOf_eq h ha hlast hfuel, hcount]
  rfl

end Virtqueue

/-- The chains of the queue have `len` descriptors each. -/
structure QueueRun.Sound (tr : Translation) (k len : Nat) (s : QueueRun) (free : List Nat)
    (chains : List (List Nat)) : Prop where
  num : s.vq.num = 2 ^ k
  size : 1 ≤ k ∧ k < 16
  pool : Pool s.vq.next s.vq.more s.vq.freeIndex.toNat free chains
  bound : ∀ i ∈ free ++ chains.flatten, i < s.vq.num
  total : (free ++ chains.flatten).length = s.vq.num
  count : s.vq.numFree.toNat = free.length
  lengths : ∀ c ∈ chains, c.length = len
  mapped : ∀ i ∈ chains.flatten, ∃ buf, (s.vq.desc i).addr = tr.virtToPhys buf
  availIdx : s.vq.availIdx = BitVec.ofNat 16 s.posted.length
  deviceIdx : s.deviceIdx = BitVec.ofNat 16 s.fetched.length
  usedIdx : s.vq.usedIdx = BitVec.ofNat 16 s.completed.length
  seen : s.vq.lastSeenUsed = BitVec.ofNat 16 s.processed.length
  avail : Holds s.vq.availRing s.vq.num s.posted s.fetched.length
  used : Holds s.vq.usedRing s.vq.num s.completed s.processed.length
  fetched : s.fetched <+: s.posted
  processed : s.processed <+: s.completed
  heads : (chains.map (·.headD 0)).Perm ((s.posted.drop s.fetched.length).map BitVec.toNat ++
    (s.pending.map BitVec.toNat ++
      (s.completed.drop s.processed.length).map fun e => e.id.toNat))

namespace QueueRun

variable {tr : Translation} {k len : Nat} {s : QueueRun} {free rest c : List Nat}
  {chains : List (List Nat)} {vq : Virtqueue} {head : BitVec 16}

theorem Sound.slot_ofNat (h : Sound tr k len s free chains) (hnum : vq.num = s.vq.num) (i : Nat) :
    vq.slot (BitVec.ofNat 16 i) = i % s.vq.num := by
  rw [Virtqueue.slot, hnum, h.num]
  exact mask_eq (Nat.le_of_lt_succ (Nat.lt_succ_of_lt h.size.2)) (by decide)

theorem flatten_length (h : ∀ c ∈ chains, c.length = len) :
    chains.flatten.length = len * chains.length := by
  induction chains with
  | nil => simp
  | cons c chains ih =>
    rw [List.flatten_cons, List.length_append, h c (by simp),
      ih fun d hd => h d (by simp [hd]), List.length_cons]
    ring

theorem Sound.window (h : Sound tr k len s free chains) (hlen : 0 < len) :
    (s.posted.length - s.fetched.length) + (s.pending.length +
      (s.completed.length - s.processed.length)) = chains.length ∧
    chains.length ≤ s.vq.num := by
  have hheads := h.heads.length_eq
  simp only [List.length_map, List.length_append, List.length_drop] at hheads
  have htotal := h.total
  rw [List.length_append, flatten_length h.lengths] at htotal
  have hle : chains.length ≤ len * chains.length := Nat.le_mul_of_pos_left _ hlen
  exact ⟨hheads.symm, by omega⟩

theorem Sound.num_lt (h : Sound tr k len s free chains) : s.vq.num < 2 ^ 16 := by
  rw [h.num]
  exact Nat.pow_lt_pow_right (by decide) h.size.2

theorem Sound.processed_all (h : Sound tr k len s free chains) (hlen : 0 < len)
    (hdone : s.vq.lastSeenUsed = s.vq.usedIdx) : s.processed = s.completed := by
  obtain ⟨hwindow, hchains⟩ := h.window hlen
  have hnum := h.num_lt
  have hle := h.processed.length_le
  rw [h.seen, h.usedIdx, ofNat_inj hle (by omega)] at hdone
  exact h.processed.eq_of_length hdone

/-- Free descriptors are made a chain that is available to the device. -/
theorem Sound.makeAvailable (h : Sound tr k len s (c ++ rest) chains) (hlen : 0 < len)
    (hc : c.length = len) (hhead : head.toNat ∈ c.head?) (hnum : vq.num = s.vq.num)
    (hpool : Pool vq.next vq.more vq.freeIndex.toNat rest (c :: chains))
    (hcount : vq.numFree.toNat = rest.length)
    (hmapped : ∀ i ∈ c ++ chains.flatten, ∃ buf, (vq.desc i).addr = tr.virtToPhys buf)
    (havail : vq.availRing = s.vq.availRing ∧ vq.availIdx = s.vq.availIdx)
    (hused : vq.usedRing = s.vq.usedRing ∧ vq.usedIdx = s.vq.usedIdx ∧
      vq.lastSeenUsed = s.vq.lastSeenUsed) :
    Sound tr k len (s.post (vq.makeAvailable head, some head)) rest (c :: chains) := by
  have hperm : (rest ++ (c :: chains).flatten).Perm (c ++ rest ++ chains.flatten) := by
    rw [List.flatten_cons, ← List.append_assoc]
    exact List.perm_append_comm.append_right _
  have hlengths : ∀ d ∈ c :: chains, d.length = len := by
    intro d hd
    rcases List.mem_cons.mp hd with rfl | hd
    · exact hc
    · exact h.lengths d hd
  have htotal : (rest ++ (c :: chains).flatten).length = s.vq.num := hperm.length_eq.trans h.total
  have hchains : (c :: chains).length ≤ s.vq.num := by
    rw [List.length_append, flatten_length hlengths] at htotal
    have hle := Nat.le_mul_of_pos_left (c :: chains).length hlen
    omega
  have hwindow := (h.window hlen).1
  rw [List.length_cons] at hchains
  have hroom : s.posted.length < s.fetched.length + s.vq.num := by omega
  have hslot : vq.slot vq.availIdx = s.posted.length % s.vq.num := by
    rw [havail.2, h.availIdx]
    exact h.slot_ofNat hnum _
  refine
    { num := hnum.trans h.num
      size := h.size
      pool := hpool
      bound := fun i hi => ?_
      total := htotal.trans hnum.symm
      count := hcount
      lengths := hlengths
      mapped := hmapped
      availIdx := ?_
      deviceIdx := h.deviceIdx
      usedIdx := hused.2.1.trans h.usedIdx
      seen := hused.2.2.trans h.seen
      avail := ?_
      used := ?_
      fetched := h.fetched.trans (List.prefix_append _ _)
      processed := h.processed
      heads := ?_ }
  · exact hnum.symm ▸ h.bound i (hperm.mem_iff.mp hi)
  · change vq.availIdx + 1 = BitVec.ofNat 16 (s.posted ++ [head]).length
    rw [havail.2, h.availIdx, ofNat_succ, List.length_append]
    rfl
  · change Holds (Function.update vq.availRing (vq.slot vq.availIdx) head) vq.num _ _
    rw [hslot, havail.1, hnum]
    exact h.avail.write hroom head
  · change Holds vq.usedRing vq.num _ _
    rw [hused.1, hnum]
    exact h.used
  · have hle : s.fetched.length ≤ s.posted.length := h.fetched.length_le
    have hfirst : c.headD 0 = head.toNat := by
      cases c with
      | nil => cases hhead
      | cons x c => exact Option.some.inj hhead
    change ((c :: chains).map (·.headD 0)).Perm
      (((s.posted ++ [head]).drop s.fetched.length).map BitVec.toNat ++
        (s.pending.map BitVec.toNat ++
          (s.completed.drop s.processed.length).map fun e => e.id.toNat))
    rw [List.drop_append_of_le_length hle, List.map_cons, hfirst, List.map_append, List.append_assoc]
    exact (h.heads.cons head.toNat).trans List.perm_middle.symm

/-- The device fetches what was posted, in order. -/
theorem Sound.fetch (h : Sound tr k len s free chains) (hlen : 0 < len) {t : QueueRun}
    (ht : s.fetch = some t) : Sound tr k len t free chains := by
  obtain ⟨hwindow, hchains⟩ := h.window hlen
  have hnum := h.num_lt
  have hle := h.fetched.length_le
  rw [QueueRun.fetch] at ht
  split_ifs at ht with hempty
  obtain rfl := Option.some.inj ht
  have hlt : s.fetched.length < s.posted.length := by
    apply Nat.lt_of_le_of_ne hle
    intro heq
    rw [h.deviceIdx, h.availIdx, heq] at hempty
    exact hempty rfl
  have hhead : s.vq.availRing (s.vq.slot s.deviceIdx) = s.posted[s.fetched.length] := by
    rw [h.deviceIdx, h.slot_ofNat rfl]
    exact h.avail.read (List.getElem?_eq_getElem hlt)
  have hfetched := prefix_concat h.fetched hlt
  have hlength : (s.fetched ++ [s.posted[s.fetched.length]]).length = s.fetched.length + 1 := by
    rw [List.length_append]
    rfl
  rw [hhead]
  refine
    { h with
      deviceIdx := ?_
      avail := ?_
      fetched := hfetched
      heads := ?_ }
  · change s.deviceIdx + 1 = BitVec.ofNat 16 (s.fetched ++ [s.posted[s.fetched.length]]).length
    rw [hlength, h.deviceIdx, ofNat_succ]
  · change Holds s.vq.availRing s.vq.num s.posted (s.fetched ++ [s.posted[s.fetched.length]]).length
    rw [hlength]
    exact h.avail.mono (Nat.le_succ _)
  · change (chains.map (·.headD 0)).Perm
      ((s.posted.drop (s.fetched ++ [s.posted[s.fetched.length]]).length).map BitVec.toNat ++
        ((s.pending ++ [s.posted[s.fetched.length]]).map BitVec.toNat ++
          (s.completed.drop s.processed.length).map fun e => e.id.toNat))
    have hheads := h.heads
    rw [List.drop_eq_getElem_cons hlt, List.map_cons, List.cons_append] at hheads
    rw [hlength, List.map_append, List.append_assoc, List.map_singleton, List.singleton_append,
      ← List.append_assoc]
    rw [← List.append_assoc] at hheads
    exact hheads.trans List.perm_middle.symm

/-- The device gives one of its chains back. -/
theorem Sound.complete (h : Sound tr k len s free chains) (hlen : 0 < len) {t : QueueRun} {i : Nat}
    {l : BitVec 32} (ht : s.complete i l = some t) : Sound tr k len t free chains := by
  obtain ⟨hwindow, hchains⟩ := h.window hlen
  obtain ⟨head, hhead, rfl⟩ := Option.map_eq_some_iff.mp ht
  obtain ⟨hi, hget⟩ := List.getElem?_eq_some_iff.mp hhead
  have hpending : 0 < s.pending.length := Nat.zero_lt_of_lt hi
  have hle := h.processed.length_le
  have hslot : s.vq.slot s.vq.usedIdx = s.completed.length % s.vq.num := by
    rw [h.usedIdx]
    exact h.slot_ofNat rfl _
  have hid : ((head.setWidth 32 : BitVec 32)).toNat = head.toNat := by
    have := head.isLt
    rw [BitVec.toNat_setWidth]
    omega
  set e : VringUsedElem := ⟨head.setWidth 32, l⟩
  refine
    { h with
      usedIdx := ?_
      used := ?_
      processed := h.processed.trans (List.prefix_append _ _)
      heads := ?_ }
  · change s.vq.usedIdx + 1 = BitVec.ofNat 16 (s.completed ++ [e]).length
    rw [h.usedIdx, ofNat_succ, List.length_append]
    rfl
  · change Holds (Function.update s.vq.usedRing (s.vq.slot s.vq.usedIdx) e) s.vq.num
      (s.completed ++ [e]) s.processed.length
    rw [hslot]
    exact h.used.write (by omega) e
  · change (chains.map (·.headD 0)).Perm ((s.posted.drop s.fetched.length).map BitVec.toNat ++
      ((s.pending.eraseIdx i).map BitVec.toNat ++
        ((s.completed ++ [e]).drop s.processed.length).map fun e => e.id.toNat))
    have herase : (s.pending.map BitVec.toNat).Perm
        (head.toNat :: (s.pending.eraseIdx i).map BitVec.toNat) := by
      rw [← List.map_cons, ← hget]
      exact (List.getElem_cons_eraseIdx_perm hi).symm.map _
    rw [List.drop_append_of_le_length hle, List.map_append, List.map_singleton, hid,
      ← List.append_assoc (List.map BitVec.toNat (s.pending.eraseIdx i))]
    apply h.heads.trans
    apply List.Perm.append_left
    exact (herase.append_right _).trans (List.perm_append_singleton _ _).symm

/-- The chain of the next completion is given back to the free list. -/
theorem Sound.reclaim (h : Sound tr k len s free chains) (hlen : 0 < len)
    (hmore : s.vq.lastSeenUsed ≠ s.vq.usedIdx) :
    ∃ e c before after vq, s.vq.usedRing (s.vq.slot s.vq.lastSeenUsed) = e ∧
      s.completed[s.processed.length]? = some e ∧ e.id.toNat ∈ c.head? ∧
      chains = before ++ c :: after ∧ s.vq.reclaim e = some vq ∧
      Sound tr k len { s with vq, processed := s.processed ++ [e] } (c ++ free)
        (before ++ after) := by
  obtain ⟨hwindow, hchains⟩ := h.window hlen
  have hle := h.processed.length_le
  have hlt : s.processed.length < s.completed.length := by
    apply Nat.lt_of_le_of_ne hle
    intro heq
    rw [h.seen, h.usedIdx, heq] at hmore
    exact hmore rfl
  set e := s.completed[s.processed.length] with he
  have hget : s.completed[s.processed.length]? = some e := List.getElem?_eq_getElem hlt
  have hread : s.vq.usedRing (s.vq.slot s.vq.lastSeenUsed) = e := by
    rw [h.seen, h.slot_ofNat rfl]
    exact h.used.read hget
  have hheads := h.heads
  rw [List.drop_eq_getElem_cons hlt, List.map_cons, ← List.append_assoc] at hheads
  have hmem : e.id.toNat ∈ chains.map (·.headD 0) := hheads.mem_iff.mpr (by simp [he])
  obtain ⟨c, hc, hhead⟩ := List.mem_map.mp hmem
  obtain ⟨before, after, rfl⟩ := List.append_of_mem hc
  have hchain := h.pool.chained c hc
  have hfirst : e.id.toNat ∈ c.head? := by
    cases c with
    | nil => exact absurd rfl hchain.ne_nil
    | cons x c => exact congrArg some hhead
  obtain ⟨last, hlast⟩ := Option.isSome_iff_exists.mp (List.getLast?_isSome.mpr hchain.ne_nil)
  have hperm := release_perm before after c free
  have htotal := hperm.length_eq.trans h.total
  have hnum := h.num_lt
  have hcfree : c.length + free.length ≤ s.vq.num := by
    rw [List.length_append, List.length_append] at htotal
    omega
  have hidlt : e.id.toNat < s.vq.num := by
    apply h.bound
    have hmem : e.id.toNat ∈ (before ++ c :: after).flatten :=
      List.mem_flatten_of_mem hc (List.mem_of_mem_head? hfirst)
    exact List.mem_append_right _ hmem
  have hid : (e.id.setWidth 16).toNat = e.id.toNat := by
    rw [BitVec.toNat_setWidth]
    exact Nat.mod_eq_of_lt (by omega)
  have hsub : ∀ d ∈ before ++ after, d ∈ before ++ c :: after := by
    intro d hd
    rcases List.mem_append.mp hd with hd | hd <;> simp [hd]
  have hreclaim := Virtqueue.reclaim_eq hchain hfirst hlast (by omega)
  refine ⟨e, c, before, after, _, hread, hget, hfirst, rfl, hreclaim, ?_⟩
  have hpool := h.pool.release hfirst hlast
  refine
    { h with
      pool := ?_
      bound := fun i hi => h.bound i (hperm.mem_iff.mp hi)
      total := htotal
      count := ?_
      lengths := fun d hd => h.lengths d (hsub d hd)
      mapped := fun i hi => ?_
      seen := ?_
      used := ?_
      processed := prefix_concat h.processed hlt
      heads := ?_ }
  · change Pool (s.vq.giveBack e last _).next (s.vq.giveBack e last _).more
      (e.id.setWidth 16).toNat _ _
    rw [Virtqueue.next_giveBack, Virtqueue.more_giveBack, hid]
    exact hpool
  · change (s.vq.numFree + BitVec.ofNat 16 c.length).toNat = (c ++ free).length
    rw [BitVec.toNat_add, h.count, BitVec.toNat_ofNat, List.length_append]
    omega
  · obtain ⟨d, hd, hi⟩ := List.mem_flatten.mp hi
    obtain ⟨buf, hbuf⟩ := h.mapped i (List.mem_flatten_of_mem (hsub d hd) hi)
    exact ⟨buf, (Virtqueue.addr_giveBack e last i).trans hbuf⟩
  · change s.vq.lastSeenUsed + 1 = BitVec.ofNat 16 (s.processed ++ [e]).length
    rw [h.seen, ofNat_succ, List.length_append]
    rfl
  · change Holds s.vq.usedRing s.vq.num s.completed (s.processed ++ [e]).length
    exact h.used.mono (by simp)
  · change ((before ++ after).map (·.headD 0)).Perm
      ((s.posted.drop s.fetched.length).map BitVec.toNat ++ (s.pending.map BitVec.toNat ++
        (s.completed.drop (s.processed ++ [e]).length).map fun e => e.id.toNat))
    rw [List.length_append, List.length_singleton, ← List.append_assoc]
    apply List.Perm.cons_inv (a := e.id.toNat)
    refine List.Perm.trans ?_ (hheads.trans List.perm_middle)
    rw [← hhead, ← List.map_cons (f := fun d : List Nat => d.headD 0)]
    exact List.perm_middle.symm.map _

end QueueRun

end Chpok
