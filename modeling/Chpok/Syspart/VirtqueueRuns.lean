import Chpok.Syspart.VirtqueueAccounting
import Mathlib.Data.List.Range

/-! The driver and the device take their steps in any order. -/

namespace Chpok

open ChainPool FreeRunning

namespace QueueRun

variable {tr : Translation} {k len fuel : Nat} {s : QueueRun} {free : List Nat}
  {chains : List (List Nat)} {buf : NetBuffer}

theorem setup_sound {size : BitVec 16} (hsize : size.toNat = 2 ^ k) (hk : 1 ≤ k) :
    Sound tr k len (setup size) (List.range size.toNat) [] := by
  have hk16 : k < 16 := by
    have := size.isLt
    rw [hsize] at this
    exact (Nat.pow_lt_pow_iff_right (by decide)).mp this
  refine
    { num := hsize
      size := ⟨hk, hk16⟩
      pool := ⟨?_, ?_, ?_, nofun⟩
      bound := ?_
      total := by simp [setup, Virtqueue.setup]
      count := by simp [setup, Virtqueue.setup]
      lengths := nofun
      mapped := nofun
      availIdx := rfl
      deviceIdx := rfl
      usedIdx := rfl
      seen := rfl
      avail := holds_nil
      used := holds_nil
      fetched := List.prefix_refl _
      processed := List.prefix_refl _
      heads := List.Perm.refl _ }
  · simpa using List.nodup_range
  · intro a ha
    have hpos : 0 < size.toNat := by
      rw [hsize]
      exact Nat.two_pow_pos k
    rw [List.head?_range, if_neg (Nat.ne_of_gt hpos)] at ha
    exact Option.some.inj ha
  · rw [List.isChain_range]
    intro i hi
    have hlt := size.isLt
    have hnext : (setup size).vq.next i = (i + 1) % 2 ^ 16 := by
      simp [setup, Virtqueue.setup, Virtqueue.next, hi]
    rw [hnext]
    exact Nat.mod_eq_of_lt (by omega)
  · intro i hi
    have hnum : (setup size).vq.num = size.toNat := rfl
    rw [hnum]
    simpa using hi

/-- A buffer is posted if there is a free descriptor for it. -/
theorem Sound.useReceiveBuffer (h : Sound tr k 1 s free chains) (htr : tr.virtToPhys buf ≠ 0) :
    ∃ free chains, Sound tr k 1 (s.post (s.vq.useReceiveBuffer tr buf)) free chains := by
  have hlt : s.vq.numFree < 1 ↔ free.length < 1 := by
    rw [BitVec.lt_def, h.count]
    rfl
  rw [Virtqueue.useReceiveBuffer]
  by_cases hnone : s.vq.numFree < 1
  · rw [if_pos hnone]
    refine ⟨free, chains, ?_⟩
    have hsame : s.post (s.vq, none) = s := by simp [post]
    rw [hsame]
    exact h
  · rw [if_neg hnone]
    dsimp only
    rw [if_neg htr]
    cases free with
    | nil => exact absurd (hlt.mpr Nat.one_pos) hnone
    | cons a rest =>
      obtain rfl : s.vq.freeIndex.toNat = a := h.pool.first a rfl
      set vq : Virtqueue := { s.vq with
        numFree := s.vq.numFree - 1
        freeIndex := (s.vq.desc s.vq.freeIndex.toNat).next }.updateDesc s.vq.freeIndex.toNat
          fun desc => { desc with addr := tr.virtToPhys buf, len := 1510, flags := vringDescFWrite }
        with hvq
      have hnext : vq.next = s.vq.next := Virtqueue.next_updateDesc_of_eq rfl
      have hwrite : decide (vringDescFWrite &&& vringDescFNext ≠ 0) = false := by decide
      have hmore : vq.more = Function.update s.vq.more s.vq.freeIndex.toNat false :=
        Virtqueue.more_updateDesc_of_flags hwrite
      have hchain : Chain s.vq.next vq.more [s.vq.freeIndex.toNat] := by
        rw [hmore]
        exact Function.update_self ..
      have hnotMem : s.vq.freeIndex.toNat ∉ chains.flatten := by
        intro hmem
        have hdisjoint := List.disjoint_of_nodup_append h.pool.nodup
        exact hdisjoint List.mem_cons_self hmem
      have hpool : Pool vq.next vq.more vq.freeIndex.toNat rest ([s.vq.freeIndex.toNat] :: chains) := by
        rw [hnext]
        refine Pool.take (c := [s.vq.freeIndex.toNat]) h.pool hchain (fun i hi => ?_) rfl
        rw [hmore, Function.update_of_ne fun heq => hi (List.mem_singleton.mpr heq)]
      refine ⟨rest, [s.vq.freeIndex.toNat] :: chains, Sound.makeAvailable
        (c := [s.vq.freeIndex.toNat]) h Nat.one_pos rfl rfl rfl hpool ?_ (fun i hi => ?_)
        ⟨rfl, rfl⟩ ⟨rfl, rfl, rfl⟩⟩
      · have hcount := h.count
        rw [List.length_cons] at hcount
        change (s.vq.numFree - 1).toNat = rest.length
        bv_omega
      · change ∃ buf, (Function.update s.vq.desc s.vq.freeIndex.toNat _ i).addr = tr.virtToPhys buf
        rcases List.mem_append.mp hi with hi | hi
        · obtain rfl := List.mem_singleton.mp hi
          rw [Function.update_self]
          exact ⟨buf, rfl⟩
        · rw [Function.update_of_ne (ne_of_mem_of_not_mem hi hnotMem)]
          exact h.mapped i hi

theorem Sound.pairs (h : Sound tr k 2 s free chains) (hfree : free ≠ []) :
    ∃ a b rest, free = a :: b :: rest := by
  have htotal := h.total
  rw [List.length_append, flatten_length h.lengths, h.num] at htotal
  have heven : 2 ^ k % 2 = 0 := by
    obtain ⟨j, rfl⟩ := Nat.exists_eq_add_of_le h.size.1
    rw [Nat.pow_add]
    exact Nat.mul_mod_right 2 _
  cases free with
  | nil => exact absurd rfl hfree
  | cons a free =>
    cases free with
    | nil =>
      rw [List.length_singleton] at htotal
      omega
    | cons b rest => exact ⟨a, b, rest, rfl⟩

/-- A frame takes two free descriptors. -/
theorem Sound.postFrame (h : Sound tr k 2 s free chains) (htr : ∀ buf, tr.virtToPhys buf ≠ 0)
    (hfree : free ≠ []) (size : Nat) :
    ∃ a b rest, free = a :: b :: rest ∧ (s.vq.postFrame tr size).2 = some s.vq.freeIndex ∧
      Sound tr k 2 (s.post (s.vq.postFrame tr size)) rest ([a, b] :: chains) := by
  obtain ⟨a, b, rest, rfl⟩ := h.pairs hfree
  obtain rfl : s.vq.freeIndex.toNat = a := h.pool.first a rfl
  set a := s.vq.freeIndex.toNat with ha
  have hsecond : (s.vq.desc a).next.toNat = b := (List.isChain_cons_cons.mp h.pool.linked).1
  have hab : a ≠ b := by
    intro heq
    have hnodup := (List.nodup_append'.mp h.pool.nodup).1
    rw [heq] at hnodup
    simp at hnodup
  have hnext : (s.vq.putNetHdr tr).next = s.vq.next := Virtqueue.next_updateDesc_of_eq rfl
  have hcontinued : decide (vringDescFNext &&& vringDescFNext ≠ 0) = true := by decide
  have hmore : (s.vq.putNetHdr tr).more = Function.update s.vq.more a true :=
    Virtqueue.more_updateDesc_of_flags hcontinued
  have hputSecond : ((s.vq.putNetHdr tr).desc a).next.toNat = b :=
    (congrFun hnext a).trans hsecond
  set vq : Virtqueue := (s.vq.putNetHdr tr).updateDesc b fun desc =>
    { desc with
      addr := tr.virtToPhys (.send s.vq.freeIndex)
      len := BitVec.ofNat 32 size
      flags := 0 } with hvq
  have hpost : s.vq.postFrame tr size = ({ vq with freeIndex := (vq.desc b).next }.makeAvailable
      s.vq.freeIndex, some s.vq.freeIndex) := by
    rw [Virtqueue.postFrame]
    dsimp only
    rw [if_neg (htr _), ← ha, hputSecond]
  have hnext' : vq.next = s.vq.next := (Virtqueue.next_updateDesc_of_eq rfl).trans hnext
  have hmore' : vq.more = Function.update (Function.update s.vq.more a true) b false := by
    have hlast : decide ((0 : BitVec 16) &&& vringDescFNext ≠ 0) = false := by decide
    rw [← hmore]
    exact Virtqueue.more_updateDesc_of_flags hlast
  have hchain : Chain s.vq.next vq.more [a, b] := by
    rw [hmore']
    refine ⟨?_, hsecond, Function.update_self ..⟩
    rw [Function.update_of_ne hab, Function.update_self]
  have hpool : Pool vq.next vq.more (vq.next b) rest ([a, b] :: chains) := by
    rw [hnext']
    refine Pool.take (c := [a, b]) h.pool hchain (fun i hi => ?_) rfl
    rw [List.mem_cons, List.mem_singleton, not_or] at hi
    rw [hmore', Function.update_of_ne hi.2, Function.update_of_ne hi.1]
  refine ⟨a, b, rest, rfl, by rw [hpost], ?_⟩
  rw [hpost]
  refine Sound.makeAvailable (c := [a, b]) h Nat.two_pos rfl rfl rfl hpool ?_ (fun i hi => ?_)
    ⟨rfl, rfl⟩ ⟨rfl, rfl, rfl⟩
  · have hcount := h.count
    rw [List.length_cons, List.length_cons] at hcount
    change (s.vq.numFree - 2).toNat = rest.length
    bv_omega
  · have hnodup := h.pool.nodup
    change ∃ buf, (vq.desc i).addr = tr.virtToPhys buf
    by_cases hib : i = b
    · subst hib
      exact ⟨.send s.vq.freeIndex, by simp [hvq, Virtqueue.updateDesc]⟩
    · by_cases hia : i = a
      · subst hia
        exact ⟨.netHdr, by simp [hvq, Virtqueue.updateDesc, Virtqueue.putNetHdr, hib, ← ha]⟩
      · have hmem : i ∈ chains.flatten := by simpa [hia, hib] using hi
        have hsame : vq.desc i = s.vq.desc i := by
          simp [hvq, Virtqueue.updateDesc, Virtqueue.putNetHdr, hib, ← ha, hia]
        rw [hsame]
        exact h.mapped i hmem

/-- What has been completed is processed in order, all of it. -/
theorem Sound.reclaimLoop (h : Sound tr k len s free chains) (hlen : 0 < len)
    (hfuel : s.completed.length - s.processed.length < fuel) (acc : List VringUsedElem) :
    ∃ vq new free chains, Virtqueue.reclaimSendBuffers fuel s.vq acc = some (vq, acc ++ new) ∧
      Sound tr k len { s with vq, processed := s.processed ++ new } free chains ∧
      s.processed ++ new = s.completed := by
  induction fuel generalizing s free chains acc with
  | zero => exact absurd hfuel (Nat.not_lt_zero _)
  | succ fuel ih =>
    rw [Virtqueue.reclaimSendBuffers]
    by_cases hmore : s.vq.lastSeenUsed ≠ s.vq.usedIdx
    · obtain ⟨e, c, before, after, vq, hread, hget, -, -, hreclaim, hsound⟩ :=
        h.reclaim hlen hmore
      have hlt : s.processed.length < s.completed.length :=
        (List.getElem?_eq_some_iff.mp hget).1
      have hlength : (s.processed ++ [e]).length = s.processed.length + 1 := by
        rw [List.length_append]
        rfl
      have hrestFuel : s.completed.length - (s.processed ++ [e]).length < fuel := by omega
      obtain ⟨vq', new, freeT, chainsT, hrest, hsoundT, hall⟩ := ih hsound hrestFuel (acc ++ [e])
      refine ⟨vq', e :: new, freeT, chainsT, ?_, ?_, ?_⟩
      · rw [if_pos hmore, hread]
        dsimp only
        rw [hreclaim, Option.bind_some, List.append_cons acc e new]
        exact hrest
      · rw [List.append_cons s.processed e new]
        exact hsoundT
      · rw [List.append_cons s.processed e new]
        exact hall
    · rw [if_neg hmore]
      refine ⟨s.vq, [], free, chains, by rw [List.append_nil], ?_, ?_⟩
      · rw [List.append_nil]
        exact h
      · rw [List.append_nil]
        exact h.processed_all hlen (not_not.mp hmore)

theorem Sound.reclaimSent (h : Sound tr k len s free chains) (hlen : 0 < len) :
    ∃ t free chains, s.reclaimSent = some t ∧ Sound tr k len t free chains ∧
      t.processed = t.completed := by
  obtain ⟨hwindow, hchains⟩ := h.window hlen
  have hnum := h.num_lt
  have hfuel : s.completed.length - s.processed.length < 2 ^ 16 := by omega
  obtain ⟨vq, new, free', chains', hloop, hsound, hall⟩ := h.reclaimLoop hlen hfuel []
  refine ⟨_, free', chains', ?_, hsound, hall⟩
  rw [QueueRun.reclaimSent, hloop]
  rfl

theorem Sound.reclaimReceived (h : Sound tr k 1 s free chains)
    (hmore : s.vq.lastSeenUsed ≠ s.vq.usedIdx) :
    ∃ e free chains, s.vq.usedRing (s.vq.slot s.vq.lastSeenUsed) = e ∧
      s.completed[s.processed.length]? = some e ∧
      (∃ buf, (s.vq.desc e.id.toNat).addr = tr.virtToPhys buf) ∧
      Sound tr k 1 { s with vq := s.vq.reclaimReceived e, processed := s.processed ++ [e] }
        free chains := by
  obtain ⟨e, c, before, after, vq, hread, hget, hhead, rfl, hreclaim, hsound⟩ :=
    h.reclaim Nat.one_pos hmore
  obtain ⟨x, rfl⟩ := List.length_eq_one_iff.mp (h.lengths c (by simp))
  obtain rfl : x = e.id.toNat := Option.some.inj hhead
  have hchain := h.pool.chained [e.id.toNat] (by simp)
  have hnum : 1 ≤ s.vq.num := by
    rw [h.num]
    exact Nat.one_le_two_pow
  have hsingle : s.vq.reclaim e = some (s.vq.reclaimReceived e) := by
    rw [Virtqueue.reclaim, Virtqueue.tailOf_eq hchain rfl rfl hnum]
    rfl
  obtain rfl := Option.some.inj (hreclaim.symm.trans hsingle)
  refine ⟨e, _, _, hread, hget, h.mapped _ ?_, hsound⟩
  exact List.mem_flatten_of_mem (List.mem_append_right before List.mem_cons_self)
    (List.mem_singleton_self _)

theorem Sound.receiveLoop (htr : ∀ buf, tr.virtToPhys buf ≠ 0)
    (hback : ∀ buf, tr.physToVirt (tr.virtToPhys buf) = some buf) (h : Sound tr k 1 s free chains)
    (hfuel : s.completed.length - s.processed.length < fuel)
    (handled : List (NetBuffer × BitVec 32)) :
    ∃ t all free chains, s.receiveLoop tr fuel handled = some (t, all) ∧ Sound tr k 1 t free chains ∧
      t.completed = s.completed ∧ t.processed = t.completed := by
  induction fuel generalizing s free chains handled with
  | zero => exact absurd hfuel (Nat.not_lt_zero _)
  | succ fuel ih =>
    rw [QueueRun.receiveLoop]
    by_cases hmore : s.vq.lastSeenUsed ≠ s.vq.usedIdx
    · obtain ⟨e, freeR, chainsR, hread, hget, ⟨buf, hbuf⟩, hsound⟩ := h.reclaimReceived hmore
      have hlt : s.processed.length < s.completed.length :=
        (List.getElem?_eq_some_iff.mp hget).1
      have hlength : (s.processed ++ [e]).length = s.processed.length + 1 := by
        rw [List.length_append]
        rfl
      have hrestFuel : s.completed.length - (s.processed ++ [e]).length < fuel := by omega
      obtain ⟨freeP, chainsP, hposted⟩ := hsound.useReceiveBuffer (htr buf)
      obtain ⟨t, all, freeT, chainsT, hrest, ht, hcompleted, hall⟩ :=
        ih hposted hrestFuel (handled ++ [(buf, e.len - 10)])
      refine ⟨t, all, freeT, chainsT, ?_, ht, hcompleted, hall⟩
      rw [if_pos hmore, hread]
      dsimp only
      rw [hbuf, hback]
      exact hrest
    · rw [if_neg hmore]
      exact ⟨s, handled, free, chains, rfl, h, rfl, h.processed_all Nat.one_pos (not_not.mp hmore)⟩

/-- Each descriptor is free or belongs to one chain in flight, and the indices of both rings
tell what has been written and read. -/
structure Accounted (s : QueueRun) (free : List Nat) (chains : List (List Nat)) : Prop where
  first : ∀ i ∈ free.head?, s.vq.freeIndex.toNat = i
  linked : free.IsChain fun i j => (s.vq.desc i).next.toNat = j
  nodup : (free ++ chains.flatten).Nodup
  bound : ∀ i ∈ free ++ chains.flatten, i < s.vq.num
  free : s.vq.numFree.toNat = free.length
  total : s.vq.numFree.toNat + chains.flatten.length = s.vq.num
  chained : ∀ c ∈ chains, Chain s.vq.next s.vq.more c
  heads : (chains.map (·.headD 0)).Perm ((s.posted.drop s.fetched.length).map BitVec.toNat ++
    (s.pending.map BitVec.toNat ++
      (s.completed.drop s.processed.length).map fun e => e.id.toNat))
  availIdx : s.vq.availIdx = BitVec.ofNat 16 s.posted.length
  usedIdx : s.vq.usedIdx = BitVec.ofNat 16 s.completed.length
  seen : s.vq.lastSeenUsed = BitVec.ofNat 16 s.processed.length
  fetched : s.fetched <+: s.posted
  processed : s.processed <+: s.completed

theorem Sound.accounted (h : Sound tr k len s free chains) : s.Accounted free chains :=
  { first := h.pool.first
    linked := h.pool.linked
    nodup := h.pool.nodup
    bound := h.bound
    free := h.count
    total := by rw [h.count, ← List.length_append, h.total]
    chained := h.pool.chained
    heads := h.heads
    availIdx := h.availIdx
    usedIdx := h.usedIdx
    seen := h.seen
    fetched := h.fetched
    processed := h.processed }

end QueueRun

namespace VirtioNet

open QueueRun

variable {tr : Translation} {i j : Nat} {dev dev' : VirtioNet}

/-- Both queues are sound. -/
def Sound (tr : Translation) (i j : Nat) (dev : VirtioNet) : Prop :=
  (∃ free chains, dev.rx.Sound tr i 1 free chains) ∧ ∃ free chains, dev.tx.Sound tr j 2 free chains

theorem sendFrame_sound (htr : ∀ buf, tr.virtToPhys buf ≠ 0) (h : dev.Sound tr i j)
    (buffer : List (BitVec 8)) (maxBackStep : Nat) :
    ∃ t status, dev.sendFrame tr buffer maxBackStep = some (t, status) ∧ t.Sound tr i j ∧
      t.inited = dev.inited ∧ (status = .einval ∧ t = dev ∨
        ∃ tx, dev.tx.reclaimSent = some tx ∧ t.rx = dev.rx ∧ t.tx.processed = t.tx.completed ∧
          (status = .refused ∧ t.tx = tx ∧ tx.vq.numFree.toNat < 2 ∨
            status = .sent ∧ t.tx.vq.numFree.toNat + 2 = tx.vq.numFree.toNat)) := by
  obtain ⟨hrx, free, chains, htx⟩ := h
  rw [sendFrame]
  by_cases hinit : ¬ dev.inited = true
  · rw [if_pos hinit]
    exact ⟨dev, .einval, rfl, ⟨hrx, free, chains, htx⟩, rfl, Or.inl ⟨rfl, rfl⟩⟩
  rw [if_neg hinit]
  by_cases hback : maxBackStep ≠ 0
  · rw [if_pos hback]
    exact ⟨dev, .einval, rfl, ⟨hrx, free, chains, htx⟩, rfl, Or.inl ⟨rfl, rfl⟩⟩
  rw [if_neg hback]
  obtain ⟨tx, freeR, chainsR, hreclaim, hsound, hall⟩ := htx.reclaimSent Nat.two_pos
  rw [hreclaim, Option.map_some]
  have hcount := hsound.count
  by_cases hnone : tx.vq.numFree < 1
  · rw [if_pos hnone]
    have hlt : tx.vq.numFree.toNat < 1 := hnone
    refine ⟨_, _, rfl, ⟨hrx, freeR, chainsR, hsound⟩, rfl, Or.inr ⟨tx, rfl, rfl, hall, ?_⟩⟩
    refine Or.inl ⟨rfl, rfl, ?_⟩
    omega
  · rw [if_neg hnone]
    have hfree : freeR ≠ [] := by
      rintro rfl
      exact hnone (BitVec.lt_def.mpr (hcount ▸ Nat.one_pos))
    obtain ⟨a, b, rest, rfl, hsome, hpost⟩ := hsound.postFrame htr hfree buffer.length
    refine ⟨_, _, rfl, ⟨hrx, rest, _, hpost⟩, rfl, Or.inr ⟨tx, rfl, rfl, hall, Or.inr ⟨?_, ?_⟩⟩⟩
    · rw [if_pos (hsome ▸ rfl)]
    · have hafter : (tx.post (tx.vq.postFrame tr buffer.length)).vq.numFree.toNat = rest.length :=
        hpost.count
      rw [List.length_cons, List.length_cons] at hcount
      change (tx.post (tx.vq.postFrame tr buffer.length)).vq.numFree.toNat + 2 = _
      omega

theorem receiveActivity_sound (htr : ∀ buf, tr.virtToPhys buf ≠ 0)
    (hback : ∀ buf, tr.physToVirt (tr.virtToPhys buf) = some buf) (h : dev.Sound tr i j)
    (hinit : dev.inited = true) :
    ∃ t handled, dev.receiveActivity tr = some (t, handled) ∧ t.Sound tr i j ∧ t.tx = dev.tx ∧
      t.inited = dev.inited ∧ t.rx.processed = t.rx.completed := by
  obtain ⟨⟨free, chains, hrx⟩, htx⟩ := h
  obtain ⟨hwindow, hchains⟩ := hrx.window Nat.one_pos
  have hnum := hrx.num_lt
  have hfuel : dev.rx.completed.length - dev.rx.processed.length < 2 ^ 16 := by omega
  obtain ⟨t, all, freeT, chainsT, hloop, ht, -, hall⟩ := hrx.receiveLoop htr hback hfuel []
  refine ⟨{ dev with rx := t }, all, ?_, ⟨⟨freeT, chainsT, ht⟩, htx⟩, rfl, rfl, hall⟩
  rw [receiveActivity, if_pos hinit, hloop]
  rfl

theorem step_sound (htr : ∀ buf, tr.virtToPhys buf ≠ 0)
    (hback : ∀ buf, tr.physToVirt (tr.virtToPhys buf) = some buf) {event : NetEvent}
    (h : dev.Sound tr i j) (hinit : dev.inited = true) (hstep : dev.step tr event = some dev') :
    dev'.Sound tr i j ∧ dev'.inited = true := by
  cases event with
  | send buffer maxBackStep =>
    obtain ⟨t, status, hsend, ht, hsame, -⟩ := sendFrame_sound htr h buffer maxBackStep
    rw [step, hsend] at hstep
    obtain rfl := Option.some.inj hstep
    exact ⟨ht, hsame.trans hinit⟩
  | receive =>
    obtain ⟨t, handled, hreceive, ht, -, hsame, -⟩ := receiveActivity_sound htr hback h hinit
    rw [step, hreceive] at hstep
    obtain rfl := Option.some.inj hstep
    exact ⟨ht, hsame.trans hinit⟩
  | refill i =>
    obtain rfl := Option.some.inj hstep
    obtain ⟨⟨free, chains, hrx⟩, htx⟩ := h
    exact ⟨⟨hrx.useReceiveBuffer (htr _), htx⟩, hinit⟩
  | fetch queue =>
    obtain ⟨s, hs, rfl⟩ := Option.map_eq_some_iff.mp hstep
    obtain ⟨⟨free, chains, hrx⟩, freeT, chainsT, htx⟩ := h
    cases queue with
    | rx => exact ⟨⟨⟨free, chains, hrx.fetch Nat.one_pos hs⟩, freeT, chainsT, htx⟩, hinit⟩
    | tx => exact ⟨⟨⟨free, chains, hrx⟩, freeT, chainsT, htx.fetch Nat.two_pos hs⟩, hinit⟩
  | complete queue n l =>
    obtain ⟨s, hs, rfl⟩ := Option.map_eq_some_iff.mp hstep
    obtain ⟨⟨free, chains, hrx⟩, freeT, chainsT, htx⟩ := h
    cases queue with
    | rx => exact ⟨⟨⟨free, chains, hrx.complete Nat.one_pos hs⟩, freeT, chainsT, htx⟩, hinit⟩
    | tx => exact ⟨⟨⟨free, chains, hrx⟩, freeT, chainsT, htx.complete Nat.two_pos hs⟩, hinit⟩

/-- However sends, refills and completions follow each other, every descriptor is free or in one
chain in flight; a send that finds too few descriptors is refused, and both reclaiming loops end
with each completion processed once. -/
theorem virtio_descriptor_accounting (htr : ∀ buf, tr.virtToPhys buf ≠ 0)
    (hback : ∀ buf, tr.physToVirt (tr.virtToPhys buf) = some buf) {rxSize txSize : BitVec 16}
    (hrx : rxSize.toNat = 2 ^ i) (htx : txSize.toNat = 2 ^ j) (hi : 1 ≤ i) (hj : 1 ≤ j)
    {events : List NetEvent} (hrun : Run.exec (step tr) (setup rxSize txSize) events = some dev) :
    (∃ free chains, dev.rx.Accounted free chains) ∧
      (∃ free chains, dev.tx.Accounted free chains) ∧
      (∀ buffer maxBackStep, ∃ t status, dev.sendFrame tr buffer maxBackStep = some (t, status) ∧
        (status = .einval ∧ t = dev ∨
          ∃ tx, dev.tx.reclaimSent = some tx ∧ t.rx = dev.rx ∧ t.tx.processed = t.tx.completed ∧
            (status = .refused ∧ t.tx = tx ∧ tx.vq.numFree.toNat < 2 ∨
              status = .sent ∧ t.tx.vq.numFree.toNat + 2 = tx.vq.numFree.toNat))) ∧
      ∃ t handled, dev.receiveActivity tr = some (t, handled) ∧ t.tx = dev.tx ∧
        t.rx.processed = t.rx.completed := by
  have hsetup : (setup rxSize txSize).Sound tr i j ∧ (setup rxSize txSize).inited = true :=
    ⟨⟨⟨_, _, setup_sound hrx hi⟩, _, _, setup_sound htx hj⟩, rfl⟩
  have hkeep : ∀ (s : VirtioNet) e t, s.Sound tr i j ∧ s.inited = true → step tr s e = some t →
      t.Sound tr i j ∧ t.inited = true := fun s e t h hstep => step_sound htr hback h.1 h.2 hstep
  obtain ⟨hdev, hinit⟩ := Run.invariant hkeep hsetup hrun
  refine ⟨?_, ?_, ?_, ?_⟩
  · obtain ⟨free, chains, h⟩ := hdev.1
    exact ⟨free, chains, h.accounted⟩
  · obtain ⟨free, chains, h⟩ := hdev.2
    exact ⟨free, chains, h.accounted⟩
  · intro buffer maxBackStep
    obtain ⟨t, status, hsend, -, -, hcases⟩ := sendFrame_sound htr hdev buffer maxBackStep
    exact ⟨t, status, hsend, hcases⟩
  · obtain ⟨t, handled, hreceive, -, htx, -, hall⟩ := receiveActivity_sound htr hback hdev hinit
    exact ⟨t, handled, hreceive, htx, hall⟩

/-- Where the memory of a driver may lie -/
def segments : Translation where
  virtToPhys
    | .netHdr => 0x1000
    | .receive i => BitVec.ofNat 64 (0x2000 + i.val)
    | .send head => BitVec.ofNat 64 (0x10000 + head.toNat)
  physToVirt addr :=
    if addr.toNat < 0x2000 then some .netHdr
    else if addr.toNat < 0x10000 then some (.receive (Fin.ofNat 100 (addr.toNat - 0x2000)))
    else some (.send (BitVec.ofNat 16 (addr.toNat - 0x10000)))

theorem segments_ne (buf : NetBuffer) : segments.virtToPhys buf ≠ 0 := by
  cases buf with
  | netHdr => decide
  | send head =>
    have hlt := head.isLt
    simp only [segments]
    bv_omega
  | receive i =>
    have hlt : i.val < 100 := i.isLt
    simp only [segments]
    bv_omega

theorem segments_back (buf : NetBuffer) :
    segments.physToVirt (segments.virtToPhys buf) = some buf := by
  cases buf with
  | netHdr => rfl
  | send head =>
    have hlt := head.isLt
    have haddr : (BitVec.ofNat 64 (0x10000 + head.toNat)).toNat = 0x10000 + head.toNat :=
      Nat.mod_eq_of_lt (by omega)
    simp only [segments]
    rw [haddr, if_neg (by omega), if_neg (by omega), Nat.add_sub_cancel_left, BitVec.ofNat_toNat,
      BitVec.setWidth_eq]
  | receive i =>
    have hlt : i.val < 100 := i.isLt
    have haddr : (BitVec.ofNat 64 (0x2000 + i.val)).toNat = 0x2000 + i.val :=
      Nat.mod_eq_of_lt (by omega)
    simp only [segments]
    rw [haddr, if_neg (by omega), if_pos (by omega), Nat.add_sub_cancel_left, Fin.ofNat_val_eq_self]

/-- Both queues complete out of order; the third frame finds no descriptors. -/
def exchange : List NetEvent :=
  [.refill 0, .refill 1, .refill 2, .send [1, 2, 3] 0, .send [4] 0, .fetch .rx, .fetch .rx,
    .complete .rx 1 60, .send [5] 0, .fetch .tx, .fetch .tx, .complete .tx 1 0, .receive,
    .send [6] 0, .complete .tx 0 0, .complete .rx 0 64, .receive]

theorem virtio_descriptor_accounting_exchange :
    ∃ dev, Run.exec (step segments) (setup 2 4) exchange = some dev ∧
      (∃ free chains, dev.rx.Accounted free chains) ∧
      ∃ free chains, dev.tx.Accounted free chains := by
  have hsome : (Run.exec (step segments) (setup 2 4) exchange).isSome = true := rfl
  obtain ⟨dev, hrun⟩ := Option.isSome_iff_exists.mp hsome
  obtain ⟨hrx, htx, -⟩ := virtio_descriptor_accounting (i := 1) (j := 2) segments_ne segments_back
    rfl rfl (by decide) (by decide) hrun
  exact ⟨dev, hrun, hrx, htx⟩

end VirtioNet

end Chpok
