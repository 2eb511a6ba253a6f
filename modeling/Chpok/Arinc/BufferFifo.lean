import Chpok.Arinc.BufferQueue
import Chpok.Arinc.BlockedProcesses
import Chpok.Library.Ring
import Chpok.Library.Run

/-! A buffer delivers its messages in the order of the sends. Receivers wait only while it is empty
and senders only while it is full, so whoever is woken up waits in the other service. -/

namespace Chpok

namespace BufferQueue

variable {b b' : BufferQueue} {n p k : Nat}

/-- The `k` messages of the buffer begin at index `p` of `n`. -/
structure InRing (b : BufferQueue) (n p k : Nat) : Prop where
  capacity : b.maxNbMessage = n
  small : n < 0x80000000
  base : b.baseOffset = p
  inside : p < n
  count : b.nbMessage = k
  fits : k ≤ n

def slot (b : BufferQueue) (i : Nat) : List UInt8 := messageOf (b.messages i) (b.messagesSize i)

def contents (b : BufferQueue) (n p k : Nat) : List (List UInt8) := RingIndex.segment n b.slot p k

theorem InRing.messageIndex (h : b.InRing n p k) {i : Nat} (hi : i ≤ n) :
    b.messageIndex i = RingIndex.add n p i := by
  have hsmall := h.small
  have hinside := h.inside
  have hmod : (((p : Int) + i) % 0x100000000).toNat = p + i := by omega
  rw [BufferQueue.messageIndex, h.base, h.capacity, hmod]
  rfl

theorem InRing.messageAt (h : b.InRing n p k) {i : Nat} (hi : i < n) : b.messageAt i = some i := by
  rw [BufferQueue.messageAt, h.capacity, if_pos (by omega)]

theorem InRing.messageAt_first (h : b.InRing n p k) : b.messageAt (b.messageIndex 0) = some p := by
  have hzero : b.messageIndex 0 = RingIndex.add n p 0 := h.messageIndex (Nat.zero_le n)
  rw [hzero, RingIndex.add_zero h.inside, h.messageAt h.inside]

theorem slot_storeMessage (src : Nat → UInt8) (length : Int) (i : Nat) :
    (b.storeMessage src length i).slot = Function.update b.slot i (messageOf src length) := by
  funext j
  rw [slot, storeMessage]
  by_cases hj : j = i
  · subst hj
    simp only [Function.update_self, messageOf_copyBytes]
  · simp only [Function.update_of_ne hj]
    rfl

theorem InRing.putMessage_eq (h : b.InRing n p k) (src : Nat → UInt8) (length : Int) :
    b.putMessage src length = some (b.storeMessage src length (RingIndex.add n p k)) := by
  have hindex : b.messageIndex b.nbMessage = RingIndex.add n p k := by
    rw [h.count]
    exact h.messageIndex h.fits
  rw [BufferQueue.putMessage, hindex, h.messageAt (RingIndex.add_lt h.inside h.fits)]
  rfl

theorem InRing.storeMessage (h : b.InRing n p k) (hk : k < n) (src : Nat → UInt8) (length : Int)
    (i : Nat) : (b.storeMessage src length i).InRing n p (k + 1) := by
  refine ⟨h.capacity, h.small, h.base, h.inside, ?_, hk⟩
  show b.nbMessage + 1 = ((k + 1 : Nat) : Int)
  rw [h.count]
  rfl

theorem InRing.putMessage (h : b.InRing n p k) (hk : k < n) (src : Nat → UInt8) (length : Int) :
    ∃ b', b.putMessage src length = some b' ∧ b'.InRing n p (k + 1) ∧
      b'.contents n p (k + 1) = b.contents n p k ++ [messageOf src length] ∧
      b'.processQueue = b.processQueue ∧ b'.wq = b.wq := by
  refine ⟨b.storeMessage src length (RingIndex.add n p k), h.putMessage_eq src length,
    h.storeMessage hk src length _, ?_, rfl, rfl⟩
  rw [contents, slot_storeMessage, RingIndex.segment_snoc h.inside hk,
    RingIndex.segment_update hk (Nat.le_refl k), Function.update_self]
  rfl

theorem InRing.taken (h : b.InRing n p (k + 1)) {c : BufferQueue}
    (hc : c = { b with baseOffset := b.messageIndex 1, nbMessage := b.nbMessage - 1 }) :
    c.InRing n (RingIndex.add n p 1) k ∧
      b.contents n p (k + 1) = b.slot p :: c.contents n (RingIndex.add n p 1) k := by
  have hpos : 1 ≤ n := Nat.le_trans (Nat.succ_le_succ (Nat.zero_le k)) h.fits
  subst hc
  refine ⟨⟨h.capacity, h.small, ?_, RingIndex.add_lt h.inside hpos, ?_, Nat.le_of_succ_le h.fits⟩,
    RingIndex.segment_cons h.inside h.fits⟩
  · exact congrArg Int.ofNat (h.messageIndex hpos)
  · change b.nbMessage - 1 = k
    rw [h.count]
    omega

end BufferQueue

namespace BufferSystem

variable {s t : BufferSystem} {c : Nat}

/-- The entries of process `p` -/
def of (p : Nat) (log : List (Nat × List UInt8)) : List (Nat × List UInt8) := log.filter (·.1 = p)

theorem of_append {p : Nat} {log log' : List (Nat × List UInt8)} :
    of p (log ++ log') = of p log ++ of p log' := List.filter_append _ _

theorem of_singleton {p q : Nat} {m : List UInt8} :
    of p [(q, m)] = if q = p then [(q, m)] else [] := by
  rw [of, List.filter_singleton]
  simp

/-- A service that has taken effect, but whose process has not run since. -/
def pending (s : BufferSystem) (receives : Bool) (p : Nat) : List (Nat × List UInt8) :=
  if p ∈ s.blocked ∧ s.queue.Released p ∧ s.receives p = receives then
    [(p, s.buffer.wqMessage p)] else []

theorem pending_congr {receives : Bool} {p : Nat} (hblocked : p ∈ t.blocked ↔ p ∈ s.blocked)
    (hsame : p ∈ s.blocked → (t.queue.Released p ↔ s.queue.Released p) ∧
      t.receives p = s.receives p ∧ t.buffer.wq p = s.buffer.wq p) :
    t.pending receives p = s.pending receives p := by
  rw [pending, pending]
  by_cases hp : p ∈ s.blocked
  · obtain ⟨hreleased, hreceives, hwq⟩ := hsame hp
    have hcond : (p ∈ t.blocked ∧ t.queue.Released p ∧ t.receives p = receives) ↔
        (p ∈ s.blocked ∧ s.queue.Released p ∧ s.receives p = receives) := by
      rw [hblocked, hreleased, hreceives]
    rw [BufferQueue.wqMessage, hwq]
    exact if_congr hcond rfl rfl
  · rw [if_neg fun h => hp (hblocked.mp h.1), if_neg fun h => hp h.1]

theorem pending_eq_nil {receives : Bool} {p : Nat}
    (h : p ∈ s.blocked → s.queue.Released p → s.receives p ≠ receives) :
    s.pending receives p = [] := if_neg fun hp => h hp.1 hp.2.1 hp.2.2

/-- Each service of process `p` that took effect has returned, or will. -/
structure Accounted (s : BufferSystem) (p : Nat) : Prop where
  sends : of p s.sent = of p s.sendsReturned ++ s.pending false p
  receives : of p s.received = of p s.receivesReturned ++ s.pending true p

structure Inv (s : BufferSystem) : Prop where
  queued : ∃ l, s.queue.Queued (· ∈ s.blocked) l
  fifo : ∃ n p k, s.buffer.InRing n p k ∧
    s.received.map Prod.snd ++ s.buffer.contents n p k = s.sent.map Prod.snd
  receiver : ∀ u ∈ s.blocked, s.queue.Waits u → s.receives u = true → s.buffer.nbMessage = 0
  sender : ∀ u ∈ s.blocked, s.queue.Waits u → s.receives u = false →
    s.buffer.nbMessage = s.buffer.maxNbMessage
  accounted : ∀ p, s.Accounted p

/-- A process whose wait is over may return without harm to the others. -/
def Clean (s : BufferSystem) : BufferInput → Prop
  | .resume t => s.queue.MayReturn t
  | _ => True

instance (s : BufferSystem) : DecidablePred s.Clean := fun e =>
  match e with
  | .resume t => inferInstanceAs (Decidable (s.queue.MayReturn t))
  | .sendBuffer .. | .receiveBuffer .. | .getBufferStatus _ | .process _ | .wqElsewhere .. =>
    .isTrue trivial

/-- Nothing has happened to the messages, and nobody has been released. -/
theorem Inv.still (hs : s.Inv) (hqueued : ∃ l, t.queue.Queued (· ∈ t.blocked) l)
    (hring : ∀ n p k, s.buffer.InRing n p k → t.buffer.InRing n p k ∧
      t.buffer.contents n p k = s.buffer.contents n p k)
    (hsent : t.sent = s.sent) (hreceived : t.received = s.received)
    (hsends : t.sendsReturned = s.sendsReturned) (hreceives : t.receivesReturned = s.receivesReturned)
    (hkept : ∀ u ∈ t.blocked, u ∈ s.blocked → (t.queue.Waits u → s.queue.Waits u) ∧
      t.receives u = s.receives u)
    (hnew : ∀ u ∈ t.blocked, u ∉ s.blocked →
      (t.receives u = true → s.buffer.nbMessage = 0) ∧
      (t.receives u = false → s.buffer.nbMessage = s.buffer.maxNbMessage))
    (hpending : ∀ receives p, t.pending receives p = s.pending receives p) : t.Inv := by
  obtain ⟨n, p, k, hin, hfifo⟩ := hs.fifo
  obtain ⟨hin', hcontents⟩ := hring n p k hin
  have hcount : t.buffer.nbMessage = s.buffer.nbMessage := by rw [hin.count, hin'.count]
  have hmax : t.buffer.maxNbMessage = s.buffer.maxNbMessage := by rw [hin.capacity, hin'.capacity]
  refine ⟨hqueued, ⟨n, p, k, hin', ?_⟩, fun u hu hw hr => ?_, fun u hu hw hr => ?_, fun p => ⟨?_, ?_⟩⟩
  · rw [hreceived, hcontents, hsent]
    exact hfifo
  · rw [hcount]
    by_cases hold : u ∈ s.blocked
    · obtain ⟨hwaits, hsame⟩ := hkept u hu hold
      exact hs.receiver u hold (hwaits hw) (hsame ▸ hr)
    · exact (hnew u hu hold).1 hr
  · rw [hcount, hmax]
    by_cases hold : u ∈ s.blocked
    · obtain ⟨hwaits, hsame⟩ := hkept u hu hold
      exact hs.sender u hold (hwaits hw) (hsame ▸ hr)
    · exact (hnew u hu hold).2 hr
  · rw [hsent, hsends, hpending]
    exact (hs.accounted p).sends
  · rw [hreceived, hreceives, hpending]
    exact (hs.accounted p).receives

section Records

variable {p x : Nat} {a b w w' : List (Nat × List UInt8)} {m : List UInt8}

theorem of_returned (h : of p a = of p b ++ w) (hc : p = c → w = []) :
    of p (a ++ [(c, m)]) = of p (b ++ [(c, m)]) ++ w := by
  rw [of_append, of_append, of_singleton, h]
  by_cases hp : c = p
  · rw [hc hp.symm, List.append_nil, List.append_nil]
  · rw [if_neg hp, List.append_nil, List.append_nil]

theorem of_released (h : of p a = of p b ++ w) (hp : p ≠ x → w' = w)
    (hx : p = x → w = [] ∧ w' = [(x, m)]) : of p (a ++ [(x, m)]) = of p b ++ w' := by
  rw [of_append, of_singleton, h]
  by_cases hpx : x = p
  · obtain ⟨hw, hw'⟩ := hx hpx.symm
    rw [if_pos hpx, hw, hw', List.append_nil]
  · rw [if_neg hpx, hp (Ne.symm hpx), List.append_nil]

end Records

theorem pending_of_bare {receives : Bool} {p : Nat} (hcalls : s.Calls c)
    (hblocked : p ∈ t.blocked → p = c ∧ ¬ t.queue.Released p ∨ p ∈ s.blocked)
    (hstay : p ∈ s.blocked → p ∈ t.blocked)
    (hbare : p ≠ c → (t.queue.threads p).bare = (s.queue.threads p).bare)
    (hreceives : p ≠ c → t.receives p = s.receives p)
    (hwq : p ≠ c → t.buffer.wq p = s.buffer.wq p) : t.pending receives p = s.pending receives p := by
  by_cases hp : p ∈ s.blocked
  · have hne : p ≠ c := ne_of_mem_of_not_mem hp hcalls.1
    exact pending_congr ⟨fun _ => hp, hstay⟩ fun _ =>
      ⟨WaitQueue.released_of_bare (hbare hne), hreceives hne, hwq hne⟩
  · rw [pending_eq_nil fun h => absurd h hp, pending_eq_nil fun hin hreleased => ?_]
    rcases hblocked hin with ⟨-, hnot⟩ | hin
    · exact absurd hreleased hnot
    · exact absurd hin hp

/-- The call begins to wait, or may not. -/
theorem Inv.waits (hs : s.Inv) (hcalls : s.Calls c) (start : WaitStart) (message : WqMessage)
    (side : Bool) (hreceiver : side = true → s.buffer.nbMessage = 0)
    (hsender : side = false → s.buffer.nbMessage = s.buffer.maxNbMessage) :
    ∃ q out, s.queue.queueAndWait c s.buffer.discipline start = some (q, out) ∧
      out ≠ some .noError ∧
      Inv { s with
        buffer := { s.buffer with
          processQueue := q
          wq := Function.update s.buffer.wq c message }
        blocked := if out = none then insert c s.blocked else s.blocked
        receives := Function.update s.receives c side } := by
  obtain ⟨l, hqueued⟩ := hs.queued
  have hne : ∀ u ∈ s.blocked, u ≠ c := fun u hu => ne_of_mem_of_not_mem hu hcalls.1
  have hkeep : ∀ u, u ≠ c → Function.update s.receives c side u = s.receives u :=
    fun u hu => Function.update_of_ne hu _ _
  by_cases hstart : start = .begins
  · subst hstart
    obtain ⟨q, l', hq, hqueued', hwaits, -, hbare⟩ :=
      hqueued.queueAndWait_begins hcalls.1 hcalls.2 s.buffer.discipline
    refine ⟨q, none, hq, nofun, hs.still ⟨l', hqueued'.congr fun u => Finset.mem_insert⟩
      (fun n p k h => ⟨⟨h.capacity, h.small, h.base, h.inside, h.count, h.fits⟩, rfl⟩) rfl rfl rfl rfl
      (fun u _ hu => ⟨(WaitQueue.waits_of_bare (hbare u (hne u hu))).mp, hkeep u (hne u hu)⟩)
      (fun u hu hnot => ?_) fun receives p => ?_⟩
    · obtain rfl := (Finset.mem_insert.mp hu).resolve_right hnot
      simp only [Function.update_self]
      exact ⟨hreceiver, hsender⟩
    · refine pending_of_bare hcalls (fun hp => ?_) (Finset.mem_insert_of_mem) (hbare p) (hkeep p)
        fun hp => Function.update_of_ne hp _ _
      rcases Finset.mem_insert.mp hp with rfl | hp
      · exact .inl ⟨rfl, hwaits.not_released⟩
      · exact .inr hp
  · obtain ⟨q, hq, hqueued', -, hbare⟩ :=
      hqueued.queueAndWait_refused hcalls.1 hstart s.buffer.discipline
    exact ⟨q, some .invalidMode, hq, by decide, hs.still ⟨l, hqueued'⟩
      (fun n p k h => ⟨⟨h.capacity, h.small, h.base, h.inside, h.count, h.fits⟩, rfl⟩) rfl rfl rfl rfl
      (fun u _ hu => ⟨(WaitQueue.waits_of_bare (hbare u (hne u hu))).mp, hkeep u (hne u hu)⟩)
      (fun u hu hnot => absurd hu hnot) fun receives p => pending_of_bare hcalls .inr id (hbare p)
        (hkeep p) fun hp => Function.update_of_ne hp _ _⟩

/-- What the call of process `c` does to the queue when it wakes up process `x`. -/
structure Releases (s t : BufferSystem) (c x : Nat) : Prop where
  calls : s.Calls c
  member : x ∈ s.blocked
  waits : s.queue.Waits x
  queued : ∃ l, t.queue.Queued (· ∈ t.blocked) l
  self : (t.queue.threads x).bare = (s.queue.threads x).bare.awake
  other : ∀ u, u ≠ x → (t.queue.threads u).bare = (s.queue.threads u).bare
  blocked : t.blocked = s.blocked
  receives : ∀ u, u ≠ c → t.receives u = s.receives u
  wq : ∀ u, u ≠ x → t.buffer.wq u = s.buffer.wq u

theorem Releases.ne {x : Nat} (h : Releases s t c x) : x ≠ c :=
  ne_of_mem_of_not_mem h.member h.calls.1

theorem Releases.pending {x : Nat} (h : Releases s t c x) (receives : Bool) (p : Nat) :
    t.pending receives p = if p = x ∧ s.receives x = receives then [(x, t.buffer.wqMessage x)]
      else s.pending receives p := by
  by_cases hp : p = x
  · subst hp
    have hreleased : t.queue.Released p := WaitQueue.released_of_awake h.self
    rw [pending_eq_nil (s := s) fun _ hr => absurd hr h.waits.not_released, BufferSystem.pending,
      h.receives p h.ne, h.blocked]
    simp [h.member, hreleased]
  · rw [if_neg fun he => hp he.1]
    exact pending_of_bare h.calls (fun hin => .inr (h.blocked ▸ hin)) (fun hin => h.blocked ▸ hin)
      (fun _ => h.other p hp) (h.receives p) fun _ => h.wq p hp

theorem Releases.waiting {x u : Nat} (h : Releases s t c x) (hu : u ∈ t.blocked)
    (hw : t.queue.Waits u) : u ∈ s.blocked ∧ s.queue.Waits u ∧ t.receives u = s.receives u := by
  rw [h.blocked] at hu
  have hux : u ≠ x := by
    rintro rfl
    exact WaitQueue.bare_awake_waits h.self hw
  exact ⟨hu, (WaitQueue.waits_of_bare (h.other u hux)).mp hw,
    h.receives u (ne_of_mem_of_not_mem hu h.calls.1)⟩

/-- A message is handed over to a receiver. -/
theorem Inv.handOver {x : Nat} {m : List UInt8} (hs : s.Inv) (h : Releases s t c x)
    (hreceives : s.receives x = true) (hcount : s.buffer.nbMessage = 0)
    (hring : ∀ n p k, s.buffer.InRing n p k → t.buffer.InRing n p k)
    (hmessage : t.buffer.wqMessage x = m)
    (hsent : t.sent = s.sent ++ [(c, m)]) (hreturned : t.sendsReturned = s.sendsReturned ++ [(c, m)])
    (hreceived : t.received = s.received ++ [(x, m)])
    (hsame : t.receivesReturned = s.receivesReturned) : t.Inv := by
  obtain ⟨n, p, k, hin, hfifo⟩ := hs.fifo
  obtain rfl : k = 0 := by
    have hk := hin.count
    omega
  have hin' := hring n p 0 hin
  refine ⟨h.queued, ⟨n, p, 0, hin', ?_⟩, fun u hu hw hr => ?_, fun u hu hw hr => ?_, fun p => ⟨?_, ?_⟩⟩
  · rw [BufferQueue.contents, RingIndex.segment_zero, List.append_nil] at hfifo ⊢
    rw [hsent, hreceived, List.map_append, List.map_append, hfifo]
    rfl
  · exact hin'.count
  · obtain ⟨hu, hw, he⟩ := h.waiting hu hw
    have hfull := hs.sender u hu hw (he ▸ hr)
    rw [hin'.count, hin'.capacity, ← hin.capacity, ← hfull, hin.count]
  · rw [hsent, hreturned, h.pending, if_neg fun he => by simp [hreceives] at he]
    refine of_returned (hs.accounted p).sends fun hp => ?_
    exact pending_eq_nil fun hin => absurd (hp ▸ hin) h.calls.1
  · rw [hreceived, hsame, h.pending]
    refine of_released (hs.accounted p).receives (fun hp => if_neg fun he => hp he.1) fun hp => ?_
    subst hp
    rw [if_pos ⟨rfl, hreceives⟩, hmessage]
    exact ⟨pending_eq_nil fun _ hr => absurd hr h.waits.not_released, rfl⟩

/-- The message of a sender takes the place of the one that has been received. -/
theorem Inv.refill {x n p k : Nat} {m : List UInt8} (hs : s.Inv) (h : Releases s t c x)
    (hreceives : s.receives x = false) (hin : s.buffer.InRing n p k)
    (hfifo : s.received.map Prod.snd ++ s.buffer.contents n p k = s.sent.map Prod.snd)
    (hring : ∃ q rest, t.buffer.InRing n q k ∧ s.buffer.contents n p k = m :: rest ∧
      t.buffer.contents n q k = rest ++ [s.buffer.wqMessage x])
    (hmessage : t.buffer.wqMessage x = s.buffer.wqMessage x)
    (hsent : t.sent = s.sent ++ [(x, s.buffer.wqMessage x)])
    (hreceived : t.received = s.received ++ [(c, m)])
    (hreturned : t.receivesReturned = s.receivesReturned ++ [(c, m)])
    (hsame : t.sendsReturned = s.sendsReturned) : t.Inv := by
  obtain ⟨q, rest, hin', hbefore, hafter⟩ := hring
  have hcount : t.buffer.nbMessage = s.buffer.nbMessage := by rw [hin.count, hin'.count]
  have hmax : t.buffer.maxNbMessage = s.buffer.maxNbMessage := by rw [hin.capacity, hin'.capacity]
  refine ⟨h.queued, ⟨n, q, k, hin', ?_⟩, fun u hu hw hr => ?_, fun u hu hw hr => ?_, fun p => ⟨?_, ?_⟩⟩
  · rw [hsent, hreceived, List.map_append, List.map_append, ← hfifo, hbefore, hafter]
    simp
  · obtain ⟨hu, hw, he⟩ := h.waiting hu hw
    rw [hcount]
    exact hs.receiver u hu hw (he ▸ hr)
  · obtain ⟨hu, hw, he⟩ := h.waiting hu hw
    rw [hcount, hmax]
    exact hs.sender u hu hw (he ▸ hr)
  · rw [hsent, hsame, h.pending]
    refine of_released (hs.accounted p).sends (fun hp => if_neg fun he => hp he.1) fun hp => ?_
    subst hp
    rw [if_pos ⟨rfl, hreceives⟩, hmessage]
    exact ⟨pending_eq_nil fun _ hr => absurd hr h.waits.not_released, rfl⟩
  · rw [hreceived, hreturned, h.pending, if_neg fun he => by simp [hreceives] at he]
    refine of_returned (hs.accounted p).receives fun hp => ?_
    exact pending_eq_nil fun hin => absurd (hp ▸ hin) h.calls.1

/-- What the call of process `c` does to the queue when nobody waits. -/
structure FindsNobody (s t : BufferSystem) (c : Nat) : Prop where
  calls : s.Calls c
  nobody : ∀ u ∈ s.blocked, ¬ s.queue.Waits u
  queued : ∃ l, t.queue.Queued (· ∈ t.blocked) l
  bare : ∀ u, (t.queue.threads u).bare = (s.queue.threads u).bare
  blocked : t.blocked = s.blocked
  receives : ∀ u, u ≠ c → t.receives u = s.receives u
  wq : t.buffer.wq = s.buffer.wq

theorem FindsNobody.pending (h : FindsNobody s t c) (receives : Bool) (p : Nat) :
    t.pending receives p = s.pending receives p :=
  pending_of_bare h.calls (fun hin => .inr (h.blocked ▸ hin)) (fun hin => h.blocked ▸ hin)
    (fun _ => h.bare p) (h.receives p) fun _ => congrFun h.wq p

theorem FindsNobody.waiting {u : Nat} (h : FindsNobody s t c) (hu : u ∈ t.blocked) :
    ¬ t.queue.Waits u := by
  rw [WaitQueue.waits_of_bare (h.bare u)]
  exact h.nobody u (h.blocked ▸ hu)

theorem Inv.enqueue {n p k : Nat} {m : List UInt8} (hs : s.Inv) (h : FindsNobody s t c)
    (hfifo : s.received.map Prod.snd ++ s.buffer.contents n p k = s.sent.map Prod.snd)
    (hin : t.buffer.InRing n p (k + 1))
    (hcontents : t.buffer.contents n p (k + 1) = s.buffer.contents n p k ++ [m])
    (hsent : t.sent = s.sent ++ [(c, m)]) (hreturned : t.sendsReturned = s.sendsReturned ++ [(c, m)])
    (hreceived : t.received = s.received)
    (hsame : t.receivesReturned = s.receivesReturned) : t.Inv := by
  refine ⟨h.queued, ⟨n, p, k + 1, hin, ?_⟩, fun u hu hw => absurd hw (h.waiting hu),
    fun u hu hw => absurd hw (h.waiting hu), fun p => ⟨?_, ?_⟩⟩
  · rw [hsent, hreceived, hcontents, List.map_append, ← List.append_assoc, hfifo]
    rfl
  · rw [hsent, hreturned, h.pending]
    refine of_returned (hs.accounted p).sends fun hp => ?_
    exact pending_eq_nil fun hin => absurd (hp ▸ hin) h.calls.1
  · rw [hreceived, hsame, h.pending]
    exact (hs.accounted p).receives

theorem Inv.dequeue {n p k : Nat} {m : List UInt8} (hs : s.Inv) (h : FindsNobody s t c)
    (hfifo : s.received.map Prod.snd ++ s.buffer.contents n p (k + 1) = s.sent.map Prod.snd)
    (hring : ∃ q, t.buffer.InRing n q k ∧
      s.buffer.contents n p (k + 1) = m :: t.buffer.contents n q k)
    (hsent : t.sent = s.sent) (hsame : t.sendsReturned = s.sendsReturned)
    (hreceived : t.received = s.received ++ [(c, m)])
    (hreturned : t.receivesReturned = s.receivesReturned ++ [(c, m)]) : t.Inv := by
  obtain ⟨q, hin', hcontents⟩ := hring
  refine ⟨h.queued, ⟨n, q, k, hin', ?_⟩, fun u hu hw => absurd hw (h.waiting hu),
    fun u hu hw => absurd hw (h.waiting hu), fun p => ⟨?_, ?_⟩⟩
  · rw [hsent, hreceived, ← hfifo, hcontents]
    simp
  · rw [hsent, hsame, h.pending]
    exact (hs.accounted p).sends
  · rw [hreceived, hreturned, h.pending]
    refine of_returned (hs.accounted p).receives fun hp => ?_
    exact pending_eq_nil fun hin => absurd (hp ▸ hin) h.calls.1

/-- Whoever waits while there is room is a receiver, and whoever waits while there is a message is
a sender. -/
theorem Inv.side (hs : s.Inv) {x : Nat} (hx : x ∈ s.blocked) (hwaits : s.queue.Waits x) :
    (s.buffer.nbMessage < s.buffer.maxNbMessage → s.receives x = true) ∧
      (0 < s.buffer.nbMessage → s.receives x = false) := by
  refine ⟨fun hroom => ?_, fun hsome => ?_⟩
  · by_contra hfalse
    have hfull := hs.sender x hx hwaits (Bool.eq_false_of_not_eq_true hfalse)
    omega
  · by_contra htrue
    have hzero := hs.receiver x hx hwaits (Bool.eq_true_of_not_eq_false htrue)
    omega

theorem Inv.refused (hs : s.Inv) (hcalls : s.Calls c) (hbuffer : t.buffer = s.buffer)
    (hblocked : t.blocked = s.blocked) (hreceives : ∀ u, u ≠ c → t.receives u = s.receives u)
    (hsent : t.sent = s.sent) (hreceived : t.received = s.received)
    (hsends : t.sendsReturned = s.sendsReturned)
    (hreturned : t.receivesReturned = s.receivesReturned) : t.Inv := by
  have hqueue : t.queue = s.queue := congrArg BufferQueue.processQueue hbuffer
  have hne : ∀ u ∈ s.blocked, u ≠ c := fun u hu => ne_of_mem_of_not_mem hu hcalls.1
  refine hs.still (by rw [hqueue, hblocked]; exact hs.queued) (fun n p k h => ?_) hsent hreceived
    hsends hreturned (fun u _ hu => ?_) (fun u hu hnot => ?_) fun receives p => ?_
  · rw [hbuffer]
    exact ⟨h, rfl⟩
  · rw [hqueue]
    exact ⟨id, hreceives u (hne u hu)⟩
  · exact absurd (hblocked ▸ hu) hnot
  · refine pending_congr (by rw [hblocked]) fun hu => ?_
    rw [hqueue, hbuffer]
    exact ⟨Iff.rfl, hreceives p (hne p hu), rfl⟩

theorem Inv.sendBuffer (hs : s.Inv) (hcalls : s.Calls c) (src : Nat → UInt8) (length timeOut : Int)
    (start : WaitStart) :
    ∃ r, s.buffer.sendBuffer c src length timeOut start = some r ∧
      (s.afterSend c (messageOf src length) r).Inv ∧
      ∀ x, r.2.2 = some x → x ∈ s.blocked ∧ s.queue.Waits x ∧ s.receives x = true ∧
        s.buffer.nbMessage = 0 := by
  have hkeep : ∀ u, u ≠ c → Function.update s.receives c false u = s.receives u :=
    fun u hu => Function.update_of_ne hu _ _
  by_cases hvalid : length ≤ 0 ∨ length > s.buffer.maxMessageSize
  · refine ⟨(s.buffer, some .invalidParam, none), by rw [BufferQueue.sendBuffer, if_pos hvalid], ?_,
      nofun⟩
    exact hs.refused hcalls rfl rfl hkeep (List.append_nil _) (List.append_nil _) (List.append_nil _)
      rfl
  by_cases hroom : s.buffer.nbMessage < s.buffer.maxNbMessage
  · obtain ⟨l, hqueued⟩ := hs.queued
    rcases hqueued.notifyOne with ⟨q, hq, hnone, hqueued', -, hbare⟩ |
      ⟨q, x, dead, rest, hq, rfl, -, hwaits, hfirst, hqueued', -, hself, hother⟩
    · obtain ⟨n, p, k, hin, hfifo⟩ := hs.fifo
      have hk : k < n := by
        rw [hin.count, hin.capacity] at hroom
        omega
      have hin' : BufferQueue.InRing { s.buffer with processQueue := q } n p k :=
        ⟨hin.capacity, hin.small, hin.base, hin.inside, hin.count, hin.fits⟩
      obtain ⟨b, hb, hnext, hcontents, hqueue, hwq⟩ := hin'.putMessage hk src length
      refine ⟨(b, some .noError, none), ?_, ?_, nofun⟩
      · rw [BufferQueue.sendBuffer, if_neg hvalid, if_pos hroom,
          show s.buffer.processQueue = s.queue from rfl, hq, Option.bind_some]
        simp only [Bool.false_eq_true, if_false]
        rw [hb]
        rfl
      · refine hs.enqueue ⟨hcalls, fun u hu hw => hnone u (hqueued.waits u hu hw) hw, ⟨[], ?_⟩, ?_,
          rfl, hkeep, hwq⟩ hfifo hnext hcontents rfl rfl (List.append_nil _) rfl
        · change b.processQueue.Queued _ _
          rw [hqueue]
          exact hqueued'
        · change ∀ u, (b.processQueue.threads u).bare = _
          rw [hqueue]
          exact hbare
    · have hx : x ∈ s.blocked := hqueued.members x (by simp)
      have hreceives := (hs.side hx hwaits).1 hroom
      have hzero := hs.receiver x hx hwaits hreceives
      refine ⟨({ s.buffer.handMessage src length x with processQueue := q.msectionWqDel x },
        some .noError, some x), ?_, ?_, ?_⟩
      · rw [BufferQueue.sendBuffer, if_neg hvalid, if_pos hroom,
          show s.buffer.processQueue = s.queue from rfl, hq, Option.bind_some]
        simp [hfirst]
      · refine hs.handOver ⟨hcalls, hx, hwaits, ⟨rest, hqueued'⟩, hself, hother, rfl, hkeep,
          fun u hu => Function.update_of_ne hu _ _⟩ hreceives hzero
          (fun n p k h => ⟨h.capacity, h.small, h.base, h.inside, h.count, h.fits⟩) ?_ rfl rfl rfl rfl
        simp [afterSend, BufferQueue.wqMessage, BufferQueue.handMessage]
      · rintro y hy
        obtain rfl := Option.some.inj hy
        exact ⟨hx, hwaits, hreceives, hzero⟩
  by_cases hzero : timeOut = 0
  · refine ⟨(s.buffer, some .notAvailable, none), ?_, ?_, nofun⟩
    · rw [BufferQueue.sendBuffer, if_neg hvalid, if_neg hroom, if_pos hzero]
    · exact hs.refused hcalls rfl rfl hkeep (List.append_nil _) (List.append_nil _)
        (List.append_nil _) rfl
  · have hfull : s.buffer.nbMessage = s.buffer.maxNbMessage := by
      obtain ⟨n, p, k, hin, -⟩ := hs.fifo
      have hfits := hin.fits
      rw [hin.count, hin.capacity] at hroom ⊢
      omega
    obtain ⟨q, out, hq, hout, hinv⟩ := hs.waits hcalls start ⟨src, length⟩ false nofun fun _ => hfull
    refine ⟨({ s.buffer with
      processQueue := q
      wq := Function.update s.buffer.wq c ⟨src, length⟩ }, out, none), ?_, ?_, nofun⟩
    · rw [BufferQueue.sendBuffer, if_neg hvalid, if_neg hroom, if_neg hzero,
        show s.buffer.processQueue = s.queue from rfl, hq]
      rfl
    · simpa [afterSend, entry, hout] using hinv

theorem Inv.receiveBuffer (hs : s.Inv) (hcalls : s.Calls c) (timeOut : Int) (dst : Nat → UInt8)
    (start : WaitStart) :
    ∃ r, s.buffer.receiveBuffer c timeOut dst start = some r ∧ (s.afterReceive c r).Inv ∧
      ∀ x, r.2.2 = some x → x ∈ s.blocked ∧ s.queue.Waits x ∧ s.receives x = false ∧
        s.buffer.nbMessage = s.buffer.maxNbMessage := by
  have hkeep : ∀ u, u ≠ c → Function.update s.receives c true u = s.receives u :=
    fun u hu => Function.update_of_ne hu _ _
  obtain ⟨n, p, k, hin, hfifo⟩ := hs.fifo
  by_cases hsome : 0 < s.buffer.nbMessage
  · obtain ⟨k, rfl⟩ : ∃ j, k = j + 1 := by
      rw [hin.count] at hsome
      exact ⟨k - 1, by omega⟩
    have hindex := hin.messageAt_first
    obtain ⟨l, hqueued⟩ := hs.queued
    rcases hqueued.notifyOne with ⟨q, hq, hnone, hqueued', -, hbare⟩ |
      ⟨q, x, dead, rest, hq, rfl, -, hwaits, hfirst, hqueued', -, hself, hother⟩
    · obtain ⟨hin', hcontents⟩ := hin.taken rfl
      refine ⟨({ s.buffer with
          baseOffset := s.buffer.messageIndex 1
          nbMessage := s.buffer.nbMessage - 1
          processQueue := q }, some ⟨.noError, s.buffer.messagesSize p,
            copyBytes dst (s.buffer.messages p) (s.buffer.messagesSize p)⟩, none), ?_, ?_, nofun⟩
      · rw [BufferQueue.receiveBuffer, if_pos hsome, hindex, Option.bind_some]
        change (s.queue.jetMsectionWqNotify false).bind _ = _
        rw [hq]
        rfl
      · refine hs.dequeue ⟨hcalls, fun u hu hw => hnone u (hqueued.waits u hu hw) hw,
          ⟨[], hqueued'⟩, hbare, rfl, hkeep, rfl⟩ hfifo ⟨RingIndex.add n p 1, ?_, hcontents⟩
          (List.append_nil _) rfl ?_ ?_
        · exact ⟨hin'.capacity, hin'.small, hin'.base, hin'.inside, hin'.count, hin'.fits⟩
        · simp [afterReceive, BufferQueue.slot]
        · simp [afterReceive, BufferQueue.slot]
    · have hx : x ∈ s.blocked := hqueued.members x (by simp)
      have hreceives := (hs.side hx hwaits).2 hsome
      have hfull := hs.sender x hx hwaits hreceives
      obtain ⟨hin', hcontents⟩ := hin.taken rfl
      obtain ⟨b, hb, hnext, hput, hqueue, hwq⟩ := hin'.putMessage hin.fits
        (s.buffer.wq x).bytes (s.buffer.wq x).len
      refine ⟨({ b with processQueue := q.msectionWqDel x }, some ⟨.noError,
          s.buffer.messagesSize p, copyBytes dst (s.buffer.messages p) (s.buffer.messagesSize p)⟩,
          some x), ?_, ?_, ?_⟩
      · rw [BufferQueue.receiveBuffer, if_pos hsome, hindex, Option.bind_some]
        change (s.queue.jetMsectionWqNotify false).bind _ = _
        rw [hq, Option.bind_some]
        simp only [if_true, hfirst, Option.bind_some]
        rw [hb]
        rfl
      · refine hs.refill ⟨hcalls, hx, hwaits, ⟨rest, hqueued'⟩, hself, hother,
          rfl, hkeep, ?_⟩ hreceives hin hfifo ⟨RingIndex.add n p 1, _, ?_, hcontents, hput⟩ ?_ rfl
          ?_ ?_ rfl
        · exact fun u _ => congrFun hwq u
        · exact ⟨hnext.capacity, hnext.small, hnext.base, hnext.inside, hnext.count, hnext.fits⟩
        · change messageOf (b.wq x).bytes (b.wq x).len = _
          rw [hwq]
          rfl
        · simp [afterReceive, BufferQueue.slot]
        · simp [afterReceive, BufferQueue.slot]
      · rintro y hy
        obtain rfl := Option.some.inj hy
        exact ⟨hx, hwaits, hreceives, hfull⟩
  by_cases hzero : timeOut = 0
  · refine ⟨(s.buffer, some ⟨.notAvailable, 0, dst⟩, none), ?_, ?_, nofun⟩
    · rw [BufferQueue.receiveBuffer, if_neg hsome, if_pos hzero]
    · exact hs.refused hcalls rfl rfl hkeep (List.append_nil _) (List.append_nil _) rfl
        (List.append_nil _)
  · have hempty : s.buffer.nbMessage = 0 := by
      rw [hin.count] at hsome ⊢
      omega
    obtain ⟨q, out, hq, hout, hinv⟩ := hs.waits hcalls start ⟨dst, (s.buffer.wq c).len⟩ true
      (fun _ => hempty) nofun
    refine ⟨({ s.buffer with
      processQueue := q
      wq := Function.update s.buffer.wq c ⟨dst, (s.buffer.wq c).len⟩ },
      out.map (⟨·, 0, dst⟩), none), ?_, ?_, nofun⟩
    · rw [BufferQueue.receiveBuffer, if_neg hsome, if_neg hzero,
        show s.buffer.processQueue = s.queue from rfl, hq]
      rfl
    · cases out with
      | none => simpa [afterReceive, entry] using hinv
      | some rc =>
        have hrc : rc ≠ .noError := fun he => hout (congrArg some he)
        simpa [afterReceive, entry, hrc] using hinv

theorem Inv.getBufferStatus (hs : s.Inv) (h : s.step (.getBufferStatus c) = some t) : t.Inv := by
  obtain ⟨l, hqueued⟩ := hs.queued
  simp only [step] at h
  split_ifs at h with hcalls
  obtain ⟨⟨b, status⟩, hr, rfl⟩ := Option.map_eq_some_iff.mp h
  obtain ⟨⟨q, n⟩, hq, he⟩ := Option.map_eq_some_iff.mp hr
  obtain ⟨rfl, rfl⟩ := Prod.mk.inj he
  obtain ⟨q', hq', hqueued', -, hbare⟩ := hqueued.size
  obtain ⟨rfl, rfl⟩ := Prod.mk.inj (Option.some.inj (hq'.symm.trans hq))
  exact hs.still ⟨_, hqueued'⟩
    (fun n p k h => ⟨⟨h.capacity, h.small, h.base, h.inside, h.count, h.fits⟩, rfl⟩) rfl rfl rfl rfl
    (fun u _ _ => ⟨(WaitQueue.waits_of_bare (hbare u)).mp, rfl⟩) (fun u hu hnot => absurd hu hnot)
    fun receives p => pending_congr Iff.rfl fun _ =>
      ⟨WaitQueue.released_of_bare (hbare p), rfl, rfl⟩

theorem Inv.process {e : ProcessInput} (hs : s.Inv) (h : s.step (.process e) = some t) : t.Inv := by
  obtain ⟨l, hqueued⟩ := hs.queued
  obtain ⟨q, hq, rfl⟩ := Option.map_eq_some_iff.mp h
  obtain ⟨hqueued', -, hsame⟩ := hqueued.processStep hq
  exact hs.still ⟨l, hqueued'⟩
    (fun n p k h => ⟨⟨h.capacity, h.small, h.base, h.inside, h.count, h.fits⟩, rfl⟩) rfl rfl rfl rfl
    (fun u hu _ => ⟨(hsame u hu).1, rfl⟩) (fun u hu hnot => absurd hu hnot)
    fun receives p => pending_congr Iff.rfl fun hp => ⟨(hsame p hp).2, rfl, rfl⟩

theorem Inv.wqElsewhere {message : WqMessage} (hs : s.Inv)
    (h : s.step (.wqElsewhere c message) = some t) : t.Inv := by
  simp only [step] at h
  split_ifs at h with hc
  obtain rfl := Option.some.inj h
  exact hs.still hs.queued
    (fun n p k h => ⟨⟨h.capacity, h.small, h.base, h.inside, h.count, h.fits⟩, rfl⟩) rfl rfl rfl rfl
    (fun u _ _ => ⟨id, rfl⟩) (fun u hu hnot => absurd hu hnot)
    fun receives p => pending_congr Iff.rfl fun hp =>
      ⟨Iff.rfl, rfl, Function.update_of_ne (ne_of_mem_of_not_mem hp hc) _ _⟩

theorem waitReturn_noError (hwaits : ¬ s.queue.Waits c) :
    (s.queue.waitReturn c).2 = .noError ↔ s.queue.Released c := by
  rw [WaitQueue.Released, WaitQueue.waitReturn]
  cases (s.queue.threads c).waitResult with
  | ok => simp [show (s.queue.threads c).state ≠ .waiting from hwaits]
  | cancelled => simp
  | timeout => simp

/-- A process leaves after its wait, and its message is in the record of those that returned. -/
theorem Inv.leave (hs : s.Inv) (hc : c ∈ s.blocked) (hwaits : ¬ s.queue.Waits c)
    (hok : s.queue.MayReturn c) (hqueue : t.queue = (s.queue.waitReturn c).1)
    (hbuffer : t.buffer = { s.buffer with processQueue := t.queue })
    (hblocked : t.blocked = s.blocked.erase c) (hreceives : t.receives = s.receives)
    (hsent : t.sent = s.sent) (hreceived : t.received = s.received)
    (hsends : t.sendsReturned = s.sendsReturned ++
      if s.receives c = false ∧ (s.queue.waitReturn c).2 = .noError then
        [(c, s.buffer.wqMessage c)] else [])
    (hreturned : t.receivesReturned = s.receivesReturned ++
      if s.receives c = true ∧ (s.queue.waitReturn c).2 = .noError then
        [(c, s.buffer.wqMessage c)] else []) : t.Inv := by
  obtain ⟨l, hqueued⟩ := hs.queued
  obtain ⟨l', hqueued', -, hbare⟩ := hqueued.waitReturn hc hwaits hok
  rw [← hqueue] at hqueued' hbare
  have hwaiting : ∀ u ∈ t.blocked, t.queue.Waits u → u ∈ s.blocked ∧ s.queue.Waits u := by
    intro u hu hw
    obtain ⟨hne, hu⟩ := Finset.mem_erase.mp (hblocked ▸ hu)
    exact ⟨hu, (WaitQueue.waits_of_bare (hbare u hne)).mp hw⟩
  have hwq : t.buffer.wq = s.buffer.wq := by rw [hbuffer]
  have hcount : t.buffer.nbMessage = s.buffer.nbMessage := by rw [hbuffer]
  have hmax : t.buffer.maxNbMessage = s.buffer.maxNbMessage := by rw [hbuffer]
  have hothers : ∀ receives p, p ≠ c → t.pending receives p = s.pending receives p := by
    intro receives p hp
    refine pending_congr ?_ fun _ => ⟨WaitQueue.released_of_bare (hbare p hp), ?_, ?_⟩
    · rw [hblocked, Finset.mem_erase]
      exact and_iff_right hp
    · rw [hreceives]
    · rw [hwq]
  have hgone : ∀ receives, t.pending receives c = [] := by
    intro receives
    refine pending_eq_nil fun hin => ?_
    rw [hblocked] at hin
    exact absurd hin (Finset.notMem_erase c _)
  have hcame : ∀ receives, s.pending receives c =
      if s.receives c = receives ∧ (s.queue.waitReturn c).2 = .noError then
        [(c, s.buffer.wqMessage c)] else [] := by
    intro receives
    have hcode := waitReturn_noError hwaits
    exact if_congr (by rw [hcode]; tauto) rfl rfl
  have hlog : ∀ {a b : List (Nat × List UInt8)} {receives p},
      of p a = of p b ++ s.pending receives p →
      of p a = of p (b ++ s.pending receives c) ++ t.pending receives p := by
    intro a b receives p h
    by_cases hp : p = c
    · subst hp
      rw [hgone, List.append_nil, of_append, h, BufferSystem.pending]
      split_ifs <;> simp [of]
    · rw [hothers receives p hp, h, of_append, BufferSystem.pending, BufferSystem.pending]
      split_ifs <;> simp [of, Ne.symm hp]
  obtain ⟨n, p, k, hin, hfifo⟩ := hs.fifo
  refine ⟨⟨l', hqueued'.congr fun u => ?_⟩, ⟨n, p, k, ?_, ?_⟩, fun u hu hw hr => ?_,
    fun u hu hw hr => ?_, fun p => ⟨?_, ?_⟩⟩
  · rw [hblocked]
    exact Finset.mem_erase.trans and_comm
  · rw [hbuffer]
    exact ⟨hin.capacity, hin.small, hin.base, hin.inside, hin.count, hin.fits⟩
  · rw [hsent, hreceived, hbuffer]
    exact hfifo
  · obtain ⟨hu, hw⟩ := hwaiting u hu hw
    rw [hcount]
    exact hs.receiver u hu hw (hreceives ▸ hr)
  · obtain ⟨hu, hw⟩ := hwaiting u hu hw
    rw [hcount, hmax]
    exact hs.sender u hu hw (hreceives ▸ hr)
  · rw [hsent, hsends, ← hcame]
    exact hlog (hs.accounted p).sends
  · rw [hreceived, hreturned, ← hcame]
    exact hlog (hs.accounted p).receives

theorem Inv.resume (hs : s.Inv) (hok : s.Clean (.resume c)) (h : s.step (.resume c) = some t) :
    t.Inv := by
  simp only [step] at h
  by_cases hready : c ∈ s.blocked ∧ (s.queue.threads c).state ≠ .waiting
  · rw [if_pos hready] at h
    by_cases hside : s.receives c = true
    · rw [if_pos hside] at h
      obtain rfl := Option.some.inj h
      refine hs.leave hready.1 hready.2 hok rfl rfl rfl rfl rfl rfl (by simp [hside]) ?_
      simp only [hside, true_and]
      by_cases hcode : (s.queue.waitReturn c).2 = .noError
      · have hcode' : (s.buffer.processQueue.waitReturn c).2 = .noError := hcode
        simp only [BufferQueue.receiveBufferEnd, hcode, hcode', if_true]
        rfl
      · have hcode' : ¬ (s.buffer.processQueue.waitReturn c).2 = .noError := hcode
        simp only [BufferQueue.receiveBufferEnd, hcode, hcode', if_false]
    · rw [if_neg hside] at h
      obtain rfl := Option.some.inj h
      refine hs.leave hready.1 hready.2 hok rfl rfl rfl rfl rfl rfl ?_ (by simp [hside])
      simp only [Bool.eq_false_of_not_eq_true hside, true_and]
      rfl
  · rw [if_neg hready] at h
    cases h

theorem step_inv {e : BufferInput} (hs : s.Inv) (hok : s.Clean e) (h : s.step e = some t) :
    t.Inv := by
  cases e with
  | sendBuffer c src length timeOut start =>
    by_cases hcalls : s.Calls c
    · obtain ⟨r, hr, hinv, -⟩ := hs.sendBuffer hcalls src length timeOut start
      rw [step, if_pos hcalls, hr] at h
      exact Option.some.inj h ▸ hinv
    · rw [step, if_neg hcalls] at h
      cases h
  | receiveBuffer c timeOut dst start =>
    by_cases hcalls : s.Calls c
    · obtain ⟨r, hr, hinv, -⟩ := hs.receiveBuffer hcalls timeOut dst start
      rw [step, if_pos hcalls, hr] at h
      exact Option.some.inj h ▸ hinv
    · rw [step, if_neg hcalls] at h
      cases h
  | getBufferStatus c => exact hs.getBufferStatus h
  | resume c => exact hs.resume hok h
  | process e => exact hs.process h
  | wqElsewhere c message => exact hs.wqElsewhere h

/-- An empty buffer that nobody has used yet; its capacity is a positive `MESSAGE_RANGE_TYPE`. -/
structure Created (s : BufferSystem) : Prop where
  first : s.queue.first = none
  last : s.queue.last = none
  blocked : s.blocked = ∅
  capacity : 0 < s.buffer.maxNbMessage ∧ s.buffer.maxNbMessage < 0x80000000
  base : s.buffer.baseOffset = 0
  empty : s.buffer.nbMessage = 0
  record : s.sent = [] ∧ s.received = [] ∧ s.sendsReturned = [] ∧ s.receivesReturned = []

theorem Created.inv (hs : s.Created) : s.Inv := by
  obtain ⟨hsent, hreceived, hsends, hreturned⟩ := hs.record
  obtain ⟨hpos, hsmall⟩ := hs.capacity
  have hnobody : ∀ u, u ∉ s.blocked := by simp [hs.blocked]
  refine ⟨⟨[], WaitQueue.queued_empty hs.first hs.last hnobody⟩,
    ⟨s.buffer.maxNbMessage.toNat, 0, 0, ⟨?_, ?_, hs.base, ?_, hs.empty, Nat.zero_le _⟩, ?_⟩,
    fun u hu => absurd hu (hnobody u), fun u hu => absurd hu (hnobody u), fun p => ⟨?_, ?_⟩⟩
  · omega
  · omega
  · omega
  · rw [hsent, hreceived]
    rfl
  · rw [hsent, hsends, pending_eq_nil fun hp => absurd hp (hnobody p)]
    rfl
  · rw [hreceived, hreturned, pending_eq_nil fun hp => absurd hp (hnobody p)]
    rfl

/-- Messages are received in the order in which they were sent, each of them once; every service
that took effect returns its message to its process; and who waits tells how full the buffer is. -/
theorem buffer_fifo {es : List BufferInput} (hs : s.Created) (hok : Run.Meets step Clean s es)
    (h : Run.exec step s es = some t) :
    (∃ rest, rest.length = t.buffer.nbMessage ∧
      t.received.map Prod.snd ++ rest = t.sent.map Prod.snd) ∧
    (0 ≤ t.buffer.nbMessage ∧ t.buffer.nbMessage ≤ t.buffer.maxNbMessage) ∧
    (∀ p, of p t.sent = of p t.sendsReturned ++ t.pending false p ∧
      of p t.received = of p t.receivesReturned ++ t.pending true p) ∧
    (∀ u ∈ t.blocked, t.queue.Waits u →
      (t.receives u = true → t.buffer.nbMessage = 0) ∧
      (t.receives u = false → t.buffer.nbMessage = t.buffer.maxNbMessage)) ∧
    (∀ c src length timeOut start, t.Calls c →
      ∃ r, t.buffer.sendBuffer c src length timeOut start = some r ∧
        ∀ x, r.2.2 = some x → x ∈ t.blocked ∧ t.queue.Waits x ∧ t.receives x = true ∧
          t.buffer.nbMessage = 0) ∧
    ∀ c timeOut dst start, t.Calls c →
      ∃ r, t.buffer.receiveBuffer c timeOut dst start = some r ∧
        ∀ x, r.2.2 = some x → x ∈ t.blocked ∧ t.queue.Waits x ∧ t.receives x = false ∧
          t.buffer.nbMessage = t.buffer.maxNbMessage := by
  have ht := Run.invariant_of_meets (fun _ _ _ => step_inv) hs.inv hok h
  obtain ⟨n, p, k, hin, hfifo⟩ := ht.fifo
  refine ⟨⟨t.buffer.contents n p k, ?_, hfifo⟩, ⟨?_, ?_⟩, fun p => ⟨(ht.accounted p).sends,
    (ht.accounted p).receives⟩, fun u hu hw => ⟨ht.receiver u hu hw, ht.sender u hu hw⟩,
    fun c src length timeOut start hcalls => ?_, fun c timeOut dst start hcalls => ?_⟩
  · rw [hin.count, BufferQueue.contents, RingIndex.segment_length]
  · rw [hin.count]
    exact Int.natCast_nonneg k
  · rw [hin.count, hin.capacity]
    exact Int.ofNat_le.mpr hin.fits
  · obtain ⟨r, hr, -, hawoken⟩ := ht.sendBuffer hcalls src length timeOut start
    exact ⟨r, hr, hawoken⟩
  · obtain ⟨r, hr, -, hawoken⟩ := ht.receiveBuffer hcalls timeOut dst start
    exact ⟨r, hr, hawoken⟩

/-- A buffer for one message, and five processes -/
def oneMessage : BufferSystem where
  buffer :=
    { maxMessageSize := 4
      maxNbMessage := 1
      nbMessage := 0
      baseOffset := 0
      discipline := .fifo
      messages _ _ := 0
      messagesSize _ := 0
      processQueue :=
        { threads _ := ⟨.runnable, false, .ok, none, none, 0, 0⟩
          nthreadsUsed := 5, first := none, last := none }
      wq _ := ⟨fun _ => 0, 0⟩ }
  blocked := ∅
  receives _ := false
  sent := []
  received := []
  sendsReturned := []
  receivesReturned := []

theorem oneMessage_created : oneMessage.Created :=
  ⟨rfl, rfl, rfl, by decide, rfl, rfl, rfl, rfl, rfl, rfl⟩

/-- Processes 1 and 2 send, and the second of them waits until process 3 receives. -/
def twoSends : List BufferInput :=
  [.sendBuffer 1 (fun _ => 65) 2 5 .begins, .sendBuffer 2 (fun _ => 66) 1 5 .begins,
    .receiveBuffer 3 5 (fun _ => 0) .begins, .resume 2]

theorem twoSends_clean : Run.Meets step Clean oneMessage twoSends :=
  Run.meets_of_checks (by decide +kernel)

theorem buffer_fifo_twoSends :
    ∃ t, Run.exec step oneMessage twoSends = some t ∧
      t.sent = [(1, [65, 65]), (2, [66])] ∧ t.received = [(3, [65, 65])] ∧
      ∃ rest, rest.length = t.buffer.nbMessage ∧
        t.received.map Prod.snd ++ rest = t.sent.map Prod.snd := by
  have hview : (Run.exec step oneMessage twoSends).map (fun t => (t.sent, t.received)) =
      some ([(1, [65, 65]), (2, [66])], [(3, [65, 65])]) := by
    decide +kernel
  obtain ⟨t, ht, hv⟩ := Option.map_eq_some_iff.mp hview
  obtain ⟨hsent, hreceived⟩ := Prod.mk.inj hv
  exact ⟨t, ht, hsent, hreceived, (buffer_fifo oneMessage_created twoSends_clean ht).1⟩

/-- The wait of receiver 1 ends by timeout, a request of the status prunes it, and its own deletion
cuts off receiver 2; the next message is put into the buffer although process 2 waits for it. -/
theorem buffer_fifo_fails :
    oneMessage.Created ∧
    ∃ t, Run.exec step oneMessage
        [.receiveBuffer 1 5 (fun _ => 0) .begins, .receiveBuffer 2 5 (fun _ => 0) .begins,
          .process (.timeOut 1), .getBufferStatus 3, .resume 1,
          .sendBuffer 3 (fun _ => 65) 2 5 .begins] = some t ∧
      2 ∈ t.blocked ∧ t.queue.Waits 2 ∧ t.receives 2 = true ∧ t.buffer.nbMessage = 1 := by
  refine ⟨oneMessage_created, ?_⟩
  have hview : (Run.exec step oneMessage
        [.receiveBuffer 1 5 (fun _ => 0) .begins, .receiveBuffer 2 5 (fun _ => 0) .begins,
          .process (.timeOut 1), .getBufferStatus 3, .resume 1,
          .sendBuffer 3 (fun _ => 65) 2 5 .begins]).map (fun t =>
      (decide (2 ∈ t.blocked), (t.queue.threads 2).state, t.receives 2, t.buffer.nbMessage)) =
        some (true, .waiting, true, 1) := by
    decide +kernel
  obtain ⟨t, ht, hv⟩ := Option.map_eq_some_iff.mp hview
  simp only [Prod.mk.injEq, decide_eq_true_eq] at hv
  exact ⟨t, ht, hv⟩

end BufferSystem

end Chpok
