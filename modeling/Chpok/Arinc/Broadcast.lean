import Chpok.Arinc.Blackboard
import Chpok.Arinc.Event
import Chpok.Arinc.BlockedProcesses
import Chpok.Library.Run

/-! Displays and settings release everybody who waits. A process that a display has woken up has
the message of that display, whatever happens to the blackboard before it runs. -/

namespace Chpok

namespace Blackboard

variable {message : Nat → UInt8} {size : Int} {l : List Nat} {wq : Nat → WqMessage} {u : Nat}

theorem foldl_deliver_mem (h : u ∈ l) :
    messageOf (l.foldl (deliver message size) wq u).bytes (l.foldl (deliver message size) wq u).len =
      messageOf message size := by
  induction l using List.reverseRecOn with
  | nil => cases h
  | append_singleton l t ih =>
    rw [List.foldl_append, List.foldl_cons, List.foldl_nil]
    by_cases hut : u = t
    · subst hut
      rw [deliver, Function.update_self]
      exact messageOf_copyBytes _ _ _
    · rw [deliver, Function.update_of_ne hut]
      exact ih ((List.mem_append.mp h).resolve_right (by simpa using hut))

theorem foldl_deliver_notMem (h : u ∉ l) : l.foldl (deliver message size) wq u = wq u := by
  induction l using List.reverseRecOn with
  | nil => rfl
  | append_singleton l t ih =>
    rw [List.mem_append, List.mem_singleton, not_or] at h
    rw [List.foldl_append, List.foldl_cons, List.foldl_nil, deliver, Function.update_of_ne h.2]
    exact ih h.1

end Blackboard

namespace BlackboardSystem

variable {s t : BlackboardSystem} {c : Nat}

structure Inv (s : BlackboardSystem) : Prop where
  queued : ∃ l, s.queue.Queued (· ∈ s.blocked) l
  shown : s.displayed = if 0 < s.blackboard.messageSize then
    some (messageOf s.blackboard.message s.blackboard.messageSize) else none
  woken : ∀ u ∈ s.blocked, s.queue.Released u →
    s.wokenBy u = some (messageOf (s.blackboard.wq u).bytes (s.blackboard.wq u).len)

/-- A process whose wait is over may return without harm to the others. -/
def Clean (s : BlackboardSystem) : BlackboardInput → Prop
  | .resume t => s.queue.MayReturn t
  | _ => True

/-- A display that is not refused -/
theorem Inv.display (hs : s.Inv) (hcalls : s.Calls c) (src : Nat → UInt8) (length : Int)
    (hpos : 0 < length) (hmax : length ≤ s.blackboard.maxMessageSize) :
    ∃ t, s.step (.displayBlackboard c src length) = some t ∧ t.Inv ∧
      t.displayed = some (messageOf src length) ∧ t.blocked = s.blocked ∧
      ∀ u ∈ t.blocked, ¬ t.queue.Waits u := by
  obtain ⟨⟨l, hqueued⟩, hshown, hwoken⟩ := hs
  obtain ⟨q, hq, hqueued', -, hawake, hother⟩ := hqueued.broadcast
    (Blackboard.deliver (copyBytes s.blackboard.message src length) length) s.blackboard.wq
  have hvalid : ¬ (length ≤ 0 ∨ length > s.blackboard.maxMessageSize) := by omega
  have hnobody : ∀ u ∈ s.blocked, ¬ q.Waits u := by
    intro u hu
    by_cases hwaits : s.queue.Waits u
    · exact WaitQueue.bare_awake_waits (hawake u (hqueued.waits u hu hwaits) hwaits)
    · have hsame := hother u fun h => hwaits h.2
      exact mt (WaitQueue.waits_of_bare hsame).mp hwaits
  refine ⟨s.shown { s.blackboard with
      message := copyBytes s.blackboard.message src length
      messageSize := length
      processQueue := q
      wq := (l.filter (s.queue.Waits ·)).foldl (Blackboard.deliver
        (copyBytes s.blackboard.message src length) length) s.blackboard.wq } (messageOf src length),
    ?_, ⟨⟨[], hqueued'⟩, ?_, fun u hu hreleased => ?_⟩, rfl, rfl, hnobody⟩
  · rw [step, if_pos hcalls, Blackboard.displayBlackboard, if_neg hvalid]
    change Option.map _ (Option.map _ (s.queue.broadcast (Blackboard.deliver
      (copyBytes s.blackboard.message src length) length) s.blackboard.wq)) = _
    rw [hq]
    rfl
  · simp only [BlackboardSystem.shown, if_pos hpos, messageOf_copyBytes]
  · simp only [BlackboardSystem.shown]
    by_cases hwaits : s.queue.Waits u
    · have hin : u ∈ l.filter (s.queue.Waits ·) := by
        simpa using ⟨hqueued.waits u hu hwaits, hwaits⟩
      rw [if_pos ⟨hwaits, hnobody u hu⟩, Blackboard.foldl_deliver_mem hin, messageOf_copyBytes]
    · have hsame := hother u fun h => hwaits h.2
      have hout : u ∉ l.filter (s.queue.Waits ·) := by
        simpa using fun _ => hwaits
      rw [if_neg fun h => hwaits h.1, Blackboard.foldl_deliver_notMem hout]
      exact hwoken u hu ((WaitQueue.released_of_bare hsame).mp hreleased)

theorem Inv.displayBlackboard {src : Nat → UInt8} {length : Int} (hs : s.Inv)
    (h : s.step (.displayBlackboard c src length) = some t) : t.Inv := by
  by_cases hcalls : s.Calls c
  · by_cases hvalid : length ≤ 0 ∨ length > s.blackboard.maxMessageSize
    · rw [step, if_pos hcalls, Blackboard.displayBlackboard, if_pos hvalid] at h
      obtain rfl := Option.some.inj h
      exact ⟨hs.queued, hs.shown, hs.woken⟩
    · obtain ⟨t', ht', hinv, -⟩ := hs.display hcalls src length (by omega) (by omega)
      exact Option.some.inj (ht'.symm.trans h) ▸ hinv
  · rw [step, if_neg hcalls] at h
    cases h

theorem Inv.readBlackboard {timeOut : Int} {dst : Nat → UInt8} {start : WaitStart} (hs : s.Inv)
    (h : s.step (.readBlackboard c timeOut dst start) = some t) : t.Inv := by
  obtain ⟨⟨l, hqueued⟩, hshown, hwoken⟩ := hs
  simp only [step] at h
  split_ifs at h with hcalls
  have hne : ∀ u ∈ s.blocked, u ≠ c := fun u hu => ne_of_mem_of_not_mem hu hcalls.1
  obtain ⟨⟨b, ret⟩, hr, rfl⟩ := Option.map_eq_some_iff.mp h
  simp only [Blackboard.readBlackboard] at hr
  split_ifs at hr with hsize hzero
  · obtain ⟨rfl, rfl⟩ := Prod.mk.inj (Option.some.inj hr)
    exact ⟨⟨l, hqueued⟩, hshown, hwoken⟩
  · obtain ⟨rfl, rfl⟩ := Prod.mk.inj (Option.some.inj hr)
    exact ⟨⟨l, hqueued⟩, hshown, hwoken⟩
  · obtain ⟨⟨q, code⟩, hq, he⟩ := Option.map_eq_some_iff.mp hr
    obtain ⟨rfl, rfl⟩ := Prod.mk.inj he
    have hkept : ∀ u ∈ s.blocked, (q.threads u).bare = (s.queue.threads u).bare →
        q.Released u → s.wokenBy u = some (messageOf
          (Function.update s.blackboard.wq c ⟨dst, (s.blackboard.wq c).len⟩ u).bytes
          (Function.update s.blackboard.wq c ⟨dst, (s.blackboard.wq c).len⟩ u).len) := by
      intro u hu hbare hreleased
      rw [Function.update_of_ne (hne u hu)]
      exact hwoken u hu ((WaitQueue.released_of_bare hbare).mp hreleased)
    by_cases hstart : start = .begins
    · subst hstart
      obtain ⟨q', l', hq', hqueued', hwaits, -, hbare⟩ :=
        hqueued.queueAndWait_begins hcalls.1 hcalls.2 .priority
      obtain ⟨rfl, rfl⟩ := Prod.mk.inj (Option.some.inj (hq'.symm.trans hq))
      refine ⟨⟨l', hqueued'.congr fun u => Finset.mem_insert⟩, hshown, fun u hu hreleased => ?_⟩
      rcases Finset.mem_insert.mp hu with rfl | hu
      · exact absurd hreleased hwaits.not_released
      · exact hkept u hu (hbare u (hne u hu)) hreleased
    · obtain ⟨q', hq', hqueued', -, hbare⟩ :=
        hqueued.queueAndWait_refused hcalls.1 hstart .priority
      obtain ⟨rfl, rfl⟩ := Prod.mk.inj (Option.some.inj (hq'.symm.trans hq))
      exact ⟨⟨l, hqueued'⟩, hshown, fun u hu => hkept u hu (hbare u (hne u hu))⟩

theorem Inv.clearBlackboard (hs : s.Inv) (h : s.step (.clearBlackboard c) = some t) : t.Inv := by
  simp only [step] at h
  split_ifs at h
  obtain rfl := Option.some.inj h
  exact ⟨hs.queued, rfl, hs.woken⟩

theorem Inv.getBlackboardStatus (hs : s.Inv) (h : s.step (.getBlackboardStatus c) = some t) :
    t.Inv := by
  obtain ⟨⟨l, hqueued⟩, hshown, hwoken⟩ := hs
  simp only [step] at h
  split_ifs at h with hcalls
  obtain ⟨⟨b, status⟩, hr, rfl⟩ := Option.map_eq_some_iff.mp h
  obtain ⟨⟨q, n⟩, hq, he⟩ := Option.map_eq_some_iff.mp hr
  obtain ⟨rfl, rfl⟩ := Prod.mk.inj he
  obtain ⟨q', hq', hqueued', -, hbare⟩ := hqueued.size
  obtain ⟨rfl, rfl⟩ := Prod.mk.inj (Option.some.inj (hq'.symm.trans hq))
  refine ⟨⟨_, hqueued'⟩, hshown, fun u hu hreleased => ?_⟩
  exact hwoken u hu ((WaitQueue.released_of_bare (hbare u)).mp hreleased)

theorem Inv.resume (hs : s.Inv) (hok : s.Clean (.resume c)) (h : s.step (.resume c) = some t) :
    t.Inv := by
  obtain ⟨⟨l, hqueued⟩, hshown, hwoken⟩ := hs
  simp only [step] at h
  split_ifs at h with hready
  obtain rfl := Option.some.inj h
  obtain ⟨l', hqueued', -, hbare⟩ := hqueued.waitReturn hready.1 hready.2 hok
  refine ⟨⟨l', hqueued'.congr fun u => Finset.mem_erase.trans and_comm⟩, hshown,
    fun u hu hreleased => ?_⟩
  obtain ⟨hne, hu⟩ := Finset.mem_erase.mp hu
  exact hwoken u hu ((WaitQueue.released_of_bare (hbare u hne)).mp hreleased)

theorem Inv.process {e : ProcessInput} (hs : s.Inv) (h : s.step (.process e) = some t) : t.Inv := by
  obtain ⟨⟨l, hqueued⟩, hshown, hwoken⟩ := hs
  obtain ⟨q, hq, rfl⟩ := Option.map_eq_some_iff.mp h
  obtain ⟨hqueued', -, hsame⟩ := hqueued.processStep hq
  exact ⟨⟨l, hqueued'⟩, hshown, fun u hu hreleased => hwoken u hu ((hsame u hu).2.mp hreleased)⟩

theorem Inv.wqElsewhere {message : WqMessage} (hs : s.Inv)
    (h : s.step (.wqElsewhere c message) = some t) : t.Inv := by
  simp only [step] at h
  split_ifs at h with hc
  obtain rfl := Option.some.inj h
  refine ⟨hs.queued, hs.shown, fun u hu hreleased => ?_⟩
  simp only [Function.update_of_ne (ne_of_mem_of_not_mem hu hc)]
  exact hs.woken u hu hreleased

theorem step_inv {e : BlackboardInput} (hs : s.Inv) (hok : s.Clean e) (h : s.step e = some t) :
    t.Inv := by
  cases e with
  | displayBlackboard c src length => exact hs.displayBlackboard h
  | readBlackboard c timeOut dst start => exact hs.readBlackboard h
  | clearBlackboard c => exact hs.clearBlackboard h
  | getBlackboardStatus c => exact hs.getBlackboardStatus h
  | resume c => exact hs.resume hok h
  | process e => exact hs.process h
  | wqElsewhere c message => exact hs.wqElsewhere h

/-- A blackboard that has just been created. -/
structure Created (s : BlackboardSystem) : Prop where
  first : s.queue.first = none
  last : s.queue.last = none
  blocked : s.blocked = ∅
  empty : s.blackboard.messageSize = 0
  displayed : s.displayed = none

theorem Created.inv (hs : s.Created) : s.Inv where
  queued := ⟨[], WaitQueue.queued_empty hs.first hs.last (by simp [hs.blocked])⟩
  shown := by
    rw [hs.empty, hs.displayed]
    rfl
  woken := by simp [hs.blocked]

theorem Inv.read_message (hs : s.Inv) {timeOut : Int} {dst : Nat → UInt8} {start : WaitStart}
    {b : Blackboard} {ret : MessageReturn}
    (h : s.blackboard.readBlackboard c timeOut dst start = some (b, some ret))
    (hok : ret.returnCode = .noError) :
    s.displayed = some (messageOf ret.bytes ret.length) := by
  simp only [Blackboard.readBlackboard] at h
  split_ifs at h with hsize hzero
  · obtain ⟨-, he⟩ := Prod.mk.inj (Option.some.inj h)
    obtain rfl := Option.some.inj he
    rw [hs.shown, if_pos hsize, messageOf_copyBytes]
  · obtain ⟨-, he⟩ := Prod.mk.inj (Option.some.inj h)
    obtain rfl := Option.some.inj he
    cases hok
  · obtain ⟨⟨q, code⟩, hq, he⟩ := Option.map_eq_some_iff.mp h
    obtain ⟨-, he⟩ := Prod.mk.inj he
    obtain ⟨rc, rfl, rfl⟩ := Option.map_eq_some_iff.mp he
    obtain rfl : rc = .noError := hok
    obtain ⟨w, -, hw⟩ := Option.map_eq_some_iff.mp hq
    cases start with
    | begins => cases congrArg Prod.snd hw
    | mode => cases congrArg Prod.snd hw
    | cancelled => cases congrArg Prod.snd hw

theorem Inv.read_wokenBy (hs : s.Inv) (hc : c ∈ s.blocked) (hnot : ¬ s.queue.Waits c)
    (hok : (s.blackboard.readBlackboardEnd c).2.returnCode = .noError) :
    s.wokenBy c = some (messageOf (s.blackboard.readBlackboardEnd c).2.bytes
      (s.blackboard.readBlackboardEnd c).2.length) := by
  have hreleased : s.queue.Released c := by
    refine ⟨hnot, ?_⟩
    change (s.queue.waitReturn c).2 = .noError at hok
    rw [WaitQueue.waitReturn] at hok
    cases hresult : (s.queue.threads c).waitResult with
    | ok => rfl
    | cancelled => simp [hresult] at hok
    | timeout => simp [hresult] at hok
  rw [hs.woken c hc hreleased]
  change (s.blackboard.processQueue.waitReturn c).2 = .noError at hok
  simp only [Blackboard.readBlackboardEnd, hok, if_true]

end BlackboardSystem

namespace EventSystem

variable {s t : EventSystem} {c : Nat}

def Inv (s : EventSystem) : Prop := ∃ l, s.queue.Queued (· ∈ s.blocked) l

/-- A process whose wait is over may return without harm to the others. -/
def Clean (s : EventSystem) : EventInput → Prop
  | .resume t => s.queue.MayReturn t
  | _ => True

theorem Inv.setEvent (hs : s.Inv) (hcalls : s.Calls c) :
    ∃ t, s.step (.setEvent c) = some t ∧ t.Inv ∧ t.event.eventState = true ∧
      t.blocked = s.blocked ∧ ∀ u ∈ t.blocked, ¬ t.queue.Waits u := by
  obtain ⟨l, hqueued⟩ := hs
  obtain ⟨q, hq, hqueued', -, hawake, hother⟩ := hqueued.broadcast (fun _ _ => ()) ()
  refine ⟨{ s with event := { s.event with eventState := true, processQueue := q } }, ?_,
    ⟨[], hqueued'⟩, rfl, rfl, fun u hu => ?_⟩
  · rw [step, if_pos hcalls, ArincEvent.setEvent,
      show s.event.processQueue = s.queue from rfl, hq]
    rfl
  · by_cases hwaits : s.queue.Waits u
    · exact WaitQueue.bare_awake_waits (hawake u (hqueued.waits u hu hwaits) hwaits)
    · have hsame := hother u fun h => hwaits h.2
      exact mt (WaitQueue.waits_of_bare hsame).mp hwaits

theorem Inv.waitEvent {timeOut : Int} {start : WaitStart} (hs : s.Inv)
    (h : s.step (.waitEvent c timeOut start) = some t) : t.Inv := by
  obtain ⟨l, hqueued⟩ := hs
  simp only [step] at h
  split_ifs at h with hcalls
  obtain ⟨⟨event, rc⟩, hr, rfl⟩ := Option.map_eq_some_iff.mp h
  simp only [ArincEvent.waitEvent] at hr
  split_ifs at hr with hup hzero
  · obtain ⟨rfl, rfl⟩ := Prod.mk.inj (Option.some.inj hr)
    exact ⟨l, hqueued⟩
  · obtain ⟨rfl, rfl⟩ := Prod.mk.inj (Option.some.inj hr)
    exact ⟨l, hqueued⟩
  · obtain ⟨⟨q, rc'⟩, hq, he⟩ := Option.map_eq_some_iff.mp hr
    obtain ⟨rfl, rfl⟩ := Prod.mk.inj he
    by_cases hstart : start = .begins
    · subst hstart
      obtain ⟨q', l', hq', hqueued', -⟩ := hqueued.queueAndWait_begins hcalls.1 hcalls.2 .priority
      obtain ⟨rfl, rfl⟩ := Prod.mk.inj (Option.some.inj (hq'.symm.trans hq))
      exact ⟨l', hqueued'.congr fun u => Finset.mem_insert⟩
    · obtain ⟨q', hq', hqueued', -⟩ := hqueued.queueAndWait_refused hcalls.1 hstart .priority
      obtain ⟨rfl, rfl⟩ := Prod.mk.inj (Option.some.inj (hq'.symm.trans hq))
      exact ⟨l, hqueued'⟩

theorem Inv.getEventStatus (hs : s.Inv) (h : s.step (.getEventStatus c) = some t) : t.Inv := by
  obtain ⟨l, hqueued⟩ := hs
  simp only [step] at h
  split_ifs at h with hcalls
  obtain ⟨⟨event, status⟩, hr, rfl⟩ := Option.map_eq_some_iff.mp h
  obtain ⟨⟨q, n⟩, hq, he⟩ := Option.map_eq_some_iff.mp hr
  obtain ⟨rfl, rfl⟩ := Prod.mk.inj he
  obtain ⟨q', hq', hqueued', -⟩ := hqueued.size
  obtain ⟨rfl, rfl⟩ := Prod.mk.inj (Option.some.inj (hq'.symm.trans hq))
  exact ⟨_, hqueued'⟩

theorem Inv.resume (hs : s.Inv) (hok : s.Clean (.resume c)) (h : s.step (.resume c) = some t) :
    t.Inv := by
  obtain ⟨l, hqueued⟩ := hs
  simp only [step] at h
  split_ifs at h with hready
  obtain rfl := Option.some.inj h
  obtain ⟨l', hqueued', -⟩ := hqueued.waitReturn hready.1 hready.2 hok
  exact ⟨l', hqueued'.congr fun u => Finset.mem_erase.trans and_comm⟩

theorem step_inv {e : EventInput} (hs : s.Inv) (hok : s.Clean e) (h : s.step e = some t) :
    t.Inv := by
  cases e with
  | setEvent c =>
    by_cases hcalls : s.Calls c
    · obtain ⟨t', ht', hinv, -⟩ := hs.setEvent hcalls
      exact Option.some.inj (ht'.symm.trans h) ▸ hinv
    · rw [step, if_neg hcalls] at h
      cases h
  | resetEvent c =>
    simp only [step] at h
    split_ifs at h
    obtain rfl := Option.some.inj h
    exact hs
  | waitEvent c timeOut start => exact hs.waitEvent h
  | getEventStatus c => exact hs.getEventStatus h
  | resume c => exact hs.resume hok h
  | process e =>
    obtain ⟨l, hqueued⟩ := hs
    obtain ⟨q, hq, rfl⟩ := Option.map_eq_some_iff.mp h
    exact ⟨l, (hqueued.processStep hq).1⟩

/-- An event that has just been created. -/
structure Created (s : EventSystem) : Prop where
  first : s.queue.first = none
  last : s.queue.last = none
  blocked : s.blocked = ∅

theorem Created.inv (hs : s.Created) : s.Inv :=
  ⟨[], WaitQueue.queued_empty hs.first hs.last (by simp [hs.blocked])⟩

end EventSystem

/-- Nobody remains blocked after a display or a setting, and a read returns the message on the
blackboard, or that of the display which has ended its wait. -/
theorem broadcast_release {s t : BlackboardSystem} {es : List BlackboardInput} (hs : s.Created)
    (hok : Run.Meets BlackboardSystem.step BlackboardSystem.Clean s es)
    (h : Run.exec BlackboardSystem.step s es = some t)
    {e f : EventSystem} {fs : List EventInput} (he : e.Created)
    (hok' : Run.Meets EventSystem.step EventSystem.Clean e fs)
    (h' : Run.exec EventSystem.step e fs = some f) :
    (∀ c src length, t.Calls c → 0 < length → length ≤ t.blackboard.maxMessageSize →
      ∃ r, t.step (.displayBlackboard c src length) = some r ∧
        r.displayed = some (messageOf src length) ∧ r.blocked = t.blocked ∧
        ∀ u ∈ r.blocked, ¬ r.queue.Waits u) ∧
    (∀ c timeOut dst start b ret,
      t.blackboard.readBlackboard c timeOut dst start = some (b, some ret) →
      ret.returnCode = .noError → t.displayed = some (messageOf ret.bytes ret.length)) ∧
    (∀ c ∈ t.blocked, ¬ t.queue.Waits c →
      (t.blackboard.readBlackboardEnd c).2.returnCode = .noError →
      t.wokenBy c = some (messageOf (t.blackboard.readBlackboardEnd c).2.bytes
        (t.blackboard.readBlackboardEnd c).2.length)) ∧
    ∀ c, f.Calls c → ∃ r, f.step (.setEvent c) = some r ∧ r.event.eventState = true ∧
      r.blocked = f.blocked ∧ ∀ u ∈ r.blocked, ¬ r.queue.Waits u := by
  have ht := Run.invariant_of_meets (fun _ _ _ => BlackboardSystem.step_inv) hs.inv hok h
  have hf := Run.invariant_of_meets (fun _ _ _ => EventSystem.step_inv) he.inv hok' h'
  refine ⟨fun c src length hcalls hpos hmax => ?_, fun _ _ _ _ _ _ => ht.read_message,
    fun _ => ht.read_wokenBy, fun c hcalls => ?_⟩
  · obtain ⟨r, hr, -, hdisplayed⟩ := ht.display hcalls src length hpos hmax
    exact ⟨r, hr, hdisplayed⟩
  · obtain ⟨r, hr, -, hup⟩ := hf.setEvent hcalls
    exact ⟨r, hr, hup⟩

namespace BlackboardSystem

/-- A queue of five processes that nobody has used yet. -/
def unusedQueue : WaitQueue where
  threads _ := ⟨.runnable, false, .ok, none, none, 0, 0⟩
  nthreadsUsed := 5
  first := none
  last := none

def emptyBlackboard : BlackboardSystem where
  blackboard :=
    { maxMessageSize := 4
      message _ := 0
      messageSize := 0
      processQueue := unusedQueue
      wq _ := ⟨fun _ => 0, 0⟩ }
  blocked := ∅
  displayed := none
  wokenBy _ := none

theorem emptyBlackboard_created : emptyBlackboard.Created := ⟨rfl, rfl, rfl, rfl, rfl⟩

def twoReads : List BlackboardInput :=
  [.readBlackboard 1 5 (fun _ => 0) .begins, .readBlackboard 2 5 (fun _ => 0) .begins]

/-- Both processes are woken up, and the blackboard is cleared and displayed again. -/
def displayedTwice : List BlackboardInput := twoReads ++
  [.displayBlackboard 3 (fun _ => 65) 2, .clearBlackboard 3, .displayBlackboard 3 (fun _ => 66) 1]

theorem displayedTwice_clean : ∀ e ∈ displayedTwice, ∀ s, Clean s e := by
  simp [displayedTwice, twoReads, Clean]

end BlackboardSystem

def EventSystem.eventDown : EventSystem := ⟨⟨false, BlackboardSystem.unusedQueue⟩, ∅⟩

open BlackboardSystem in
theorem broadcast_release_displayedTwice :
    ∃ t, Run.exec BlackboardSystem.step emptyBlackboard displayedTwice = some t ∧
      messageOf (t.blackboard.readBlackboardEnd 1).2.bytes
        (t.blackboard.readBlackboardEnd 1).2.length = [65, 65] ∧
      t.wokenBy 1 = some [65, 65] := by
  have hview : (Run.exec BlackboardSystem.step emptyBlackboard displayedTwice).map (fun t =>
      (decide (1 ∈ t.blocked), (t.queue.threads 1).state,
        (t.blackboard.readBlackboardEnd 1).2.returnCode,
        messageOf (t.blackboard.readBlackboardEnd 1).2.bytes
          (t.blackboard.readBlackboardEnd 1).2.length)) =
        some (true, .runnable, .noError, [65, 65]) := by
    decide +kernel
  obtain ⟨t, ht, hv⟩ := Option.map_eq_some_iff.mp hview
  simp only [Prod.mk.injEq, decide_eq_true_eq] at hv
  obtain ⟨hin, hstate, hcode, hmessage⟩ := hv
  have hwoken := (broadcast_release emptyBlackboard_created
    (Run.meets_of_forall displayedTwice_clean _) ht
    (show EventSystem.eventDown.Created from ⟨rfl, rfl, rfl⟩)
    (show Run.Meets EventSystem.step EventSystem.Clean _ [] from trivial) rfl).2.2.1 1 hin
      (by simp [WaitQueue.Waits, hstate]) hcode
  exact ⟨t, ht, hmessage, hmessage ▸ hwoken⟩

/-- The wait of process 1 ends by timeout, a request of the status prunes it, and its own deletion
cuts off process 2; nobody is found by the display, and process 2 waits on. -/
theorem broadcast_release_fails :
    BlackboardSystem.emptyBlackboard.Created ∧
    ∃ t r, Run.exec BlackboardSystem.step BlackboardSystem.emptyBlackboard
        (BlackboardSystem.twoReads ++
          [.process (.timeOut 1), .getBlackboardStatus 3, .resume 1]) = some t ∧
      t.step (.displayBlackboard 3 (fun _ => 65) 2) = some r ∧ 2 ∈ r.blocked ∧ r.queue.Waits 2 := by
  refine ⟨BlackboardSystem.emptyBlackboard_created, ?_⟩
  have hview : ((Run.exec BlackboardSystem.step BlackboardSystem.emptyBlackboard
      (BlackboardSystem.twoReads ++ [.process (.timeOut 1), .getBlackboardStatus 3, .resume 1])).bind
        fun t => (t.step (.displayBlackboard 3 (fun _ => 65) 2)).map fun r =>
          (decide (2 ∈ r.blocked), (r.queue.threads 2).state)) = some (true, .waiting) := by
    decide +kernel
  obtain ⟨t, ht, hr⟩ := Option.bind_eq_some_iff.mp hview
  obtain ⟨r, hr, hv⟩ := Option.map_eq_some_iff.mp hr
  obtain ⟨hin, hwaits⟩ := Prod.mk.inj hv
  exact ⟨t, r, ht, hr, of_decide_eq_true hin, hwaits⟩

end Chpok
