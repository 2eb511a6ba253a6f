import Chpok.Arinc.ObjectCreation
import Chpok.Arinc.StaleMessages

/-! The objects of a partition do not depend on what was in the memory before, except for the
number of messages in a buffer, which nobody sets. -/

namespace Chpok

open Lockstep FirstElements

namespace IntraObjects

variable {s s' : IntraObjects}

/-- The object has been created. -/
def Has (s : IntraObjects) : ObjectId → Prop
  | .buffer i => i < s.nbuffersUsed
  | .blackboard i => i < s.blackboards.used
  | .semaphore i => i < s.semaphores.used
  | .event i => i < s.events.used

/-- The same objects, as far as they have been created and hold messages. -/
structure Agrees (s s' : IntraObjects) : Prop where
  mode : s.normalMode = s'.normalMode
  kshd : s.kshd = s'.kshd
  serving : ∀ t ∈ s.kshd.blocked, s.Has (s.kshd.service t).object
  used : s.nbuffersUsed = s'.nbuffersUsed
  buffers : Related Eq s.nbuffersUsed s.buffers s'.buffers
  bufferQueues : ∀ i < s.nbuffersUsed, s.bufferQueues i = s'.bufferQueues i
  rings : ∀ i < s.nbuffersUsed, ∀ buffer, s.buffers[i]? = some buffer → ∀ queue wq,
    (BufferQueue.ofArinc buffer (s.bufferMessages i) (s.bufferSizes i) queue wq).SameRing
      (BufferQueue.ofArinc buffer (s'.bufferMessages i) (s'.bufferSizes i) queue wq)
  blackboards : s.blackboards.Alike Eq s'.blackboards
  shown : ∀ i < s.blackboards.used, ∀ entry, s.blackboards.entries[i]? = some entry →
    messageOf (s.blackboardMessages i) entry.messageSize =
      messageOf (s'.blackboardMessages i) entry.messageSize
  semaphores : s.semaphores.Alike Eq s'.semaphores
  events : s.events.Alike Eq s'.events

theorem sameRing_ofArinc {b c : BufferQueue} (h : b.SameRing c) {buffer : ArincBuffer}
    (hmax : buffer.maxNbMessage = b.maxNbMessage) (hbase : buffer.baseOffset = b.baseOffset)
    (hnb : buffer.nbMessage = b.nbMessage) (queue : WaitQueue) (wq : Nat → WqMessage) :
    (BufferQueue.ofArinc buffer b.messages b.messagesSize queue wq).SameRing
      (BufferQueue.ofArinc buffer c.messages c.messagesSize queue wq) := by
  obtain ⟨n, p, k, hb, -, hsame⟩ := h
  have hring : ∀ messages sizes, (BufferQueue.ofArinc buffer messages sizes queue wq).InRing n p k :=
    fun messages sizes => ⟨hmax.trans hb.capacity, hb.small, hbase.trans hb.base, hb.inside,
      hnb.trans hb.count, hb.fits⟩
  exact ⟨n, p, k, hring _ _, hring _ _, hsame⟩

theorem Agrees.setKshd (h : s.Agrees s') {kshd : SharedData}
    (hserving : ∀ t ∈ kshd.blocked, s.Has (kshd.service t).object) :
    Agrees { s with kshd := kshd } { s' with kshd := kshd } :=
  ⟨h.mode, rfl, hserving, h.used, h.buffers, h.bufferQueues, h.rings, h.blackboards, h.shown,
    h.semaphores, h.events⟩

theorem Agrees.bufferAt (h : s.Agrees s') {i : Nat} (hi : i < s.nbuffersUsed) :
    Option.Rel BufferQueue.Agrees (s.bufferAt i) (s'.bufferAt i) := by
  unfold IntraObjects.bufferAt
  rw [← h.bufferQueues i hi, ← eq_of_rel (h.buffers.element i hi), ← h.kshd]
  refine rel_ite (P := Option.Rel BufferQueue.Agrees) Iff.rfl (fun _ => ?_) fun _ => .none
  cases hb : s.buffers[i]? with
  | none => exact .none
  | some buffer => exact .some ⟨⟨_, _, rfl⟩, h.rings i hi buffer hb _ _⟩

theorem Agrees.setBuffer (h : s.Agrees s') {i : Nat} {b c : BufferQueue}
    (hbc : b.Agrees c) : (s.setBuffer i b).Agrees (s'.setBuffer i c) := by
  obtain ⟨⟨messages, sizes, rfl⟩, hring⟩ := hbc
  refine ⟨h.mode, ?_, h.serving, h.used, h.buffers.modify i fun a a' ha => by rw [ha]; rfl,
    fun j hj => ?_, fun j hj buffer hbuffer queue wq => ?_, h.blackboards, h.shown, h.semaphores,
    h.events⟩
  · simp only [IntraObjects.setBuffer, h.kshd]
    rfl
  · by_cases hji : j = i
    · subst hji
      simp only [IntraObjects.setBuffer, Function.update_self, h.bufferQueues j hj]
      rfl
    · simp only [IntraObjects.setBuffer, Function.update_of_ne hji]
      exact h.bufferQueues j hj
  · by_cases hji : j = i
    · subst hji
      simp only [IntraObjects.setBuffer, Function.update_self, List.getElem?_modify_eq] at hbuffer ⊢
      obtain ⟨old, -, rfl⟩ := Option.map_eq_some_iff.mp hbuffer
      exact sameRing_ofArinc hring rfl rfl rfl queue wq
    · simp only [IntraObjects.setBuffer, Function.update_of_ne hji,
        List.getElem?_modify_ne _ _ (Ne.symm hji)] at hbuffer ⊢
      exact h.rings j hj buffer hbuffer queue wq

theorem Agrees.blackboardAt (h : s.Agrees s') {i : Nat} (hi : i < s.blackboards.used) :
    Option.Rel Blackboard.Agrees (s.blackboardAt i) (s'.blackboardAt i) := by
  unfold IntraObjects.blackboardAt
  rw [← eq_of_rel (h.blackboards.entries.element i hi), ← h.kshd]
  cases hb : s.blackboards.entries[i]? with
  | none => exact .none
  | some entry =>
    exact rel_ite (P := Option.Rel Blackboard.Agrees) Iff.rfl
      (fun _ => .some ⟨⟨_, rfl⟩, h.shown i hi entry hb⟩) fun _ => .none

theorem Agrees.setBlackboard (h : s.Agrees s') {i : Nat} {b c : Blackboard} (hbc : b.Agrees c) :
    (s.setBlackboard i b).Agrees (s'.setBlackboard i c) := by
  obtain ⟨⟨message, rfl⟩, hsame⟩ := hbc
  refine ⟨h.mode, ?_, h.serving, h.used, h.buffers, h.bufferQueues, h.rings,
    h.blackboards.modify i fun a a' ha => by rw [ha], fun j hj entry hentry => ?_, h.semaphores,
    h.events⟩
  · simp only [IntraObjects.setBlackboard, h.kshd]
  · by_cases hji : j = i
    · subst hji
      simp only [IntraObjects.setBlackboard, Function.update_self,
        List.getElem?_modify_eq] at hentry ⊢
      obtain ⟨old, -, rfl⟩ := Option.map_eq_some_iff.mp hentry
      exact hsame
    · simp only [IntraObjects.setBlackboard, Function.update_of_ne hji,
        List.getElem?_modify_ne _ _ (Ne.symm hji)] at hentry ⊢
      exact h.shown j hj entry hentry

theorem Agrees.semaphoreAt (h : s.Agrees s') {i : Nat} (hi : i < s.semaphores.used) :
    s.semaphoreAt i = s'.semaphoreAt i := by
  unfold IntraObjects.semaphoreAt
  rw [← eq_of_rel (h.semaphores.entries.element i hi), ← h.kshd]

theorem Agrees.setSemaphore (h : s.Agrees s') (i : Nat) (b : Semaphore) :
    (s.setSemaphore i b).Agrees (s'.setSemaphore i b) := by
  refine ⟨h.mode, ?_, h.serving, h.used, h.buffers, h.bufferQueues, h.rings, h.blackboards, h.shown,
    h.semaphores.modify i fun a a' ha => by rw [ha], h.events⟩
  simp only [IntraObjects.setSemaphore, h.kshd]

theorem Agrees.eventAt (h : s.Agrees s') {i : Nat} (hi : i < s.events.used) :
    s.eventAt i = s'.eventAt i := by
  unfold IntraObjects.eventAt
  rw [← eq_of_rel (h.events.entries.element i hi), ← h.kshd]

theorem Agrees.setEvent (h : s.Agrees s') (i : Nat) (b : ArincEvent) :
    (s.setEvent i b).Agrees (s'.setEvent i b) := by
  refine ⟨h.mode, ?_, h.serving, h.used, h.buffers, h.bufferQueues, h.rings, h.blackboards, h.shown,
    h.semaphores, h.events.modify i fun a a' ha => by rw [ha]⟩
  simp only [IntraObjects.setEvent, h.kshd]

theorem Agrees.afterCall (h : s.Agrees s') {t : Nat} (service : WaitingService)
    (hservice : s.Has service.object) (out : ObjectOutput) :
    Both Agrees (s.afterCall t service out) (s'.afterCall t service out) := by
  refine ⟨rel_ite (P := Agrees) Iff.rfl (fun _ => ?_) fun _ => h, rfl⟩
  rw [← h.kshd]
  refine h.setKshd fun u hu => ?_
  by_cases hut : u = t
  · subst hut
    simpa [SharedData.block] using hservice
  · have hold : u ∈ s.kshd.blocked := Finset.mem_of_mem_insert_of_ne hu hut
    simpa [SharedData.block, Function.update_of_ne hut] using h.serving u hold

theorem Agrees.withObject (h : s.Agrees s') {used used' : Nat} (hused : used = used') (id : Int)
    {f g : Nat → Option (IntraObjects × ObjectOutput)}
    (hfg : ∀ i < used, Lockstep.Alike Agrees (f i) (g i)) :
    Lockstep.Alike Agrees (s.withObject used id f) (s'.withObject used' id g) := by
  subst hused
  refine Alike.ite Iff.rfl (fun _ => alike_some h _) fun hid => hfg _ ?_
  omega

theorem Agrees.callBuffer (h : s.Agrees s') (t : Nat) {i : Nat} (hi : i < s.nbuffersUsed)
    (call : BufferCall) : Lockstep.Alike Agrees (s.callBuffer t i call) (s'.callBuffer t i call) :=
  rel_bind (h.bufferAt hi) fun _ _ hbc =>
    (BufferQueue.call_alike hbc t call).map fun _ _ out hrel =>
      (h.setBuffer hrel).afterCall _ (by cases call <;> exact hi) out

theorem Agrees.callBlackboard (h : s.Agrees s') (t : Nat) {i : Nat} (hi : i < s.blackboards.used)
    (call : BlackboardCall) :
    Lockstep.Alike Agrees (s.callBlackboard t i call) (s'.callBlackboard t i call) :=
  rel_bind (h.blackboardAt hi) fun _ _ hbc =>
    (Blackboard.call_alike hbc t call).map fun _ _ out hrel =>
      (h.setBlackboard hrel).afterCall (.readBlackboard i) hi out

theorem Agrees.callSemaphore (h : s.Agrees s') (t : Nat) {i : Nat} (hi : i < s.semaphores.used)
    (call : SemaphoreCall) :
    Lockstep.Alike Agrees (s.callSemaphore t i call) (s'.callSemaphore t i call) := by
  rw [IntraObjects.callSemaphore, IntraObjects.callSemaphore, ← h.semaphoreAt hi]
  exact alike_bind_same _ fun b => alike_map_same _ fun r =>
    (h.setSemaphore i r.1).afterCall (.waitSemaphore i) hi r.2

theorem Agrees.callEvent (h : s.Agrees s') (t : Nat) {i : Nat} (hi : i < s.events.used)
    (call : EventCall) : Lockstep.Alike Agrees (s.callEvent t i call) (s'.callEvent t i call) := by
  rw [IntraObjects.callEvent, IntraObjects.callEvent, ← h.eventAt hi]
  exact alike_bind_same _ fun b => alike_map_same _ fun r =>
    (h.setEvent i r.1).afterCall (.waitEvent i) hi r.2

theorem Agrees.endService (h : s.Agrees s') (t : Nat) {service : WaitingService}
    (hservice : s.Has service.object) :
    Lockstep.Alike Agrees (s.endService t service) (s'.endService t service) := by
  cases service with
  | sendBuffer i =>
    refine rel_map (h.bufferAt hservice) fun b c hbc => ?_
    obtain ⟨⟨messages, sizes, rfl⟩, -⟩ := id hbc
    exact ⟨h.setBuffer (hbc.setQueue _ b.wq), rfl⟩
  | receiveBuffer i =>
    refine rel_map (h.bufferAt hservice) fun b c hbc => ?_
    obtain ⟨⟨messages, sizes, rfl⟩, -⟩ := id hbc
    exact ⟨h.setBuffer (hbc.setQueue _ b.wq), rfl⟩
  | readBlackboard i =>
    refine rel_map (h.blackboardAt hservice) fun b c hbc => ?_
    obtain ⟨⟨message, rfl⟩, -⟩ := id hbc
    exact ⟨h.setBlackboard (hbc.setQueue _ b.wq), rfl⟩
  | waitSemaphore i =>
    rw [IntraObjects.endService, IntraObjects.endService, ← h.semaphoreAt hservice]
    exact alike_map_same _ fun b => ⟨h.setSemaphore i _, rfl⟩
  | waitEvent i =>
    rw [IntraObjects.endService, IntraObjects.endService, ← h.eventAt hservice]
    exact alike_map_same _ fun b => ⟨h.setEvent i _, rfl⟩

theorem step_agrees (s s' : IntraObjects) (e : ObjectCall) (h : s.Agrees s') :
    Lockstep.Alike Agrees (s.step e) (s'.step e) := by
  have hcalls : ∀ t, s.kshd.Calls t ↔ s'.kshd.Calls t := fun t => by rw [h.kshd]
  cases e with
  | buffer t id call =>
    exact Alike.ite (hcalls t)
      (fun _ => h.withObject h.used id fun i hi => h.callBuffer t hi call) fun _ => .none
  | blackboard t id call =>
    exact Alike.ite (hcalls t)
      (fun _ => h.withObject h.blackboards.used id fun i hi => h.callBlackboard t hi call)
      fun _ => .none
  | semaphore t id call =>
    exact Alike.ite (hcalls t)
      (fun _ => h.withObject h.semaphores.used id fun i hi => h.callSemaphore t hi call)
      fun _ => .none
  | event t id call =>
    exact Alike.ite (hcalls t)
      (fun _ => h.withObject h.events.used id fun i hi => h.callEvent t hi call) fun _ => .none
  | getBufferId name =>
    refine .some ⟨h, ?_⟩
    rw [← h.used, h.buffers.findIdx? fun a b hab => by rw [hab]]
  | getBlackboardId name =>
    exact .some ⟨h,
      congrArg ObjectOutput.ofIndex (h.blackboards.find (fun a b hab => by rw [hab]) name)⟩
  | getSemaphoreId name =>
    exact .some ⟨h,
      congrArg ObjectOutput.ofIndex (h.semaphores.find (fun a b hab => by rw [hab]) name)⟩
  | getEventId name =>
    exact .some ⟨h,
      congrArg ObjectOutput.ofIndex (h.events.find (fun a b hab => by rw [hab]) name)⟩
  | setNormalMode =>
    exact .some ⟨⟨rfl, h.kshd, h.serving, h.used, h.buffers, h.bufferQueues, h.rings, h.blackboards,
      h.shown, h.semaphores, h.events⟩, rfl⟩
  | resume t =>
    refine Alike.ite (by rw [h.kshd]) (fun ht => ?_) fun _ => .none
    rw [← h.kshd]
    refine (h.endService t (h.serving t ht.1)).map fun r q out hrel => ⟨?_, rfl⟩
    rw [← hrel.kshd]
    exact hrel.setKshd fun u hu => hrel.serving u (Finset.mem_of_mem_erase hu)
  | process input =>
    rw [step, step, ← h.kshd]
    exact alike_map_same _ fun w => ⟨h.setKshd h.serving, rfl⟩
  | wqElsewhere t message =>
    refine Alike.ite (by rw [h.kshd]) (fun _ => .none) fun _ => ?_
    rw [← h.kshd]
    refine alike_some (h.setKshd ?_) _
    exact h.serving

/-- Objects that have just been created are the same if there is no message in any buffer. -/
theorem Fresh.agrees (h : s.Fresh s') (hkshd : s.kshd = s'.kshd) (hidle : s.kshd.blocked = ∅)
    (hcount : ∀ i < s.nbuffersUsed, ∀ b, s.buffers[i]? = some b → b.nbMessage = 0)
    (hcount' : ∀ i < s.nbuffersUsed, ∀ b, s'.buffers[i]? = some b → b.nbMessage = 0) :
    s.Agrees s' where
  mode := h.table.mode
  kshd := hkshd
  serving t ht := by simp [hidle] at ht
  used := h.table.used
  buffers := by
    refine ⟨h.table.buffers.length, fun i hi => ?_⟩
    have hrel := h.table.buffers.element i hi
    have hb := hcount i hi
    have hc := hcount' i hi
    revert hb hc
    generalize s.buffers[i]? = x at hrel
    generalize s'.buffers[i]? = y at hrel
    intro hb hc
    cases hrel with
    | none => exact .none
    | @some b c hbc =>
      refine .some ?_
      rw [hbc.same, hc c rfl, ← hb b rfl]
  bufferQueues i hi := by
    obtain ⟨hq, hq'⟩ := h.bufferQueues i hi
    rw [hq, hq']
  rings i hi buffer hbuffer queue wq := by
    have hrel := h.table.buffers.element i hi
    have hzero := hcount i hi buffer hbuffer
    rw [hbuffer] at hrel
    obtain ⟨hbase, hpositive, hlimit⟩ : buffer.baseOffset = 0 ∧ 0 < buffer.maxNbMessage ∧
        buffer.maxNbMessage ≤ BufferTable.systemLimitNumberOfMessages := by
      generalize s'.buffers[i]? = y at hrel
      cases hrel with
      | some hbc => exact ⟨hbc.base, hbc.positive, hbc.limit⟩
    have hring : ∀ messages sizes, (BufferQueue.ofArinc buffer messages sizes queue wq).InRing
        buffer.maxNbMessage.toNat 0 0 := by
      intro messages sizes
      have hlimit' : buffer.maxNbMessage ≤ 512 := hlimit
      have hcapacity : buffer.maxNbMessage = buffer.maxNbMessage.toNat := by omega
      exact ⟨hcapacity, by omega, hbase, by omega, hzero, Nat.zero_le _⟩
    exact ⟨_, 0, 0, hring _ _, hring _ _, rfl⟩
  blackboards := ⟨h.blackboards.used, h.blackboards.entries.imp fun a b hab => hab.1⟩
  shown i hi entry hentry := by
    have hrel := h.blackboards.entries.element i hi
    rw [hentry] at hrel
    generalize s'.blackboards.entries[i]? = y at hrel
    cases hrel with
    | some hbc =>
      rw [hbc.2]
      rfl
  semaphores := h.semaphores
  events := h.events

variable {config : IntraConfig} {heap heap' : HeapContents}

theorem libjetArincInit_fresh (config : IntraConfig) (heap heap' : HeapContents) :
    (libjetArincInit config heap).Fresh (libjetArincInit config heap') where
  table := ⟨rfl, rfl, rfl, Nat.zero_le _, .start (by simp [libjetArincInit])⟩
  bufferQueues i hi := (Nat.not_lt_zero i hi).elim
  blackboards := ⟨rfl, .start (by simp [libjetArincInit])⟩
  semaphores := ⟨rfl, .start (by simp [libjetArincInit])⟩
  events := ⟨rfl, .start (by simp [libjetArincInit])⟩

theorem created_count {creates : List ObjectCreate} {i : Nat} {b : ArincBuffer}
    (hb : ((libjetArincInit config heap).creations creates).1.buffers[i]? = some b) :
    b.nbMessage = (heap.buffers i).nbMessage := by
  have hcounts := ((libjetArincInit config heap).creations_kept creates).counts
  generalize ((libjetArincInit config heap).creations creates).1 = s at hb hcounts
  have hi := congrArg (·[i]?) hcounts
  simp only [List.getElem?_map, hb, libjetArincInit, Option.map_some] at hi
  by_cases hlt : i < config.nbuffers
  · simpa [List.getElem?_range hlt] using hi
  · simp [hlt] at hi

theorem size_of_empty {w : WaitQueue} (h : w.first = none) : w.jetMsectionWqSize = some (w, 0) := by
  rw [WaitQueue.jetMsectionWqSize, h]
  cases w.nthreadsUsed with
  | zero => rfl
  | succ n => rfl

theorem getStatus_output {t i : Nat} {buffer : ArincBuffer} (hcalls : s.kshd.Calls t)
    (hi : i < s.nbuffersUsed) (hqueue : s.bufferQueues i = .init)
    (hb : s.buffers[i]? = some buffer) :
    ∃ r status, s.step (.buffer t (i + 1) .getStatus) = some (r, .bufferStatus status) ∧
      status.nbMessage = buffer.nbMessage := by
  have hid : ¬ ((i : Int) + 1 ≤ 0 ∨ (i : Int) + 1 > s.nbuffersUsed) := by omega
  have hat : s.bufferAt i = some (.ofArinc buffer (s.bufferMessages i) (s.bufferSizes i)
      (s.kshd.waitQueue (.buffer i) (s.bufferQueues i)) s.kshd.wq) := by
    rw [bufferAt, hqueue, hb]
    rfl
  have hindex : ((i : Int) + 1 - 1).toNat = i := by omega
  have hsize : (s.kshd.waitQueue (.buffer i) (s.bufferQueues i)).jetMsectionWqSize =
      some (s.kshd.waitQueue (.buffer i) (s.bufferQueues i), 0) := by
    rw [hqueue]
    exact size_of_empty rfl
  rw [step, if_pos hcalls, withObject, if_neg hid, hindex, callBuffer, hat, Option.bind_some]
  simp only [BufferQueue.call, BufferQueue.getBufferStatus, BufferQueue.ofArinc, hsize,
    Option.map_some]
  exact ⟨_, _, rfl, rfl⟩

/-- The processes have created nothing, so that the main thread may ask for the status. -/
theorem counts_of_same {creates : List ObjectCreate} {i : Nat}
    (hsame : ∀ calls, results config heap creates calls = results config heap' creates calls)
    (hi : i < createdBuffers config heap creates) :
    (heap.buffers i).nbMessage = (heap'.buffers i).nbMessage := by
  obtain ⟨hfresh, -⟩ := creations_fresh (libjetArincInit_fresh config heap heap') creates
  have hcalls : ∀ heap, ((libjetArincInit config heap).creations creates).1.kshd.Calls 0 := by
    intro heap
    rw [((libjetArincInit config heap).creations_kept creates).kshd]
    exact ⟨Finset.notMem_empty 0, config.main⟩
  obtain ⟨hqueue, hqueue'⟩ := hfresh.bufferQueues i hi
  have hlen := Nat.lt_of_lt_of_le hi hfresh.table.room
  have hb := List.getElem?_eq_getElem hlen
  have hb' := List.getElem?_eq_getElem (hfresh.table.buffers.length ▸ hlen)
  obtain ⟨r, status, hstep, hcount⟩ := getStatus_output (hcalls heap) hi hqueue hb
  obtain ⟨r', status', hstep', hcount'⟩ := getStatus_output (hcalls heap')
    (Nat.lt_of_lt_of_eq hi hfresh.table.used) hqueue' hb'
  have hout := congrArg Prod.snd (hsame [.buffer 0 (i + 1) .getStatus])
  simp only [results, outputs, hstep, hstep'] at hout
  have hstatus : status = status' := by simpa using hout
  rw [← created_count hb, ← created_count hb', ← hcount, ← hcount', hstatus]

/-- Memory in which no buffer counts messages can be told from another one only if some buffer of
that one does. -/
theorem heap_independence (config : IntraConfig) (heap heap' : HeapContents)
    (creates : List ObjectCreate) (h' : heap'.CountsNone config creates) :
    (∀ calls, results config heap creates calls = results config heap' creates calls) ↔
      heap.CountsNone config creates := by
  obtain ⟨hfresh, hout⟩ := creations_fresh (libjetArincInit_fresh config heap heap') creates
  have hused : createdBuffers config heap creates = createdBuffers config heap' creates :=
    hfresh.table.used
  constructor
  · intro hsame i hi
    rw [counts_of_same hsame hi]
    exact h' i (hused ▸ hi)
  · intro h calls
    have hkept := (libjetArincInit config heap).creations_kept creates
    have hkept' := (libjetArincInit config heap').creations_kept creates
    have hagrees := hfresh.agrees (hkept.kshd.trans hkept'.kshd.symm) (by rw [hkept.kshd]; rfl)
      (fun i hi b hb => (created_count hb).trans (h i hi))
      (fun i hi b hb => (created_count hb).trans (h' i (Nat.lt_of_lt_of_eq hi hused)))
    exact Prod.ext hout (outputs_eq step_agrees hagrees calls)

/-- One process and one object of each kind -/
def oneOfEach : IntraConfig where
  nbuffers := 1
  nblackboards := 1
  nsemaphores := 1
  nevents := 1
  messagesMemorySize := 64
  intraHeap := 0x1000
  threads _ := ⟨.runnable, false, .ok, none, none, 1, 0⟩
  nthreadsUsed := 1
  wq _ := ⟨fun _ => 0, 0⟩
  main := Nat.zero_lt_one

def createEach : List ObjectCreate :=
  [.buffer [66] 8 2 0, .blackboard [66] 8, .semaphore [83] 1 1 1, .event [69]]

/-- Memory that is full of the same value, with a number of messages in each buffer. -/
def filledHeap (value : Nat) (nbMessage : Int) : HeapContents where
  buffers _ := ⟨[.ofNat value], value, value, nbMessage, .ofNat 32 value, .ofNat 32 value,
    .ofNat 32 value, value, value⟩
  bufferQueues _ := ⟨some value, some value, some value⟩
  blackboards _ := ⟨[.ofNat value], value, .ofNat 32 value, value, ⟨some value, some value, some value⟩⟩
  semaphores _ := ⟨[.ofNat value], value, value, value, ⟨some value, some value, some value⟩⟩
  events _ := ⟨[.ofNat value], value, ⟨some value, some value, some value⟩⟩
  bytes _ := .ofNat value
  sizes _ := value

theorem heap_independence_filled :
    (∀ calls, results oneOfEach (filledHeap 7 0) createEach calls =
      results oneOfEach (filledHeap 0 0) createEach calls) ∧
    ¬ ∀ calls, results oneOfEach (filledHeap 7 1) createEach calls =
      results oneOfEach (filledHeap 0 0) createEach calls := by
  have hcleared : (filledHeap 0 0).CountsNone oneOfEach createEach := by decide
  refine ⟨(heap_independence _ (filledHeap 7 0) _ _ hcleared).mpr (by decide), fun h => ?_⟩
  have hcounts := (heap_independence _ (filledHeap 7 1) _ _ hcleared).mp h
  exact absurd hcounts (by decide)

/-- A message that was left in a buffer is there again after a restart. -/
theorem heap_independence_fails :
    ¬ ∀ config heap heap' creates calls,
      results config heap creates calls = results config heap' creates calls := by
  intro h
  have hcounts := counts_of_same (i := 0)
    (h oneOfEach (filledHeap 0 1) (filledHeap 0 0) createEach) (by decide)
  exact absurd hcounts (by decide)

end IntraObjects

end Chpok
