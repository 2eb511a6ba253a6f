import Chpok.Arinc.IntraObjects
import Chpok.Library.FirstElements

/-! What the creations of objects leave of the memory that they find: of an object that has been
created, the number of messages in a buffer. -/

namespace Chpok

open Lockstep FirstElements

theorem map_set_same {α β : Type*} {f : α → β} {l : List α} {i : Nat} {a b : α}
    (h : l[i]? = some a) (hf : f b = f a) : (l.set i b).map f = l.map f := by
  obtain ⟨hi, rfl⟩ := List.getElem?_eq_some_iff.mp h
  have hmap : (l.map f).set i (f l[i]) = l.map f := by
    have hself : (l.map f).set i ((l.map f).get ⟨i, by simpa using hi⟩) = l.map f :=
      List.set_getElem_self _
    simpa using hself
  rw [List.map_set, hf, hmap]

/-- Two buffers after their creation by the same call. -/
structure FreshBuffer (b c : ArincBuffer) : Prop where
  same : c = { b with nbMessage := c.nbMessage }
  base : b.baseOffset = 0
  positive : 0 < b.maxNbMessage
  limit : b.maxNbMessage ≤ BufferTable.systemLimitNumberOfMessages

namespace BufferTable

variable {t t' : BufferTable}

/-- The memory of messages is in the same state, and the same buffers have been created. -/
structure Fresh (t t' : BufferTable) : Prop where
  mode : t.normalMode = t'.normalMode
  heap : t.heap = t'.heap
  used : t.nbuffersUsed = t'.nbuffersUsed
  room : t.nbuffersUsed ≤ t.buffers.length
  buffers : Related FreshBuffer t.nbuffersUsed t.buffers t'.buffers

theorem findBuffer_isSome (t : BufferTable) (name : List UInt8) :
    (t.findBuffer name).isSome = ((t.buffers.take t.nbuffersUsed).findIdx? fun buffer =>
      sameName maxNameLength buffer.bufferName name).isSome := by
  rw [findBuffer, List.isSome_find?, List.findIdx?_isSome]

/-- `u` buffers had been created before. -/
def CreatedAlike (u : Nat) (r q : BufferTable × ReturnCode × Option Nat) : Prop :=
  Both Fresh r q ∧ (r.2.2 = none ∧ r.1.nbuffersUsed = u ∨
    r.2.2 = some (u + 1) ∧ r.1.nbuffersUsed = u + 1 ∧ u < r.1.buffers.length)

theorem createBuffer_fresh (h : t.Fresh t') (name : List UInt8)
    (maxMessageSize maxNbMessage discipline : Int) :
    CreatedAlike t.nbuffersUsed (t.createBuffer name maxMessageSize maxNbMessage discipline)
      (t'.createBuffer name maxMessageSize maxNbMessage discipline) := by
  have hrefused : ∀ {s s' : BufferTable} (code : ReturnCode), s.Fresh s' →
      CreatedAlike s.nbuffersUsed (s, code, none) (s', code, none) :=
    fun code hs => ⟨⟨hs, rfl⟩, .inl ⟨rfl, rfl⟩⟩
  have hnames : ∀ b c : ArincBuffer, FreshBuffer b c →
      sameName maxNameLength b.bufferName name = sameName maxNameLength c.bufferName name :=
    fun b c hbc => by rw [hbc.same]
  have hfound : (t.findBuffer name).isSome = (t'.findBuffer name).isSome := by
    rw [findBuffer_isSome, findBuffer_isSome, ← h.used, h.buffers.findIdx? hnames]
  refine rel_ite (P := CreatedAlike t.nbuffersUsed) (by rw [h.mode]) (fun _ => hrefused _ h) fun _ =>
    rel_ite (P := CreatedAlike t.nbuffersUsed) (by rw [hfound]) (fun _ => hrefused _ h) fun _ => ?_
  obtain ⟨hmode, hheap, hused, hroom, hbuffers⟩ := id h
  by_cases hlen : t.nbuffersUsed < t.buffers.length
  · have hlen' : t'.nbuffersUsed < t'.buffers.length := by
      rw [← hused, ← hbuffers.length]
      exact hlen
    rw [List.getElem?_eq_getElem hlen, List.getElem?_eq_getElem hlen']
    refine rel_ite (P := CreatedAlike t.nbuffersUsed) Iff.rfl (fun _ => hrefused _ h) fun _ =>
      rel_ite (P := CreatedAlike t.nbuffersUsed) Iff.rfl (fun _ => hrefused _ h) fun hnumber =>
      rel_ite (P := CreatedAlike t.nbuffersUsed) Iff.rfl (fun _ => hrefused _ h) fun _ => ?_
    obtain ⟨hpositive, hlimit⟩ := not_or.mp hnumber
    simp only [← hheap, ← hused]
    refine rel_ite (P := CreatedAlike t.nbuffersUsed) Iff.rfl (fun _ => ?_) fun _ => ?_
    · exact ⟨⟨⟨hmode, rfl, rfl, by simpa using hroom, hbuffers.set_unused _ _⟩, rfl⟩,
        .inl ⟨rfl, rfl⟩⟩
    · have hlen₁ : ∀ b, t.nbuffersUsed < (t.buffers.set t.nbuffersUsed b).length :=
        fun b => by simpa using hlen
      refine ⟨⟨⟨hmode, rfl, rfl, hlen₁ _, hbuffers.set_next ?_⟩, rfl⟩, .inr ⟨rfl, rfl, hlen₁ _⟩⟩
      exact ⟨rfl, rfl, Int.not_le.mp hpositive, Int.not_lt.mp hlimit⟩
  · have hlen' : ¬ t'.nbuffersUsed < t'.buffers.length := by
      rw [← hused, ← hbuffers.length]
      exact hlen
    rw [List.getElem?_eq_none (Nat.not_lt.mp hlen), List.getElem?_eq_none (Nat.not_lt.mp hlen')]
    exact hrefused _ h

theorem createBuffer_counts (t : BufferTable) (name : List UInt8)
    (maxMessageSize maxNbMessage discipline : Int) :
    (t.createBuffer name maxMessageSize maxNbMessage discipline).1.buffers.map
      ArincBuffer.nbMessage = t.buffers.map ArincBuffer.nbMessage := by
  unfold createBuffer
  cases hb : t.buffers[t.nbuffersUsed]? with
  | none => split_ifs <;> rfl
  | some buffer =>
    have hset : ∀ c : ArincBuffer, c.nbMessage = buffer.nbMessage →
        (t.buffers.set t.nbuffersUsed c).map ArincBuffer.nbMessage =
          t.buffers.map ArincBuffer.nbMessage := fun c hc => map_set_same hb hc
    dsimp only
    split_ifs
    · rfl
    · rfl
    · rfl
    · rfl
    · rfl
    · exact hset _ rfl
    · exact hset _ rfl

end BufferTable

namespace ObjectTable

variable {α : Type} {R : α → α → Prop} {t t' : ObjectTable α} {nameOf : α → List UInt8}

/-- The same number of objects has been created, and each is related to its like. -/
structure Alike (R : α → α → Prop) (t t' : ObjectTable α) : Prop where
  used : t.used = t'.used
  entries : Related R t.used t.entries t'.entries

theorem Alike.find (h : t.Alike R t') (hname : ∀ a b, R a b → nameOf a = nameOf b)
    (name : List UInt8) : t.find nameOf name = t'.find nameOf name := by
  rw [ObjectTable.find, ObjectTable.find, ← h.used]
  exact h.entries.findIdx? fun a b hab => by rw [hname a b hab]

theorem Alike.vacant (h : t.Alike R t') (nameOf : α → List UInt8)
    (hname : ∀ a b, R a b → nameOf a = nameOf b) (mode : Bool) (name : List UInt8) :
    (∃ code, t.vacant nameOf mode name = .error code ∧ t'.vacant nameOf mode name = .error code) ∨
      ∃ a b, t.vacant nameOf mode name = .ok a ∧ t'.vacant nameOf mode name = .ok b := by
  have hlength : t.used < t.entries.length ↔ t'.used < t'.entries.length := by
    rw [h.used, h.entries.length]
  unfold ObjectTable.vacant
  rw [h.find hname name]
  by_cases hmode : mode = true
  · exact .inl ⟨.invalidMode, if_pos hmode, if_pos hmode⟩
  · simp only [if_neg hmode]
    by_cases hfound : (t'.find nameOf name).isSome = true
    · exact .inl ⟨.noAction, if_pos hfound, if_pos hfound⟩
    · simp only [if_neg hfound]
      by_cases hlen : t.used < t.entries.length
      · rw [List.getElem?_eq_getElem hlen, List.getElem?_eq_getElem (hlength.mp hlen)]
        exact .inr ⟨_, _, rfl, rfl⟩
      · rw [List.getElem?_eq_none (Nat.not_lt.mp hlen),
          List.getElem?_eq_none (Nat.not_lt.mp (mt hlength.mpr hlen))]
        exact .inl ⟨.invalidConfig, rfl, rfl⟩

theorem Alike.add (h : t.Alike R t') {a b : α} (hab : R a b) : (t.add a).Alike R (t'.add b) := by
  have hnext := h.entries.set_next hab
  rw [ObjectTable.add, ObjectTable.add, ← h.used]
  exact ⟨rfl, hnext⟩

theorem Alike.setEntry (h : t.Alike R t') (a b : α) :
    (t.setEntry t.used a).Alike R (t'.setEntry t'.used b) := by
  refine ⟨h.used, ?_⟩
  rw [ObjectTable.setEntry, ObjectTable.setEntry, ← h.used]
  exact h.entries.set_unused a b

theorem Alike.modify (h : t.Alike R t') (i : Nat) {f g : α → α}
    (hfg : ∀ a b, R a b → R (f a) (g b)) :
    Alike R { t with entries := t.entries.modify i f } { t' with entries := t'.entries.modify i g } :=
  ⟨h.used, h.entries.modify i hfg⟩

end ObjectTable

namespace IntraObjects

variable {s s' : IntraObjects}

/-- The same creations have been made before, whatever the memory was. -/
structure Fresh (s s' : IntraObjects) : Prop where
  table : s.toBufferTable.Fresh s'.toBufferTable
  bufferQueues : ∀ i < s.nbuffersUsed, s.bufferQueues i = .init ∧ s'.bufferQueues i = .init
  blackboards : s.blackboards.Alike (fun b c => b = c ∧ b.messageSize = 0) s'.blackboards
  semaphores : s.semaphores.Alike Eq s'.semaphores
  events : s.events.Alike Eq s'.events

theorem createBuffer_fresh (h : s.Fresh s') (name : List UInt8)
    (maxMessageSize maxNbMessage discipline : Int) :
    Both Fresh (s.createBuffer name maxMessageSize maxNbMessage discipline)
      (s'.createBuffer name maxMessageSize maxNbMessage discipline) := by
  obtain ⟨⟨htable, hout⟩, hcases⟩ :=
    BufferTable.createBuffer_fresh h.table name maxMessageSize maxNbMessage discipline
  have hused : s.nbuffersUsed = s'.nbuffersUsed := h.table.used
  unfold createBuffer
  dsimp only
  rw [← hout, ← hused]
  rcases hcases with ⟨hnone, hu⟩ | ⟨hsome, hu, hlen⟩
  · rw [hnone]
    exact ⟨⟨htable, fun i hi => h.bufferQueues i (hu ▸ hi), h.blackboards, h.semaphores, h.events⟩,
      rfl⟩
  · have hlen' := htable.buffers.length ▸ hlen
    rw [hsome, List.getElem?_eq_getElem hlen, List.getElem?_eq_getElem hlen']
    refine ⟨⟨htable, fun i hi => ?_, h.blackboards, h.semaphores, h.events⟩, rfl⟩
    have hi' : i < s.nbuffersUsed + 1 := hu ▸ hi
    by_cases hiu : i = s.nbuffersUsed
    · subst hiu
      simp
    · have hold := h.bufferQueues i (by omega)
      simpa [Function.update_of_ne hiu] using hold

theorem createBlackboard_fresh (h : s.Fresh s') (name : List UInt8) (maxMessageSize : Int) :
    Both Fresh (s.createBlackboard name maxMessageSize)
      (s'.createBlackboard name maxMessageSize) := by
  unfold createBlackboard
  rw [← h.table.mode, ← h.table.heap]
  rcases h.blackboards.vacant BlackboardEntry.blackboardName
      (fun a b hab => by rw [hab.1]) s.normalMode name with ⟨code, ha, hb⟩ | ⟨a, b, ha, hb⟩
  · rw [ha, hb]
    exact ⟨h, rfl⟩
  · rw [ha, hb]
    refine rel_ite (P := Both Fresh) Iff.rfl (fun _ => ⟨h, rfl⟩) fun _ =>
      rel_ite (P := Both Fresh) Iff.rfl (fun _ => ?_) fun _ => ?_
    · exact ⟨⟨⟨rfl, rfl, h.table.used, h.table.room, h.table.buffers⟩, h.bufferQueues,
        h.blackboards.setEntry _ _, h.semaphores, h.events⟩, rfl⟩
    · refine ⟨⟨⟨rfl, rfl, h.table.used, h.table.room, h.table.buffers⟩, h.bufferQueues,
        h.blackboards.add ⟨rfl, rfl⟩, h.semaphores, h.events⟩, ?_⟩
      rw [h.blackboards.used]

theorem createSemaphore_fresh (h : s.Fresh s') (name : List UInt8)
    (currentValue maximumValue discipline : Int) :
    Both Fresh (s.createSemaphore name currentValue maximumValue discipline)
      (s'.createSemaphore name currentValue maximumValue discipline) := by
  unfold createSemaphore
  rw [← h.table.mode]
  rcases h.semaphores.vacant SemaphoreEntry.semaphoreName
      (fun a b hab => by rw [hab]) s.normalMode name with ⟨code, ha, hb⟩ | ⟨a, b, ha, hb⟩
  · rw [ha, hb]
    exact ⟨h, rfl⟩
  · rw [ha, hb]
    refine rel_ite (P := Both Fresh) Iff.rfl (fun _ => ⟨h, rfl⟩) fun _ =>
      rel_ite (P := Both Fresh) Iff.rfl (fun _ => ⟨h, rfl⟩) fun _ =>
      rel_ite (P := Both Fresh) Iff.rfl (fun _ => ⟨h, rfl⟩) fun _ => ?_
    refine ⟨⟨h.table, h.bufferQueues, h.blackboards, h.semaphores.add rfl, h.events⟩, ?_⟩
    rw [h.semaphores.used]

theorem createEvent_fresh (h : s.Fresh s') (name : List UInt8) :
    Both Fresh (s.createEvent name) (s'.createEvent name) := by
  unfold createEvent
  rw [← h.table.mode]
  rcases h.events.vacant EventEntry.eventName
      (fun a b hab => by rw [hab]) s.normalMode name with ⟨code, ha, hb⟩ | ⟨a, b, ha, hb⟩
  · rw [ha, hb]
    exact ⟨h, rfl⟩
  · rw [ha, hb]
    refine ⟨⟨h.table, h.bufferQueues, h.blackboards, h.semaphores, h.events.add rfl⟩, ?_⟩
    rw [h.events.used]

theorem create_fresh (h : s.Fresh s') (c : ObjectCreate) :
    Both Fresh (s.create c) (s'.create c) := by
  cases c with
  | buffer name maxMessageSize maxNbMessage discipline =>
    exact createBuffer_fresh h name maxMessageSize maxNbMessage discipline
  | blackboard name maxMessageSize => exact createBlackboard_fresh h name maxMessageSize
  | semaphore name currentValue maximumValue discipline =>
    exact createSemaphore_fresh h name currentValue maximumValue discipline
  | event name => exact createEvent_fresh h name

theorem creations_fresh (h : s.Fresh s') (creates : List ObjectCreate) :
    Both Fresh (s.creations creates) (s'.creations creates) := by
  induction creates generalizing s s' with
  | nil => exact ⟨h, rfl⟩
  | cons c cs ih =>
    obtain ⟨hc, hout⟩ := create_fresh h c
    obtain ⟨hcs, houts⟩ := ih hc
    exact ⟨hcs, congrArg₂ List.cons hout houts⟩

/-- What creations leave as it is -/
structure Kept (s r : IntraObjects) : Prop where
  kshd : r.kshd = s.kshd
  counts : r.buffers.map ArincBuffer.nbMessage = s.buffers.map ArincBuffer.nbMessage

theorem createBuffer_kept (s : IntraObjects) (name : List UInt8)
    (maxMessageSize maxNbMessage discipline : Int) :
    s.Kept (s.createBuffer name maxMessageSize maxNbMessage discipline).1 := by
  have hcounts := s.toBufferTable.createBuffer_counts name maxMessageSize maxNbMessage discipline
  unfold createBuffer
  dsimp only
  split
  · exact ⟨rfl, hcounts⟩
  · exact ⟨rfl, hcounts⟩

theorem createBlackboard_kept (s : IntraObjects) (name : List UInt8) (maxMessageSize : Int) :
    s.Kept (s.createBlackboard name maxMessageSize).1 := by
  unfold createBlackboard
  split
  · exact ⟨rfl, rfl⟩
  · dsimp only
    split_ifs
    · exact ⟨rfl, rfl⟩
    · exact ⟨rfl, rfl⟩
    · exact ⟨rfl, rfl⟩

theorem createSemaphore_kept (s : IntraObjects) (name : List UInt8)
    (currentValue maximumValue discipline : Int) :
    s.Kept (s.createSemaphore name currentValue maximumValue discipline).1 := by
  unfold createSemaphore
  split
  · exact ⟨rfl, rfl⟩
  · split_ifs
    · exact ⟨rfl, rfl⟩
    · exact ⟨rfl, rfl⟩
    · exact ⟨rfl, rfl⟩
    · exact ⟨rfl, rfl⟩

theorem create_kept (s : IntraObjects) (c : ObjectCreate) : s.Kept (s.create c).1 := by
  cases c with
  | buffer name maxMessageSize maxNbMessage discipline =>
    exact s.createBuffer_kept name maxMessageSize maxNbMessage discipline
  | blackboard name maxMessageSize => exact s.createBlackboard_kept name maxMessageSize
  | semaphore name currentValue maximumValue discipline =>
    exact s.createSemaphore_kept name currentValue maximumValue discipline
  | event name =>
    simp only [create, createEvent]
    split
    · exact ⟨rfl, rfl⟩
    · exact ⟨rfl, rfl⟩

theorem creations_kept (s : IntraObjects) (creates : List ObjectCreate) :
    s.Kept (s.creations creates).1 := by
  induction creates generalizing s with
  | nil => exact ⟨rfl, rfl⟩
  | cons c cs ih =>
    have hc := s.create_kept c
    have hcs := ih (s.create c).1
    exact ⟨hcs.kshd.trans hc.kshd, hcs.counts.trans hc.counts⟩

end IntraObjects

end Chpok
