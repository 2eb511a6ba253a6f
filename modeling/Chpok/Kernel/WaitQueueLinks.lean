import Chpok.Kernel.WaitQueue
import Chpok.Library.LinkedList
import Mathlib.Data.List.Perm.Subperm
import Mathlib.Data.List.Nodup
import Mathlib.Data.List.TakeWhile

/-! The links of a wait queue. Adding and taking out are the operations of a list that is
linked in both directions, and the loops of the kernel sweep out the threads which do not
wait any more. -/

namespace Chpok

/-- A thread without its links. -/
def WqThread.bare (th : WqThread) : WqThread := { th with wqNext := none, wqPrev := none }

/-- A notification ends a wait. -/
def WqThread.awake (th : WqThread) : WqThread := { th with state := .runnable, waitResult := .ok }

theorem WqThread.bare_bare (th : WqThread) : th.bare.bare = th.bare := rfl

namespace WaitQueue

variable {w r : WaitQueue} {c t u : Nat} {l before after : List Nat}

def Linked (w : WaitQueue) (l : List Nat) : Prop := LinkedList.Linked w.nextOf w.prevOf l

@[simp] theorem updateThread_threads_self (f : WqThread → WqThread) :
    (w.updateThread t f).threads t = f (w.threads t) := Function.update_self ..

theorem updateThread_threads_ne (hne : u ≠ t) (f : WqThread → WqThread) :
    (w.updateThread t f).threads u = w.threads u := Function.update_of_ne hne ..

theorem nextOf_updateThread (f : WqThread → WqThread) :
    (w.updateThread t f).nextOf =
      Function.update w.nextOf (some t) (f (w.threads t)).wqNext := by
  funext p
  cases p with
  | none => rfl
  | some u =>
    by_cases hne : u = t
    · subst hne
      simp [nextOf]
    · simp [nextOf, hne, updateThread_threads_ne hne]

theorem prevOf_updateThread (f : WqThread → WqThread) :
    (w.updateThread t f).prevOf =
      Function.update w.prevOf (some t) (f (w.threads t)).wqPrev := by
  funext p
  cases p with
  | none => rfl
  | some u =>
    by_cases hne : u = t
    · subst hne
      simp [prevOf]
    · simp [prevOf, hne, updateThread_threads_ne hne]

theorem nextOf_setNext (p v : Option Nat) :
    (w.setNext p v).nextOf = Function.update w.nextOf p v := by
  cases p with
  | none =>
    funext q
    cases q with
    | none => simp [setNext, nextOf]
    | some u => simp [setNext, nextOf]
  | some u => exact nextOf_updateThread _

theorem prevOf_setPrev (p v : Option Nat) :
    (w.setPrev p v).prevOf = Function.update w.prevOf p v := by
  cases p with
  | none =>
    funext q
    cases q with
    | none => simp [setPrev, prevOf]
    | some u => simp [setPrev, prevOf]
  | some u => exact prevOf_updateThread _

theorem nextOf_setPrev (p v : Option Nat) : (w.setPrev p v).nextOf = w.nextOf := by
  cases p with
  | none =>
    funext q
    cases q <;> rfl
  | some u => exact (nextOf_updateThread _).trans (Function.update_eq_self _ _)

theorem prevOf_setNext (p v : Option Nat) : (w.setNext p v).prevOf = w.prevOf := by
  cases p with
  | none =>
    funext q
    cases q <;> rfl
  | some u => exact (prevOf_updateThread _).trans (Function.update_eq_self _ _)

theorem nextOf_link (p n : Option Nat) : (w.link c p n).nextOf =
    Function.update (Function.update w.nextOf (some c) n) p (some c) := by
  rw [link, nextOf_setPrev, nextOf_setNext, nextOf_updateThread]

theorem prevOf_link (p n : Option Nat) : (w.link c p n).prevOf =
    Function.update (Function.update w.prevOf (some c) p) n (some c) := by
  rw [link, prevOf_setPrev, prevOf_setNext, prevOf_updateThread]

theorem nextOf_del : (w.msectionWqDel t).nextOf = Function.update
    (Function.update w.nextOf (w.threads t).wqPrev (w.threads t).wqNext) (some t) none := by
  rw [msectionWqDel, nextOf_updateThread, nextOf_setNext, nextOf_setPrev]

theorem prevOf_del : (w.msectionWqDel t).prevOf = Function.update
    (Function.update w.prevOf (w.threads t).wqNext (w.threads t).wqPrev) (some t) none := by
  rw [msectionWqDel, prevOf_updateThread, prevOf_setNext, prevOf_setPrev]

/-- The operations on the links touch the threads at the two places only, ... -/
theorem setNext_threads_ne {p : Option Nat} (v : Option Nat) (hp : p ≠ some u) :
    (w.setNext p v).threads u = w.threads u := by
  cases p with
  | none => rfl
  | some x => rw [setNext, updateThread_threads_ne fun he => hp (congrArg some he.symm)]

theorem setPrev_threads_ne {p : Option Nat} (v : Option Nat) (hp : p ≠ some u) :
    (w.setPrev p v).threads u = w.threads u := by
  cases p with
  | none => rfl
  | some x => rw [setPrev, updateThread_threads_ne fun he => hp (congrArg some he.symm)]

/-- ... and nothing but the links. -/
theorem setNext_bare (p v : Option Nat) (u : Nat) :
    ((w.setNext p v).threads u).bare = (w.threads u).bare := by
  cases p with
  | none => rfl
  | some x =>
    by_cases hne : u = x
    · subst hne
      rw [setNext, updateThread_threads_self]
      rfl
    · rw [setNext, updateThread_threads_ne hne]

theorem setPrev_bare (p v : Option Nat) (u : Nat) :
    ((w.setPrev p v).threads u).bare = (w.threads u).bare := by
  cases p with
  | none => rfl
  | some x =>
    by_cases hne : u = x
    · subst hne
      rw [setPrev, updateThread_threads_self]
      rfl
    · rw [setPrev, updateThread_threads_ne hne]

theorem setNext_used (p v : Option Nat) : (w.setNext p v).nthreadsUsed = w.nthreadsUsed := by
  cases p <;> rfl

theorem setPrev_used (p v : Option Nat) : (w.setPrev p v).nthreadsUsed = w.nthreadsUsed := by
  cases p <;> rfl

theorem link_used (p n : Option Nat) : (w.link c p n).nthreadsUsed = w.nthreadsUsed := by
  rw [link, setPrev_used, setNext_used]
  rfl

theorem del_used (t : Nat) : (w.msectionWqDel t).nthreadsUsed = w.nthreadsUsed := by
  rw [msectionWqDel, updateThread, setNext_used, setPrev_used]

theorem link_bare (p n : Option Nat) (u : Nat) :
    ((w.link c p n).threads u).bare = (w.threads u).bare := by
  rw [link, setPrev_bare, setNext_bare]
  by_cases hne : u = c
  · subst hne
    rw [updateThread_threads_self]
    rfl
  · rw [updateThread_threads_ne hne]

theorem del_threads_self (t : Nat) : (w.msectionWqDel t).threads t = (w.threads t).bare := by
  rw [msectionWqDel, updateThread_threads_self]
  change WqThread.bare _ = _
  rw [setNext_bare, setPrev_bare]

theorem del_bare (t u : Nat) : ((w.msectionWqDel t).threads u).bare = (w.threads u).bare := by
  by_cases hne : u = t
  · subst hne
    rw [del_threads_self, WqThread.bare_bare]
  · rw [msectionWqDel, updateThread_threads_ne hne, setNext_bare, setPrev_bare]

theorem Linked.link (h : w.Linked (before ++ after)) (hc : c ∉ before ++ after) :
    (w.link c before.getLast? after.head?).Linked (before ++ c :: after) := by
  rw [Linked, nextOf_link, prevOf_link]
  exact LinkedList.Linked.insert h hc

theorem Linked.wqNext_eq (h : w.Linked (before ++ t :: after)) :
    (w.threads t).wqNext = after.head? := LinkedList.Linked.next_eq h

theorem Linked.wqPrev_eq (h : w.Linked (before ++ t :: after)) :
    (w.threads t).wqPrev = before.getLast? := LinkedList.Linked.prev_eq h

theorem Linked.first_eq (h : w.Linked l) : w.first = l.head? := LinkedList.Linked.first_eq h

theorem Linked.last_eq (h : w.Linked l) : w.last = l.getLast? := LinkedList.Linked.last_eq h

theorem Linked.split_before (h : w.Linked l) {next : Option Nat} (hnext : ∀ n ∈ next, n ∈ l) :
    ∃ before after, l = before ++ after ∧ w.msectionWqAdd c next =
      w.link c before.getLast? after.head? := by
  cases next with
  | none =>
    refine ⟨l, [], by simp, ?_⟩
    rw [msectionWqAdd, show w.prevOf none = l.getLast? from h.last_eq]
    rfl
  | some n =>
    obtain ⟨before, after, rfl⟩ := List.append_of_mem (hnext n rfl)
    refine ⟨before, n :: after, rfl, ?_⟩
    rw [msectionWqAdd, show w.prevOf (some n) = before.getLast? from h.wqPrev_eq]
    rfl

theorem Linked.split_after (h : w.Linked l) {prev : Option Nat} (hprev : ∀ p ∈ prev, p ∈ l) :
    ∃ before after, l = before ++ after ∧ prev = before.getLast? ∧
      w.msectionWqAddAfter c prev = w.link c before.getLast? after.head? := by
  cases prev with
  | none =>
    refine ⟨[], l, by simp, rfl, ?_⟩
    rw [msectionWqAddAfter, show w.nextOf none = l.head? from h.first_eq]
    rfl
  | some p =>
    obtain ⟨before, after, rfl⟩ := List.append_of_mem (hprev p rfl)
    refine ⟨before ++ [p], after, by simp, by simp, ?_⟩
    rw [msectionWqAddAfter, show w.nextOf (some p) = after.head? from h.wqNext_eq]
    simp

theorem Linked.del (h : w.Linked (before ++ t :: after)) :
    (w.msectionWqDel t).Linked (before ++ after) := by
  rw [Linked, nextOf_del, prevOf_del, h.wqNext_eq, h.wqPrev_eq]
  exact LinkedList.Linked.erase h none none

theorem Linked.not_mem_of_del (h : w.Linked (before ++ t :: after)) : t ∉ before ++ after :=
  (List.nodup_cons.mp (List.nodup_middle.mp h.nodup)).1

theorem Linked.del_threads (h : w.Linked (before ++ t :: after)) (hu : u ∉ before ++ t :: after) :
    (w.msectionWqDel t).threads u = w.threads u := by
  simp only [List.mem_append, List.mem_cons, not_or] at hu
  rw [msectionWqDel, updateThread_threads_ne hu.2.1, setNext_threads_ne, setPrev_threads_ne]
  · rw [h.wqNext_eq]
    exact fun he => hu.2.2 (List.mem_of_head? he)
  · rw [h.wqPrev_eq]
    exact fun he => hu.1 (List.mem_of_getLast? he)

theorem del_unlinked (hnext : (w.threads t).wqNext = none) (hprev : (w.threads t).wqPrev = none) :
    (w.msectionWqDel t).Linked [] ∧
      ∀ u, u ≠ t → (w.msectionWqDel t).threads u = w.threads u := by
  refine ⟨⟨.nil, ?_, ?_⟩, fun u hu => ?_⟩
  · change (w.msectionWqDel t).nextOf none = none
    simp [nextOf_del, hnext, hprev]
  · change (w.msectionWqDel t).prevOf none = none
    simp [prevOf_del, hnext, hprev]
  · rw [msectionWqDel, updateThread_threads_ne hu, hnext, hprev]
    rfl

theorem link_threads (hc : u ≠ c) (hbefore : u ∉ before) (hafter : u ∉ after) :
    (w.link c before.getLast? after.head?).threads u = w.threads u := by
  rw [WaitQueue.link, setPrev_threads_ne, setNext_threads_ne, updateThread_threads_ne hc]
  · exact fun he => hbefore (List.mem_of_getLast? he)
  · exact fun he => hafter (List.mem_of_head? he)

theorem Linked.updateThread (h : w.Linked l) {f : WqThread → WqThread}
    (hnext : (f (w.threads t)).wqNext = (w.threads t).wqNext)
    (hprev : (f (w.threads t)).wqPrev = (w.threads t).wqPrev) : (w.updateThread t f).Linked l := by
  rw [Linked, nextOf_updateThread, prevOf_updateThread, hnext, hprev]
  rwa [show (w.threads t).wqNext = w.nextOf (some t) from rfl,
    show (w.threads t).wqPrev = w.prevOf (some t) from rfl, Function.update_eq_self,
    Function.update_eq_self]

/-- A thread outside the queue has no links, so that its own fields tell whether it is in. -/
theorem Linked.isLinked_iff (h : w.Linked l) (hout : t ∉ l → (w.threads t).wqPrev = none) :
    w.IsLinked t ↔ t ∈ l := by
  constructor
  · rintro (hfirst | hprev)
    · exact List.mem_of_head? (h.first_eq.symm.trans hfirst)
    · by_contra hnot
      exact hprev (hout hnot)
  · intro ht
    obtain ⟨before, after, rfl⟩ := List.append_of_mem ht
    cases before with
    | nil => exact .inl h.first_eq
    | cons x before =>
      refine .inr ?_
      rw [h.wqPrev_eq]
      simp

theorem Linked.nodup (h : w.Linked l) : l.Nodup := LinkedList.Linked.nodup h

theorem Linked.unique {l' : List Nat} (h : w.Linked l) (h' : w.Linked l') : l = l' :=
  LinkedList.Linked.unique h h'

theorem Linked.length_le (h : w.Linked l) (hids : ∀ t ∈ l, t < w.nthreadsUsed) :
    l.length ≤ w.nthreadsUsed := by
  have hsub : l ⊆ List.range w.nthreadsUsed := fun t ht => List.mem_range.mpr (hids t ht)
  have := (List.Nodup.subperm h.nodup hsub).length_le
  rwa [List.length_range] at this

/-- The queue `l` has been swept: some threads have been taken out of it and some, of which
any may still be in it, have been notified. -/
structure Swept (r w : WaitQueue) (l pruned woken : List Nat) : Prop where
  used : r.nthreadsUsed = w.nthreadsUsed
  outside : ∀ t, t ∉ l → r.threads t = w.threads t
  takenOut : ∀ t ∈ pruned, r.threads t = (w.threads t).bare
  notified : ∀ t ∈ woken, (r.threads t).bare = (w.threads t).bare.awake
  others : ∀ t, t ∉ woken → (r.threads t).bare = (w.threads t).bare

theorem Swept.refl (w : WaitQueue) (l : List Nat) : w.Swept w l [] [] :=
  ⟨rfl, fun _ _ => rfl, nofun, nofun, fun _ _ => rfl⟩

theorem Linked.del_swept (h : w.Linked (before ++ t :: after)) :
    (w.msectionWqDel t).Swept w (before ++ t :: after) [t] [] := by
  refine ⟨del_used t, fun u hu => h.del_threads hu, fun u hu => ?_, nofun, fun u _ => del_bare t u⟩
  obtain rfl := List.mem_singleton.mp hu
  exact del_threads_self u

theorem Linked.kernelMsectionWqDel_eq (h : w.Linked (before ++ t :: after))
    (hids : ∀ u ∈ before ++ t :: after, u < w.nthreadsUsed) :
    w.kernelMsectionWqDel t = some (w.msectionWqDel t) := by
  refine if_pos ⟨fun u hu => hids u ?_, fun u hu => hids u ?_⟩
  · rw [h.wqNext_eq] at hu
    simp [List.mem_of_head? hu]
  · rw [h.wqPrev_eq] at hu
    simp [List.mem_of_getLast? hu]

theorem wakeNotified_eq (hwaiting : (w.threads t).state = .waiting) :
    w.wakeNotified t = some (w.updateThread t WqThread.awake) := by
  rw [wakeNotified, threadWakeUp, if_pos hwaiting]
  simp [updateThread, WqThread.awake]

theorem awake_swept (hl : t ∈ l) : (w.updateThread t WqThread.awake).Swept w l [] [t] := by
  refine ⟨rfl, fun u hu => updateThread_threads_ne (by rintro rfl; exact hu hl) _, nofun,
    fun u hu => ?_, fun u hu => ?_⟩
  · obtain rfl := List.mem_singleton.mp hu
    rw [updateThread_threads_self]
    rfl
  · rw [updateThread_threads_ne (by simpa using hu)]

theorem Swept.trans {v : WaitQueue} {l' pruned pruned' woken woken' : List Nat}
    (h : r.Swept v l' pruned' woken') (h' : v.Swept w l pruned woken) (hsub : l' ⊆ l)
    (hpruned : ∀ t ∈ pruned, t ∉ l') (hwoken : ∀ t ∈ woken, t ∉ woken' ∧ t ∉ pruned') :
    r.Swept w l (pruned ++ pruned') (woken ++ woken') := by
  refine ⟨h.used.trans h'.used, fun t ht => ?_, fun t ht => ?_, fun t ht => ?_, fun t ht => ?_⟩
  · exact (h.outside t fun hl => ht (hsub hl)).trans (h'.outside t ht)
  · rcases List.mem_append.mp ht with ht | ht
    · exact (h.outside t (hpruned t ht)).trans (h'.takenOut t ht)
    · rw [h.takenOut t ht]
      exact h'.others t fun hw => (hwoken t hw).2 ht
  · rcases List.mem_append.mp ht with ht | ht
    · exact (h.others t (hwoken t ht).1).trans (h'.notified t ht)
    · rw [h.notified t ht, h'.others t fun hw => (hwoken t hw).1 ht]
  · rw [List.mem_append, not_or] at ht
    exact (h.others t ht.2).trans (h'.others t ht.1)

/-- The threads of the queue may be looked at by the kernel. -/
structure Sound (w : WaitQueue) (l : List Nat) : Prop where
  linked : w.Linked l
  ids : ∀ t ∈ l, t < w.nthreadsUsed
  entering : ∀ t ∈ l, (w.threads t).entering = true

theorem Sound.of_bare {l' : List Nat} (h : w.Sound l) (hlinked : r.Linked l')
    (hused : r.nthreadsUsed = w.nthreadsUsed) (hsub : l' ⊆ l)
    (hbare : ∀ u ∈ l', (r.threads u).bare = (w.threads u).bare) : r.Sound l' := by
  refine ⟨hlinked, fun u hu => hused ▸ h.ids u (hsub hu), fun u hu => ?_⟩
  have hsame : (r.threads u).bare.entering = (w.threads u).bare.entering := by rw [hbare u hu]
  exact hsame.trans (h.entering u (hsub hu))

theorem Sound.del (h : w.Sound (before ++ t :: after)) :
    w.kernelMsectionWqDel t = some (w.msectionWqDel t) ∧
      (w.msectionWqDel t).Sound (before ++ after) := by
  have hsub : before ++ after ⊆ before ++ t :: after := by
    intro u hu
    rw [List.mem_append] at hu
    rcases hu with hu | hu <;> simp [hu]
  exact ⟨h.linked.kernelMsectionWqDel_eq h.ids,
    h.of_bare h.linked.del (del_used t) hsub fun u _ => del_bare t u⟩

theorem Sound.awake (h : w.Sound l) : (w.updateThread t WqThread.awake).Sound l := by
  refine ⟨h.linked.updateThread rfl rfl, h.ids, fun u hu => ?_⟩
  by_cases hne : u = t
  · subst hne
    rw [updateThread_threads_self]
    exact h.entering u hu
  · rw [updateThread_threads_ne hne]
    exact h.entering u hu

def Waits (w : WaitQueue) (t : Nat) : Prop := (w.threads t).state = .waiting

instance (w : WaitQueue) : DecidablePred w.Waits :=
  fun t => inferInstanceAs (Decidable ((w.threads t).state = .waiting))

theorem waits_of_bare (h : (r.threads t).bare = (w.threads t).bare) : r.Waits t ↔ w.Waits t := by
  have hstate : (r.threads t).bare.state = (w.threads t).bare.state := by rw [h]
  exact Eq.congr_left hstate

theorem Sound.guard (h : w.Sound (before ++ t :: after)) :
    t < w.nthreadsUsed ∧ (w.threads t).entering = true :=
  ⟨h.ids t (by simp), h.entering t (by simp)⟩

theorem Sound.wqNotify_waits {fuel : Nat} {isAll : Bool} (h : w.Sound (before ++ t :: after))
    (hwaits : w.Waits t) : wqNotify (fuel + 1) w (some t) isAll =
      if isAll then (wqNotify fuel (w.updateThread t WqThread.awake) after.head? isAll).map
        fun q => (q.1, true)
      else some (w.updateThread t WqThread.awake, true) := by
  have hif : ¬ (w.threads t).state ≠ .waiting := not_not.mpr hwaits
  rw [wqNotify, if_pos h.guard, if_neg hif, wakeNotified_eq hwaits, Option.bind_some,
    h.linked.wqNext_eq]

theorem Sound.wqNotify_prunes {fuel : Nat} {isAll : Bool} (h : w.Sound (before ++ t :: after))
    (hwaits : ¬ w.Waits t) : wqNotify (fuel + 1) w (some t) isAll =
      wqNotify fuel (w.msectionWqDel t) after.head? isAll := by
  have hif : (w.threads t).state ≠ .waiting := hwaits
  rw [wqNotify, if_pos h.guard, if_pos hif, h.del.1, Option.bind_some, h.linked.wqNext_eq]

theorem Swept.after_del {pruned woken : List Nat} (h : w.Linked (before ++ t :: after))
    (hswept : r.Swept (w.msectionWqDel t) (before ++ after) pruned woken) :
    r.Swept w (before ++ t :: after) (t :: pruned) woken := by
  have hsub : before ++ after ⊆ before ++ t :: after := by
    intro u hu
    rw [List.mem_append] at hu
    rcases hu with hu | hu <;> simp [hu]
  refine hswept.trans h.del_swept hsub (fun u hu => ?_) nofun
  obtain rfl := List.mem_singleton.mp hu
  exact h.not_mem_of_del

/-- The loop of `jet_msection_wq_notify` for all threads takes out those that do not wait
and notifies the others. -/
theorem wqNotify_all {fuel : Nat} (kept : List Nat) {rest : List Nat} (h : w.Sound (kept ++ rest))
    (hfuel : rest.length ≤ fuel) :
    ∃ r, wqNotify fuel w rest.head? true = some (r, rest.any (w.Waits ·)) ∧
      r.Sound (kept ++ rest.filter (w.Waits ·)) ∧
      r.Swept w (kept ++ rest) (rest.filter (¬ w.Waits ·)) (rest.filter (w.Waits ·)) := by
  induction rest generalizing w kept fuel with
  | nil =>
    refine ⟨w, ?_, by simpa using h, by simpa using Swept.refl w _⟩
    cases fuel <;> rfl
  | cons t rest ih =>
    cases fuel with
    | zero => cases hfuel
    | succ fuel =>
      have hfuel' : rest.length ≤ fuel := Nat.le_of_succ_le_succ hfuel
      have htrest : t ∉ rest := (List.nodup_cons.mp h.linked.nodup.of_append_right).1
      rw [List.head?_cons]
      by_cases hwaits : w.Waits t
      · have hsame : ∀ u ∈ rest, (w.updateThread t WqThread.awake).Waits u ↔ w.Waits u := by
          intro u hu
          rw [Waits, updateThread_threads_ne (ne_of_mem_of_not_mem hu htrest), Waits]
        have hfilter : rest.filter ((w.updateThread t WqThread.awake).Waits ·) =
            rest.filter (w.Waits ·) := List.filter_congr fun u hu => by simp [hsame u hu]
        have hprune : rest.filter (¬ (w.updateThread t WqThread.awake).Waits ·) =
            rest.filter (¬ w.Waits ·) := List.filter_congr fun u hu => by simp [hsame u hu]
        have hawake : (w.updateThread t WqThread.awake).Sound ((kept ++ [t]) ++ rest) := by
          simpa using h.awake
        obtain ⟨r, hr, hsound, hswept⟩ := ih (kept ++ [t]) hawake hfuel'
        rw [hfilter] at hsound hswept
        rw [hprune] at hswept
        have hdisjoint : ∀ u ∈ [t], u ∉ rest.filter (w.Waits ·) ∧
            u ∉ rest.filter (¬ w.Waits ·) := by
          intro u hu
          obtain rfl := List.mem_singleton.mp hu
          exact ⟨fun hm => htrest (List.mem_of_mem_filter hm),
            fun hm => htrest (List.mem_of_mem_filter hm)⟩
        have hall := hswept.trans (awake_swept (l := kept ++ t :: rest) (by simp)) (by simp) nofun
          hdisjoint
        refine ⟨r, ?_, ?_, ?_⟩
        · rw [h.wqNotify_waits hwaits, if_pos rfl, hr]
          simp [hwaits]
        · simpa [hwaits] using hsound
        · simpa [hwaits] using hall
      · have hsame : ∀ u, (w.msectionWqDel t).Waits u ↔ w.Waits u :=
          fun u => waits_of_bare (del_bare t u)
        obtain ⟨r, hr, hsound, hswept⟩ := ih kept h.del.2 hfuel'
        simp only [hsame] at hr hsound hswept
        refine ⟨r, ?_, ?_, ?_⟩
        · rw [h.wqNotify_prunes hwaits, hr]
          simp [hwaits]
        · simpa [hwaits] using hsound
        · simpa [hwaits] using hswept.after_del h.linked

/-- For one thread it takes out those in front of the first that waits, and notifies that. -/
theorem wqNotify_one {fuel : Nat} (h : w.Sound l) (hfuel : l.length ≤ fuel) :
    ∃ r, wqNotify fuel w l.head? false = some (r, l.any (w.Waits ·)) ∧
      r.Sound (l.dropWhile (¬ w.Waits ·)) ∧
      r.Swept w l (l.takeWhile (¬ w.Waits ·)) (l.find? (w.Waits ·)).toList := by
  induction l generalizing w fuel with
  | nil =>
    refine ⟨w, ?_, h, Swept.refl w _⟩
    cases fuel <;> rfl
  | cons t rest ih =>
    cases fuel with
    | zero => cases hfuel
    | succ fuel =>
      have h' : w.Sound ([] ++ t :: rest) := h
      rw [List.head?_cons]
      by_cases hwaits : w.Waits t
      · refine ⟨w.updateThread t WqThread.awake, ?_, ?_, ?_⟩
        · rw [h'.wqNotify_waits hwaits, if_neg (by simp)]
          simp [hwaits]
        · simpa [hwaits] using h.awake
        · simpa [hwaits] using awake_swept (l := t :: rest) (by simp)
      · have hsame : ∀ u, (w.msectionWqDel t).Waits u ↔ w.Waits u :=
          fun u => waits_of_bare (del_bare t u)
        obtain ⟨r, hr, hsound, hswept⟩ := ih h'.del.2 (Nat.le_of_succ_le_succ hfuel)
        simp only [hsame] at hr hsound hswept
        refine ⟨r, ?_, ?_, ?_⟩
        · rw [h'.wqNotify_prunes hwaits]
          simpa [hwaits] using hr
        · simpa [hwaits] using hsound
        · simpa [hwaits] using hswept.after_del h'.linked

/-- The loop of `jet_msection_wq_size` takes out the threads that do not wait and counts the
others. -/
theorem wqSize_eq {fuel : Nat} (count : Nat) (kept : List Nat) {rest : List Nat} (h : w.Sound (kept ++ rest))
    (hfuel : rest.length ≤ fuel) :
    ∃ r, wqSize fuel w rest.head? count = some (r, count + rest.countP (w.Waits ·)) ∧
      r.Sound (kept ++ rest.filter (w.Waits ·)) ∧
      r.Swept w (kept ++ rest) (rest.filter (¬ w.Waits ·)) [] := by
  induction rest generalizing w kept fuel count with
  | nil =>
    refine ⟨w, ?_, by simpa using h, by simpa using Swept.refl w _⟩
    cases fuel <;> rfl
  | cons t rest ih =>
    cases fuel with
    | zero => cases hfuel
    | succ fuel =>
      have hfuel' : rest.length ≤ fuel := Nat.le_of_succ_le_succ hfuel
      rw [List.head?_cons, wqSize, if_pos h.guard, h.linked.wqNext_eq]
      by_cases hwaits : w.Waits t
      · have hif : ¬ (w.threads t).state ≠ .waiting := not_not.mpr hwaits
        have hkept : w.Sound ((kept ++ [t]) ++ rest) := by simpa using h
        obtain ⟨r, hr, hsound, hswept⟩ := ih (count + 1) (kept ++ [t]) hkept hfuel'
        refine ⟨r, ?_, ?_, ?_⟩
        · rw [if_neg hif, hr]
          simp [hwaits, Nat.add_assoc, Nat.add_comm]
        · simpa [hwaits] using hsound
        · simpa [hwaits] using hswept
      · have hif : (w.threads t).state ≠ .waiting := hwaits
        have hsame : ∀ u, (w.msectionWqDel t).Waits u ↔ w.Waits u :=
          fun u => waits_of_bare (del_bare t u)
        obtain ⟨r, hr, hsound, hswept⟩ := ih count kept h.del.2 hfuel'
        simp only [hsame] at hr hsound hswept
        refine ⟨r, ?_, ?_, ?_⟩
        · rw [if_pos hif, h.del.1, Option.bind_some, hr]
          simp [hwaits]
        · simpa [hwaits] using hsound
        · simpa [hwaits] using hswept.after_del h.linked

theorem Sound.length_le (h : w.Sound l) : l.length ≤ w.nthreadsUsed := h.linked.length_le h.ids

theorem Sound.notifyAll (h : w.Sound l) :
    ∃ r, w.jetMsectionWqNotify true = some (r, l.any (w.Waits ·)) ∧
      r.Sound (l.filter (w.Waits ·)) ∧
      r.Swept w l (l.filter (¬ w.Waits ·)) (l.filter (w.Waits ·)) := by
  rw [jetMsectionWqNotify, h.linked.first_eq]
  exact wqNotify_all [] h h.length_le

theorem Sound.notifyOne (h : w.Sound l) :
    ∃ r, w.jetMsectionWqNotify false = some (r, l.any (w.Waits ·)) ∧
      r.Sound (l.dropWhile (¬ w.Waits ·)) ∧
      r.Swept w l (l.takeWhile (¬ w.Waits ·)) (l.find? (w.Waits ·)).toList := by
  rw [jetMsectionWqNotify, h.linked.first_eq]
  exact wqNotify_one h h.length_le

theorem Sound.size (h : w.Sound l) :
    ∃ r, w.jetMsectionWqSize = some (r, l.countP (w.Waits ·)) ∧
      r.Sound (l.filter (w.Waits ·)) ∧ r.Swept w l (l.filter (¬ w.Waits ·)) [] := by
  rw [jetMsectionWqSize, h.linked.first_eq]
  obtain ⟨r, hr, hrest⟩ := wqSize_eq 0 [] h h.length_le
  exact ⟨r, by rw [hr, Nat.zero_add], hrest⟩

/-- The kernel notifies one thread or all of them, or counts those that wait, and takes out no
thread but those that do not wait and that it passes. -/
theorem wait_queue_notification (h : w.Sound l) :
    (∃ r, w.jetMsectionWqNotify false = some (r, l.any (w.Waits ·)) ∧
        r.first = l.find? (w.Waits ·) ∧ r.Sound (l.dropWhile (¬ w.Waits ·)) ∧
        r.Swept w l (l.takeWhile (¬ w.Waits ·)) (l.find? (w.Waits ·)).toList) ∧
      (∃ r, w.jetMsectionWqNotify true = some (r, l.any (w.Waits ·)) ∧
        r.Sound (l.filter (w.Waits ·)) ∧
        r.Swept w l (l.filter (¬ w.Waits ·)) (l.filter (w.Waits ·))) ∧
      ∃ r, w.jetMsectionWqSize = some (r, l.countP (w.Waits ·)) ∧
        r.Sound (l.filter (w.Waits ·)) ∧ r.Swept w l (l.filter (¬ w.Waits ·)) [] := by
  refine ⟨?_, h.notifyAll, h.size⟩
  obtain ⟨r, hr, hsound, hswept⟩ := h.notifyOne
  refine ⟨r, hr, ?_, hsound, hswept⟩
  rw [hsound.linked.first_eq, List.find?_eq_head?_dropWhile_not]
  simp only [decide_not]

/-- Thread 0 in front of thread 1, which waits -/
def oneWaits : WaitQueue where
  threads t := if t = 0 then ⟨.runnable, true, .timeout, some 1, none, 0, 0⟩
    else ⟨.waiting, true, .ok, none, some 0, 0, 0⟩
  nthreadsUsed := 2
  first := some 0
  last := some 1

theorem wait_queue_notification_oneWaits :
    (∃ r, oneWaits.jetMsectionWqNotify false = some (r, true) ∧ r.first = some 1) ∧
      (∃ r, oneWaits.jetMsectionWqNotify true = some (r, true) ∧ r.Sound [1]) ∧
      ∃ r, oneWaits.jetMsectionWqSize = some (r, 1) ∧ r.Sound [1] := by
  have hlinked : oneWaits.Linked [0, 1] := ⟨by decide, ⟨rfl, rfl, rfl⟩, ⟨rfl, rfl, rfl⟩⟩
  have hsound : oneWaits.Sound [0, 1] := ⟨hlinked, by decide, by decide⟩
  obtain ⟨⟨r, hr, hfirst, -⟩, ⟨r', hr', hsound', -⟩, ⟨r'', hr'', hsound'', -⟩⟩ :=
    wait_queue_notification hsound
  exact ⟨⟨r, hr, hfirst⟩, ⟨r', hr', hsound'⟩, ⟨r'', hr'', hsound''⟩⟩

end WaitQueue

end Chpok
