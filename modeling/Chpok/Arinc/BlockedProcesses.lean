import Chpok.Arinc.ProcessQueue
import Chpok.Kernel.WaitQueueLinks
import Mathlib.Data.List.Induction
import Mathlib.Data.List.TakeWhile
import Mathlib.Data.Finset.Card

/-! Processes that are blocked on an object. Whoever waits is in the queue; a process whose
wait is over is in the queue until somebody prunes it or it returns; a process that has
been released is not in the queue any more. -/

namespace Chpok

namespace WaitQueue

variable {w r : WaitQueue} {blocked : Nat → Prop} {t u c : Nat} {l before after : List Nat}

theorem queuePosition_mem {fuel : Nat} (priority : Nat) (h : w.Linked (before ++ after))
    (hfuel : before.length ≤ fuel) :
    ∃ prev, queuePosition fuel w priority before.getLast? = some prev ∧
      ∀ p ∈ prev, p ∈ before ++ after := by
  induction before using List.reverseRecOn generalizing fuel after with
  | nil => exact ⟨none, by cases fuel <;> rfl, nofun⟩
  | append_singleton before x ih =>
    rw [List.length_append, List.length_singleton] at hfuel
    cases fuel with
    | zero => cases hfuel
    | succ fuel =>
      rw [List.append_assoc, List.singleton_append] at h ⊢
      rw [List.getLast?_concat, queuePosition, h.wqPrev_eq]
      split_ifs
      · refine ⟨some x, rfl, ?_⟩
        rintro p ⟨⟩
        simp
      · exact ih h (Nat.le_of_succ_le_succ hfuel)

/-- The caller gets a place in the queue, whatever the discipline. -/
theorem Sound.add (h : w.Sound l) (hc : c ∉ l) (discipline : QueuingDiscipline) :
    ∃ q before after, w.arincProcessQueueAddCommon c discipline = some q ∧ l = before ++ after ∧
      q.Linked (before ++ c :: after) ∧ q.nthreadsUsed = w.nthreadsUsed ∧
      (∀ u, u ∉ c :: l → q.threads u = w.threads u) ∧
      ∀ u, u ≠ c → (q.threads u).bare = (w.threads u).bare := by
  cases discipline with
  | fifo =>
    have hend : ∀ n ∈ (none : Option Nat), n ∈ l := nofun
    obtain ⟨before, after, rfl, hadd⟩ := h.linked.split_before (c := c) hend
    refine ⟨_, before, after, rfl, rfl, ?_, ?_, fun u hu => ?_, fun u _ => ?_⟩
    all_goals rw [hadd]
    · exact h.linked.link hc
    · exact link_used _ _
    · simp only [List.mem_cons, List.mem_append, not_or] at hu
      exact link_threads hu.1 hu.2.1 hu.2.2
    · exact link_bare _ _ u
  | priority =>
    have hlinked : w.Linked (l ++ []) := by simpa using h.linked
    obtain ⟨prev, hprev, hmem⟩ := queuePosition_mem (w.threads c).priority hlinked h.length_le
    rw [← h.linked.last_eq] at hprev
    simp only [List.append_nil] at hmem
    obtain ⟨before, after, rfl, -, hadd⟩ := h.linked.split_after (c := c) hmem
    have hq : w.arincProcessQueueAddCommon c .priority =
        some ((w.link c before.getLast? after.head?).updateThread c
          fun th => { th with wqPriority := th.priority }) := by
      rw [arincProcessQueueAddCommon, hprev, Option.map_some, hadd]
    refine ⟨_, before, after, hq, rfl, ?_, ?_, fun u hu => ?_, fun u hu => ?_⟩
    · exact (h.linked.link hc).updateThread rfl rfl
    · exact link_used _ _
    · simp only [List.mem_cons, List.mem_append, not_or] at hu
      rw [updateThread_threads_ne hu.1]
      exact link_threads hu.1 hu.2.1 hu.2.2
    · rw [updateThread_threads_ne hu]
      exact link_bare _ _ u

theorem state_of_bare {th th' : WqThread} (h : th'.bare = th.bare) :
    th'.state = th.state ∧ th'.entering = th.entering ∧ th'.waitResult = th.waitResult := by
  cases th
  cases th'
  simp only [WqThread.bare, WqThread.mk.injEq] at h
  exact ⟨h.1, h.2.1, h.2.2.1⟩

/-- The processes in the queue are blocked, and those that still wait are all in it. The
links of a blocked process outside the queue are unset. -/
structure Queued (w : WaitQueue) (blocked : Nat → Prop) (l : List Nat) : Prop where
  sound : w.Sound l
  members : ∀ t ∈ l, blocked t
  waits : ∀ t, blocked t → w.Waits t → t ∈ l
  expired : ∀ t ∈ l, ¬ w.Waits t → (w.threads t).waitResult ≠ .ok
  outside : ∀ t, blocked t → t ∉ l → (w.threads t).wqNext = none ∧ (w.threads t).wqPrev = none

theorem queued_empty (hfirst : w.first = none) (hlast : w.last = none)
    (hnobody : ∀ t, ¬ blocked t) : w.Queued blocked [] :=
  ⟨⟨⟨.nil, hfirst, hlast⟩, nofun, nofun⟩, nofun, fun t hb => absurd hb (hnobody t), nofun,
    fun t hb => absurd hb (hnobody t)⟩

theorem Queued.congr {blocked' : Nat → Prop} (h : w.Queued blocked l)
    (hb : ∀ t, blocked' t ↔ blocked t) : w.Queued blocked' l where
  sound := h.sound
  members t ht := (hb t).mpr (h.members t ht)
  waits t ht := h.waits t ((hb t).mp ht)
  expired := h.expired
  outside t ht := h.outside t ((hb t).mp ht)

theorem Queued.isLinked_iff (h : w.Queued blocked l) (ht : blocked t) : w.IsLinked t ↔ t ∈ l :=
  h.sound.linked.isLinked_iff fun hnot => (h.outside t ht hnot).2

theorem Queued.shrink {l' : List Nat} (h : w.Queued blocked l) (hr : r.Sound l') (hsub : l' ⊆ l)
    (houtside : ∀ u, blocked u → u ∉ l → r.threads u = w.threads u)
    (hstay : ∀ u ∈ l', (r.threads u).bare = (w.threads u).bare)
    (hleft : ∀ u ∈ l, u ∉ l' → (r.threads u).wqNext = none ∧ (r.threads u).wqPrev = none ∧
      ¬ r.Waits u) : r.Queued blocked l' := by
  refine ⟨hr, fun u hu => h.members u (hsub hu), fun u hb hu => ?_, fun u hu hnot => ?_,
    fun u hb hu => ?_⟩
  · by_cases hl : u ∈ l
    · by_contra hl'
      exact (hleft u hl hl').2.2 hu
    · rw [Waits, houtside u hb hl] at hu
      exact absurd (h.waits u hb hu) hl
  · have hsame := hstay u hu
    rw [waits_of_bare hsame] at hnot
    rw [(state_of_bare hsame).2.2]
    exact h.expired u (hsub hu) hnot
  · by_cases hl : u ∈ l
    · exact ⟨(hleft u hl hu).1, (hleft u hl hu).2.1⟩
    · rw [houtside u hb hl]
      exact h.outside u hb hl

/-- An update that does not touch the links. -/
theorem Queued.updateThread (h : w.Queued blocked l) {f : WqThread → WqThread}
    (hnext : (f (w.threads t)).wqNext = (w.threads t).wqNext)
    (hprev : (f (w.threads t)).wqPrev = (w.threads t).wqPrev)
    (hentering : t ∈ l → (f (w.threads t)).entering = true)
    (hwaits : blocked t → (f (w.threads t)).state = .waiting → t ∈ l)
    (hexpired : t ∈ l → (f (w.threads t)).state ≠ .waiting →
      (f (w.threads t)).waitResult ≠ .ok) : (w.updateThread t f).Queued blocked l := by
  refine ⟨⟨h.sound.linked.updateThread hnext hprev, h.sound.ids, fun u hu => ?_⟩, h.members,
    fun u hb hu => ?_, fun u hu hnot => ?_, fun u hb hu => ?_⟩
  all_goals by_cases hut : u = t
  · subst hut
    rw [updateThread_threads_self]
    exact hentering hu
  · rw [updateThread_threads_ne hut]
    exact h.sound.entering u hu
  · subst hut
    rw [Waits, updateThread_threads_self] at hu
    exact hwaits hb hu
  · rw [Waits, updateThread_threads_ne hut] at hu
    exact h.waits u hb hu
  · subst hut
    rw [Waits, updateThread_threads_self] at hnot
    rw [updateThread_threads_self]
    exact hexpired hu hnot
  · rw [Waits, updateThread_threads_ne hut] at hnot
    rw [updateThread_threads_ne hut]
    exact h.expired u hu hnot
  · subst hut
    rw [updateThread_threads_self, hnext, hprev]
    exact h.outside u hb hu
  · rw [updateThread_threads_ne hut]
    exact h.outside u hb hu

theorem Queued.threadWakeUp (h : w.Queued blocked l) (hb : blocked t)
    (hr : w.threadWakeUp t = some r) :
    r.Queued blocked l ∧ ¬ r.Waits t ∧ (r.threads t).waitResult = .timeout ∧
      ∀ u, u ≠ t → r.threads u = w.threads u := by
  simp only [WaitQueue.threadWakeUp] at hr
  split_ifs at hr with hwaits
  obtain rfl := Option.some.inj hr
  have hentering := h.sound.entering t (h.waits t hb hwaits)
  have htimeout : (if (w.threads t).entering = true then WaitResult.timeout
      else (w.threads t).waitResult) = .timeout := if_pos hentering
  refine ⟨h.updateThread rfl rfl (fun _ => hentering) (by simp) fun _ _ => ?_, ?_, ?_,
    fun u hu => updateThread_threads_ne hu _⟩
  · rw [htimeout]
    simp
  · rw [Waits, updateThread_threads_self]
    simp
  · rw [updateThread_threads_self]
    exact htimeout

theorem Queued.cancelWait (h : w.Queued blocked l) (hb : blocked t)
    (hr : w.cancelWait t = some r) :
    r.Queued blocked l ∧ ¬ r.Waits t ∧ (r.threads t).waitResult = .cancelled ∧
      ∀ u, u ≠ t → r.threads u = w.threads u := by
  obtain ⟨v, hv, rfl⟩ := Option.map_eq_some_iff.mp hr
  obtain ⟨hq, hnot, -, hsame⟩ := h.threadWakeUp hb hv
  refine ⟨hq.updateThread rfl rfl (hq.sound.entering t) (fun hb hw => hq.waits t hb hw)
    (fun _ _ => nofun), ?_, ?_, fun u hu => ?_⟩
  · rw [Waits, updateThread_threads_self]
    exact hnot
  · rw [updateThread_threads_self]
  · rw [updateThread_threads_ne hu]
    exact hsame u hu

theorem Queued.elsewhere (h : w.Queued blocked l) (ht : ¬ blocked t) (f : WqThread → WqThread) :
    (w.updateThread t f).Queued blocked l := by
  have hnot : t ∉ l := fun hl => ht (h.members t hl)
  have hne : ∀ u ∈ l, u ≠ t := fun u hu => ne_of_mem_of_not_mem hu hnot
  have hlinked : (w.updateThread t f).Linked l := by
    obtain ⟨hnodup, hnext, hprev⟩ := h.sound.linked
    refine ⟨hnodup, ?_, ?_⟩
    · rw [nextOf_updateThread]
      exact LinkedList.path_congr hnext (by simp) fun u hu => LinkedList.update_some_ne (hne u hu) _
    · rw [prevOf_updateThread]
      exact LinkedList.path_congr hprev (by simp) fun u hu =>
        LinkedList.update_some_ne (hne u (List.mem_reverse.mp hu)) _
  refine ⟨⟨hlinked, h.sound.ids, fun u hu => ?_⟩, h.members, fun u hb hu => ?_,
    fun u hu hnot => ?_, fun u hb hu => ?_⟩
  · rw [updateThread_threads_ne (hne u hu)]
    exact h.sound.entering u hu
  · have hut : u ≠ t := fun he => ht (he ▸ hb)
    rw [Waits, updateThread_threads_ne hut] at hu
    exact h.waits u hb hu
  · rw [Waits, updateThread_threads_ne (hne u hu)] at hnot
    rw [updateThread_threads_ne (hne u hu)]
    exact h.expired u hu hnot
  · have hut : u ≠ t := fun he => ht (he ▸ hb)
    rw [updateThread_threads_ne hut]
    exact h.outside u hb hu

theorem bare_awake_waits (h : (r.threads t).bare = (w.threads t).bare.awake) : ¬ r.Waits t := by
  have hstate : (r.threads t).bare.state = .runnable := by rw [h]; rfl
  intro hwaits
  cases hstate.symm.trans hwaits

theorem Queued.join {l' : List Nat} (h : w.Queued blocked l) (hr : r.Sound l') (hc : ¬ blocked c)
    (hmem : ∀ u, u ∈ l' ↔ u = c ∨ u ∈ l) (hwaits : r.Waits c)
    (houtside : ∀ u, blocked u → u ∉ l → r.threads u = w.threads u)
    (hbare : ∀ u, u ≠ c → (r.threads u).bare = (w.threads u).bare) :
    r.Queued (fun u => u = c ∨ blocked u) l' := by
  refine ⟨hr, fun u hu => ?_, fun u hb hu => ?_, fun u hu hnot => ?_, fun u hb hu => ?_⟩
  · rcases (hmem u).mp hu with hu | hu
    · exact .inl hu
    · exact .inr (h.members u hu)
  · by_cases huc : u = c
    · exact (hmem u).mpr (.inl huc)
    · rw [waits_of_bare (hbare u huc)] at hu
      exact (hmem u).mpr (.inr (h.waits u (hb.resolve_left huc) hu))
  · have huc : u ≠ c := by
      rintro rfl
      exact hnot hwaits
    rw [waits_of_bare (hbare u huc)] at hnot
    rw [(state_of_bare (hbare u huc)).2.2]
    exact h.expired u (((hmem u).mp hu).resolve_left huc) hnot
  · rw [hmem, not_or] at hu
    rw [houtside u (hb.resolve_left hu.1) hu.2]
    exact h.outside u (hb.resolve_left hu.1) hu.2

theorem Queued.queueAndWait_begins (h : w.Queued blocked l) (hc : ¬ blocked c)
    (hid : c < w.nthreadsUsed) (discipline : QueuingDiscipline) :
    ∃ q l', w.queueAndWait c discipline .begins = some (q, none) ∧
      q.Queued (fun u => u = c ∨ blocked u) l' ∧ q.Waits c ∧
      q.nthreadsUsed = w.nthreadsUsed ∧
      ∀ u, u ≠ c → (q.threads u).bare = (w.threads u).bare := by
  have hcl : c ∉ l := fun hl => hc (h.members c hl)
  obtain ⟨q, before, after, hq, rfl, hlinked, hused, houtside, hbare⟩ := h.sound.add hcl discipline
  have hwaits : (q.beginWait c).Waits c := by
    rw [Waits, beginWait, updateThread_threads_self]
  have hsame : ∀ u, u ≠ c → (q.beginWait c).threads u = q.threads u := fun u hu =>
    updateThread_threads_ne hu _
  have hmem : ∀ u, u ∈ before ++ c :: after ↔ u = c ∨ u ∈ before ++ after := by
    intro u
    simp only [List.mem_append, List.mem_cons]
    tauto
  have hsound : (q.beginWait c).Sound (before ++ c :: after) := by
    refine ⟨hlinked.updateThread rfl rfl, fun u hu => ?_, fun u hu => ?_⟩
    · rcases (hmem u).mp hu with rfl | hu
      · exact hused ▸ hid
      · exact hused ▸ h.sound.ids u hu
    · by_cases huc : u = c
      · subst huc
        rw [beginWait, updateThread_threads_self]
      · rw [hsame u huc, (state_of_bare (hbare u huc)).2.1]
        exact h.sound.entering u (((hmem u).mp hu).resolve_left huc)
  refine ⟨q.beginWait c, _, ?_, h.join hsound hc hmem hwaits (fun u hb hu => ?_) fun u hu => ?_,
    hwaits, hused, fun u hu => ?_⟩
  · rw [queueAndWait, hq]
    rfl
  · have huc : u ≠ c := fun he => hc (he ▸ hb)
    rw [hsame u huc]
    exact houtside u (by simp [huc, hu])
  · rw [hsame u hu]
    exact hbare u hu
  · rw [hsame u hu]
    exact hbare u hu

/-- Whoever may not wait is out of the queue again. -/
theorem Queued.queueAndWait_refused (h : w.Queued blocked l) (hc : ¬ blocked c)
    {start : WaitStart} (hstart : start ≠ .begins) (discipline : QueuingDiscipline) :
    ∃ q, w.queueAndWait c discipline start = some (q, some .invalidMode) ∧ q.Queued blocked l ∧
      q.nthreadsUsed = w.nthreadsUsed ∧
      ∀ u, u ≠ c → (q.threads u).bare = (w.threads u).bare := by
  have hcl : c ∉ l := fun hl => hc (h.members c hl)
  obtain ⟨q, before, after, hq, rfl, hlinked, hused, houtside, hbare⟩ := h.sound.add hcl discipline
  obtain ⟨v, hv, hvlinked, hvused, hvsame⟩ : ∃ v : WaitQueue, w.queueAndWait c discipline start =
      some (v.msectionWqDel c, some .invalidMode) ∧ v.Linked (before ++ c :: after) ∧
      v.nthreadsUsed = q.nthreadsUsed ∧ ∀ u, u ≠ c → v.threads u = q.threads u := by
    cases start with
    | begins => exact absurd rfl hstart
    | mode => exact ⟨q, by rw [queueAndWait, hq]; rfl, hlinked, rfl, fun _ _ => rfl⟩
    | cancelled =>
      refine ⟨_, by rw [queueAndWait, hq]; rfl, hlinked.updateThread rfl rfl, rfl,
        fun u hu => updateThread_threads_ne hu _⟩
  have hkeep : ∀ u, u ≠ c →
      ((v.msectionWqDel c).threads u).bare = (w.threads u).bare := by
    intro u hu
    rw [del_bare, hvsame u hu]
    exact hbare u hu
  have hstay : ∀ u ∈ before ++ after,
      ((v.msectionWqDel c).threads u).bare = (w.threads u).bare :=
    fun u hu => hkeep u (ne_of_mem_of_not_mem hu hcl)
  have hsame : (v.msectionWqDel c).nthreadsUsed = w.nthreadsUsed :=
    (del_used c).trans (hvused.trans hused)
  have hsound := h.sound.of_bare hvlinked.del hsame (List.Subset.refl _) hstay
  refine ⟨_, hv, h.shrink hsound (List.Subset.refl _) (fun u hb hu => ?_) hstay
    (fun u hu hnot => absurd hu hnot), hsame, hkeep⟩
  have huc : u ≠ c := fun he => hc (he ▸ hb)
  have hout : u ∉ c :: (before ++ after) := by simp [huc, hu]
  rw [hvlinked.del_threads (by simp only [List.mem_append, List.mem_cons] at hout ⊢; tauto),
    hvsame u huc]
  exact houtside u hout

/-- A notification of one process, with its removal from the queue. -/
theorem Queued.notifyOne (h : w.Queued blocked l) :
    (∃ q, w.jetMsectionWqNotify false = some (q, false) ∧ (∀ u ∈ l, ¬ w.Waits u) ∧
      q.Queued blocked [] ∧ q.nthreadsUsed = w.nthreadsUsed ∧
      ∀ u, (q.threads u).bare = (w.threads u).bare) ∨
    ∃ q x dead rest, w.jetMsectionWqNotify false = some (q, true) ∧ l = dead ++ x :: rest ∧
      (∀ u ∈ dead, ¬ w.Waits u) ∧ w.Waits x ∧ q.first = some x ∧
      (q.msectionWqDel x).Queued blocked rest ∧
      (q.msectionWqDel x).nthreadsUsed = w.nthreadsUsed ∧
      ((q.msectionWqDel x).threads x).bare = (w.threads x).bare.awake ∧
      ∀ u, u ≠ x → ((q.msectionWqDel x).threads u).bare = (w.threads u).bare := by
  obtain ⟨q, hq, hsound, hswept⟩ := h.sound.notifyOne
  cases hfind : l.find? (w.Waits ·) with
  | none =>
    have hnone : ∀ u ∈ l, ¬ w.Waits u := by simpa using hfind
    have hdrop : l.dropWhile (¬ w.Waits ·) = [] :=
      List.dropWhile_eq_nil_iff.mpr (by simpa using hnone)
    have htake : l.takeWhile (¬ w.Waits ·) = l :=
      List.takeWhile_eq_self_iff.mpr (by simpa using hnone)
    have hany : l.any (w.Waits ·) = false := by simpa using hnone
    rw [hdrop] at hsound
    rw [htake, hfind] at hswept
    rw [hany] at hq
    have hbare : ∀ u, (q.threads u).bare = (w.threads u).bare := fun u => hswept.others u (by simp)
    refine .inl ⟨q, hq, hnone, h.shrink hsound (by simp) (fun u _ hu => hswept.outside u hu)
      (by simp) (fun u hu _ => ?_), hswept.used, hbare⟩
    have hu' := hswept.takenOut u hu
    rw [waits_of_bare (hbare u), hu']
    exact ⟨rfl, rfl, hnone u hu⟩
  | some x =>
    obtain ⟨hx, dead, rest, rfl, hdead⟩ := List.find?_eq_some_iff_append.mp hfind
    have hwaits : w.Waits x := by simpa using hx
    have hdead : ∀ u ∈ dead, ¬ w.Waits u := by simpa using hdead
    have hdrop : (dead ++ x :: rest).dropWhile (¬ w.Waits ·) = x :: rest := by
      rw [List.dropWhile_append_of_pos (by simpa using hdead)]
      simp [hwaits]
    have htake : (dead ++ x :: rest).takeWhile (¬ w.Waits ·) = dead := by
      rw [List.takeWhile_append_of_pos (by simpa using hdead)]
      simp [hwaits]
    have hany : (dead ++ x :: rest).any (w.Waits ·) = true := by simp [hwaits]
    rw [hdrop] at hsound
    rw [htake, hfind] at hswept
    rw [hany] at hq
    have hnodup := h.sound.linked.nodup
    have hxrest : x ∉ rest := (List.nodup_cons.mp hnodup.of_append_right).1
    have hsound' : q.Sound ([] ++ x :: rest) := hsound
    have hother : ∀ u, u ≠ x →
        ((q.msectionWqDel x).threads u).bare = (w.threads u).bare := by
      intro u hu
      rw [del_bare]
      exact hswept.others u (by simpa using hu)
    have hself : ((q.msectionWqDel x).threads x).bare = (w.threads x).bare.awake := by
      rw [del_bare]
      exact hswept.notified x (by simp)
    have hout : ∀ u, u ∉ x :: rest → (q.msectionWqDel x).threads u = q.threads u :=
      fun u hu => hsound'.linked.del_threads hu
    have hused : (q.msectionWqDel x).nthreadsUsed = w.nthreadsUsed :=
      (del_used x).trans hswept.used
    refine .inr ⟨q, x, dead, rest, hq, rfl, hdead, hwaits, hsound.linked.first_eq,
      h.shrink hsound'.del.2 (by simp) (fun u _ hu => ?_) (fun u hu => ?_) (fun u hu hnot => ?_),
      hused, hself, hother⟩
    · simp only [List.mem_append, List.mem_cons, not_or] at hu
      rw [hout u (by simp [hu])]
      exact hswept.outside u (by simp [hu])
    · exact hother u (ne_of_mem_of_not_mem hu hxrest)
    · by_cases hux : u = x
      · subst hux
        refine ⟨?_, ?_, bare_awake_waits hself⟩ <;> rw [del_threads_self] <;> rfl
      · have hnot : u ∉ rest := hnot
        have hud : u ∈ dead := by simpa [hux, hnot] using hu
        have hnot' : u ∉ x :: rest := by simp [hux, hnot]
        rw [waits_of_bare (hother u hux), hout u hnot', hswept.takenOut u hud]
        exact ⟨rfl, rfl, hdead u hud⟩

theorem Sound.releaseQueue {M : Type} (deliver : M → Nat → M) {m : M} {fuel : Nat}
    (h : w.Sound (t :: l)) (hfuel : l.length < fuel) :
    ∃ q, releaseQueue deliver fuel m w t = some ((t :: l).foldl deliver m, q) ∧ q.Sound [] ∧
      q.nthreadsUsed = w.nthreadsUsed ∧ (∀ u ∈ t :: l, q.threads u = (w.threads u).bare) ∧
      ∀ u, u ∉ t :: l → q.threads u = w.threads u := by
  induction l generalizing w t m fuel with
  | nil =>
    have h' : w.Sound ([] ++ t :: []) := h
    have hsound := h'.del.2
    cases fuel with
    | zero => cases hfuel
    | succ fuel =>
      refine ⟨w.msectionWqDel t, ?_, hsound, del_used t, fun u hu => ?_, fun u hu => ?_⟩
      · have hfirst : (w.msectionWqDel t).first = none := hsound.linked.first_eq
        rw [WaitQueue.releaseQueue, hfirst]
        rfl
      · obtain rfl := List.mem_singleton.mp hu
        exact del_threads_self u
      · exact h'.linked.del_threads hu
  | cons next l ih =>
    have h' : w.Sound ([] ++ t :: next :: l) := h
    have hsound := h'.del.2
    have ht : t ∉ next :: l := h'.linked.not_mem_of_del
    cases fuel with
    | zero => cases hfuel
    | succ fuel =>
      obtain ⟨q, hq, hempty, hused, hin, hout⟩ := ih (m := deliver m t) hsound
        (Nat.lt_of_succ_lt_succ hfuel)
      refine ⟨q, ?_, hempty, hused.trans (del_used t), fun u hu => ?_, fun u hu => ?_⟩
      · have hfirst : (w.msectionWqDel t).first = some next := hsound.linked.first_eq
        rw [WaitQueue.releaseQueue, hfirst]
        exact hq
      · rcases List.mem_cons.mp hu with rfl | hu
        · rw [hout u ht, del_threads_self]
        · rw [hin u hu, del_bare]
      · rw [List.mem_cons, not_or] at hu
        rw [hout u hu.2]
        exact h'.linked.del_threads (by simpa using hu)

/-- A broadcast takes everybody out of the queue, and whoever waited has been notified. -/
theorem Queued.broadcast {M : Type} (h : w.Queued blocked l) (deliver : M → Nat → M) (m : M) :
    ∃ q, w.broadcast deliver m = some ((l.filter (w.Waits ·)).foldl deliver m, q) ∧
      q.Queued blocked [] ∧ q.nthreadsUsed = w.nthreadsUsed ∧
      (∀ u ∈ l, w.Waits u → (q.threads u).bare = (w.threads u).bare.awake) ∧
      ∀ u, ¬ (u ∈ l ∧ w.Waits u) → (q.threads u).bare = (w.threads u).bare := by
  obtain ⟨r, hr, hsound, hswept⟩ := h.sound.notifyAll
  have hmem : ∀ u, u ∈ l.filter (w.Waits ·) ↔ u ∈ l ∧ w.Waits u := fun u => by simp
  obtain ⟨q, hq, hempty, hused, hin, hout⟩ : ∃ q, w.broadcast deliver m =
      some ((l.filter (w.Waits ·)).foldl deliver m, q) ∧ q.Sound [] ∧
      q.nthreadsUsed = w.nthreadsUsed ∧
      (∀ u ∈ l.filter (w.Waits ·), q.threads u = (r.threads u).bare) ∧
      ∀ u, u ∉ l.filter (w.Waits ·) → q.threads u = r.threads u := by
    cases hf : l.filter (w.Waits ·) with
    | nil =>
      have hany : l.any (w.Waits ·) = false := by simpa using List.filter_eq_nil_iff.mp hf
      rw [hf] at hsound
      refine ⟨r, ?_, hsound, hswept.used, nofun, fun _ _ => rfl⟩
      rw [WaitQueue.broadcast, hr, hany]
      rfl
    | cons t rest =>
      have hany : l.any (w.Waits ·) = true := by
        have ht := (hmem t).mp (hf ▸ List.mem_cons_self)
        exact List.any_eq_true.mpr ⟨t, ht.1, by simpa using ht.2⟩
      rw [hf] at hsound
      have hlength : rest.length < r.nthreadsUsed := hsound.length_le
      obtain ⟨q, hq, hempty, hused, hin, hout⟩ := hsound.releaseQueue deliver (m := m) hlength
      refine ⟨q, ?_, hempty, hused.trans hswept.used, hin, hout⟩
      rw [WaitQueue.broadcast, hr, hany]
      change (r.first.bind fun t => WaitQueue.releaseQueue deliver r.nthreadsUsed m r t) = _
      rw [hsound.linked.first_eq]
      exact hq
  have hnotified : ∀ u ∈ l, w.Waits u → (q.threads u).bare = (w.threads u).bare.awake := by
    intro u hl hu
    have hin' := (hmem u).mpr ⟨hl, hu⟩
    rw [hin u hin', WqThread.bare_bare]
    exact hswept.notified u hin'
  have hother : ∀ u, ¬ (u ∈ l ∧ w.Waits u) → (q.threads u).bare = (w.threads u).bare := by
    intro u hu
    have hnot := mt (hmem u).mp hu
    rw [hout u hnot]
    exact hswept.others u hnot
  refine ⟨q, hq, h.shrink hempty (by simp) (fun u _ hu => ?_) nofun (fun u hu _ => ?_), hused,
    hnotified, hother⟩
  · rw [hout u fun hf => hu ((hmem u).mp hf).1]
    exact hswept.outside u hu
  · by_cases hwaits : w.Waits u
    · have hin' := (hmem u).mpr ⟨hu, hwaits⟩
      refine ⟨?_, ?_, bare_awake_waits (hnotified u hu hwaits)⟩ <;> rw [hin u hin'] <;> rfl
    · have hnot : ¬ (u ∈ l ∧ w.Waits u) := fun hu => hwaits hu.2
      have htaken : u ∈ l.filter (¬ w.Waits ·) := by simpa using ⟨hu, hwaits⟩
      rw [waits_of_bare (hother u hnot), hout u (mt (hmem u).mp hnot), hswept.takenOut u htaken]
      exact ⟨rfl, rfl, hwaits⟩

theorem Queued.size (h : w.Queued blocked l) :
    ∃ q, w.jetMsectionWqSize = some (q, l.countP (w.Waits ·)) ∧
      q.Queued blocked (l.filter (w.Waits ·)) ∧ q.nthreadsUsed = w.nthreadsUsed ∧
      ∀ u, (q.threads u).bare = (w.threads u).bare := by
  obtain ⟨q, hq, hsound, hswept⟩ := h.sound.size
  have hbare : ∀ u, (q.threads u).bare = (w.threads u).bare := fun u => hswept.others u nofun
  refine ⟨q, hq, h.shrink hsound (List.filter_subset_self l) (fun u _ hu => hswept.outside u hu)
    (fun u _ => hbare u) (fun u hu hnot => ?_), hswept.used, hbare⟩
  have hwaits : ¬ w.Waits u := fun hw => hnot (by simpa using ⟨hu, hw⟩)
  rw [waits_of_bare (hbare u), hswept.takenOut u (by simpa using ⟨hu, hwaits⟩)]
  exact ⟨rfl, rfl, hwaits⟩

theorem Queued.forget (h : w.Queued blocked l) (ht : t ∉ l) :
    w.Queued (fun u => blocked u ∧ u ≠ t) l :=
  ⟨h.sound, fun u hu => ⟨h.members u hu, ne_of_mem_of_not_mem hu ht⟩, fun u hb => h.waits u hb.1,
    h.expired, fun u hb => h.outside u hb.1⟩

/-- A process whose wait is over may return without harm. -/
def MayReturn (w : WaitQueue) (t : Nat) : Prop :=
  (w.threads t).waitResult = .ok ∨ w.IsLinked t ∨ w.first = none

instance (w : WaitQueue) : DecidablePred w.MayReturn :=
  fun _ => inferInstanceAs (Decidable (_ ∨ _ ∨ _))

theorem Queued.waitReturn (h : w.Queued blocked l) (hb : blocked t) (hnot : ¬ w.Waits t)
    (hok : w.MayReturn t) :
    ∃ l', (w.waitReturn t).1.Queued (fun u => blocked u ∧ u ≠ t) l' ∧
      (w.waitReturn t).1.nthreadsUsed = w.nthreadsUsed ∧
      ∀ u, u ≠ t → ((w.waitReturn t).1.threads u).bare = (w.threads u).bare := by
  have hsame : ∀ u, u ≠ t → (w.endWait t).threads u = w.threads u := fun u hu =>
    updateThread_threads_ne hu _
  by_cases hresult : (w.threads t).waitResult = .ok
  · have ht : t ∉ l := fun hl => h.expired t hl hnot hresult
    have hreturn : (w.waitReturn t).1 = w.endWait t := by
      rw [WaitQueue.waitReturn, hresult]
    rw [hreturn]
    exact ⟨l, (h.forget ht).elsewhere (fun hb => hb.2 rfl) _, rfl, fun u hu => by rw [hsame u hu]⟩
  · have hreturn : (w.waitReturn t).1 = (w.endWait t).msectionWqDel t := by
      rw [WaitQueue.waitReturn]
      cases hcase : (w.threads t).waitResult with
      | ok => exact absurd hcase hresult
      | cancelled | timeout => rfl
    have hkeep : ∀ u, u ≠ t → (((w.endWait t).msectionWqDel t).threads u).bare =
        (w.threads u).bare := fun u hu => by rw [del_bare, hsame u hu]
    have hused : ((w.endWait t).msectionWqDel t).nthreadsUsed = w.nthreadsUsed := del_used t
    have hgone : ¬ ((w.endWait t).msectionWqDel t).Waits t := by
      rw [waits_of_bare (del_bare t t), Waits, endWait, updateThread_threads_self]
      exact hnot
    rw [hreturn]
    by_cases htl : t ∈ l
    · obtain ⟨before, after, rfl⟩ := List.append_of_mem htl
      have hlinked : (w.endWait t).Linked (before ++ t :: after) :=
        h.sound.linked.updateThread rfl rfl
      have hsub : before ++ after ⊆ before ++ t :: after := by
        intro u hu
        rw [List.mem_append] at hu
        rcases hu with hu | hu <;> simp [hu]
      have hstay : ∀ u ∈ before ++ after, (((w.endWait t).msectionWqDel t).threads u).bare =
          (w.threads u).bare :=
        fun u hu => hkeep u (ne_of_mem_of_not_mem hu hlinked.not_mem_of_del)
      have hsound := h.sound.of_bare hlinked.del hused hsub hstay
      have hqueued : ((w.endWait t).msectionWqDel t).Queued blocked (before ++ after) := by
        refine h.shrink hsound hsub (fun u _ hu => ?_) hstay (fun u hu hnot' => ?_)
        · rw [hlinked.del_threads hu]
          exact hsame u fun he => hu (he ▸ htl)
        · obtain rfl : u = t := by
            by_contra hut
            exact hnot' (by simpa [hut] using hu)
          refine ⟨?_, ?_, hgone⟩ <;> rw [del_threads_self] <;> rfl
      exact ⟨_, hqueued.forget hlinked.not_mem_of_del, hused, hkeep⟩
    · have hempty : l = [] := by
        rcases hok with hok | hok | hok
        · exact absurd hok hresult
        · exact absurd ((h.isLinked_iff hb).mp hok) htl
        · exact List.head?_eq_none_iff.mp (h.sound.linked.first_eq.symm.trans hok)
      subst hempty
      obtain ⟨hnext, hprev⟩ := h.outside t hb htl
      have hlinks : ((w.endWait t).threads t).wqNext = none ∧
          ((w.endWait t).threads t).wqPrev = none := by
        rw [endWait, updateThread_threads_self]
        exact ⟨hnext, hprev⟩
      obtain ⟨hlinked, hother⟩ := del_unlinked hlinks.1 hlinks.2
      have hsound := h.sound.of_bare hlinked hused (by simp) (by simp)
      have hqueued := (h.forget htl).shrink hsound (by simp) (fun u hu _ => ?_) (by simp) (by simp)
      · exact ⟨_, hqueued, hused, hkeep⟩
      · rw [hother u hu.2]
        exact hsame u hu.2

theorem released_of_bare (h : (r.threads t).bare = (w.threads t).bare) :
    r.Released t ↔ w.Released t := by
  rw [Released, Released, (state_of_bare h).1, (state_of_bare h).2.2]

theorem Waits.not_released (h : w.Waits t) : ¬ w.Released t := fun hr => hr.1 h

theorem released_of_awake (h : (r.threads t).bare = (w.threads t).bare.awake) :
    r.Released t := by
  have hresult : (r.threads t).bare.waitResult = .ok := by rw [h]; rfl
  exact ⟨bare_awake_waits h, hresult⟩

/-- The blocked processes that have been released. -/
def released (w : WaitQueue) (s : Finset Nat) : Finset Nat := s.filter w.Released

theorem released_congr {s : Finset Nat} (h : ∀ u ∈ s, r.Released u ↔ w.Released u) :
    r.released s = w.released s := Finset.filter_congr h

theorem released_card_succ {s : Finset Nat} (ht : t ∈ s) (hbefore : w.Waits t)
    (hafter : r.Released t) (hsame : ∀ u, u ≠ t → (r.Released u ↔ w.Released u)) :
    (r.released s).card = (w.released s).card + 1 := by
  have hinsert : r.released s = insert t (w.released s) := by
    ext u
    rw [released, released, Finset.mem_insert, Finset.mem_filter, Finset.mem_filter]
    by_cases hu : u = t
    · subst hu
      simp [ht, hafter]
    · rw [hsame u hu]
      simp [hu]
  have hnot : t ∉ w.released s := fun hin => hbefore.not_released (Finset.mem_filter.mp hin).2
  rw [hinsert, Finset.card_insert_of_notMem hnot]

theorem released_insert {s : Finset Nat} (ht : r.Waits t)
    (hsame : ∀ u ∈ s, r.Released u ↔ w.Released u) : r.released (insert t s) = w.released s := by
  rw [released, Finset.filter_insert, if_neg ht.not_released]
  exact Finset.filter_congr hsame

theorem released_erase {s : Finset Nat} (hsame : ∀ u, u ≠ t → (r.Released u ↔ w.Released u)) :
    r.released (s.erase t) = (w.released s).erase t := by
  ext u
  rw [released, released, Finset.mem_filter, Finset.mem_erase, Finset.mem_erase, Finset.mem_filter]
  by_cases hu : u = t
  · simp [hu]
  · rw [hsame u hu]
    tauto

/-- Nobody begins to wait on the object or is released meanwhile. -/
theorem Queued.processStep {s : Finset Nat} {e : ProcessInput} (h : w.Queued (· ∈ s) l)
    (hr : w.processStep s e = some r) :
    r.Queued (· ∈ s) l ∧ r.nthreadsUsed = w.nthreadsUsed ∧
      ∀ u ∈ s, (r.Waits u → w.Waits u) ∧ (r.Released u ↔ w.Released u) := by
  cases e with
  | timeOut t =>
    simp only [WaitQueue.processStep] at hr
    split_ifs at hr with ht
    obtain ⟨hq, hnot, hresult, hsame⟩ := h.threadWakeUp ht hr
    have hwaits : w.Waits t := by
      simp only [WaitQueue.threadWakeUp] at hr
      split_ifs at hr with hwaits
      exact hwaits
    refine ⟨hq, ?_, fun u _ => ?_⟩
    · simp only [WaitQueue.threadWakeUp] at hr
      split_ifs at hr
      exact Option.some.inj hr ▸ rfl
    · by_cases hut : u = t
      · subst hut
        refine ⟨fun hw => absurd hw hnot, fun hw => ?_, fun hw => absurd hw hwaits.not_released⟩
        exact absurd (hresult.symm.trans hw.2) (by simp)
      · rw [Waits, Waits, Released, Released, hsame u hut]
        exact ⟨id, Iff.rfl⟩
  | stop t =>
    simp only [WaitQueue.processStep] at hr
    split_ifs at hr with ht
    obtain ⟨hq, hnot, hresult, hsame⟩ := h.cancelWait ht hr
    obtain ⟨v, hv, rfl⟩ := Option.map_eq_some_iff.mp hr
    simp only [WaitQueue.threadWakeUp] at hv
    split_ifs at hv with hwaits
    obtain rfl := Option.some.inj hv
    refine ⟨hq, rfl, fun u _ => ?_⟩
    by_cases hut : u = t
    · subst hut
      refine ⟨fun hw => absurd hw hnot, fun hw => ?_, fun hw => absurd hwaits hw.1⟩
      exact absurd (hresult.symm.trans hw.2) (by simp)
    · rw [Waits, Waits, Released, Released, hsame u hut]
      exact ⟨id, Iff.rfl⟩
  | setPriority t priority =>
    obtain rfl := Option.some.inj hr
    refine ⟨h.updateThread rfl rfl (h.sound.entering t) (h.waits t) (h.expired t), rfl,
      fun u _ => ?_⟩
    by_cases hut : u = t
    · subst hut
      rw [Waits, Waits, Released, Released, updateThread_threads_self]
      exact ⟨id, Iff.rfl⟩
    · rw [Waits, Waits, Released, Released, updateThread_threads_ne hut]
      exact ⟨id, Iff.rfl⟩
  | elsewhere t thread =>
    simp only [WaitQueue.processStep] at hr
    split_ifs at hr with ht
    obtain rfl := Option.some.inj hr
    refine ⟨h.elsewhere ht _, rfl, fun u hu => ?_⟩
    rw [Waits, Waits, Released, Released, updateThread_threads_ne (ne_of_mem_of_not_mem hu ht)]
    exact ⟨id, Iff.rfl⟩

end WaitQueue

end Chpok
