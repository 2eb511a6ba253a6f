import Chpok.Kernel.MsectionPhantom
import Chpok.Kernel.StopRuns

/-! Priority inheritance. `select_thread` follows the threads that enter a section of another
one to the end of the chain. -/

namespace Chpok

namespace SectionSystem

variable {s t : SectionSystem} {a u sec : Nat} {links : List (Nat × Nat)}

/-- The thread `a` is entering a section that another thread owns. -/
def WaitsFor (s : SectionSystem) (a sec b : Nat) : Prop :=
  (s.threads a).msectionEntering = some sec ∧ s.owner sec = some b ∧ b ≠ a

/-- The contended sections from thread `a` on, each with its owner, to the end of the chain. A
chain that goes round in a circle has no end. -/
def WaitChain (s : SectionSystem) : Nat → List (Nat × Nat) → Prop
  | a, [] => ∀ sec b, ¬ s.WaitsFor a sec b
  | a, (sec, b) :: rest => s.WaitsFor a sec b ∧ s.WaitChain b rest

/-- The last contended section -/
def lastSection (links : List (Nat × Nat)) : Option Nat := links.getLast?.map Prod.fst

/-- The thread at the end of the chain from `a` -/
def chainEnd (a : Nat) (links : List (Nat × Nat)) : Nat := (links.getLast?.map Prod.snd).getD a

/-- The owners of sections are runnable processes. -/
def OwnersRun (s : SectionSystem) : Prop :=
  ∀ sec b, s.owner sec = some b →
    b < s.nthreadsUsed ∧ 0 < b ∧ (s.threads b).state = .runnable

theorem chainEnd_cons (sec b : Nat) : chainEnd a ((sec, b) :: links) = chainEnd b links := by
  simp only [chainEnd, List.getLast?_cons]
  cases links.getLast? <;> rfl

theorem lastSection_cons (sec b : Nat) :
    lastSection ((sec, b) :: links) = (lastSection links).or (some sec) := by
  simp only [lastSection, List.getLast?_cons]
  cases links.getLast? <;> rfl

theorem WaitChain.congr (h : s.WaitChain a links) (hthreads : t.threads = s.threads)
    (howner : ∀ sec, t.owner sec = s.owner sec) : t.WaitChain a links := by
  have hwaits : ∀ a sec b, t.WaitsFor a sec b ↔ s.WaitsFor a sec b := by
    intro a sec b
    rw [WaitsFor, WaitsFor, hthreads, howner]
  induction links generalizing a with
  | nil =>
    intro sec b hb
    exact h sec b ((hwaits a sec b).mp hb)
  | cons link links ih => exact ⟨(hwaits ..).mpr h.1, ih h.2⟩

/-- What the thread at the end of the chain enters is given to it. -/
def grantEntering (s : SectionSystem) (u : Nat) : SectionSystem :=
  match (s.threads u).msectionEntering with
  | none => s
  | some sec => s.grant u sec

/-- The walk comes to the end of the chain if there are attempts enough. -/
theorem selectOwner_chain {attempts : Nat} (hrun : s.OwnersRun) (hchain : s.WaitChain a links)
    (hentering : (s.threads a).msectionEntering = some sec) :
    selectOwner attempts s a sec =
      if links.length ≤ attempts then
        some (grantEntering { s with waitingSection := (lastSection links).or s.waitingSection }
          (chainEnd a links), chainEnd a links)
      else none := by
  induction links generalizing s a sec attempts with
  | nil =>
    have hfree : (s.sections sec).owner = none ∨ (s.sections sec).owner = some a := by
      by_contra hnot
      obtain ⟨hnone, hself⟩ := not_or.mp hnot
      obtain ⟨b, hb⟩ := Option.ne_none_iff_exists'.mp hnone
      refine hchain sec b ⟨hentering, hb, ?_⟩
      rintro rfl
      exact hself hb
    have hshort : ([] : List (Nat × Nat)).length ≤ attempts := Nat.zero_le _
    rw [if_pos hshort]
    have hend : chainEnd a [] = a := rfl
    have hsame : { s with waitingSection := (lastSection []).or s.waitingSection } = s := rfl
    rw [hend, hsame, grantEntering, hentering]
    cases attempts with
    | zero =>
      rw [selectOwner, if_pos hfree]
      rfl
    | succ attempts =>
      rw [selectOwner, if_pos hfree]
      rfl
  | cons link links ih =>
    obtain ⟨sec', b⟩ := link
    obtain ⟨⟨hsec, howner, hne⟩, hrest⟩ := hchain
    obtain rfl : sec = sec' := Option.some.inj (hentering.symm.trans hsec)
    have howned : (s.sections sec).owner = some b := howner
    have hcontended : ¬ ((s.sections sec).owner = none ∨ (s.sections sec).owner = some a) := by
      rw [howned]
      rintro (h | h)
      · cases h
      · exact hne (Option.some.inj h)
    have hwaiting : ∀ o : Option Nat, (lastSection ((sec, b) :: links)).or o =
        (lastSection links).or (some sec) := by
      intro o
      rw [lastSection_cons]
      cases lastSection links <;> rfl
    rw [chainEnd_cons, hwaiting]
    cases attempts with
    | zero =>
      rw [selectOwner, if_neg hcontended, howned]
      dsimp only
      rw [if_pos (hrun sec b howner), if_neg (by simp)]
    | succ attempts =>
      rw [selectOwner, if_neg hcontended, howned]
      dsimp only
      rw [if_pos (hrun sec b howner)]
      have hlength : ((sec, b) :: links).length ≤ attempts + 1 ↔ links.length ≤ attempts := by
        simp
      simp only [hlength]
      cases hnext : (s.threads b).msectionEntering with
      | none =>
        cases links with
        | nil =>
          have hshort : ([] : List (Nat × Nat)).length ≤ attempts := Nat.zero_le _
          dsimp only
          rw [if_pos hshort]
          have hend : chainEnd b [] = b := rfl
          have hlast : (lastSection []).or (some sec) = some sec := rfl
          rw [hend, hlast, grantEntering]
          simp only [hnext]
        | cons link links =>
          have hcontra := hrest.1.1
          rw [hnext] at hcontra
          cases hcontra
      | some next =>
        dsimp only
        have hsame : WaitChain { s with waitingSection := some sec } b links :=
          hrest.congr rfl fun _ => rfl
        exact ih hrun hsame hnext

/-- The flag is set exactly on the section that is waited for. -/
def Flagged (s : SectionSystem) : Prop :=
  ∀ sec, (s.sections sec).reschedAfterLeave = true ↔ s.waitingSection = some sec

/-- No section is waited for, and no flag is set. -/
def Unflagged (s : SectionSystem) : Prop :=
  s.waitingSection = none ∧ ∀ sec, (s.sections sec).reschedAfterLeave = false

theorem Flagged.clearWaiting (h : s.Flagged) : s.clearWaiting.Unflagged := by
  cases hwaiting : s.waitingSection with
  | none =>
    simp only [SectionSystem.clearWaiting, hwaiting]
    refine ⟨hwaiting, fun sec => ?_⟩
    rw [Bool.eq_false_iff, Ne, h sec, hwaiting]
    simp
  | some waited =>
    simp only [SectionSystem.clearWaiting, hwaiting]
    refine ⟨rfl, fun sec => ?_⟩
    by_cases hsec : sec = waited
    · subst hsec
      simp [updateSection]
    · have hclear : (s.sections sec).reschedAfterLeave = false := by
        rw [Bool.eq_false_iff, Ne, h sec, hwaiting]
        exact fun he => hsec (Option.some.inj he).symm
      simpa [updateSection, hsec] using hclear

theorem Unflagged.flagged (h : s.Unflagged) : s.Flagged := by
  intro sec
  rw [h.1, h.2 sec]
  simp

theorem markWaiting_flagged (hclear : ∀ sec, (s.sections sec).reschedAfterLeave = false) :
    s.markWaiting.Flagged := by
  intro sec
  cases hwaiting : s.waitingSection with
  | none =>
    simp only [markWaiting, hwaiting, hclear]
    simp
  | some waited =>
    simp only [markWaiting, hwaiting]
    by_cases hsec : sec = waited
    · subst hsec
      simp [updateSection, hwaiting]
    · have hne : waited ≠ sec := fun he => hsec he.symm
      simp [updateSection, hsec, hclear, hwaiting, hne]

theorem markWaiting_waitingSection (s : SectionSystem) :
    s.markWaiting.waitingSection = s.waitingSection := by
  simp only [markWaiting]
  split <;> rfl

theorem grantEntering_waitingSection (s : SectionSystem) (u : Nat) :
    (s.grantEntering u).waitingSection = s.waitingSection := by
  simp only [grantEntering]
  split <;> rfl

theorem updateSection_flag (f : Msection → Msection)
    (hf : (f (s.sections sec)).reschedAfterLeave = (s.sections sec).reschedAfterLeave)
    (sec' : Nat) : ((s.updateSection sec f).sections sec').reschedAfterLeave =
      (s.sections sec').reschedAfterLeave := by
  by_cases hsec : sec' = sec
  · subst hsec
    simpa [updateSection] using hf
  · simp [updateSection, hsec]

theorem grantEntering_flag (s : SectionSystem) (u sec : Nat) :
    ((s.grantEntering u).sections sec).reschedAfterLeave = (s.sections sec).reschedAfterLeave := by
  simp only [grantEntering]
  split
  · rfl
  · exact updateSection_flag (fun m => { m with owner := some u }) rfl sec

theorem grantEntering_owner (s : SectionSystem) (u sec : Nat) :
    (s.grantEntering u).owner sec =
      if (s.threads u).msectionEntering = some sec then some u else s.owner sec := by
  simp only [grantEntering]
  split
  · rename_i hnone
    rw [if_neg (by rw [hnone]; nofun)]
  · rename_i sec' hsec'
    by_cases hsec : sec = sec'
    · subst hsec
      rw [if_pos hsec', grant_owner_self]
    · rw [if_neg (by rw [hsec']; exact fun he => hsec (Option.some.inj he).symm)]
      exact updateSection_owner_ne hsec fun m => { m with owner := some u }

theorem grantEntering_entering (s : SectionSystem) (u : Nat) :
    ((s.grantEntering u).threads u).msectionEntering = none := by
  simp only [grantEntering]
  split
  · rename_i hnone
    exact hnone
  · rw [grant_threads_self]

theorem grantEntering_state (s : SectionSystem) (u v : Nat) :
    ((s.grantEntering u).threads v).state = (s.threads v).state := by
  simp only [grantEntering]
  split
  · rfl
  · by_cases hv : v = u
    · subst hv
      rw [grant_threads_self]
    · rw [grant_threads_ne hv]

/-- `select_thread` clears the old flag, goes to the end of the chain from the thread that it
starts with, and sets the flag of the last contended section. -/
theorem selectThread_chain {start : Nat} (hrun : s.OwnersRun) (hflags : s.Flagged)
    (hstart : (s.threads u).donateTarget.getD u = start) (hchain : s.WaitChain start links) :
    s.selectThread (some u) =
      if links.length ≤ 5 then
        some ((grantEntering { s.clearWaiting with
          threadSelected := some u, waitingSection := lastSection links }
          (chainEnd start links)).markWaiting, some (chainEnd start links))
      else none := by
  obtain ⟨hnone, hclear⟩ := hflags.clearWaiting
  have hthreads : s.clearWaiting.threads = s.threads := clearWaiting_threads s
  simp only [selectThread, hstart]
  cases hentering : (s.threads start).msectionEntering with
  | none =>
    cases links with
    | nil =>
      have hend : chainEnd start [] = start := rfl
      have hlast : lastSection [] = none := rfl
      have hshort : ([] : List (Nat × Nat)).length ≤ 5 := Nat.zero_le _
      dsimp only
      rw [if_pos hshort, hend, hlast, grantEntering]
      simp only [hthreads, hentering, markWaiting]
      rw [← hnone]
    | cons link links =>
      have hcontra := hchain.1.1
      rw [hentering] at hcontra
      cases hcontra
  | some sec =>
    dsimp only
    have hrun' : OwnersRun { s.clearWaiting with threadSelected := some u } := by
      intro sec b hb
      have hused : s.clearWaiting.nthreadsUsed = s.nthreadsUsed := selects_clearWaiting.used
      change s.clearWaiting.owner sec = some b at hb
      rw [(clearWaiting_steady s).owner] at hb
      change b < s.clearWaiting.nthreadsUsed ∧ 0 < b ∧ (s.clearWaiting.threads b).state = .runnable
      rw [hused, hthreads]
      exact hrun sec b hb
    have hchain' : WaitChain { s.clearWaiting with threadSelected := some u } start links :=
      hchain.congr hthreads (clearWaiting_steady s).owner
    rw [selectOwner_chain hrun' hchain' ((congrArg _ (congrFun hthreads start)).trans hentering)]
    have hwaiting : (lastSection links).or s.clearWaiting.waitingSection = lastSection links := by
      rw [hnone]
      cases lastSection links <;> rfl
    rw [hwaiting]
    split_ifs <;> rfl

end SectionSystem

end Chpok
