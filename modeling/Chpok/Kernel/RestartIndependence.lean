import Chpok.Kernel.ChoiceState
import Chpok.Kernel.EligibleThreads
import Chpok.Kernel.Incarnation
import Mathlib.Data.List.Find

/-! What a partition that is restarted has of its former incarnation, once it has created the
same processes and ports: two runs of the creation are compared, one after the restart and one
after the first start. -/

namespace Chpok

/-- What the creation of a process sets. The other fields are set when they are needed. -/
def SchedThread.created (th : SchedThread) : SchedThread :=
  { th with delayedTime := 0, nextActivation := 0, delayedFunc := .wakeUp, waitPriority := 0 }

def SectionThread.created (th : SectionThread) : SectionThread :=
  { th with waitResult := .ok, killed := false }

namespace ArincPartition

open Outcome

variable {p q : ArincPartition} {t : Nat} {name : List UInt8}

/-- The same processes have been created. -/
structure SameCreated (p q : ArincPartition) : Prop where
  nthreads : p.nthreads = q.nthreads
  used : p.nthreadsUsed = q.nthreadsUsed
  error : p.threadError = q.threadError
  sched : ∀ t < q.nthreadsUsed, (p.sched t).created = (q.sched t).created
  threads : ∀ t < q.nthreadsUsed, (p.threads t).created = (q.threads t).created

theorem SameCreated.updateSched {f g : SchedThread → SchedThread} (h : SameCreated p q) :
    SameCreated (p.updateSched p.nthreadsUsed f) (q.updateSched q.nthreadsUsed g) where
  nthreads := h.nthreads
  used := h.used
  error := h.error
  sched t ht := by
    have hp : t ≠ p.nthreadsUsed := h.used ▸ Nat.ne_of_lt ht
    have hq : t ≠ q.nthreadsUsed := Nat.ne_of_lt ht
    simp only [ArincPartition.updateSched, Function.update_of_ne hp, Function.update_of_ne hq]
    exact h.sched t ht
  threads := h.threads

theorem SameCreated.findThread (h : SameCreated p q) : p.findThread name = q.findThread name := by
  unfold ArincPartition.findThread
  rw [h.used, h.error]
  apply List.find?_congr
  intro t ht
  have hname := congrArg SchedThread.name (h.sched t (List.mem_range.mp ht))
  simp only [SchedThread.created] at hname
  rw [hname]

/-- The thread that is created is the same if its attributes are. -/
theorem SameCreated.threadCreate (h : SameCreated p q) {f g : SectionSystem → SectionSystem}
    {e : Option Nat}
    (hnew : ((p.threadCreate p.nthreadsUsed).sched p.nthreadsUsed).created =
      ((q.threadCreate q.nthreadsUsed).sched q.nthreadsUsed).created)
    (hf : f (p.threadCreate p.nthreadsUsed).toSectionSystem =
      { (p.threadCreate p.nthreadsUsed).toSectionSystem with
        nthreadsUsed := p.nthreadsUsed + 1, threadError := e })
    (hg : g (q.threadCreate q.nthreadsUsed).toSectionSystem =
      { (q.threadCreate q.nthreadsUsed).toSectionSystem with
        nthreadsUsed := q.nthreadsUsed + 1, threadError := e }) :
    SameCreated ((p.threadCreate p.nthreadsUsed).onSections f)
      ((q.threadCreate q.nthreadsUsed).onSections g) := by
  simp only [onSections, hf, hg]
  refine ⟨h.nthreads, by rw [h.used], rfl, fun t ht => ?_, fun t ht => ?_⟩
  · by_cases hlast : t = q.nthreadsUsed
    · rw [← h.used] at hnew
      rw [hlast, ← h.used]
      exact hnew
    · have hq : t < q.nthreadsUsed := Nat.lt_of_le_of_ne (Nat.lt_succ_iff.mp ht) hlast
      have hp : t ≠ p.nthreadsUsed := h.used ▸ hlast
      simp only [ArincPartition.threadCreate, ArincPartition.updateSched, Function.update_of_ne hp,
        Function.update_of_ne hlast]
      exact h.sched t hq
  · by_cases hlast : t = q.nthreadsUsed
    · subst hlast
      simp only [ArincPartition.threadCreate, ArincPartition.updateSched, updateThread, onSections,
        SectionSystem.updateThread, h.used, Function.update_self]
      simp [SectionThread.created, SectionSystem.resetContext]
    · have hq : t < q.nthreadsUsed := Nat.lt_of_le_of_ne (Nat.lt_succ_iff.mp ht) hlast
      have hp : t ≠ p.nthreadsUsed := h.used ▸ hlast
      simp only [ArincPartition.threadCreate, ArincPartition.updateSched, updateThread, onSections,
        SectionSystem.updateThread, Function.update_of_ne hp, Function.update_of_ne hlast]
      exact h.threads t hq

/-- Two calls come back with the same error number, and the same processes have been created. -/
def CreatedAlike (m n : Except PartitionExit (ArincPartition × PokErrno)) : Prop :=
  ∃ errno r s, m = .ok (r, errno) ∧ n = .ok (s, errno) ∧ SameCreated r s

theorem createdAlike_ok (errno : PokErrno) (h : SameCreated p q) :
    CreatedAlike (.ok (p, errno)) (.ok (q, errno)) :=
  ⟨errno, p, q, rfl, rfl, h⟩

theorem CreatedAlike.ite {c d : Prop} [Decidable c] [Decidable d]
    {m m' n n' : Except PartitionExit (ArincPartition × PokErrno)} (hcd : c ↔ d)
    (hm : CreatedAlike m m') (hn : CreatedAlike n n') :
    CreatedAlike (if c then m else n) (if d then m' else n') := by
  by_cases hd : d
  · rw [if_pos (hcd.mpr hd), if_pos hd]
    exact hm
  · rw [if_neg fun hc => hd (hcd.mp hc), if_neg hd]
    exact hn

/-- Both partitions create the process, or refuse it for the same reason. -/
theorem pokThreadCreate_same {attr : ThreadAttr} {entryOk stackOk : Bool} (h : SameCreated p q)
    (hp : p.mode ≠ .normal) (hq : q.mode ≠ .normal) :
    CreatedAlike (p.pokThreadCreate attr entryOk stackOk)
      (q.pokThreadCreate attr entryOk stackOk) := by
  have hfull : p.nthreadsUsed = p.nthreads ↔ q.nthreadsUsed = q.nthreads := by
    rw [h.used, h.nthreads]
  refine CreatedAlike.ite (iff_of_false hp hq) (createdAlike_ok _ h)
    (CreatedAlike.ite hfull (createdAlike_ok _ h) ?_)
  dsimp only
  cases attrErrno attr with
  | some errno => exact createdAlike_ok _ h.updateSched
  | none =>
    have hnamed := (h.updateSched (f := fun th => { th with
        basePriority := attr.priority, period := attr.period, timeCapacity := attr.timeCapacity })
      (g := fun th => { th with
        basePriority := attr.priority, period := attr.period, timeCapacity := attr.timeCapacity
      })).updateSched (f := fun th => { th with name := attr.name })
        (g := fun th => { th with name := attr.name })
    refine CreatedAlike.ite Iff.rfl (createdAlike_ok _ h.updateSched) (CreatedAlike.ite ?_
      (createdAlike_ok _ hnamed) (CreatedAlike.ite Iff.rfl (createdAlike_ok _ hnamed)
        (createdAlike_ok _ ?_)))
    · exact hnamed.findThread ▸ Iff.rfl
    · apply hnamed.threadCreate (e := q.threadError)
      · simp [threadCreate_sched, SchedThread.created, ArincPartition.updateSched]
      · rw [← h.error]
        rfl
      · rfl

theorem errorThreadCreate_same {entryOk stackOk : Bool} (h : SameCreated p q)
    (hp : p.mode ≠ .normal) (hq : q.mode ≠ .normal) :
    CreatedAlike (p.errorThreadCreate entryOk stackOk) (q.errorThreadCreate entryOk stackOk) := by
  have hfull : p.nthreadsUsed = p.nthreads ↔ q.nthreadsUsed = q.nthreads := by
    rw [h.used, h.nthreads]
  have herror : p.threadError ≠ none ↔ q.threadError ≠ none := by rw [h.error]
  refine CreatedAlike.ite (iff_of_false hp hq) (createdAlike_ok _ h) (CreatedAlike.ite herror
    (createdAlike_ok _ h) (CreatedAlike.ite hfull (createdAlike_ok _ h) (CreatedAlike.ite Iff.rfl
      (createdAlike_ok _ h) (CreatedAlike.ite Iff.rfl (createdAlike_ok _ h.updateSched)
        (createdAlike_ok _ ?_)))))
  apply SameCreated.threadCreate h.updateSched
  · simp [threadCreate_sched, SchedThread.created, ArincPartition.updateSched]
  · rfl
  · rw [h.used]
    rfl

/-- What a creation changes. -/
def Creates (p q : ArincPartition) : Prop :=
  q = { p with
    threads := q.threads
    nthreadsUsed := q.nthreadsUsed
    threadError := q.threadError
    sched := q.sched }

theorem Creates.trans {r : ArincPartition} (h : Creates p q) (h' : Creates q r) : Creates p r := by
  unfold Creates at h h' ⊢
  rw [h']
  rw [h]

theorem pokThreadCreate_creates {attr : ThreadAttr} {entryOk stackOk : Bool} :
    Sat (fun _ => True) (fun r => Creates p r.1) (p.pokThreadCreate attr entryOk stackOk) := by
  refine Sat.ite (fun _ => rfl) fun _ => Sat.ite (fun _ => rfl) fun _ => ?_
  cases attrErrno attr with
  | some errno => exact rfl
  | none =>
    exact Sat.ite (fun _ => rfl) fun _ => Sat.ite (fun _ => rfl) fun _ => Sat.ite (fun _ => rfl)
      fun _ => rfl

theorem errorThreadCreate_creates {entryOk stackOk : Bool} :
    Sat (fun _ => True) (fun r => Creates p r.1) (p.errorThreadCreate entryOk stackOk) :=
  Sat.ite (fun _ => rfl) fun _ => Sat.ite (fun _ => rfl) fun _ => Sat.ite (fun _ => rfl) fun _ =>
    Sat.ite (fun _ => rfl) fun _ => Sat.ite (fun _ => rfl) fun _ => rfl

/-- Outside the `NORMAL` mode no creation is refused because of the mode. -/
theorem attrErrno_ne {attr : ThreadAttr} : attrErrno attr ≠ some .partitionMode := by
  unfold attrErrno
  split_ifs <;> simp

theorem pokThreadCreate_errno {attr : ThreadAttr} {entryOk stackOk : Bool}
    (hp : p.mode ≠ .normal) : Sat (fun _ => True) (fun r => r.2 ≠ .partitionMode)
      (p.pokThreadCreate attr entryOk stackOk) := by
  refine Sat.ite (fun hn => absurd hn hp) fun _ => Sat.ite (fun _ => by simp) fun _ => ?_
  cases hattr : attrErrno attr with
  | some errno =>
    rintro rfl
    exact attrErrno_ne hattr
  | none =>
    exact Sat.ite (fun _ => by simp) fun _ => Sat.ite (fun _ => by simp) fun _ =>
      Sat.ite (fun _ => by simp) fun _ => by simp

theorem errorThreadCreate_errno {entryOk stackOk : Bool} (hp : p.mode ≠ .normal) :
    Sat (fun _ => True) (fun r => r.2 ≠ .partitionMode) (p.errorThreadCreate entryOk stackOk) :=
  Sat.ite (fun hn => absurd hn hp) fun _ => Sat.ite (fun _ => by simp) fun _ =>
    Sat.ite (fun _ => by simp) fun _ => Sat.ite (fun _ => by simp) fun _ =>
      Sat.ite (fun _ => by simp) fun _ => by simp

end ArincPartition

namespace BasePartition

open ArincPartition Outcome

variable {p q r s : BasePartition} {hm : PartitionHm} {call : StartupCall}
  {calls : List StartupCall} {errno : PokErrno} {errnos : List PokErrno} {nthreads : Nat}

/-- The same processes and ports have been created. -/
structure SameIncarnation (p q : BasePartition) : Prop extends
    SameCreated p.toArincPartition q.toArincPartition where
  ports : p.isCreated = q.isCreated

/-- What the creation of processes and ports changes. -/
structure Starts (p q : BasePartition) : Prop where
  creates : Creates p.toArincPartition q.toArincPartition
  timer : q.timer = p.timer

theorem Starts.trans (h : Starts p q) (h' : Starts q r) : Starts p r :=
  ⟨h.creates.trans h'.creates, h'.timer.trans h.timer⟩

theorem portCreate_starts {table : PortTable} {id : Nat} {argsOk : Bool} :
    Starts p (p.portCreate table id argsOk).1 := by
  unfold portCreate
  split_ifs
  · exact ⟨rfl, rfl⟩
  · exact ⟨rfl, rfl⟩

theorem startupCall_starts (h : p.startupCall call = .ok (q, errno)) : Starts p q := by
  have hcall : Sat (fun _ => True) (fun r => Starts p r.1) (p.startupCall call) := by
    cases call with
    | process => exact Sat.map pokThreadCreate_creates fun r hr => ⟨hr, rfl⟩
    | errorHandler => exact Sat.map errorThreadCreate_creates fun r hr => ⟨hr, rfl⟩
    | port => exact portCreate_starts
  exact hcall.of_ok h

theorem startup_cons {c : List PokErrno} (h : startup (call :: calls) p = .ok (q, c)) :
    ∃ r errno errnos, p.startupCall call = .ok (r, errno) ∧ startup calls r = .ok (q, errnos) ∧
      c = errno :: errnos := by
  rw [startup] at h
  cases hcall : p.startupCall call with
  | error e =>
    rw [hcall] at h
    cases h
  | ok r =>
    rw [hcall] at h
    cases hcalls : startup calls r.1 with
    | error e =>
      simp only [Except.bind, hcalls] at h
      cases h
    | ok t =>
      simp only [Except.bind, hcalls] at h
      obtain ⟨rfl, rfl⟩ := Prod.mk.inj (Except.ok.inj h)
      exact ⟨r.1, r.2, t.2, rfl, hcalls, rfl⟩

theorem startup_starts (h : startup calls p = .ok (q, errnos)) : Starts p q := by
  induction calls generalizing p errnos with
  | nil =>
    obtain ⟨rfl, -⟩ := Prod.mk.inj (Except.ok.inj h)
    exact ⟨rfl, rfl⟩
  | cons call calls ih =>
    obtain ⟨r, errno, errnos, hcall, hcalls, -⟩ := startup_cons h
    exact (startupCall_starts hcall).trans (ih hcalls)

theorem Starts.mode (h : Starts p q) : q.mode = p.mode := by
  rw [show q.toArincPartition = _ from h.creates]

theorem portErrno_same (table : PortTable) (id : Nat) (argsOk : Bool)
    (hports : p.isCreated = q.isCreated) (hp : p.mode ≠ .normal) (hq : q.mode ≠ .normal) :
    p.portErrno table id argsOk = q.portErrno table id argsOk := by
  unfold portErrno
  rw [hports]
  simp only [if_neg hp, if_neg hq]

theorem portCreate_snd {table : PortTable} {id : Nat} {argsOk : Bool} :
    (p.portCreate table id argsOk).2 = p.portErrno table id argsOk := by
  unfold portCreate
  split_ifs with hok
  · exact hok.symm
  · rfl

theorem portCreate_same {table : PortTable} {id : Nat} {argsOk : Bool} (h : SameIncarnation p q)
    (herrno : p.portErrno table id argsOk = q.portErrno table id argsOk) :
    SameIncarnation (p.portCreate table id argsOk).1 (q.portCreate table id argsOk).1 := by
  unfold portCreate
  rw [herrno]
  split_ifs
  · exact ⟨h.toSameCreated, by simp only [h.ports]⟩
  · exact h

theorem startupCall_same (call : StartupCall) (h : SameIncarnation p q) (hp : p.mode ≠ .normal)
    (hq : q.mode ≠ .normal) : ∃ errno r s, p.startupCall call = .ok (r, errno) ∧
      q.startupCall call = .ok (s, errno) ∧ SameIncarnation r s := by
  have hcreated : ∀ {m n : Except PartitionExit (ArincPartition × PokErrno)}, CreatedAlike m n →
      ∃ errno r s, m.map (fun r => ({ p with toArincPartition := r.1 }, r.2)) = .ok (r, errno) ∧
        n.map (fun r => ({ q with toArincPartition := r.1 }, r.2)) = .ok (s, errno) ∧
        SameIncarnation r s := by
    rintro m n ⟨errno, r, s, rfl, rfl, hrs⟩
    exact ⟨errno, _, _, rfl, rfl, hrs, h.ports⟩
  cases call with
  | process => exact hcreated (pokThreadCreate_same h.toSameCreated hp hq)
  | errorHandler => exact hcreated (errorThreadCreate_same h.toSameCreated hp hq)
  | port table id argsOk =>
    have herrno := portErrno_same table id argsOk h.ports hp hq
    exact ⟨q.portErrno table id argsOk, (p.portCreate table id argsOk).1,
      (q.portCreate table id argsOk).1, congrArg Except.ok (Prod.ext rfl (portCreate_snd.trans herrno)),
      congrArg Except.ok (Prod.ext rfl portCreate_snd), portCreate_same h herrno⟩

/-- The monitor may restart a partition in the `NORMAL` mode, in which it creates nothing. -/
theorem startupCall_same_of_errno (h : SameIncarnation p q) (hq : q.mode ≠ .normal)
    (hr : p.startupCall call = .ok (r, errno)) (hs : q.startupCall call = .ok (s, errno)) :
    SameIncarnation r s := by
  by_cases hp : p.mode = .normal
  · have hrefused : ∀ {m : Except PartitionExit (ArincPartition × PokErrno)}, errno = .partitionMode →
        Sat (fun _ => True) (fun r => r.2 ≠ .partitionMode) m →
        m.map (fun r => ({ q with toArincPartition := r.1 }, r.2)) = .ok (s, errno) → False := by
      rintro m rfl hm hs
      cases m with
      | error e => cases hs
      | ok t =>
        obtain ⟨-, he⟩ := Prod.mk.inj (Except.ok.inj hs)
        exact hm he
    cases call with
    | process =>
      rw [startupCall, pokThreadCreate, if_pos hp] at hr
      obtain ⟨-, rfl⟩ := Prod.mk.inj (Except.ok.inj hr)
      exact (hrefused rfl (pokThreadCreate_errno hq) hs).elim
    | errorHandler =>
      rw [startupCall, errorThreadCreate, if_pos hp] at hr
      obtain ⟨-, rfl⟩ := Prod.mk.inj (Except.ok.inj hr)
      exact (hrefused rfl (errorThreadCreate_errno hq) hs).elim
    | port table id argsOk =>
      have hsame : p.portErrno table id argsOk = q.portErrno table id argsOk := by
        rw [← portCreate_snd, ← portCreate_snd, Except.ok.inj hr, Except.ok.inj hs]
      have hcreated := portCreate_same h hsame
      rwa [Except.ok.inj hr, Except.ok.inj hs] at hcreated
  · obtain ⟨errno', r', s', hr', hs', hsame⟩ := startupCall_same call h hp hq
    obtain ⟨rfl, -⟩ := Prod.mk.inj (Except.ok.inj (hr.symm.trans hr'))
    obtain ⟨rfl, -⟩ := Prod.mk.inj (Except.ok.inj (hs.symm.trans hs'))
    exact hsame

theorem startup_same (h : SameIncarnation p q) (hp : p.mode ≠ .normal) (hq : q.mode ≠ .normal)
    (calls : List StartupCall) : ∃ errnos r s, startup calls p = .ok (r, errnos) ∧
      startup calls q = .ok (s, errnos) := by
  induction calls generalizing p q with
  | nil => exact ⟨[], p, q, rfl, rfl⟩
  | cons call calls ih =>
    obtain ⟨errno, r, s, hr, hs, hsame⟩ := startupCall_same call h hp hq
    have hrmode : r.mode ≠ .normal := (startupCall_starts hr).mode ▸ hp
    have hsmode : s.mode ≠ .normal := (startupCall_starts hs).mode ▸ hq
    obtain ⟨errnos, r', s', hr', hs'⟩ := ih hsame hrmode hsmode
    refine ⟨errno :: errnos, r', s', ?_, ?_⟩
    · simp only [startup, hr, Except.bind, hr']
      rfl
    · simp only [startup, hs, Except.bind, hs']
      rfl

theorem startup_same_of_errno (h : SameIncarnation p q) (hq : q.mode ≠ .normal)
    (hr : startup calls p = .ok (r, errnos)) (hs : startup calls q = .ok (s, errnos)) :
    SameIncarnation r s := by
  induction calls generalizing p q errnos with
  | nil =>
    obtain ⟨rfl, -⟩ := Prod.mk.inj (Except.ok.inj hr)
    obtain ⟨rfl, -⟩ := Prod.mk.inj (Except.ok.inj hs)
    exact h
  | cons call calls ih =>
    obtain ⟨r', errno, rest, hr', hrest, rfl⟩ := startup_cons hr
    obtain ⟨s', errno', rest', hs', hrest', he⟩ := startup_cons hs
    obtain ⟨rfl, rfl⟩ := List.cons.inj he
    have hsame := startupCall_same_of_errno h hq hr' hs'
    have hsmode : s'.mode ≠ .normal := (startupCall_starts hs').mode ▸ hq
    exact ih hsame hsmode hrest hrest'

/-! Runs of a partition -/

theorem start_choiceSound (h : ChoiceSound nthreads p.toArincPartition) :
    ChoiceSound nthreads p.start.toArincPartition :=
  h.of_eq rfl

theorem restarts_choiceSound {e : BaseInput} (h : ChoiceSound nthreads p.toArincPartition)
    (hq : p.restarts hm e = some q) : ChoiceSound nthreads q.toArincPartition := by
  cases e with
  | arinc e drained =>
    have hrun : Sat (ExitWith (ChoiceSound nthreads)) (ChoiceSound nthreads) (p.run hm e) :=
      run_choiceSound h
    unfold restarts at hq
    dsimp only at hq
    split at hq
    · rename_i r hr
      obtain rfl := Option.some.inj hq
      exact hrun.of_error hr
    · cases hq
  | restartN =>
    obtain rfl := Option.some.inj hq
    exact h
  | startup | timerExpired => cases hq

theorem goesOn_choiceSound {e : BaseInput} (h : ChoiceSound nthreads p.toArincPartition)
    (hq : p.goesOn hm e = some q) : ChoiceSound nthreads q.toArincPartition := by
  cases e with
  | arinc e drained =>
    have hrun : Sat (ExitWith (ChoiceSound nthreads)) (ChoiceSound nthreads) (p.run hm e) :=
      run_choiceSound h
    unfold goesOn at hq
    dsimp only at hq
    split at hq
    · rename_i r hr
      obtain rfl := Option.some.inj hq
      exact hrun.of_ok hr
    · rename_i r hr
      obtain rfl := Option.some.inj hq
      exact hrun.of_error hr
    · rename_i r hr
      obtain rfl := Option.some.inj hq
      exact hrun.of_error hr
    all_goals cases hq
  | startup call =>
    unfold goesOn at hq
    dsimp only at hq
    split_ifs at hq
    obtain ⟨r, hr, rfl⟩ := Option.map_eq_some_iff.mp hq
    have hstarts := startupCall_starts (ok_of_toOption hr)
    apply h.of_eq
    rw [show r.1.toArincPartition = _ from hstarts.creates]
    rfl
  | timerExpired =>
    obtain rfl := Option.some.inj hq
    exact h
  | restartN => cases hq

theorem step_choiceSound {e : BaseInput} (h : ChoiceSound nthreads p.toArincPartition)
    (hq : p.step hm e = some q) : ChoiceSound nthreads q.toArincPartition := by
  unfold step at hq
  cases hr : p.restarts hm e with
  | some r =>
    rw [hr] at hq
    obtain rfl := Option.some.inj hq
    exact start_choiceSound (restarts_choiceSound h hr)
  | none =>
    rw [hr] at hq
    exact goesOn_choiceSound h hq

theorem boot_choiceSound (nthreads : Nat) :
    ChoiceSound nthreads (boot nthreads).toArincPartition :=
  ⟨rfl, fun _ => ⟨rfl, rfl⟩⟩

/-- What a restart leaves is seen in the new incarnation, and nothing else. -/
theorem sameScheduling_iff (hq : ChoiceSound nthreads q.toArincPartition) (hr : Starts q.start r)
    (hs : Starts (boot nthreads) s) (herror : r.threadError = s.threadError) :
    SameScheduling r s ↔ NothingLeft q := by
  obtain ⟨hr, hrtimer⟩ := hr
  obtain ⟨hs, hstimer⟩ := hs
  obtain ⟨r, rtimer, rports⟩ := r
  obtain ⟨s, stimer, sports⟩ := s
  have hr' : ∃ threads used error sched, r = { q.partitionArincStart with
      threads := threads, nthreadsUsed := used, threadError := error, sched := sched } :=
    ⟨_, _, _, _, hr⟩
  have hs' : ∃ threads used error sched, s = { (boot nthreads).toArincPartition with
      threads := threads, nthreadsUsed := used, threadError := error, sched := sched } :=
    ⟨_, _, _, _, hs⟩
  obtain ⟨_, _, _, _, rfl⟩ := hr'
  obtain ⟨_, _, _, _, rfl⟩ := hs'
  constructor
  · intro h
    exact {
      selected := h.selected
      recheck := h.recheck
      timer := hrtimer.symm.trans (h.timer.trans hstimer)
      errors t ht := h.errors t (hq.nthreads ▸ ht)
      count := h.count }
  · intro h
    obtain ⟨hwaiting, hhandler⟩ := hq.idle h.selected
    exact {
      selected := h.selected
      lockLevel := rfl
      locked := rfl
      waiting := hwaiting
      errorList := rfl
      errors t ht := h.errors t (hq.nthreads.symm ▸ ht)
      count := h.count
      error := herror
      handler := hhandler
      recheck := h.recheck
      events := rfl
      timer := hrtimer.trans (h.timer.trans hstimer.symm)
      eligible := rfl }

theorem start_same (hq : ChoiceSound nthreads q.toArincPartition) :
    SameIncarnation q.start (boot nthreads) where
  nthreads := hq.nthreads
  used := rfl
  error := rfl
  ports := rfl
  sched t ht := by
    obtain rfl := Nat.lt_one_iff.mp ht
    simp [start, boot, partitionArincStart, schedArincStart, threadCreate_sched, updateThread,
      onSections, ArincPartition.updateSched, SchedThread.created]
  threads t ht := by
    obtain rfl := Nat.lt_one_iff.mp ht
    simp [start, boot, partitionArincStart, schedArincStart, ArincPartition.threadCreate, updateThread,
      onSections, ArincPartition.updateSched, SectionSystem.updateThread, SectionThread.created,
      SectionSystem.resetContext]

/-- For every restart in every run: outside the `NORMAL` mode the new incarnation creates what
the first one has created. Once the same processes and ports have been created, the state that
scheduling and error handling read is the same as after the first start exactly if the former
incarnation has left nothing that a restart does not reset. -/
theorem restart_independence {es : List BaseInput} {e : BaseInput}
    (h : Run.exec (step hm) (boot nthreads) es = some p) (hq : p.restarts hm e = some q) :
    (q.mode ≠ .normal → ∀ calls, ∃ errnos r s, startup calls q.start = .ok (r, errnos) ∧
      startup calls (boot nthreads) = .ok (s, errnos)) ∧
    ∀ calls errnos r s, startup calls q.start = .ok (r, errnos) →
      startup calls (boot nthreads) = .ok (s, errnos) →
        SameIncarnation r s ∧ (SameScheduling r s ↔ NothingLeft q) := by
  have hsound : ChoiceSound nthreads p.toArincPartition :=
    Run.invariant (fun _ _ _ hs ht => step_choiceSound hs ht) (boot_choiceSound nthreads) h
  have hleft := restarts_choiceSound hsound hq
  have hboot : (boot nthreads).mode ≠ .normal := by
    have hmode : (boot nthreads).mode = .initCold := rfl
    simp [hmode]
  refine ⟨fun hmode => startup_same (start_same hleft) hmode hboot, ?_⟩
  intro calls errnos r s hr hs
  have hsame := startup_same_of_errno (start_same hleft) hboot hr hs
  exact ⟨hsame, sameScheduling_iff hleft (startup_starts hr) (startup_starts hs) hsame.error⟩

/-- A process with a deadline, and the error handler. -/
def deadlineCalls : List StartupCall := [.process ⟨[65], 5, -1, 10⟩ true true, .errorHandler true true]

/-- The only process stops itself, and nothing is left to be executed. -/
def stoppedRun : List BaseInput :=
  deadlineCalls.map .startup ++ [.arinc (.call (.delayedStart 1 0 0 0) []) none,
    .arinc (.call (.setMode .normal 0 0) []) none, .arinc (.call .stop []) none]

/-- The process misses its deadline, and the error handler is started. -/
def handledRun : List BaseInput :=
  deadlineCalls.map .startup ++ [.arinc (.call (.delayedStart 1 0 0 0) []) none,
    .arinc (.call (.setMode .normal 0 0) []) none, .timerExpired,
    .arinc (.onEvent [.timer 10]) none]

theorem restart_independence_stopped :
    ∃ p q r s, Run.exec (step lenientHm) (boot 4) stoppedRun = some p ∧
      p.restarts lenientHm (.arinc .restart none) = some q ∧
      startup deadlineCalls q.start = .ok (r, [.ok, .ok]) ∧
      startup deadlineCalls (boot 4) = .ok (s, [.ok, .ok]) ∧ SameScheduling r s := by
  have hview : ((Run.exec (step lenientHm) (boot 4) stoppedRun).bind fun p =>
      (p.restarts lenientHm (.arinc .restart none)).map fun q => (q.mode, decide q.NothingLeft)) =
        some (.initCold, true) := by decide +kernel
  obtain ⟨p, hp, hv⟩ := Option.bind_eq_some_iff.mp hview
  obtain ⟨q, hq, hv⟩ := Option.map_eq_some_iff.mp hv
  obtain ⟨hmode, hleft⟩ := Prod.mk.inj hv
  obtain ⟨hcreated, hsame⟩ := restart_independence hp hq
  obtain ⟨errnos, r, s, hr, hs⟩ := hcreated (by simp [hmode]) deadlineCalls
  have herrnos : (startup deadlineCalls (boot 4)).toOption.map Prod.snd = some [.ok, .ok] := by
    decide +kernel
  rw [hs] at herrnos
  obtain rfl := Option.some.inj herrnos
  exact ⟨p, q, r, s, hp, hq, hr, hs, (hsame _ _ _ _ hr hs).2.mpr (of_decide_eq_true hleft)⟩

/-- The error handler restarts the partition and has not fetched the error. The process keeps
its error bit, without being in the list of errors, and the error handler is still recorded as
selected and running. -/
theorem restart_independence_fails :
    ∃ p q r s, Run.exec (step lenientHm) (boot 4) handledRun = some p ∧
      p.restarts lenientHm (.arinc (.call (.setMode .initWarm 20 20) []) none) = some q ∧
      startup deadlineCalls q.start = .ok (r, [.ok, .ok]) ∧
      startup deadlineCalls (boot 4) = .ok (s, [.ok, .ok]) ∧
      r.errors 1 = ⟨{.deadline}, false⟩ ∧ r.errorList = [] ∧ r.threadSelected = some 2 ∧
      r.isErrorHandler = true ∧ s.errors 1 = ⟨∅, false⟩ ∧ s.threadSelected = none ∧
      s.isErrorHandler = false ∧ ¬ SameScheduling r s := by
  have hrestarted : (((Run.exec (step lenientHm) (boot 4) handledRun).bind fun p =>
      p.restarts lenientHm (.arinc (.call (.setMode .initWarm 20 20) []) none)).bind fun q =>
        (startup deadlineCalls q.start).toOption).map (fun r => (r.2, r.1.errors 1, r.1.errorList,
          r.1.threadSelected, r.1.isErrorHandler)) =
      some ([.ok, .ok], ⟨{.deadline}, false⟩, [], some 2, true) := by decide +kernel
  have hbooted : (startup deadlineCalls (boot 4)).toOption.map (fun s => (s.2, s.1.errors 1,
      s.1.threadSelected, s.1.isErrorHandler)) = some ([.ok, .ok], ⟨∅, false⟩, none, false) := by
    decide +kernel
  obtain ⟨⟨r, errnos⟩, hr, hv⟩ := Option.map_eq_some_iff.mp hrestarted
  obtain ⟨q, hq, hr⟩ := Option.bind_eq_some_iff.mp hr
  obtain ⟨p, hp, hq⟩ := Option.bind_eq_some_iff.mp hq
  obtain ⟨rfl, hv⟩ := Prod.mk.inj hv
  obtain ⟨herrors, hv⟩ := Prod.mk.inj hv
  obtain ⟨hlist, hv⟩ := Prod.mk.inj hv
  obtain ⟨hselected, hhandler⟩ := Prod.mk.inj hv
  obtain ⟨⟨s, errnos⟩, hs, hv⟩ := Option.map_eq_some_iff.mp hbooted
  obtain ⟨rfl, hv⟩ := Prod.mk.inj hv
  obtain ⟨herrors', hv⟩ := Prod.mk.inj hv
  obtain ⟨hselected', hhandler'⟩ := Prod.mk.inj hv
  refine ⟨p, q, r, s, hp, hq, ok_of_toOption hr, ok_of_toOption hs, herrors, hlist, hselected,
    hhandler, herrors', hselected', hhandler', fun hsame => ?_⟩
  have hno := hselected.symm.trans (hsame.selected.trans hselected')
  cases hno

end BasePartition

end Chpok
