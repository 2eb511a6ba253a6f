import Mathlib.Algebra.BigOperators.Intervals
import Mathlib.Algebra.Order.BigOperators.Group.List
import Mathlib.Data.List.GetD

/-! A cyclic sequence of slots that is advanced by one slot at most whenever it is looked at,
and the nominal start of each slot. -/

namespace SlotClock

section Clock

variable {T : Type*} [LinearOrder T] {start : Nat → T} {e m : Nat} {now : T} {ts us : List T}

/-- The slot `e + 1` is entered if its start has come. -/
def tick (start : Nat → T) (e : Nat) (now : T) : Nat := if start (e + 1) ≤ now then e + 1 else e

def run (start : Nat → T) (e : Nat) (ts : List T) : Nat := ts.foldl (tick start) e

theorem run_append : run start e (ts ++ us) = run start (run start e ts) us := List.foldl_append

theorem run_concat : run start e (ts ++ [now]) = tick start (run start e ts) now := by
  rw [run_append]
  rfl

theorem le_tick : e ≤ tick start e now := by
  rw [tick]
  split_ifs
  · exact Nat.le_succ e
  · exact Nat.le_refl e

theorem le_run : e ≤ run start e ts := by
  induction ts generalizing e with
  | nil => exact Nat.le_refl e
  | cons now ts ih => exact Nat.le_trans le_tick ih

theorem start_tick_le (h : start e ≤ now) : start (tick start e now) ≤ now := by
  rw [tick]
  split_ifs with hnext
  · exact hnext
  · exact h

theorem start_run_le {first : T} (h : start e ≤ first) (hsorted : (first :: ts).Pairwise (· ≤ ·)) :
    ∀ now ∈ (first :: ts).getLast?, start (run start e ts) ≤ now := by
  induction ts using List.reverseRecOn with
  | nil =>
    rintro now ⟨⟩
    exact h
  | append_singleton ts last ih =>
    intro now hnow
    rw [← List.cons_append] at hsorted hnow
    rw [List.getLast?_concat] at hnow
    obtain rfl := Option.some.inj hnow
    obtain ⟨hsorted, -, hlast⟩ := List.pairwise_append.mp hsorted
    have hprev := List.getLast?_eq_some_getLast (List.cons_ne_nil first ts)
    rw [run_concat]
    apply start_tick_le
    exact le_trans (ih hsorted _ hprev)
      (hlast _ (List.mem_of_getLast? hprev) _ (List.mem_singleton_self _))

def During (start : Nat → T) (m : Nat) (now : T) : Prop := start m ≤ now ∧ now < start (m + 1)

/-- Looked at once in every slot, the clock does not fall behind. -/
theorem le_run_of_during (hmono : StrictMono start) {first : T} (hfirst : During start 0 first)
    (hsorted : (first :: ts).Pairwise (· ≤ ·))
    (hevery : ∀ j ≤ m, ∃ now ∈ first :: ts, During start j now) : m ≤ run start 0 ts := by
  induction m generalizing ts with
  | zero => exact Nat.zero_le _
  | succ m ih =>
    obtain ⟨now, hin, hnow⟩ := hevery (m + 1) (Nat.le_refl _)
    have hne : now ≠ first := by
      rintro rfl
      have hle : start 1 ≤ start (m + 1) := hmono.monotone (Nat.succ_le_succ (Nat.zero_le m))
      exact absurd (le_trans hle hnow.1) (not_le.mpr hfirst.2)
    obtain ⟨before, after, rfl⟩ := List.append_of_mem
      ((List.mem_cons.mp hin).resolve_left hne)
    have hbefore : (first :: before).Pairwise (· ≤ ·) :=
      (List.pairwise_append.mp (List.cons_append ▸ hsorted)).1
    have hlater : ∀ t ∈ now :: after, now ≤ t := by
      have hrest := (List.pairwise_append.mp (List.cons_append ▸ hsorted)).2.1
      intro t ht
      rcases List.mem_cons.mp ht with rfl | ht
      · exact le_refl _
      · exact (List.pairwise_cons.mp hrest).1 t ht
    have hprefix : m ≤ run start 0 before := by
      apply ih hbefore
      intro j hj
      obtain ⟨t, ht, hduring⟩ := hevery j (Nat.le_succ_of_le hj)
      refine ⟨t, ?_, hduring⟩
      rw [← List.cons_append, List.mem_append] at ht
      apply ht.resolve_right
      intro hafter
      have hle : start (j + 1) ≤ start (m + 1) := hmono.monotone (Nat.succ_le_succ hj)
      have hlt : t < now := lt_of_lt_of_le hduring.2 (le_trans hle hnow.1)
      exact absurd (hlater t hafter) (not_le.mpr hlt)
    have htick : m + 1 ≤ tick start (run start 0 before) now := by
      rcases Nat.lt_or_ge m (run start 0 before) with hlt | hge
      · exact Nat.le_trans hlt le_tick
      · have heq : run start 0 before = m := Nat.le_antisymm hge hprefix
        rw [heq, tick, if_pos hnow.1]
    have hrun : run start 0 (before ++ now :: after) =
        run start (tick start (run start 0 before) now) after := run_append
    rw [hrun]
    exact Nat.le_trans htick le_run

theorem run_eq_of_during (hmono : StrictMono start) {first now : T}
    (hfirst : During start 0 first) (hsorted : (first :: ts).Pairwise (· ≤ ·))
    (hnow : (first :: ts).getLast? = some now) (hduring : During start m now)
    (hevery : ∀ j < m, ∃ t ∈ first :: ts, During start j t) : run start 0 ts = m := by
  apply Nat.le_antisymm
  · have hle := start_run_le hfirst.1 hsorted now hnow
    have hlt := hmono.lt_iff_lt.mp (lt_of_le_of_lt hle hduring.2)
    exact Nat.le_of_lt_succ hlt
  · apply le_run_of_during hmono hfirst hsorted
    intro j hj
    rcases Nat.lt_or_eq_of_le hj with hlt | rfl
    · exact hevery j hlt
    · exact ⟨now, List.mem_of_getLast? hnow, hduring⟩

end Clock

theorem succ_of_last {n e : Nat} (hpos : 0 < n) (h : e % n + 1 = n) :
    (e + 1) % n = 0 ∧ (e + 1) / n = e / n + 1 := by
  have hsplit : e + 1 = 0 + n * (e / n + 1) := by
    have := Nat.div_add_mod e n
    rw [Nat.mul_succ]
    omega
  rw [hsplit, Nat.add_mul_mod_self_left, Nat.add_mul_div_left _ _ hpos, Nat.zero_div, Nat.zero_add]
  exact ⟨Nat.zero_mod n, rfl⟩

theorem succ_of_not_last {n e : Nat} (hpos : 0 < n) (h : e % n + 1 ≠ n) :
    (e + 1) % n = e % n + 1 ∧ (e + 1) / n = e / n := by
  have hlt : e % n + 1 < n := Nat.lt_of_le_of_ne (Nat.mod_lt e hpos) h
  have hsplit : e + 1 = e % n + 1 + n * (e / n) := by
    have := Nat.div_add_mod e n
    omega
  constructor
  · rw [hsplit, Nat.add_mul_mod_self_left, Nat.mod_eq_of_lt hlt]
  · rw [hsplit, Nat.add_mul_div_left _ _ hpos, Nat.div_eq_of_lt hlt, Nat.zero_add]

theorem exists_next {n i : Nat} (hi : i < n) (e : Nat) : ∃ m, e < m ∧ m ≤ e + n ∧ m % n = i := by
  have hsplit := Nat.div_add_mod e n
  have hlt := Nat.mod_lt e (Nat.zero_lt_of_lt hi)
  by_cases hlater : e % n < i
  · refine ⟨n * (e / n) + i, by omega, by omega, ?_⟩
    rw [Nat.mul_add_mod, Nat.mod_eq_of_lt hi]
  · refine ⟨n * (e / n + 1) + i, ?_, ?_, ?_⟩
    · rw [Nat.mul_succ]
      omega
    · rw [Nat.mul_succ]
      omega
    · rw [Nat.mul_add_mod, Nat.mod_eq_of_lt hi]

section Sums

variable {T : Type*} [AddCommMonoid T] {durations : List T} {j k : Nat}

/-- The total of the first `j` durations when the list is repeated forever. -/
def total (durations : List T) (j : Nat) : T :=
  ∑ i ∈ Finset.range j, durations.getD (i % durations.length) 0

@[simp] theorem total_zero : total durations 0 = 0 := Finset.sum_range_zero _

theorem total_succ :
    total durations (j + 1) = total durations j + durations.getD (j % durations.length) 0 :=
  Finset.sum_range_succ _ _

theorem total_of_le (h : j ≤ durations.length) : total durations j = (durations.take j).sum := by
  induction j with
  | zero => simp
  | succ j ih =>
    have hlt : j < durations.length := h
    rw [total_succ, ih (Nat.le_of_lt hlt), Nat.mod_eq_of_lt hlt, List.getD_eq_getElem _ _ hlt,
      List.sum_take_succ]

theorem total_add_length : total durations (durations.length + j) =
    durations.sum + total durations j := by
  induction j with
  | zero => simp [total_of_le]
  | succ j ih => rw [← Nat.add_assoc, total_succ, ih, total_succ, Nat.add_mod_left, add_assoc]

theorem total_frames (durations : List T) (k j : Nat) : total durations (k * durations.length + j) =
    k • durations.sum + total durations j := by
  induction k with
  | zero => simp
  | succ k ih =>
    have hsplit : (k + 1) * durations.length + j =
        durations.length + (k * durations.length + j) := by
      rw [Nat.succ_mul]
      omega
    rw [hsplit, total_add_length, ih, succ_nsmul', add_assoc]

end Sums

end SlotClock
