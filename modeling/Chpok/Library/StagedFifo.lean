import Mathlib.Data.List.Basic

/-! Two bounded queues in series. A new item passes to the front queue while that has
room; otherwise it waits in the back queue or, if the queues discard, it is dropped and
the next removal tells so. -/

namespace StagedFifo

variable {α : Type*} {R S : Nat} {discard : Bool}

structure State (α : Type*) where
  front : List α
  back : List α
  discarded : Bool

def State.empty : State α := ⟨[], [], false⟩

inductive Act (α : Type*) where
  | produced (item : α) (dropped : Bool)
  | consumed (item : α) (discarded : Bool)

inductive Step (R S : Nat) (discard : Bool) : State α → Act α → State α → Prop where
  | pass {front back : List α} {d : Bool} (item : α)
      (room : back.length < S) (free : front.length < R) :
      Step R S discard ⟨front, back, d⟩ (.produced item false) ⟨front ++ [item], back, d⟩
  | hold {front back : List α} {d : Bool} (item : α)
      (room : back.length < S) (full : R ≤ front.length) (keeps : discard = false) :
      Step R S discard ⟨front, back, d⟩ (.produced item false) ⟨front, back ++ [item], d⟩
  | drop {front back : List α} {d : Bool} (item : α)
      (room : back.length < S) (full : R ≤ front.length) (drops : discard = true) :
      Step R S discard ⟨front, back, d⟩ (.produced item true) ⟨front, back, true⟩
  | take {front : List α} {d : Bool} (item : α) :
      Step R S discard ⟨item :: front, [], d⟩ (.consumed item d) ⟨front, [], false⟩
  | refill {front back : List α} {d : Bool} (item moved : α) :
      Step R S discard ⟨item :: front, moved :: back, d⟩ (.consumed item d)
        ⟨front ++ [moved], back, false⟩

/-- A run from the empty queues, with its acts in order. -/
inductive Trace (R S : Nat) (discard : Bool) : List (Act α) → State α → Prop where
  | empty : Trace R S discard [] .empty
  | snoc {acts : List (Act α)} {s t : State α} {a : Act α}
      (run : Trace R S discard acts s) (step : Step R S discard s a t) :
      Trace R S discard (acts ++ [a]) t

def Act.kept : Act α → Option α
  | .produced item false => some item
  | _ => none

def Act.dropped : Act α → Option α
  | .produced item true => some item
  | _ => none

def Act.removed : Act α → Option α
  | .consumed item _ => some item
  | _ => none

/-- Whether an item was dropped since the last removal. -/
def droppedSince (acts : List (Act α)) : Bool :=
  acts.foldl (fun d a => match a with
    | .produced _ dropped => d || dropped
    | .consumed _ _ => false) false

theorem droppedSince_snoc (acts : List (Act α)) (a : Act α) :
    droppedSince (acts ++ [a]) = match a with
      | .produced _ dropped => droppedSince acts || dropped
      | .consumed _ _ => false := by
  simp only [droppedSince, List.foldl_append, List.foldl_cons, List.foldl_nil]

structure Bounded (R S : Nat) (s : State α) : Prop where
  front_le : s.front.length ≤ R
  back_le : s.back.length ≤ S
  full : s.back ≠ [] → s.front.length = R

theorem Step.bounded {s t : State α} {a : Act α} (hs : Bounded R S s)
    (h : Step R S discard s a t) : Bounded R S t := by
  obtain ⟨hf, hb, hfull⟩ := hs
  cases h with
  | pass item room free =>
    refine ⟨?_, hb, fun hne => ?_⟩
    · simpa only [List.length_append, List.length_singleton] using Nat.succ_le_of_lt free
    · have := hfull hne
      simp only at this free
      omega
  | hold item room full keeps =>
    refine ⟨hf, ?_, fun _ => ?_⟩
    · simpa only [List.length_append, List.length_singleton] using Nat.succ_le_of_lt room
    · simp only at hf ⊢
      omega
  | drop item room full drops => exact ⟨hf, hb, hfull⟩
  | take item =>
    refine ⟨?_, hb, fun hne => absurd rfl hne⟩
    simp only [List.length_cons] at hf ⊢
    omega
  | refill item moved =>
    have := hfull (by simp)
    refine ⟨?_, ?_, fun _ => ?_⟩ <;> simp_all
    omega

theorem Trace.bounded {acts : List (Act α)} {s : State α} (h : Trace R S discard acts s) :
    Bounded R S s := by
  induction h with
  | empty => exact ⟨Nat.zero_le _, Nat.zero_le _, fun hne => absurd rfl hne⟩
  | snoc _ step ih => exact step.bounded ih

theorem Trace.conserved {acts : List (Act α)} {s : State α} (h : Trace R S discard acts s) :
    acts.filterMap Act.removed ++ (s.front ++ s.back) = acts.filterMap Act.kept := by
  induction h with
  | empty => rfl
  | snoc run step ih =>
    have hfull := run.bounded.full
    rw [List.filterMap_append, List.filterMap_append, ← ih]
    cases step with
    | @pass front back d item room free =>
      have hback : back = [] := by
        by_contra hne
        have := hfull hne
        simp only at this
        omega
      simp [Act.removed, Act.kept, hback]
    | hold item room full keeps => simp [Act.removed, Act.kept]
    | drop item room full drops => simp [List.filterMap, Act.removed, Act.kept]
    | take item => simp [Act.removed, Act.kept]
    | refill item moved => simp [Act.removed, Act.kept]

theorem Trace.dropped_nil {acts : List (Act α)} {s : State α} (h : Trace R S false acts s) :
    acts.filterMap Act.dropped = [] := by
  induction h with
  | empty => rfl
  | snoc run step ih =>
    rw [List.filterMap_append, ih]
    cases step with
    | drop item room full drops => simp at drops
    | pass => rfl
    | hold => rfl
    | take => rfl
    | refill => rfl

theorem Trace.discarded_eq {acts : List (Act α)} {s : State α}
    (h : Trace R S discard acts s) : s.discarded = droppedSince acts := by
  induction h with
  | empty => rfl
  | snoc run step ih =>
    rw [droppedSince_snoc]
    cases step with
    | pass item room free => simpa using ih
    | hold item room full keeps => simpa using ih
    | drop item room full drops => simp
    | take item => rfl
    | refill item moved => rfl

end StagedFifo
