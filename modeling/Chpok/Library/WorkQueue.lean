import Chpok.Library.Run

/-! A queue of work. What has been posted is taken in order; what has been taken may be finished in
any order. -/

structure WorkQueue (α : Type*) where
  waiting : List α
  working : List α

inductive WorkEvent (α : Type*) where
  | post (x : α)
  | take
  | finish (i : Nat)

namespace WorkQueue

variable {α : Type*}

def step (q : WorkQueue α) : WorkEvent α → Option (WorkQueue α)
  | .post x => some { q with waiting := q.waiting ++ [x] }
  | .take => q.waiting.head?.map fun x => ⟨q.waiting.tail, q.working ++ [x]⟩
  | .finish i => if i < q.working.length then some { q with working := q.working.eraseIdx i } else none

def empty : WorkQueue α := ⟨[], []⟩

/-- What is posted -/
def posted : List (WorkEvent α) → List α
  | [] => []
  | .post x :: es => x :: posted es
  | .take :: es | .finish _ :: es => posted es

/-- How many times something is taken -/
def takes : List (WorkEvent α) → Nat
  | [] => 0
  | .take :: es => takes es + 1
  | .post _ :: es | .finish _ :: es => takes es

theorem exec_waiting {q r : WorkQueue α} {es : List (WorkEvent α)}
    (h : Run.exec step q es = some r) :
    r.waiting = (q.waiting ++ posted es).drop (takes es) ∧
      takes es ≤ (q.waiting ++ posted es).length := by
  induction es generalizing q with
  | nil =>
    obtain rfl := Option.some.inj h
    exact ⟨(List.append_nil _).symm, Nat.zero_le _⟩
  | cons e es ih =>
    obtain ⟨m, hm, hrest⟩ := Run.exec_cons.mp h
    obtain ⟨hwaiting, hle⟩ := ih hrest
    cases e with
    | post x =>
      obtain rfl := Option.some.inj hm
      rw [List.append_assoc] at hwaiting hle
      exact ⟨hwaiting, hle⟩
    | take =>
      obtain ⟨x, hx, rfl⟩ := Option.map_eq_some_iff.mp hm
      obtain ⟨rest, hrest⟩ := List.head?_eq_some_iff.mp hx
      rw [hrest] at hwaiting hle ⊢
      exact ⟨hwaiting, Nat.succ_le_succ hle⟩
    | finish i =>
      simp only [step] at hm
      split_ifs at hm
      obtain rfl := Option.some.inj hm
      exact ⟨hwaiting, hle⟩

end WorkQueue
