import Mathlib.Algebra.Order.Group.Int
import Mathlib.Data.Int.Init
import Mathlib.Tactic.SplitIfs

/-! Entries of a table that are known outside by their number plus one, where the number
passes through a word of `size` values: names that lie `size` apart stand for one entry. -/

namespace NarrowName

variable {size : Nat} {live : Nat → Prop} {name : Int} {e : Nat} {found : Option Nat}

/-- The entry that a name stands for. -/
def entry (size : Nat) (name : Int) : Nat := ((name - 1) % (size : Int)).toNat

/-- The name that an entry gets. -/
def ofEntry (size e : Nat) : Int := (e % size : Nat) + 1

/-- A look-up is right about a name: it finds the entry that has got the name, whichever does,
and nothing if none has. -/
structure Right (size : Nat) (live : Nat → Prop) (name : Int) (found : Option Nat) : Prop where
  finds : ∀ e, live e → ofEntry size e = name → found = some e
  refuses : (∀ e, live e → ofEntry size e ≠ name) → found = none

/-- The name belongs to one entry of those in use at most, and stands for no other. -/
def Unshared (size : Nat) (live : Nat → Prop) (name : Int) : Prop :=
  if 1 ≤ name ∧ name ≤ size then ∀ e, live e → ofEntry size e = name → e = entry size name
  else ¬ live (entry size name)

theorem entry_lt (hsize : 0 < size) (name : Int) : entry size name < size := by
  have h0 := Int.emod_nonneg (name - 1) (b := size) (by omega)
  have h1 := Int.emod_lt_of_pos (name - 1) (b := size) (by omega)
  unfold entry
  omega

theorem ofEntry_pos (size e : Nat) : 1 ≤ ofEntry size e := by
  unfold ofEntry
  omega

theorem ofEntry_le (hsize : 0 < size) (e : Nat) : ofEntry size e ≤ size := by
  have h := Nat.mod_lt e hsize
  unfold ofEntry
  omega

theorem ofEntry_entry (hsize : 0 < size) (hlow : 1 ≤ name) (hhigh : name ≤ size) :
    ofEntry size (entry size name) = name := by
  have hlt := entry_lt hsize name
  have hmod : (name - 1) % (size : Int) = name - 1 := Int.emod_eq_of_lt (by omega) (by omega)
  rw [ofEntry, Nat.mod_eq_of_lt hlt, entry, hmod]
  omega

/-- Looking the entry up that a name stands for is right exactly for the names that are not
shared. -/
theorem right_iff (size : Nat) (live : Nat → Prop) [DecidablePred live] (name : Int)
    (hsize : 0 < size) :
    Right size live name (if live (entry size name) then some (entry size name) else none) ↔
      Unshared size live name := by
  unfold Unshared
  split_ifs with hlive hrange hrange
  · constructor
    · intro h e he hname
      exact (Option.some.inj (h.finds e he hname)).symm
    · intro h
      refine ⟨fun e he hname => by rw [h e he hname], fun hnone => ?_⟩
      exact absurd (ofEntry_entry hsize hrange.1 hrange.2) (hnone _ hlive)
  · simp only [hlive, not_true_eq_false, iff_false]
    intro h
    have hnone : ∀ e, live e → ofEntry size e ≠ name := by
      intro e _ hname
      exact hrange ⟨hname ▸ ofEntry_pos size e, hname ▸ ofEntry_le hsize e⟩
    cases h.refuses hnone
  · constructor
    · intro h e he hname
      cases h.finds e he hname
    · intro h
      refine ⟨fun e he hname => ?_, fun _ => rfl⟩
      exact absurd (h e he hname ▸ he) hlive
  · simp only [hlive, not_false_eq_true, iff_true]
    refine ⟨fun e _ hname => ?_, fun _ => rfl⟩
    exact absurd ⟨hname ▸ ofEntry_pos size e, hname ▸ ofEntry_le hsize e⟩ hrange

end NarrowName
