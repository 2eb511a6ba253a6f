import Mathlib.Algebra.Order.Ring.Int

/-! Sums of signed words of 64 bits. A sum that is out of range is short by the whole range,
so that the sum of two nonnegative words that wraps is negative and less than either. -/

namespace SignedWord

variable {a b c : Int}

def InRange (a : Int) : Prop := -2 ^ 63 ≤ a ∧ a < 2 ^ 63

instance (a : Int) : Decidable (InRange a) := inferInstanceAs (Decidable (_ ∧ _))

/-- The word that is stored for a number. -/
def wrap (a : Int) : Int := a.bmod (2 ^ 64)

/-- The sum that is computed. -/
def add (a b : Int) : Int := wrap (a + b)

theorem wrap_of_inRange (h : InRange a) : wrap a = a := by
  obtain ⟨hlo, hhi⟩ := h
  apply Int.bmod_eq_of_le
  · omega
  · omega

theorem inRange_wrap : InRange (wrap a) := by
  have hlo : -((2 ^ 64 : Nat) / 2 : Int) ≤ wrap a := Int.le_bmod (by decide)
  have hhi : wrap a < ((2 ^ 64 : Nat) + 1) / 2 := Int.bmod_lt (by decide)
  constructor
  · omega
  · omega

theorem wrap_eq_iff : wrap a = a ↔ InRange a := by
  constructor
  · intro h
    rw [← h]
    exact inRange_wrap
  · exact wrap_of_inRange

/-- A word differs from what it stands for by a multiple of the range. -/
theorem wrap_emod : wrap a % 2 ^ 64 = a % 2 ^ 64 := Int.bmod_emod

theorem wrap_wrap_add : wrap (wrap a + b) = wrap (a + b) := Int.bmod_add_bmod

theorem wrap_emod_add : wrap (a % 2 ^ 64 + b) = wrap (a + b) := Int.emod_add_bmod a (2 ^ 64)

theorem add_of_inRange (h : InRange (a + b)) : add a b = a + b := wrap_of_inRange h

theorem add_eq_iff : add a b = a + b ↔ InRange (a + b) := wrap_eq_iff

/-- A sum of 64 bits that is stored without its sign -/
theorem add_emod (h : 0 ≤ a + b) (hlt : a + b < 2 ^ 64) : add a b % 2 ^ 64 = a + b := by
  rw [add, wrap_emod, Int.emod_eq_of_lt h hlt]

theorem add_of_wrapped (h : InRange (a + b - 2 ^ 64)) : add a b = a + b - 2 ^ 64 := by
  have hshift : add a b = wrap (a + b - 2 ^ 64) := by
    rw [add, wrap, wrap, ← Int.sub_mul_bmod_self_right (a + b) 1, Int.one_mul]
    rfl
  rw [hshift, wrap_of_inRange h]

theorem add_of_overflow (ha : InRange a) (hb : InRange b) (h : 2 ^ 63 ≤ a + b) :
    add a b = a + b - 2 ^ 64 := by
  obtain ⟨-, ha'⟩ := ha
  obtain ⟨-, hb'⟩ := hb
  exact add_of_wrapped ⟨by omega, by omega⟩

theorem add_lt_of_overflow (ha : InRange a) (hb : InRange b) (h : 2 ^ 63 ≤ a + b) :
    add a b < 0 ∧ add a b < a := by
  rw [add_of_overflow ha hb h]
  obtain ⟨-, ha'⟩ := ha
  obtain ⟨-, hb'⟩ := hb
  constructor
  · omega
  · omega

/-- A duration that is not negative cannot take a word below the range. -/
theorem inRange_add_iff (ha : InRange a) (hb : 0 ≤ b) : InRange (a + b) ↔ a + b < 2 ^ 63 := by
  obtain ⟨ha', -⟩ := ha
  constructor
  · exact fun h => h.2
  · intro h
    constructor
    · omega
    · exact h

end SignedWord
