import Mathlib.Algebra.Order.BigOperators.Group.List
import Mathlib.Algebra.Order.Group.Nat
import Mathlib.Tactic.Cases

/-! Numbers in decimal with something in front of them, and texts that are put together from
parts. -/

namespace DecimalText

section Numbers

variable {m n v w : Nat} {c fill : Char}

/-- A number of at least `width` characters -/
def padded (width : Nat) (fill : Char) (n : Nat) : List Char :=
  (Nat.toDigits 10 n).leftpad width fill

theorem length_padded (width : Nat) (fill : Char) (n : Nat) :
    (padded width fill n).length = max width (Nat.toDigits 10 n).length :=
  List.length_leftpad

theorem length_padded_of_lt (hpos : 0 < w) (h : n < 10 ^ w) : (padded w fill n).length = w := by
  have hle := (Nat.length_toDigits_le_iff (by decide) hpos).mpr h
  rw [length_padded]
  omega

theorem padded_of_le (fill : Char) (h : w ≤ (Nat.toDigits 10 n).length) :
    padded w fill n = Nat.toDigits 10 n := by
  simp [padded, List.leftpad, h]

theorem mem_padded (h : c ∈ padded w fill n) : c = fill ∨ c.isDigit = true := by
  simp only [padded, List.leftpad, List.mem_append, List.mem_replicate] at h
  rcases h with ⟨-, rfl⟩ | hdigit
  · exact .inl rfl
  · exact .inr (Nat.isDigit_of_mem_toDigits (by decide) (by decide) hdigit)

theorem value_padded (w n : Nat) : Nat.ofDigitChars 10 (padded w '0' n) 0 = n := by
  rw [padded, List.leftpad, Nat.ofDigitChars_append, Nat.ofDigitChars_replicate_zero,
    Nat.mul_zero, Nat.ofDigitChars_ten_toDigits]

theorem eq_of_padded_eq (h : padded v '0' m = padded w '0' n) : m = n := by
  have hvalue := congrArg (Nat.ofDigitChars 10 · 0) h
  simpa only [value_padded] using hvalue

theorem le_length_toDigits_iff (hw : 1 < w) :
    w ≤ (Nat.toDigits 10 n).length ↔ 10 ^ (w - 1) ≤ n := by
  have hle := Nat.length_toDigits_le_iff (n := n) (b := 10) (by decide) (by omega : 0 < w - 1)
  omega

theorem digits_eq_filled_iff (hw : 1 < w) :
    padded 0 c n = padded w fill n ↔ 10 ^ (w - 1) ≤ n := by
  rw [padded_of_le _ (Nat.zero_le _), ← le_length_toDigits_iff hw]
  constructor
  · intro h
    have hlength := congrArg List.length h
    rw [length_padded] at hlength
    omega
  · intro hle
    rw [padded_of_le _ hle]

theorem digits_eq_padded_iff (hw : 1 < w) :
    padded 0 fill m = padded w '0' n ↔ m = n ∧ 10 ^ (w - 1) ≤ n := by
  have hfill : padded 0 fill m = padded 0 '0' m := by
    rw [padded_of_le _ (Nat.zero_le _), padded_of_le _ (Nat.zero_le _)]
  rw [hfill]
  constructor
  · intro h
    obtain rfl := eq_of_padded_eq h
    exact ⟨rfl, (digits_eq_filled_iff hw).mp h⟩
  · rintro ⟨rfl, hle⟩
    exact (digits_eq_filled_iff hw).mpr hle

theorem filled_eq_padded_iff (hfill : fill.isDigit = false) (hw : 1 < w) :
    padded w fill m = padded w '0' n ↔ m = n ∧ 10 ^ (w - 1) ≤ n := by
  rcases Nat.lt_or_ge (Nat.toDigits 10 m).length w with hlt | hge
  · have hsmall : ¬ 10 ^ (w - 1) ≤ m := by
      rw [← le_length_toDigits_iff hw]
      omega
    have hfirst : fill ∈ padded w fill m := by
      simp only [padded, List.leftpad, List.mem_append, List.mem_replicate]
      exact .inl ⟨by omega, trivial⟩
    constructor
    · intro h
      rw [h] at hfirst
      rcases mem_padded hfirst with rfl | hdigit
      · contradiction
      · rw [hfill] at hdigit
        contradiction
    · rintro ⟨rfl, hle⟩
      exact absurd hle hsmall
  · rw [padded_of_le _ hge, ← padded_of_le fill (Nat.zero_le _)]
    exact digits_eq_padded_iff hw

end Numbers

section Parts

variable {ι β : Type*} {l : List ι} {f g : ι → List β} {measure : List β → Nat}

theorem measure_eq_of_flatMap_eq (hadd : ∀ u v, measure (u ++ v) = measure u + measure v)
    (hle : ∀ x ∈ l, measure (f x) ≤ measure (g x)) (h : l.flatMap f = l.flatMap g) :
    ∀ x ∈ l, measure (f x) = measure (g x) := by
  have hsum (k : ι → List β) (l : List ι) :
      measure (l.flatMap k) = (l.map fun x => measure (k x)).sum := by
    induction l with
    | nil =>
      have hnil := hadd [] []
      simp only [List.append_nil] at hnil
      simp only [List.flatMap_nil, List.map_nil, List.sum_nil]
      omega
    | cons x l ih => simp only [List.flatMap_cons, hadd, ih, List.map_cons, List.sum_cons]
  have htotal : (l.map fun x => measure (f x)).sum = (l.map fun x => measure (g x)).sum := by
    rw [← hsum, ← hsum, h]
  clear h hsum
  induction l with
  | nil => simp
  | cons x l ih =>
    simp only [List.map_cons, List.sum_cons, List.forall_mem_cons] at hle htotal ⊢
    have hrest : (l.map fun x => measure (f x)).sum ≤ (l.map fun x => measure (g x)).sum :=
      List.sum_le_sum hle.2
    exact ⟨by omega, ih hle.2 (by omega)⟩

theorem eq_of_flatMap_eq (hlength : ∀ x ∈ l, (f x).length = (g x).length)
    (h : l.flatMap f = l.flatMap g) : ∀ x ∈ l, f x = g x := by
  induction l with
  | nil => simp
  | cons x l ih =>
    simp only [List.flatMap_cons, List.forall_mem_cons] at hlength h ⊢
    obtain ⟨hfirst, hrest⟩ := List.append_inj h hlength.1
    exact ⟨hfirst, ih hlength.2 hrest⟩

end Parts

end DecimalText
