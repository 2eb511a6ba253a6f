import Mathlib.Data.Nat.Bitwise

/-! Words in memory: as lists of bytes, in either order. -/

abbrev Byte := BitVec 8

inductive ByteOrder where
  | little
  | big
  deriving DecidableEq, Repr

namespace ByteOrder

variable {order : ByteOrder}

def store16 : ByteOrder → BitVec 16 → List Byte
  | .little, x => [x.extractLsb' 0 8, x.extractLsb' 8 8]
  | .big, x => [x.extractLsb' 8 8, x.extractLsb' 0 8]

def store32 : ByteOrder → BitVec 32 → List Byte
  | .little, x => [x.extractLsb' 0 8, x.extractLsb' 8 8, x.extractLsb' 16 8, x.extractLsb' 24 8]
  | .big, x => [x.extractLsb' 24 8, x.extractLsb' 16 8, x.extractLsb' 8 8, x.extractLsb' 0 8]

def load16 : ByteOrder → Byte → Byte → BitVec 16
  | .little, a, b => b ++ a
  | .big, a, b => a ++ b

def load32 : ByteOrder → Byte → Byte → Byte → Byte → BitVec 32
  | .little, a, b, c, d => d ++ c ++ b ++ a
  | .big, a, b, c, d => a ++ b ++ c ++ d

theorem length_store16 (order : ByteOrder) (x : BitVec 16) : (order.store16 x).length = 2 := by
  cases order <;> rfl

theorem length_store32 (order : ByteOrder) (x : BitVec 32) : (order.store32 x).length = 4 := by
  cases order <;> rfl

theorem append_extract16 (x : BitVec 16) : x.extractLsb' 8 8 ++ x.extractLsb' 0 8 = x := by
  apply BitVec.eq_of_getLsbD_eq
  intro i hi
  rw [BitVec.getLsbD_append, BitVec.getLsbD_extractLsb', BitVec.getLsbD_extractLsb']
  by_cases hlow : i < 8
  · simp [hlow]
  · have hsum : 8 + (i - 8) = i := by omega
    have hrest : i - 8 < 8 := by omega
    simp [hlow, hsum, hrest]

theorem append_extract32 (x : BitVec 32) :
    x.extractLsb' 24 8 ++ x.extractLsb' 16 8 ++ x.extractLsb' 8 8 ++ x.extractLsb' 0 8 = x := by
  apply BitVec.eq_of_getLsbD_eq
  intro i hi
  simp only [BitVec.getLsbD_append, BitVec.getLsbD_extractLsb']
  by_cases h0 : i < 8
  · simp [h0]
  by_cases h1 : i - 8 < 8
  · have hsum : 8 + (i - 8) = i := by omega
    simp [h0, h1, hsum]
  by_cases h2 : i - 8 - 8 < 8
  · have hsum : 16 + (i - 8 - 8) = i := by omega
    simp [h0, h1, h2, hsum]
  · have hsum : 24 + (i - 8 - 8 - 8) = i := by omega
    have hrest : i - 8 - 8 - 8 < 8 := by omega
    simp [h0, h1, h2, hsum, hrest]

theorem store16_eq (order : ByteOrder) (x : BitVec 16) :
    ∃ a b, order.store16 x = [a, b] ∧ order.load16 a b = x := by
  cases order with
  | little => exact ⟨_, _, rfl, append_extract16 x⟩
  | big => exact ⟨_, _, rfl, append_extract16 x⟩

theorem store32_eq (order : ByteOrder) (x : BitVec 32) :
    ∃ a b c d, order.store32 x = [a, b, c, d] ∧ order.load32 a b c d = x := by
  cases order with
  | little => exact ⟨_, _, _, _, rfl, append_extract32 x⟩
  | big => exact ⟨_, _, _, _, rfl, append_extract32 x⟩

theorem extract_append_low {m n : Nat} (x : BitVec m) (y : BitVec n) :
    (x ++ y).extractLsb' 0 n = y := by
  apply BitVec.eq_of_getLsbD_eq
  intro i hi
  simp [BitVec.getLsbD_append, hi]

theorem extract_append_high {m n : Nat} (x : BitVec m) (y : BitVec n) (low len : Nat) :
    (x ++ y).extractLsb' (n + low) len = x.extractLsb' low len := by
  apply BitVec.eq_of_getLsbD_eq
  intro i hi
  have hhigh : ¬ n + low + i < n := by omega
  have hsum : n + low + i - n = low + i := by omega
  simp [BitVec.getLsbD_append, hhigh, hsum]

theorem store16_load16 (order : ByteOrder) (a b : Byte) :
    order.store16 (order.load16 a b) = [a, b] := by
  have hlow (a b : Byte) : (a ++ b).extractLsb' 0 8 = b := extract_append_low a b
  have hhigh (a b : Byte) : (a ++ b).extractLsb' 8 8 = a :=
    (extract_append_high a b 0 8).trans (by simp)
  cases order with
  | little => rw [load16, store16, hlow, hhigh]
  | big => rw [load16, store16, hlow, hhigh]

theorem store32_load32 (order : ByteOrder) (a b c d : Byte) :
    order.store32 (order.load32 a b c d) = [a, b, c, d] := by
  have hbytes (a b c d : Byte) : (a ++ b ++ c ++ d).extractLsb' 0 8 = d ∧
      (a ++ b ++ c ++ d).extractLsb' 8 8 = c ∧ (a ++ b ++ c ++ d).extractLsb' 16 8 = b ∧
      (a ++ b ++ c ++ d).extractLsb' 24 8 = a := by
    refine ⟨extract_append_low _ _, ?_, ?_, ?_⟩
    · exact (extract_append_high _ d 0 8).trans (extract_append_low _ c)
    · exact (extract_append_high _ d 8 8).trans
        ((extract_append_high _ c 0 8).trans (extract_append_low _ b))
    · refine (extract_append_high _ d 16 8).trans ((extract_append_high _ c 8 8).trans
        ((extract_append_high _ b 0 8).trans ?_))
      simp
  cases order with
  | little =>
    obtain ⟨h0, h1, h2, h3⟩ := hbytes d c b a
    rw [load32, store32, h0, h1, h2, h3]
  | big =>
    obtain ⟨h0, h1, h2, h3⟩ := hbytes a b c d
    rw [load32, store32, h0, h1, h2, h3]

/-- The words of a piece of memory -/
def words (order : ByteOrder) : List Byte → List (BitVec 16)
  | a :: b :: rest => order.load16 a b :: order.words rest
  | _ => []

theorem words_append {front : List Byte} (heven : front.length % 2 = 0) (rest : List Byte) :
    order.words (front ++ rest) = order.words front ++ order.words rest := by
  fun_induction order.words front with
  | case1 a b front ih =>
    have heven' : front.length % 2 = 0 := by
      simp only [List.length_cons] at heven
      omega
    rw [List.cons_append, List.cons_append, words, ih heven', List.cons_append]
  | case2 front hshort =>
    cases front with
    | nil => rfl
    | cons a front =>
      cases front with
      | nil => simp at heven
      | cons b front => exact absurd rfl (hshort a b front)

theorem length_words (bytes : List Byte) : (order.words bytes).length = bytes.length / 2 := by
  fun_induction order.words bytes with
  | case1 a b bytes ih =>
    simp only [List.length_cons, ih]
    omega
  | case2 bytes hshort =>
    cases bytes with
    | nil => simp
    | cons a bytes =>
      cases bytes with
      | nil => simp
      | cons b bytes => exact absurd rfl (hshort a b bytes)

theorem words_store16 (x : BitVec 16) (rest : List Byte) :
    order.words (order.store16 x ++ rest) = x :: order.words rest := by
  obtain ⟨a, b, hstore, hload⟩ := store16_eq order x
  rw [hstore]
  change order.load16 a b :: order.words rest = _
  rw [hload]

/-- The two halves of a word, in the order in which they lie in memory -/
def halves : ByteOrder → BitVec 32 → List (BitVec 16)
  | .little, x => [x.extractLsb' 0 16, x.extractLsb' 16 16]
  | .big, x => [x.extractLsb' 16 16, x.extractLsb' 0 16]

theorem append_extract_half (x : BitVec 32) (low : Nat) :
    x.extractLsb' (low + 8) 8 ++ x.extractLsb' low 8 = x.extractLsb' low 16 := by
  apply BitVec.eq_of_getLsbD_eq
  intro i hi
  rw [BitVec.getLsbD_append, BitVec.getLsbD_extractLsb', BitVec.getLsbD_extractLsb',
    BitVec.getLsbD_extractLsb']
  by_cases hlow : i < 8
  · simp [hlow, hi]
  · have hsum : low + 8 + (i - 8) = low + i := by omega
    have hrest : i - 8 < 8 := by omega
    simp [hlow, hsum, hrest, hi]

theorem words_store32 (x : BitVec 32) (rest : List Byte) :
    order.words (order.store32 x ++ rest) = order.halves x ++ order.words rest := by
  cases order with
  | little =>
    change [x.extractLsb' 8 8 ++ x.extractLsb' 0 8, x.extractLsb' 24 8 ++ x.extractLsb' 16 8] ++
      words .little rest = _
    rw [append_extract_half x 0, append_extract_half x 16]
    rfl
  | big =>
    change [x.extractLsb' 24 8 ++ x.extractLsb' 16 8, x.extractLsb' 8 8 ++ x.extractLsb' 0 8] ++
      words .big rest = _
    rw [append_extract_half x 0, append_extract_half x 16]
    rfl

end ByteOrder
