import Mathlib.Data.List.Basic

/-! Chaining of blocks: each block is masked with the ciphered one before it, and then ciphered. The
last ciphered block is handed on to the next call. -/

namespace BlockChaining

variable {α : Type*} (mask : α → α → α) (cipher decipher : α → α)

def chain : α → List α → List α × α
  | iv, [] => ([], iv)
  | iv, x :: xs =>
    let y := cipher (mask x iv)
    let r := chain y xs
    (y :: r.1, r.2)

def unchain : α → List α → List α × α
  | iv, [] => ([], iv)
  | iv, y :: ys =>
    let r := unchain y ys
    (mask (decipher y) iv :: r.1, r.2)

variable {mask cipher decipher}

theorem chain_append (iv : α) (xs ys : List α) :
    chain mask cipher iv (xs ++ ys) =
      ((chain mask cipher iv xs).1 ++ (chain mask cipher (chain mask cipher iv xs).2 ys).1,
        (chain mask cipher (chain mask cipher iv xs).2 ys).2) := by
  induction xs generalizing iv with
  | nil => rfl
  | cons x xs ih => simp [chain, ih]

theorem unchain_append (iv : α) (xs ys : List α) :
    unchain mask decipher iv (xs ++ ys) =
      ((unchain mask decipher iv xs).1 ++
          (unchain mask decipher (unchain mask decipher iv xs).2 ys).1,
        (unchain mask decipher (unchain mask decipher iv xs).2 ys).2) := by
  induction xs generalizing iv with
  | nil => rfl
  | cons x xs ih => simp [unchain, ih]

theorem length_chain (iv : α) (xs : List α) : (chain mask cipher iv xs).1.length = xs.length := by
  induction xs generalizing iv with
  | nil => rfl
  | cons x xs ih => simp [chain, ih]

theorem length_unchain (iv : α) (ys : List α) :
    (unchain mask decipher iv ys).1.length = ys.length := by
  induction ys generalizing iv with
  | nil => rfl
  | cons y ys ih => simp [unchain, ih]

/-- Both sides end with the same block to hand on. -/
theorem unchain_chain (hmask : ∀ a b, mask (mask a b) b = a)
    (hcipher : ∀ x, decipher (cipher x) = x) (iv : α) (xs : List α) :
    unchain mask decipher iv (chain mask cipher iv xs).1 = (xs, (chain mask cipher iv xs).2) := by
  induction xs generalizing iv with
  | nil => rfl
  | cons x xs ih =>
    have hrest := ih (cipher (mask x iv))
    simp only [chain, unchain, hrest, hcipher, hmask]

end BlockChaining
