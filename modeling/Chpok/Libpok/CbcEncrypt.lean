import Chpok.Library.BlockChaining
import Chpok.Library.ByteOrder
import Chpok.Library.Run

/-! The chaining of the ciphers in `libpok/protocols`: `DES_ncbc_encrypt` and `DES_ede3_cbc_encrypt`,
which load words with `c2l` and `c2ln`, and `BF_cbc_encrypt`, which loads them with `n2l` and
`n2ln`. -/

namespace Chpok

/-- Two words, as `tin` holds them. -/
abbrev CipherBlock := BitVec 32 × BitVec 32

namespace CipherBlock

def mask (x y : CipherBlock) : CipherBlock := (x.1 ^^^ y.1, x.2 ^^^ y.2)

/-- `c2l` or `n2l` twice, and `c2ln` or `n2ln` where there are fewer bytes. -/
def load (order : ByteOrder) (bytes : List Byte) : CipherBlock :=
  (order.load32 (bytes.getD 0 0) (bytes.getD 1 0) (bytes.getD 2 0) (bytes.getD 3 0),
    order.load32 (bytes.getD 4 0) (bytes.getD 5 0) (bytes.getD 6 0) (bytes.getD 7 0))

/-- `l2c` or `l2n` twice; `l2cn` and `l2nn` write the first of these bytes. -/
def store (order : ByteOrder) (x : CipherBlock) : List Byte := order.store32 x.1 ++ order.store32 x.2

end CipherBlock

open CipherBlock

variable (order : ByteOrder) (encrypt decrypt : CipherBlock → CipherBlock)

/-- The loop over whole blocks, when `encrypt` is set -/
def cbcEncryptBlocks : Nat → List Byte → CipherBlock → List Byte × CipherBlock
  | 0, _, tout => ([], tout)
  | n + 1, input, tout =>
    let tout := encrypt ((load order (input.take 8)).mask tout)
    let r := cbcEncryptBlocks n (input.drop 8) tout
    (store order tout ++ r.1, r.2)

/-- The bytes that are written, and the new contents of `ivec`. -/
def cbcEncrypt (input : List Byte) (length : Nat) (ivec : List Byte) : List Byte × List Byte :=
  let r := cbcEncryptBlocks order encrypt (length / 8) input (load order ivec)
  if length % 8 ≠ 0 then
    let tail := (input.drop (8 * (length / 8))).take (length % 8)
    let tout := encrypt ((load order tail).mask r.2)
    (r.1 ++ store order tout, store order tout)
  else (r.1, store order r.2)

/-- The loop over whole blocks, when `encrypt` is not set -/
def cbcDecryptBlocks : Nat → List Byte → CipherBlock → List Byte × CipherBlock
  | 0, _, xor => ([], xor)
  | n + 1, input, xor =>
    let tin := load order (input.take 8)
    let r := cbcDecryptBlocks n (input.drop 8) tin
    (store order ((decrypt tin).mask xor) ++ r.1, r.2)

def cbcDecrypt (input : List Byte) (length : Nat) (ivec : List Byte) : List Byte × List Byte :=
  let r := cbcDecryptBlocks order decrypt (length / 8) input (load order ivec)
  if length % 8 ≠ 0 then
    let tin := load order ((input.drop (8 * (length / 8))).take 8)
    (r.1 ++ (store order ((decrypt tin).mask r.2)).take (length % 8), store order tin)
  else (r.1, store order r.2)

/-- The two halves of a function that encrypts or decrypts -/
def cbcCall (input : List Byte) (length : Nat) (ivec : List Byte) (enc : Bool) :
    List Byte × List Byte :=
  if enc then cbcEncrypt order encrypt input length ivec
  else cbcDecrypt order decrypt input length ivec

/-- Messages that are encrypted one after another, with `ivec` handed on from call to call; the
length of each is sent along. -/
def encryptAll (call : List Byte → Nat → List Byte → Bool → List Byte × List Byte)
    (ivec : List Byte) : List (List Byte) → List (List Byte × Nat) × List Byte
  | [] => ([], ivec)
  | message :: messages =>
    let r := call message message.length ivec true
    let rest := encryptAll call r.2 messages
    ((r.1, message.length) :: rest.1, rest.2)

def decryptAll (call : List Byte → Nat → List Byte → Bool → List Byte × List Byte)
    (ivec : List Byte) : List (List Byte × Nat) → List (List Byte) × List Byte
  | [] => ([], ivec)
  | packet :: packets =>
    let r := call packet.1 packet.2 ivec false
    let rest := decryptAll call r.2 packets
    (r.1 :: rest.1, rest.2)

namespace CipherBlock

variable {order : ByteOrder}

theorem mask_mask (x y : CipherBlock) : (x.mask y).mask y = x := by
  rw [mask, mask, BitVec.xor_assoc, BitVec.xor_self, BitVec.xor_zero, BitVec.xor_assoc,
    BitVec.xor_self, BitVec.xor_zero]

theorem length_store (x : CipherBlock) : (x.store order).length = 8 := by
  cases order <;> rfl

theorem load_store (x : CipherBlock) : load order (x.store order) = x := by
  obtain ⟨a, b, c, d, hx, hload⟩ := ByteOrder.store32_eq order x.1
  obtain ⟨a', b', c', d', hy, hload'⟩ := ByteOrder.store32_eq order x.2
  rw [store, hx, hy]
  exact Prod.ext hload hload'

/-- The bytes that were loaded are stored again. -/
theorem take_store_load (order : ByteOrder) {bytes : List Byte} (h : bytes.length ≤ 8) :
    (store order (load order bytes)).take bytes.length = bytes := by
  have hbytes (a b c d : Byte) : order.store32 (order.load32 a b c d) = [a, b, c, d] :=
    ByteOrder.store32_load32 order a b c d
  rw [store, load, hbytes, hbytes]
  match bytes, h with
  | [], _ => rfl
  | [_], _ => rfl
  | [_, _], _ => rfl
  | [_, _, _], _ => rfl
  | [_, _, _, _], _ => rfl
  | [_, _, _, _, _], _ => rfl
  | [_, _, _, _, _, _], _ => rfl
  | [_, _, _, _, _, _, _], _ => rfl
  | [_, _, _, _, _, _, _, _], _ => rfl

/-- The first blocks of a piece of memory; the bytes after its end are zero. -/
def blocks (order : ByteOrder) : Nat → List Byte → List CipherBlock
  | 0, _ => []
  | n + 1, bytes => load order (bytes.take 8) :: blocks order n (bytes.drop 8)

theorem length_blocks (n : Nat) (bytes : List Byte) : (blocks order n bytes).length = n := by
  induction n generalizing bytes with
  | zero => rfl
  | succ n ih => simp [blocks, ih]

theorem blocks_add (m n : Nat) (bytes : List Byte) :
    blocks order (m + n) bytes = blocks order m bytes ++ blocks order n (bytes.drop (8 * m)) := by
  induction m generalizing bytes with
  | zero => simp [blocks]
  | succ m ih =>
    have hdrop : (bytes.drop 8).drop (8 * m) = bytes.drop (8 * (m + 1)) := by
      rw [List.drop_drop, Nat.mul_succ, Nat.add_comm]
    rw [Nat.succ_add, blocks, blocks, ih, hdrop]
    rfl

theorem blocks_take {n k : Nat} (h : 8 * n ≤ k) (bytes : List Byte) :
    blocks order n (bytes.take k) = blocks order n bytes := by
  induction n generalizing bytes k with
  | zero => rfl
  | succ n ih =>
    have hrest : 8 * n ≤ k - 8 := by omega
    rw [blocks, blocks, List.take_take, List.drop_take, ih hrest, Nat.min_eq_left (by omega)]

theorem blocks_store (order : ByteOrder) (xs : List CipherBlock) (rest : List Byte) :
    blocks order xs.length (xs.flatMap (store order) ++ rest) = xs := by
  induction xs with
  | nil => rfl
  | cons x xs ih =>
    have hlength : (store order x).length = 8 := length_store x
    rw [List.length_cons, blocks, List.flatMap_cons, List.append_assoc,
      List.take_left' hlength, List.drop_left' hlength, load_store, ih]

theorem length_flatMap_store (xs : List CipherBlock) :
    (xs.flatMap (store order)).length = 8 * xs.length := by
  induction xs with
  | nil => rfl
  | cons x xs ih =>
    rw [List.flatMap_cons, List.length_append, length_store, ih, List.length_cons]
    omega

/-- The number of blocks that the bytes of a message fill, the last perhaps not wholly -/
def count (length : Nat) : Nat := (length + 7) / 8

theorem store_blocks (order : ByteOrder) (bytes : List Byte) :
    ((blocks order (count bytes.length) bytes).flatMap (store order)).take bytes.length =
      bytes := by
  obtain ⟨n, hn⟩ : ∃ n, count bytes.length = n := ⟨_, rfl⟩
  rw [hn]
  unfold count at hn
  induction n generalizing bytes with
  | zero =>
    have hnil : bytes = [] := List.eq_nil_of_length_eq_zero (by omega)
    simp [hnil]
  | succ n ih =>
    have hblock := take_store_load order (List.length_take_le 8 bytes)
    rw [blocks, List.flatMap_cons, List.take_append, length_store]
    by_cases hshort : bytes.length ≤ 8
    · have hall : bytes.take 8 = bytes := List.take_of_length_le hshort
      rw [hall] at hblock ⊢
      rw [hblock, Nat.sub_eq_zero_of_le hshort, List.take_zero, List.append_nil]
    · have hlength : (bytes.take 8).length = 8 := List.length_take_of_le (by omega)
      have hrest : (bytes.drop 8).length = bytes.length - 8 := List.length_drop
      have hfull : (store order (load order (bytes.take 8))).take bytes.length = bytes.take 8 := by
        rw [List.take_of_length_le (by rw [length_store]; omega)]
        rwa [hlength, List.take_of_length_le (length_store _).le] at hblock
      rw [hfull, ← hrest, ih (bytes.drop 8) (by omega), List.take_append_drop]

end CipherBlock

section

open BlockChaining

variable {order encrypt decrypt} {input ivec : List Byte} {length : Nat}

theorem cbcEncryptBlocks_eq (n : Nat) (input : List Byte) (tout : CipherBlock) :
    cbcEncryptBlocks order encrypt n input tout =
      ((chain mask encrypt tout (blocks order n input)).1.flatMap (store order),
        (chain mask encrypt tout (blocks order n input)).2) := by
  induction n generalizing input tout with
  | zero => rfl
  | succ n ih => simp [cbcEncryptBlocks, blocks, chain, ih]

theorem cbcDecryptBlocks_eq (n : Nat) (input : List Byte) (xor : CipherBlock) :
    cbcDecryptBlocks order decrypt n input xor =
      ((unchain mask decrypt xor (blocks order n input)).1.flatMap (store order),
        (unchain mask decrypt xor (blocks order n input)).2) := by
  induction n generalizing input xor with
  | zero => rfl
  | succ n ih => simp [cbcDecryptBlocks, blocks, unchain, ih]

/-- The loop and the last bytes after it chain the blocks of the message. -/
theorem cbcEncrypt_eq (input : List Byte) (length : Nat) (ivec : List Byte) :
    cbcEncrypt order encrypt input length ivec =
      let r := chain mask encrypt (load order ivec)
        (blocks order (count length) (input.take length))
      (r.1.flatMap (store order), store order r.2) := by
  have hwhole : blocks order (length / 8) (input.take length) =
      blocks order (length / 8) input := blocks_take (Nat.mul_div_le length 8) input
  unfold cbcEncrypt
  rw [cbcEncryptBlocks_eq]
  by_cases htail : length % 8 = 0
  · have hcount : count length = length / 8 := by
      unfold count
      omega
    rw [if_neg (not_not.mpr htail), hcount, hwhole]
  · have hcount : count length = length / 8 + 1 := by
      unfold count
      omega
    have hlast : ((input.take length).drop (8 * (length / 8))).take 8 =
        (input.drop (8 * (length / 8))).take (length % 8) := by
      rw [List.drop_take, List.take_take]
      congr 1
      omega
    rw [if_pos htail, hcount, blocks_add, hwhole]
    simp only [blocks, hlast, chain_append, chain, List.flatMap_append, List.flatMap_cons,
      List.flatMap_nil, List.append_nil]

theorem cbcDecrypt_eq (input : List Byte) (length : Nat) (ivec : List Byte) :
    cbcDecrypt order decrypt input length ivec =
      let r := unchain mask decrypt (load order ivec) (blocks order (count length) input)
      ((r.1.flatMap (store order)).take length, store order r.2) := by
  unfold cbcDecrypt
  rw [cbcDecryptBlocks_eq]
  by_cases htail : length % 8 = 0
  · have hcount : count length = length / 8 := by
      unfold count
      omega
    have hall : ((unchain mask decrypt (load order ivec)
        (blocks order (length / 8) input)).1.flatMap (store order)).length ≤ length := by
      rw [length_flatMap_store, length_unchain, length_blocks]
      exact Nat.mul_div_le length 8
    rw [if_neg (not_not.mpr htail), hcount]
    simp only [List.take_of_length_le hall]
  · have hcount : count length = length / 8 + 1 := by
      unfold count
      omega
    rw [if_pos htail, hcount, blocks_add]
    simp only [blocks, unchain_append, unchain, List.flatMap_append, List.flatMap_cons,
      List.flatMap_nil, List.append_nil]
    have hfront : ((unchain mask decrypt (load order ivec)
        (blocks order (length / 8) input)).1.flatMap (store order)).length = 8 * (length / 8) := by
      rw [length_flatMap_store, length_unchain, length_blocks]
    have hrest : length - 8 * (length / 8) = length % 8 := by omega
    rw [List.take_append, hfront, hrest,
      List.take_of_length_le (hfront.le.trans (Nat.mul_div_le length 8))]

/-- The receiver gets back the bytes that were sent, and hands on the same block. -/
theorem cbcDecrypt_cbcEncrypt (order : ByteOrder) (hcipher : ∀ x, decrypt (encrypt x) = x)
    (h : length ≤ input.length) (ivec rest : List Byte) :
    cbcDecrypt order decrypt ((cbcEncrypt order encrypt input length ivec).1 ++ rest) length ivec =
      (input.take length, (cbcEncrypt order encrypt input length ivec).2) := by
  set xs := blocks order (count length) (input.take length) with hxs
  have hlength : (input.take length).length = length := List.length_take_of_le h
  have hout : (chain mask encrypt (load order ivec) xs).1.length = count length := by
    rw [length_chain, hxs, length_blocks]
  have hblocks := blocks_store order (chain mask encrypt (load order ivec) xs).1 rest
  have hstored : (xs.flatMap (store order)).take length = input.take length := by
    have hbytes := store_blocks order (input.take length)
    rwa [hlength, ← hxs] at hbytes
  rw [hout] at hblocks
  rw [cbcEncrypt_eq, cbcDecrypt_eq]
  simp only [← hxs, hblocks, unchain_chain mask_mask hcipher, hstored]

/-- A conversation, in which every message goes on where the one before it ended -/
theorem decryptAll_encryptAll (hcipher : ∀ x, decrypt (encrypt x) = x)
    (ivec : List Byte) (messages : List (List Byte)) :
    decryptAll (cbcCall order encrypt decrypt) ivec
        (encryptAll (cbcCall order encrypt decrypt) ivec messages).1 =
      (messages, (encryptAll (cbcCall order encrypt decrypt) ivec messages).2) := by
  induction messages generalizing ivec with
  | nil => rfl
  | cons message messages ih =>
    have hone := cbcDecrypt_cbcEncrypt order hcipher (Nat.le_refl message.length) ivec []
    rw [List.append_nil, List.take_length] at hone
    have hcall : cbcCall order encrypt decrypt
        (cbcCall order encrypt decrypt message message.length ivec true).1 message.length ivec
        false = (message, (cbcCall order encrypt decrypt message message.length ivec true).2) :=
      hone
    simp only [encryptAll, decryptAll, hcall, ih]

/-- The first block carries the first eight bytes, whatever comes after them. -/
theorem cbcDecrypt_firstBlock (hcipher : ∀ x, decrypt (encrypt x) = x) (hpos : 0 < length)
    (h : length ≤ input.length) :
    ((cbcDecrypt order decrypt ((cbcEncrypt order encrypt input length ivec).1.take 8) 8
      ivec).1).take length = input.take (min length 8) := by
  obtain ⟨n, hn⟩ : ∃ n, count length = n + 1 := by
    refine ⟨count length - 1, ?_⟩
    unfold count
    omega
  obtain ⟨y, hy⟩ : ∃ y,
    encrypt ((load order ((input.take length).take 8)).mask (load order ivec)) = y := ⟨_, rfl⟩
  have hback : decrypt y = (load order ((input.take length).take 8)).mask (load order ivec) := by
    rw [← hy, hcipher]
  have hsent : (cbcEncrypt order encrypt input length ivec).1.take 8 = store order y := by
    rw [cbcEncrypt_eq, hn]
    simp only [blocks, chain, hy, List.flatMap_cons]
    exact List.take_left' (length_store y)
  have hreceived : (cbcDecrypt order decrypt (store order y) 8 ivec).1 =
      (store order (load order ((input.take length).take 8))).take 8 := by
    have hload : load order ((store order y).take 8) = y := by
      rw [List.take_of_length_le (length_store y).le, load_store]
    rw [cbcDecrypt_eq]
    show (((unchain mask decrypt (load order ivec)
      [load order ((store order y).take 8)]).1).flatMap (store order)).take 8 = _
    simp only [hload, unchain, hback, mask_mask, List.flatMap_cons, List.flatMap_nil,
      List.append_nil]
  have hbytes : ((input.take length).take 8).length = min length 8 := by
    simp only [List.length_take]
    omega
  have hstored := take_store_load order (List.length_take_le 8 (input.take length))
  rw [hbytes] at hstored
  rw [hsent, hreceived, List.take_take, hstored, List.take_take, Nat.min_comm]

end

end Chpok
