import Chpok.Library.Feistel
import Chpok.Libpok.CbcEncrypt

/-! The other protocols of `libpok/protocols`: Blowfish, with `BF_PTR2`, and the Caesar cipher. -/

namespace Chpok

namespace Blowfish

/-- `BF_KEY`, as one array of 18 words `P` and 1024 words `S` -/
abbrev Key := Nat → BitVec 32

/-- What `BF_ENC` takes from `S`. -/
def bfSum (key : Key) (r : BitVec 32) : BitVec 32 :=
  let t := key (16 + 2 + 0 + ((r >>> 24) &&& 0xff).toNat)
  let t := t + key (16 + 2 + 256 + ((r >>> 16) &&& 0xff).toNat)
  let t := t ^^^ key (16 + 2 + 512 + ((r >>> 8) &&& 0xff).toNat)
  t + key (16 + 2 + 768 + (r &&& 0xff).toNat)

/-- `BF_ENC` -/
def bfEnc (ll r : BitVec 32) (key : Key) (pi : Nat) : BitVec 32 := ll ^^^ key pi ^^^ bfSum key r

/-- Two rounds, with `l` and `r` -/
def twoRounds (key : Key) (x : BitVec 32 × BitVec 32) (i j : Nat) : BitVec 32 × BitVec 32 :=
  let (l, r) := x
  let r := bfEnc r l key i
  let l := bfEnc l r key j
  (l, r)

/-- `BF_encrypt` -/
def encrypt (key : Key) (data : CipherBlock) : CipherBlock :=
  let (l, r) := [1, 3, 5, 7, 9, 11, 13, 15].foldl (fun x i => twoRounds key x i (i + 1))
    (data.1 ^^^ key 0, data.2)
  (r ^^^ key 17, l)

/-- `BF_decrypt` -/
def decrypt (key : Key) (data : CipherBlock) : CipherBlock :=
  let (l, r) := [16, 14, 12, 10, 8, 6, 4, 2].foldl (fun x i => twoRounds key x i (i - 1))
    (data.1 ^^^ key 17, data.2)
  (r ^^^ key 0, l)

/-- `BF_cbc_encrypt` -/
def bfCbcEncrypt (schedule : Key) : List Byte → Nat → List Byte → Bool → List Byte × List Byte :=
  cbcCall .big (encrypt schedule) (decrypt schedule)

/-- `BF_ecb_encrypt` -/
def bfEcbEncrypt (input : List Byte) (key : Key) (enc : Bool) : List Byte :=
  let d := CipherBlock.load .big input
  (if enc then encrypt key d else decrypt key d).store .big

def setWord (key : Key) (i : Nat) (word : BitVec 32) : Key := fun j => if j = i then word else key j

/-- The loop of `BF_set_key` over `P`, from the `i`-th word on; `d` is an index into the data. -/
def mixKey (data : List Byte) (len : Nat) : Nat → Nat → Nat → Key → Key
  | 0, _, _, key => key
  | n + 1, i, d, key =>
    let next (d : Nat) : Nat := if d + 1 ≥ len then 0 else d + 1
    let ri := ByteOrder.big.load32 (data.getD d 0) (data.getD (next d) 0)
      (data.getD (next (next d)) 0) (data.getD (next (next (next d))) 0)
    mixKey data len n (i + 1) (next (next (next (next d)))) (setWord key i (key i ^^^ ri))

/-- The loops of `BF_set_key` that replace two words at a time, from the `i`-th on -/
def replaceWords : Nat → Nat → Key → CipherBlock → Key × CipherBlock
  | 0, _, key, block => (key, block)
  | n + 1, i, key, block =>
    let block := encrypt key block
    replaceWords n (i + 2) (setWord (setWord key i block.1) (i + 1) block.2) block

/-- `BF_set_key`, where `bf_init` is an argument. -/
def setKey (bfInit : Key) (len : Nat) (data : List Byte) : Key :=
  let key := mixKey data (min len 72) 18 0 0 bfInit
  let (key, block) := replaceWords 9 0 key (0, 0)
  (replaceWords 512 18 key block).1

/-- `pok_protocols_blowfish_marshall`: the crypted data and their size -/
def marshall (bfInit : Key) (cbcKey uncrypted : List Byte) : List Byte × Nat :=
  (bfEcbEncrypt uncrypted (setKey bfInit 16 cbcKey) true, 8)

/-- `pok_protocols_blowfish_unmarshall` -/
def unmarshall (bfInit : Key) (cbcKey crypted : List Byte) : List Byte × Nat :=
  (bfEcbEncrypt crypted (setKey bfInit 16 cbcKey) false, 8)

theorem xor_cancel (a b : BitVec 32) : a ^^^ b ^^^ b = a := by
  rw [BitVec.xor_assoc, BitVec.xor_self, BitVec.xor_zero]

/-- The words of `P` in the order of encryption, without the first and the last -/
def encryptOrder : List Nat := [1, 2, 3, 4, 5, 6, 7, 8, 9, 10, 11, 12, 13, 14, 15, 16]

def bfRound (key : Key) (pi : Nat) (r : BitVec 32) : BitVec 32 := key pi ^^^ bfSum key r

theorem bfEnc_eq (ll r : BitVec 32) (key : Key) (pi : Nat) :
    bfEnc ll r key pi = ll ^^^ bfRound key pi r := BitVec.xor_assoc ..

theorem encrypt_eq (key : Key) (data : CipherBlock) : encrypt key data =
    let x := Feistel.run (· ^^^ ·) (bfRound key) encryptOrder (data.2, data.1 ^^^ key 0)
    (x.1 ^^^ key 17, x.2) := by
  simp only [encrypt, twoRounds, bfEnc_eq]
  rfl

theorem decrypt_eq (key : Key) (data : CipherBlock) : decrypt key data =
    let x := Feistel.run (· ^^^ ·) (bfRound key) encryptOrder.reverse (data.2, data.1 ^^^ key 17)
    (x.1 ^^^ key 0, x.2) := by
  simp only [decrypt, twoRounds, bfEnc_eq]
  rfl

theorem decrypt_encrypt (key : Key) (data : CipherBlock) : decrypt key (encrypt key data) = data := by
  obtain ⟨⟨r, l⟩, hx⟩ : ∃ x,
    Feistel.run (· ^^^ ·) (bfRound key) encryptOrder (data.2, data.1 ^^^ key 0) = x := ⟨_, rfl⟩
  have hback := Feistel.run_reverse (bfRound key) xor_cancel encryptOrder
    (data.2, data.1 ^^^ key 0)
  rw [hx] at hback
  have hswap : Feistel.run (· ^^^ ·) (bfRound key) encryptOrder.reverse (l, r) =
    (data.1 ^^^ key 0, data.2) := hback
  rw [decrypt_eq, encrypt_eq, hx]
  simp only [xor_cancel, hswap]

theorem bfCbcEncrypt_conversation (schedule : Key) (ivec : List Byte)
    (messages : List (List Byte)) :
    decryptAll (bfCbcEncrypt schedule) ivec (encryptAll (bfCbcEncrypt schedule) ivec messages).1 =
      (messages, (encryptAll (bfCbcEncrypt schedule) ivec messages).2) :=
  decryptAll_encryptAll (decrypt_encrypt schedule) ivec messages

/-- Eight bytes are sent, whatever their key and the words of `bf_init` are. -/
theorem unmarshall_marshall (bfInit : Key) (cbcKey : List Byte) {uncrypted : List Byte}
    (h : 8 ≤ uncrypted.length) :
    unmarshall bfInit cbcKey (marshall bfInit cbcKey uncrypted).1 = (uncrypted.take 8, 8) := by
  have hfirst : CipherBlock.load .big uncrypted = CipherBlock.load .big (uncrypted.take 8) := by
    simp [CipherBlock.load, List.getD_eq_getElem?_getD]
  have hlength : (uncrypted.take 8).length = 8 := List.length_take_of_le h
  have hstored := CipherBlock.take_store_load .big (List.length_take_le 8 uncrypted)
  rw [hlength, List.take_of_length_le (CipherBlock.length_store _).le] at hstored
  refine Prod.ext ?_ rfl
  show (decrypt _ (CipherBlock.load .big ((encrypt _ (CipherBlock.load .big uncrypted)).store
    .big))).store .big = uncrypted.take 8
  rw [CipherBlock.load_store, decrypt_encrypt, hfirst, hstored]

end Blowfish

namespace Caesar

/-- A byte of `pok_protocols_caesar_marshall` -/
def marshallByte (b : Byte) : Byte := BitVec.ofInt 8 (((b.toNat : Int) + 4).tmod 255)

/-- A byte of `pok_protocols_caesar_unmarshall` -/
def unmarshallByte (b : Byte) : Byte := BitVec.ofInt 8 (((b.toNat : Int) - 4).tmod 255)

/-- `pok_protocols_caesar_marshall`: the crypted data and their size -/
def marshall (uncrypted : List Byte) : List Byte × Nat :=
  (uncrypted.map marshallByte, uncrypted.length)

/-- `pok_protocols_caesar_unmarshall` -/
def unmarshall (crypted : List Byte) : List Byte × Nat :=
  (crypted.map unmarshallByte, crypted.length)

theorem unmarshallByte_marshallByte : ∀ b, unmarshallByte (marshallByte b) = b ↔ b < 251 := by
  decide

/-- The cipher counts modulo 255, and not modulo 256: bytes from 251 on do not come through. -/
theorem unmarshall_marshall_iff (data : List Byte) :
    unmarshall (marshall data).1 = (data, data.length) ↔ ∀ b ∈ data, b < 251 := by
  simp only [unmarshall, marshall, Prod.mk.injEq, List.map_map, List.length_map, and_true]
  induction data with
  | nil => simp
  | cons b data ih =>
    rw [List.map_cons, List.cons.injEq, ih, Function.comp_apply, unmarshallByte_marshallByte,
      List.forall_mem_cons]

end Caesar

end Chpok
