import Chpok.Libpok.Des

/-! What DES encrypts it decrypts, whatever the tables and the key schedule are, and triple DES is
DES three times. -/

namespace Chpok

namespace Des

variable {sp : Nat → Nat → BitVec 32} {ks ks1 ks2 ks3 : KeySchedule} {enc : Bool}

/-- Bits are exchanged between two words when no bit of the mask is shifted out. -/
theorem permOp_permOp {n : Nat} {m : BitVec 32} (hm : (m <<< n) >>> n = m) (a b : BitVec 32) :
    permOp (permOp a b n m).1 (permOp a b n m).2 n m = (a, b) := by
  have hshift (x : BitVec 32) : ((x &&& m) <<< n) >>> n = x &&& m := by
    apply BitVec.eq_of_getLsbD_eq
    intro i hi
    have hbit := congrArg (·.getLsbD i) hm
    simp only [BitVec.getLsbD_ushiftRight, BitVec.getLsbD_shiftLeft, BitVec.getLsbD_and,
      Nat.add_sub_cancel_left] at hbit ⊢
    cases hmask : m.getLsbD i with
    | false => simp
    | true =>
      rw [hmask, Bool.and_true] at hbit
      rw [hbit, Bool.true_and]
  obtain ⟨t, ht⟩ : ∃ t, ((a >>> n) ^^^ b) &&& m = t := ⟨_, rfl⟩
  have hback : ((a ^^^ t <<< n) >>> n ^^^ (b ^^^ t)) &&& m = t := by
    have hsame : (t <<< n) >>> n = t := by
      rw [← ht]
      exact hshift _
    have hzero : (a ^^^ t <<< n) >>> n ^^^ (b ^^^ t) = (a >>> n) ^^^ b := by
      rw [BitVec.ushiftRight_xor_distrib, hsame]
      simp only [BitVec.xor_assoc, BitVec.xor_comm b t]
      rw [← BitVec.xor_assoc t t b, BitVec.xor_self, BitVec.zero_xor]
    rw [hzero, ht]
  simp only [permOp, ht, hback, BitVec.xor_assoc, BitVec.xor_self, BitVec.xor_zero]

/-- `FP` as it is used: the words are exchanged before it and after it. -/
def finalPermutation (x : CipherBlock) : CipherBlock := (fp x.2 x.1).swap

theorem ip_finalPermutation (x : CipherBlock) :
    ip (finalPermutation x).1 (finalPermutation x).2 = x := by
  unfold finalPermutation
  simp only [Prod.fst_swap, Prod.snd_swap, ip, fp]
  rw [permOp_permOp (by decide), permOp_permOp (by decide), permOp_permOp (by decide),
    permOp_permOp (by decide), permOp_permOp (by decide)]

theorem finalPermutation_ip (x : CipherBlock) : finalPermutation (ip x.1 x.2) = x := by
  unfold finalPermutation
  simp only [ip, fp]
  rw [permOp_permOp (by decide), permOp_permOp (by decide), permOp_permOp (by decide),
    permOp_permOp (by decide), permOp_permOp (by decide)]
  rfl

theorem rotate_rotate (a : BitVec 32) {m n : Nat} (hm : m < 32) (hn : n < 32) (h : m + n = 32) :
    rotate (rotate a m) n = a := by
  apply BitVec.eq_of_getLsbD_eq
  intro i hi
  unfold rotate
  rw [BitVec.getLsbD_rotateRight_of_lt hn, BitVec.getLsbD_rotateRight_of_lt hm,
    BitVec.getLsbD_rotateRight_of_lt hm]
  by_cases hlow : i < 32 - n
  · have hwrap : ¬ n + i < 32 - m := by omega
    have hback : n + i - (32 - m) = i := by omega
    have hlt : n + i < 32 := by omega
    simp only [hlow, hwrap, hback, hlt, decide_true, decide_false, cond_true, cond_false,
      Bool.true_and]
  · have hkeep : i - (32 - n) < 32 - m := by omega
    have hback : m + (i - (32 - n)) = i := by omega
    simp only [hlow, hi, hkeep, hback, decide_true, decide_false, cond_true, cond_false,
      Bool.true_and]

/-- The rounds in the order of encryption -/
def encryptOrder : List Nat := [0, 2, 4, 6, 8, 10, 12, 14, 16, 18, 20, 22, 24, 26, 28, 30]

theorem rounds_true (x : BitVec 32 × BitVec 32) :
    rounds sp ks true x = Feistel.run (· ^^^ ·) (dRound sp ks) encryptOrder x := rfl

theorem rounds_false (x : BitVec 32 × BitVec 32) :
    rounds sp ks false x = Feistel.run (· ^^^ ·) (dRound sp ks) encryptOrder.reverse x := rfl

theorem rounds_rounds (sp : Nat → Nat → BitVec 32) (ks : KeySchedule) (enc : Bool) (x : BitVec 32 × BitVec 32) :
    rounds sp ks (!enc) (rounds sp ks enc x).swap = x.swap := by
  have hmask (a b : BitVec 32) : a ^^^ b ^^^ b = a := by
    rw [BitVec.xor_assoc, BitVec.xor_self, BitVec.xor_zero]
  cases enc with
  | true =>
    rw [rounds_true]
    exact Feistel.run_reverse _ hmask encryptOrder x
  | false =>
    have hback := Feistel.run_reverse (dRound sp ks) hmask encryptOrder.reverse x
    rw [List.reverse_reverse] at hback
    rw [rounds_false]
    exact hback

theorem encrypt2_encrypt2 (enc : Bool) (data : CipherBlock) :
    encrypt2 sp ks (!enc) (encrypt2 sp ks enc data) = data := by
  obtain ⟨⟨l, r⟩, hx⟩ : ∃ x, rounds sp ks enc (rotate data.2 29, rotate data.1 29) = x := ⟨_, rfl⟩
  have hback := rounds_rounds sp ks enc (rotate data.2 29, rotate data.1 29)
  rw [hx] at hback
  have hrotate (a : BitVec 32) : rotate (rotate a 3) 29 = a :=
    rotate_rotate a (by decide) (by decide) rfl
  have hrotate' (a : BitVec 32) : rotate (rotate a 29) 3 = a :=
    rotate_rotate a (by decide) (by decide) rfl
  have hswap : rounds sp ks (!enc) (r, l) = (rotate data.1 29, rotate data.2 29) := hback
  simp only [encrypt2, hx, hrotate, hswap, hrotate']

theorem encrypt1_eq (enc : Bool) (data : CipherBlock) :
    encrypt1 sp ks enc data = finalPermutation (encrypt2 sp ks enc (ip data.1 data.2)) := rfl

theorem encrypt1_encrypt1 (enc : Bool) (data : CipherBlock) :
    encrypt1 sp ks (!enc) (encrypt1 sp ks enc data) = data := by
  rw [encrypt1_eq, encrypt1_eq, ip_finalPermutation, encrypt2_encrypt2, finalPermutation_ip]

/-- The permutations between the three passes, which `DES_encrypt3` leaves out, cancel. -/
theorem encrypt3_eq (data : CipherBlock) : encrypt3 sp ks1 ks2 ks3 data =
    encrypt1 sp ks3 true (encrypt1 sp ks2 false (encrypt1 sp ks1 true data)) := by
  simp only [encrypt1_eq, ip_finalPermutation]
  rfl

theorem decrypt3_eq (data : CipherBlock) : decrypt3 sp ks1 ks2 ks3 data =
    encrypt1 sp ks1 false (encrypt1 sp ks2 true (encrypt1 sp ks3 false data)) := by
  simp only [encrypt1_eq, ip_finalPermutation]
  rfl

theorem decrypt3_encrypt3 (data : CipherBlock) :
    decrypt3 sp ks1 ks2 ks3 (encrypt3 sp ks1 ks2 ks3 data) = data := by
  have htrue (ks : KeySchedule) (x : CipherBlock) :
      encrypt1 sp ks false (encrypt1 sp ks true x) = x := encrypt1_encrypt1 true x
  have hfalse (ks : KeySchedule) (x : CipherBlock) :
      encrypt1 sp ks true (encrypt1 sp ks false x) = x := encrypt1_encrypt1 false x
  rw [decrypt3_eq, encrypt3_eq, htrue, hfalse, htrue]

theorem ncbcEncrypt_conversation (sp : Nat → Nat → BitVec 32) (schedule : KeySchedule)
    (ivec : List Byte) (messages : List (List Byte)) :
    decryptAll (ncbcEncrypt sp schedule) ivec
        (encryptAll (ncbcEncrypt sp schedule) ivec messages).1 =
      (messages, (encryptAll (ncbcEncrypt sp schedule) ivec messages).2) :=
  decryptAll_encryptAll (encrypt1_encrypt1 true) ivec messages

/-- With one schedule for the first two passes, triple DES is DES with the third. -/
theorem ede3CbcEncrypt_eq_ncbcEncrypt (sp : Nat → Nat → BitVec 32) (ks1 ks3 : KeySchedule) :
    ede3CbcEncrypt sp ks1 ks1 ks3 = ncbcEncrypt sp ks3 := by
  have hencrypt : encrypt3 sp ks1 ks1 ks3 = encrypt1 sp ks3 true := by
    funext data
    have hback : encrypt1 sp ks1 false (encrypt1 sp ks1 true data) = data :=
      encrypt1_encrypt1 true data
    rw [encrypt3_eq, hback]
  have hdecrypt : decrypt3 sp ks1 ks1 ks3 = encrypt1 sp ks3 false := by
    funext data
    have hback : encrypt1 sp ks1 false (encrypt1 sp ks1 true (encrypt1 sp ks3 false data)) =
      encrypt1 sp ks3 false data := encrypt1_encrypt1 true _
    rw [decrypt3_eq, hback]
  rw [ede3CbcEncrypt, hencrypt, hdecrypt]
  rfl

theorem triple_des (sp : Nat → Nat → BitVec 32) (ks1 ks2 ks3 : KeySchedule) :
    (∀ data, encrypt3 sp ks1 ks2 ks3 data =
      encrypt1 sp ks3 true (encrypt1 sp ks2 false (encrypt1 sp ks1 true data))) ∧
    (∀ ivec messages, decryptAll (ede3CbcEncrypt sp ks1 ks2 ks3) ivec
        (encryptAll (ede3CbcEncrypt sp ks1 ks2 ks3) ivec messages).1 =
      (messages, (encryptAll (ede3CbcEncrypt sp ks1 ks2 ks3) ivec messages).2)) ∧
    ede3CbcEncrypt sp ks1 ks1 ks3 = ncbcEncrypt sp ks3 :=
  ⟨encrypt3_eq, decryptAll_encryptAll decrypt3_encrypt3, ede3CbcEncrypt_eq_ncbcEncrypt sp ks1 ks3⟩

/-- The receiver gets the first eight bytes, when the key is one that is accepted; otherwise both
sides work with what has been on their stacks. -/
theorem des_marshall_round_trip {skb sp : Nat → Nat → BitVec 32} {key : List Byte}
    {stack stack' : KeySchedule} {uncrypted : List Byte} {size : Nat}
    (hkey : (setKeyChecked skb key stack).1 = 0) (hpos : 0 < size)
    (h : size ≤ uncrypted.length) (initVector : List Byte) :
    let sent := marshall skb sp key initVector stack uncrypted size
    let received := unmarshall skb sp key initVector stack' (sent.1.take sent.2) sent.2
    received.2 = 8 ∧ received.1.take size = uncrypted.take (min size 8) := by
  have hset (stack : KeySchedule) : (setKeyChecked skb key stack).2 = setKeyUnchecked skb key := by
    unfold setKeyChecked at hkey ⊢
    by_cases hparity : checkKeyParity key = true
    · by_cases hweak : isWeakKey key = true
      · simp [hparity, hweak] at hkey
      · simp [hparity, hweak]
    · simp [hparity] at hkey
  refine ⟨rfl, ?_⟩
  simp only [marshall, unmarshall, hset]
  exact cbcDecrypt_firstBlock (encrypt1_encrypt1 true) hpos h

/-- `POK_PROTOCOLS_DES_KEY` and `POK_PROTOCOLS_DES_INIT` -/
def defaultKey : List Byte := [0x01, 0x23, 0x45, 0x67, 0x89, 0xab, 0xcd, 0xef]

def defaultInit : List Byte := [0xfe, 0xdc, 0xba, 0x98, 0x76, 0x54, 0x32, 0x10]

theorem des_marshall_round_trip_default :
    let tables : Nat → Nat → BitVec 32 := fun i j => BitVec.ofNat 32 (64 * i + j)
    let sent := marshall tables tables defaultKey defaultInit (fun _ => 0) [1, 2, 3, 4, 5] 5
    let received :=
      unmarshall tables tables defaultKey defaultInit (fun _ => 7) (sent.1.take sent.2) sent.2
    received.2 = 8 ∧ received.1.take 5 = [1, 2, 3, 4, 5] :=
  des_marshall_round_trip (by decide) (by decide) (by decide) defaultInit

end Des

end Chpok
