import Chpok.Library.Feistel
import Chpok.Libpok.CbcEncrypt

/-! DES (`libpok/protocols/des`). `DES_LONG` has 32 bits; the tables `DES_SPtrans` and `des_skb` are
arguments, by row and column. -/

namespace Chpok

namespace Des

/-- `DES_key_schedule` -/
abbrev KeySchedule := Nat → BitVec 32

/-- `ROTATE` -/
def rotate (a : BitVec 32) (n : Nat) : BitVec 32 := a.rotateRight n

/-- `PERM_OP`, with the new values of `a` and `b` -/
def permOp (a b : BitVec 32) (n : Nat) (m : BitVec 32) : BitVec 32 × BitVec 32 :=
  let t := ((a >>> n) ^^^ b) &&& m
  (a ^^^ (t <<< n), b ^^^ t)

/-- `IP`, with the new values of `l` and `r` -/
def ip (l r : BitVec 32) : BitVec 32 × BitVec 32 :=
  let (r, l) := permOp r l 4 0x0f0f0f0f
  let (l, r) := permOp l r 16 0x0000ffff
  let (r, l) := permOp r l 2 0x33333333
  let (l, r) := permOp l r 8 0x00ff00ff
  let (r, l) := permOp r l 1 0x55555555
  (l, r)

/-- `FP`, with the new values of `l` and `r` -/
def fp (l r : BitVec 32) : BitVec 32 × BitVec 32 :=
  let (l, r) := permOp l r 1 0x55555555
  let (r, l) := permOp r l 8 0x00ff00ff
  let (l, r) := permOp l r 2 0x33333333
  let (r, l) := permOp r l 16 0x0000ffff
  let (l, r) := permOp l r 4 0x0f0f0f0f
  (l, r)

section

variable (sp : Nat → Nat → BitVec 32) (ks : KeySchedule)

/-- What `D_ENCRYPT` masks with. -/
def dRound (s : Nat) (r : BitVec 32) : BitVec 32 :=
  let u := r ^^^ ks s
  let t := rotate (r ^^^ ks (s + 1)) 4
  sp 0 ((u >>> 2) &&& 0x3f).toNat ^^^ sp 2 ((u >>> 10) &&& 0x3f).toNat ^^^
    sp 4 ((u >>> 18) &&& 0x3f).toNat ^^^ sp 6 ((u >>> 26) &&& 0x3f).toNat ^^^
    sp 1 ((t >>> 2) &&& 0x3f).toNat ^^^ sp 3 ((t >>> 10) &&& 0x3f).toNat ^^^
    sp 5 ((t >>> 18) &&& 0x3f).toNat ^^^ sp 7 ((t >>> 26) &&& 0x3f).toNat

/-- `D_ENCRYPT` -/
def dEncrypt (ll r : BitVec 32) (s : Nat) : BitVec 32 := ll ^^^ dRound sp ks s r

/-- The body of the loop over the rounds, with `l` and `r` -/
def fourRounds (x : BitVec 32 × BitVec 32) (i j k m : Nat) : BitVec 32 × BitVec 32 :=
  let (l, r) := x
  let l := dEncrypt sp ks l r i
  let r := dEncrypt sp ks r l j
  let l := dEncrypt sp ks l r k
  let r := dEncrypt sp ks r l m
  (l, r)

/-- The loop of `DES_encrypt1` and `DES_encrypt2`, in either direction -/
def rounds (enc : Bool) (x : BitVec 32 × BitVec 32) : BitVec 32 × BitVec 32 :=
  if enc then [0, 8, 16, 24].foldl (fun x i => fourRounds sp ks x i (i + 2) (i + 4) (i + 6)) x
  else [30, 22, 14, 6].foldl (fun x i => fourRounds sp ks x i (i - 2) (i - 4) (i - 6)) x

/-- `DES_encrypt1` -/
def encrypt1 (enc : Bool) (data : CipherBlock) : CipherBlock :=
  let (r, l) := ip data.1 data.2
  let (l, r) := rounds sp ks enc (rotate l 29, rotate r 29)
  let (r, l) := fp (rotate r 3) (rotate l 3)
  (l, r)

/-- `DES_encrypt2` -/
def encrypt2 (enc : Bool) (data : CipherBlock) : CipherBlock :=
  let (l, r) := rounds sp ks enc (rotate data.2 29, rotate data.1 29)
  (rotate l 3, rotate r 3)

end

section

variable (sp : Nat → Nat → BitVec 32) (ks1 ks2 ks3 : KeySchedule)

/-- `DES_encrypt3` -/
def encrypt3 (data : CipherBlock) : CipherBlock :=
  let data := ip data.1 data.2
  let data := encrypt2 sp ks1 true data
  let data := encrypt2 sp ks2 false data
  let data := encrypt2 sp ks3 true data
  let (r, l) := fp data.2 data.1
  (l, r)

/-- `DES_decrypt3` -/
def decrypt3 (data : CipherBlock) : CipherBlock :=
  let data := ip data.1 data.2
  let data := encrypt2 sp ks3 false data
  let data := encrypt2 sp ks2 true data
  let data := encrypt2 sp ks1 false data
  let (r, l) := fp data.2 data.1
  (l, r)

/-- `DES_ncbc_encrypt` -/
def ncbcEncrypt (schedule : KeySchedule) :
    List Byte → Nat → List Byte → Bool → List Byte × List Byte :=
  cbcCall .little (encrypt1 sp schedule true) (encrypt1 sp schedule false)

/-- `DES_ede3_cbc_encrypt` -/
def ede3CbcEncrypt : List Byte → Nat → List Byte → Bool → List Byte × List Byte :=
  cbcCall .little (encrypt3 sp ks1 ks2 ks3) (decrypt3 sp ks1 ks2 ks3)

end

/-- `odd_parity` -/
def oddParity : List Byte := [
  1, 1, 2, 2, 4, 4, 7, 7, 8, 8, 11, 11, 13, 13, 14, 14,
  16, 16, 19, 19, 21, 21, 22, 22, 25, 25, 26, 26, 28, 28, 31, 31,
  32, 32, 35, 35, 37, 37, 38, 38, 41, 41, 42, 42, 44, 44, 47, 47,
  49, 49, 50, 50, 52, 52, 55, 55, 56, 56, 59, 59, 61, 61, 62, 62,
  64, 64, 67, 67, 69, 69, 70, 70, 73, 73, 74, 74, 76, 76, 79, 79,
  81, 81, 82, 82, 84, 84, 87, 87, 88, 88, 91, 91, 93, 93, 94, 94,
  97, 97, 98, 98, 100, 100, 103, 103, 104, 104, 107, 107, 109, 109, 110, 110,
  112, 112, 115, 115, 117, 117, 118, 118, 121, 121, 122, 122, 124, 124, 127, 127,
  128, 128, 131, 131, 133, 133, 134, 134, 137, 137, 138, 138, 140, 140, 143, 143,
  145, 145, 146, 146, 148, 148, 151, 151, 152, 152, 155, 155, 157, 157, 158, 158,
  161, 161, 162, 162, 164, 164, 167, 167, 168, 168, 171, 171, 173, 173, 174, 174,
  176, 176, 179, 179, 181, 181, 182, 182, 185, 185, 186, 186, 188, 188, 191, 191,
  193, 193, 194, 194, 196, 196, 199, 199, 200, 200, 203, 203, 205, 205, 206, 206,
  208, 208, 211, 211, 213, 213, 214, 214, 217, 217, 218, 218, 220, 220, 223, 223,
  224, 224, 227, 227, 229, 229, 230, 230, 233, 233, 234, 234, 236, 236, 239, 239,
  241, 241, 242, 242, 244, 244, 247, 247, 248, 248, 251, 251, 253, 253, 254, 254]

/-- `DES_check_key_parity` -/
def checkKeyParity (key : List Byte) : Bool := key.all fun b => oddParity[b.toNat]? = some b

/-- `weak_keys` -/
def weakKeys : List (List Byte) := [
  [0x01, 0x01, 0x01, 0x01, 0x01, 0x01, 0x01, 0x01],
  [0xFE, 0xFE, 0xFE, 0xFE, 0xFE, 0xFE, 0xFE, 0xFE],
  [0x1F, 0x1F, 0x1F, 0x1F, 0x0E, 0x0E, 0x0E, 0x0E],
  [0xE0, 0xE0, 0xE0, 0xE0, 0xF1, 0xF1, 0xF1, 0xF1],
  [0x01, 0xFE, 0x01, 0xFE, 0x01, 0xFE, 0x01, 0xFE],
  [0xFE, 0x01, 0xFE, 0x01, 0xFE, 0x01, 0xFE, 0x01],
  [0x1F, 0xE0, 0x1F, 0xE0, 0x0E, 0xF1, 0x0E, 0xF1],
  [0xE0, 0x1F, 0xE0, 0x1F, 0xF1, 0x0E, 0xF1, 0x0E],
  [0x01, 0xE0, 0x01, 0xE0, 0x01, 0xF1, 0x01, 0xF1],
  [0xE0, 0x01, 0xE0, 0x01, 0xF1, 0x01, 0xF1, 0x01],
  [0x1F, 0xFE, 0x1F, 0xFE, 0x0E, 0xFE, 0x0E, 0xFE],
  [0xFE, 0x1F, 0xFE, 0x1F, 0xFE, 0x0E, 0xFE, 0x0E],
  [0x01, 0x1F, 0x01, 0x1F, 0x01, 0x0E, 0x01, 0x0E],
  [0x1F, 0x01, 0x1F, 0x01, 0x0E, 0x01, 0x0E, 0x01],
  [0xE0, 0xFE, 0xE0, 0xFE, 0xF1, 0xFE, 0xF1, 0xFE],
  [0xFE, 0xE0, 0xFE, 0xE0, 0xFE, 0xF1, 0xFE, 0xF1]]

/-- `DES_is_weak_key` -/
def isWeakKey (key : List Byte) : Bool := weakKeys.contains key

/-- `HPERM_OP`, where `s` is `16 - n` -/
def hpermOp (a : BitVec 32) (s : Nat) (m : BitVec 32) : BitVec 32 :=
  let t := ((a <<< s) ^^^ a) &&& m
  a ^^^ t ^^^ (t >>> s)

section

variable (skb : Nat → Nat → BitVec 32)

/-- The body of the loop of `DES_set_key_unchecked`: two words of the schedule from `c` and `d` -/
def scheduleWords (c d : BitVec 32) : List (BitVec 32) :=
  let s := skb 0 (c &&& 0x3f).toNat |||
    skb 1 (((c >>> 6) &&& 0x03) ||| ((c >>> 7) &&& 0x3c)).toNat |||
    skb 2 (((c >>> 13) &&& 0x0f) ||| ((c >>> 14) &&& 0x30)).toNat |||
    skb 3 (((c >>> 20) &&& 0x01) ||| ((c >>> 21) &&& 0x06) ||| ((c >>> 22) &&& 0x38)).toNat
  let t := skb 4 (d &&& 0x3f).toNat |||
    skb 5 (((d >>> 7) &&& 0x03) ||| ((d >>> 8) &&& 0x3c)).toNat |||
    skb 6 ((d >>> 15) &&& 0x3f).toNat |||
    skb 7 (((d >>> 21) &&& 0x0f) ||| ((d >>> 22) &&& 0x30)).toNat
  [rotate ((t <<< 16) ||| (s &&& 0x0000ffff)) 30, rotate ((s >>> 16) ||| (t &&& 0xffff0000)) 26]

/-- The loop of `DES_set_key_unchecked` over the rest of `shifts2` -/
def scheduleLoop : List Bool → BitVec 32 → BitVec 32 → List (BitVec 32)
  | [], _, _ => []
  | shift2 :: shifts, c, d =>
    let c := (if shift2 then (c >>> 2) ||| (c <<< 26) else (c >>> 1) ||| (c <<< 27)) &&& 0x0fffffff
    let d := (if shift2 then (d >>> 2) ||| (d <<< 26) else (d >>> 1) ||| (d <<< 27)) &&& 0x0fffffff
    scheduleWords skb c d ++ scheduleLoop shifts c d

def shifts2 : List Bool :=
  [false, false, true, true, true, true, true, true, false, true, true, true, true, true, true,
    false]

/-- `DES_set_key_unchecked` -/
def setKeyUnchecked (key : List Byte) : KeySchedule :=
  let (c, d) := CipherBlock.load .little key
  let (d, c) := permOp d c 4 0x0f0f0f0f
  let c := hpermOp c 18 0xcccc0000
  let d := hpermOp d 18 0xcccc0000
  let (d, c) := permOp d c 1 0x55555555
  let (c, d) := permOp c d 8 0x00ff00ff
  let (d, c) := permOp d c 1 0x55555555
  let d := ((d &&& 0x000000ff) <<< 16) ||| (d &&& 0x0000ff00) ||| ((d &&& 0x00ff0000) >>> 16) |||
    ((c &&& 0xf0000000) >>> 4)
  let words := scheduleLoop skb shifts2 (c &&& 0x0fffffff) d
  fun i => words.getD i 0

/-- `DES_set_key_checked`. A key that is refused leaves the schedule as it is. -/
def setKeyChecked (key : List Byte) (schedule : KeySchedule) : Int × KeySchedule :=
  if ¬ checkKeyParity key then (-1, schedule)
  else if isWeakKey key then (-2, schedule)
  else (0, setKeyUnchecked skb key)

variable (sp : Nat → Nat → BitVec 32)

/-- `pok_protocols_des_marshall`: the crypted data and their size. The key schedule is on the stack,
with what has been there before. -/
def marshall (key initVector : List Byte) (stack : KeySchedule) (uncrypted : List Byte)
    (size : Nat) : List Byte × Nat :=
  let schedule := (setKeyChecked skb key stack).2
  ((ncbcEncrypt sp schedule uncrypted size initVector true).1, 8)

/-- `pok_protocols_des_unmarshall` -/
def unmarshall (key initVector : List Byte) (stack : KeySchedule) (crypted : List Byte)
    (size : Nat) : List Byte × Nat :=
  let schedule := (setKeyChecked skb key stack).2
  ((ncbcEncrypt sp schedule crypted size initVector false).1, 8)

end

end Des

end Chpok
