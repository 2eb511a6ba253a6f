import Chpok.Libpok.Printf
import Mathlib.Tactic.IntervalCases

/-! The formats whose directives have flags, widths and lengths that `handle_fmt` knows print what
the C standard says. -/

namespace Chpok

/-- The flags and the width of a `%d` of the `printf` family -/
structure IntFormat where
  zero : Bool := false
  width : Nat := 0

/-- What `%d` prints -/
def IntFormat.print (format : IntFormat) (x : Int) : List Char :=
  let digits := Nat.toDigits 10 x.natAbs
  let sign := if x < 0 then ['-'] else []
  let pad := format.width - (sign.length + digits.length)
  if format.zero then sign ++ List.replicate pad '0' ++ digits
  else List.replicate pad ' ' ++ sign ++ digits

/-- An argument of a conversion of integers, with its length modifier -/
inductive PrintfValue where
  | int (x : BitVec 32)
  | long (x : BitVec 32)
  | longLong (x : BitVec 64)

namespace PrintfValue

def modifier : PrintfValue → List Char
  | int _ => []
  | long _ => ['l']
  | longLong _ => ['l', 'l']

def arg : PrintfValue → PrintfArg
  | int x | long x => .word x
  | longLong x => .wide x

def signed : PrintfValue → Int
  | int x | long x => x.toInt
  | longLong x => x.toInt

def unsigned : PrintfValue → Nat
  | int x | long x => x.toNat
  | longLong x => x.toNat

end PrintfValue

inductive PrintfConversion where
  | d
  | i
  | u
  | x
  deriving DecidableEq, Repr

namespace PrintfConversion

def char : PrintfConversion → Char
  | d => 'd'
  | i => 'i'
  | u => 'u'
  | x => 'x'

/-- What the standard says of a conversion without precision. -/
def standard (zero : Bool) (width : Nat) (v : PrintfValue) : PrintfConversion → List Char
  | d | i => IntFormat.print { zero := zero, width := width } v.signed
  | u => (Nat.toDigits 10 v.unsigned).leftpad width (if zero then '0' else ' ')
  | x => (Nat.toDigits 16 v.unsigned).leftpad width (if zero then '0' else ' ')

end PrintfConversion

/-- A piece of a format with its argument. A width or a precision of zero is left out. -/
inductive PrintfDirective where
  | literal (c : Char) (h : c ≠ '%')
  | percent
  | char (x : BitVec 32)
  | string (width precision : Nat) (s : List Char)
  | number (conv : PrintfConversion) (zero : Bool) (width : Nat) (v : PrintfValue)

namespace PrintfDirective

def widthText (width : Nat) : List Char := if width = 0 then [] else Nat.toDigits 10 width

def text : PrintfDirective → List Char
  | literal c _ => [c]
  | percent => ['%', '%']
  | char _ => ['%', 'c']
  | string width precision _ =>
    '%' :: widthText width ++ (if precision = 0 then [] else '.' :: Nat.toDigits 10 precision) ++
      ['s']
  | number conv zero width v =>
    '%' :: (if zero then ['0'] else []) ++ widthText width ++ v.modifier ++ [conv.char]

def args : PrintfDirective → List PrintfArg
  | literal _ _ | percent => []
  | char x => [.word x]
  | string _ _ s => [.str s]
  | number _ _ _ v => [v.arg]

/-- What the standard says of the directive. -/
def standard : PrintfDirective → List Char
  | literal c _ => [c]
  | percent => ['%']
  | char x => [Char.ofNat (x.toNat % 256)]
  | string width precision s =>
    (if precision = 0 then s else s.take precision).leftpad width ' '
  | number conv zero width v => conv.standard zero width v

/-- The same as it is emitted -/
def emitted : PrintfDirective → List Emitted
  | char x => [.int x]
  | d => d.standard.map .char

end PrintfDirective

theorem map_byte_char (text : List Char) : (text.map Emitted.char).map Emitted.byte = text := by
  rw [List.map_map]
  exact List.map_id text

theorem byte_emitted (directives : List PrintfDirective) :
    (directives.flatMap PrintfDirective.emitted).map Emitted.byte =
      directives.flatMap PrintfDirective.standard := by
  rw [List.map_flatMap]
  refine List.flatMap_congr fun d _ => ?_
  cases d with
  | char x => rfl
  | literal | percent | string | number => exact map_byte_char _

theorem printfDigits_eq {n : Nat} (h : n < 16) : printfDigits.getD n '0' = Nat.digitChar n := by
  interval_cases n <;> rfl

/-- The places of `digit_str` suffice for every number. -/
theorem digitStr_eq {base room value : Nat} (hbase : 1 < base) (hmax : base ≤ 16)
    (h : value < base ^ room) (hroom : 0 < room) :
    digitStr base room value = some (Nat.toDigits base value).reverse := by
  induction room generalizing value with
  | zero => contradiction
  | succ room ih =>
    have hdigit := printfDigits_eq (lt_of_lt_of_le (Nat.mod_lt value (by omega)) hmax)
    rw [digitStr, hdigit]
    by_cases hsmall : value < base
    · rw [if_neg (not_not.mpr (Nat.div_eq_of_lt hsmall)), Nat.mod_eq_of_lt hsmall,
        Nat.toDigits_of_lt_base hsmall]
      rfl
    · have hge : base ≤ value := Nat.le_of_not_lt hsmall
      have hne : value / base ≠ 0 := (Nat.div_pos hge (by omega)).ne'
      have hlt : value / base < base ^ room := by
        rw [Nat.pow_succ] at h
        exact Nat.div_lt_of_lt_mul (by rwa [Nat.mul_comm])
      have hrest : 0 < room := by
        by_contra hzero
        rw [Nat.eq_zero_of_not_pos hzero, Nat.pow_zero] at hlt
        exact hne (Nat.lt_one_iff.mp hlt)
      rw [if_pos hne, ih hlt hrest, Nat.toDigits_of_base_le hbase hge, List.reverse_append]
      rfl

theorem digitStr_word {base : Nat} (hbase : base = 10 ∨ base = 16) (value : BitVec 64) :
    digitStr base 32 value.toNat = some (Nat.toDigits base value.toNat).reverse := by
  rcases hbase with rfl | rfl
  · exact digitStr_eq (by decide) (by decide) (lt_trans value.isLt (by decide)) (by decide)
  · exact digitStr_eq (by decide) (by decide) (lt_trans value.isLt (by decide)) (by decide)

theorem printNum_unsigned {base : Nat} (hbase : base = 10 ∨ base = 16) (value : BitVec 64)
    (zero : Bool) (width : Nat) : printNum value base width false zero =
      some ((Nat.toDigits base value.toNat).leftpad width (if zero then '0' else ' ')) := by
  have hpad (digits : List Char) : ((width : Int) - digits.length).toNat = width - digits.length := by
    omega
  rw [printNum, digitStr_word hbase]
  cases zero <;> simp [List.leftpad, hpad]

/-- The least number of a type is its own negative, and so its digits are the right ones too. -/
theorem natAbs_toInt (value : BitVec 64) :
    value.toInt.natAbs = (if value.msb then -value else value).toNat := by
  have hlt := value.isLt
  rw [BitVec.toInt_eq_msb_cond]
  cases hmsb : value.msb with
  | true =>
    have hpos : 2 ^ 63 ≤ value.toNat := by
      have hdef := BitVec.msb_eq_decide value
      rw [hmsb] at hdef
      exact of_decide_eq_true hdef.symm
    rw [if_pos rfl, if_pos rfl, BitVec.toNat_neg]
    omega
  | false =>
    rw [if_neg Bool.false_ne_true, if_neg Bool.false_ne_true]
    rfl

theorem toInt_neg_iff (value : BitVec 64) : value.toInt < 0 ↔ value.msb = true := by
  rw [BitVec.toInt_eq_msb_cond]
  have hlt := value.isLt
  cases value.msb with
  | false => simp
  | true =>
    simp
    omega

theorem printNum_signed (value : BitVec 64) (zero : Bool) (width : Nat) :
    printNum (if value.msb then -value else value) 10 width value.msb zero =
      some (IntFormat.print { zero := zero, width := width } value.toInt) := by
  have hsign : (if value.toInt < 0 then ['-'] else []) = if value.msb then ['-'] else [] := by
    simp only [toInt_neg_iff]
  have hpad (digits : List Char) : ((if value.msb then (width : Int) - 1 else width) -
      digits.length).toNat =
        width - ((if value.msb then ['-'] else []).length + digits.length) := by
    split_ifs
    · simp only [List.length_singleton]
      omega
    · simp only [List.length_nil]
      omega
  rw [printNum, digitStr_word (.inl rfl), IntFormat.print, natAbs_toInt]
  simp only [hsign, Option.map_some, List.length_reverse, List.reverse_reverse, hpad]

/-! Reading a directive -/

namespace HandleFmt

theorem digitChar_cases {n : Nat} (h : n < 10) :
    n = 0 ∧ Nat.digitChar n = '0' ∨ 0 < n ∧ Nat.digitChar n ≠ '0' ∧
      ('1' ≤ Nat.digitChar n ∧ Nat.digitChar n ≤ '9') ∧
      (Nat.digitChar n).toNat - '0'.toNat = n := by
  interval_cases n <;> decide

/-- A digit of the width, which is not the first -/
theorem modify_pad (st : HandleFmt) (hdot : st.wasDot = false) (hpad : st.pad ≠ 0) {n : Nat}
    (h : n < 10) : st.modify (Nat.digitChar n) = some { st with pad := n + st.pad * 10 } := by
  rcases digitChar_cases h with ⟨rfl, hzero⟩ | ⟨-, hne, hdigit, hvalue⟩
  · simp [modify, hzero, hdot, hpad]
  · simp only [modify, if_neg hne, if_pos hdigit, hdot, hvalue, Bool.false_eq_true, if_false]

/-- The first digit of the width -/
theorem modify_first {st : HandleFmt} (hdot : st.wasDot = false) (hpad : st.pad = 0) {n : Nat}
    (hpos : 0 < n) (h : n < 10) : st.modify (Nat.digitChar n) = some { st with pad := n } := by
  rcases digitChar_cases h with ⟨rfl, -⟩ | ⟨-, hne, hdigit, hvalue⟩
  · contradiction
  · simp only [modify, if_neg hne, if_pos hdigit, hdot, hvalue, hpad, Bool.false_eq_true, if_false,
      zero_mul, add_zero]

theorem modify_precision (st : HandleFmt) (hdot : st.wasDot = true) {n : Nat} (h : n < 10) :
    st.modify (Nat.digitChar n) = some { st with precision := n + st.precision * 10 } := by
  rcases digitChar_cases h with ⟨rfl, hzero⟩ | ⟨-, hne, hdigit, hvalue⟩
  · simp [modify, hzero, hdot]
  · simp only [modify, if_neg hne, if_pos hdigit, hdot, hvalue, if_true]

end HandleFmt

section

variable {source : PrintfSource} {st : HandleFmt} {rest : List Char} {args : List PrintfArg}

theorem printfEmitter_modify {c : Char} {st' : HandleFmt} (h : st.modify c = some st') :
    printfEmitter source (some st) (c :: rest) args = printfEmitter source (some st') rest args := by
  rw [printfEmitter, h]

theorem printfEmitter_width (hdot : st.wasDot = false) (hpad : st.pad = 0) (width : Nat)
    (hpos : 0 < width) (rest : List Char) :
    printfEmitter source (some st) (Nat.toDigits 10 width ++ rest) args =
      printfEmitter source (some { st with pad := width }) rest args := by
  induction width using Nat.strongRecOn generalizing rest with
  | ind width ih =>
    by_cases hsmall : width < 10
    · rw [Nat.toDigits_of_lt_base hsmall]
      exact printfEmitter_modify (HandleFmt.modify_first hdot hpad hpos hsmall)
    · have hge : 10 ≤ width := Nat.le_of_not_lt hsmall
      have hdiv : 0 < width / 10 := Nat.div_pos hge (by decide)
      rw [Nat.toDigits_of_base_le (by decide) hge, List.append_assoc,
        ih (width / 10) (Nat.div_lt_self hpos (by decide)) hdiv]
      have hne : ({ st with pad := ((width / 10 : Nat) : Int) } : HandleFmt).pad ≠ 0 := by
        show ((width / 10 : Nat) : Int) ≠ 0
        omega
      have hlast := HandleFmt.modify_pad { st with pad := ((width / 10 : Nat) : Int) } hdot hne
        (Nat.mod_lt width (by decide))
      rw [List.singleton_append, printfEmitter_modify hlast]
      have hsum : ((width % 10 : Nat) : Int) + ((width / 10 : Nat) : Int) * 10 = width := by omega
      simp only [hsum]

theorem printfEmitter_precision (hdot : st.wasDot = true) (hprecision : st.precision = 0)
    (precision : Nat) (rest : List Char) :
    printfEmitter source (some st) (Nat.toDigits 10 precision ++ rest) args =
      printfEmitter source (some { st with precision := precision }) rest args := by
  induction precision using Nat.strongRecOn generalizing rest with
  | ind precision ih =>
    by_cases hsmall : precision < 10
    · have hfirst := HandleFmt.modify_precision st hdot hsmall
      rw [hprecision, zero_mul, add_zero] at hfirst
      rw [Nat.toDigits_of_lt_base hsmall]
      exact printfEmitter_modify hfirst
    · have hge : 10 ≤ precision := Nat.le_of_not_lt hsmall
      rw [Nat.toDigits_of_base_le (by decide) hge, List.append_assoc,
        ih (precision / 10) (Nat.div_lt_self (by omega) (by decide))]
      have hlast := HandleFmt.modify_precision
        { st with precision := ((precision / 10 : Nat) : Int) } hdot
        (Nat.mod_lt precision (by decide))
      rw [List.singleton_append, printfEmitter_modify hlast]
      have hsum : ((precision % 10 : Nat) : Int) + ((precision / 10 : Nat) : Int) * 10 =
        precision := by omega
      simp only [hsum]

theorem printfEmitter_widthText (hdot : st.wasDot = false) (hpad : st.pad = 0) (width : Nat)
    (rest : List Char) :
    printfEmitter source (some st) (PrintfDirective.widthText width ++ rest) args =
      printfEmitter source (some { st with pad := width }) rest args := by
  unfold PrintfDirective.widthText
  split_ifs with hzero
  · subst hzero
    have hsame : { st with pad := ((0 : Nat) : Int) } = st := by
      rw [Nat.cast_zero, ← hpad]
    rw [hsame]
    rfl
  · exact printfEmitter_width hdot hpad width (Nat.pos_of_ne_zero hzero) rest

theorem printfEmitter_modifier (v : PrintfValue) (rest : List Char) :
    printfEmitter source (some st) (v.modifier ++ rest) args =
      printfEmitter source (some { st with l := st.l + v.modifier.length }) rest args := by
  cases v <;> rfl

theorem printfEmitter_conversion {c : Char} {text : List Emitted} {args' : List PrintfArg}
    (hmodify : st.modify c = none) (h : st.conversion source c args = some (text, args')) :
    printfEmitter source (some st) (c :: rest) args = (printfEmitter source none rest args').map (text ++ ·) := by
  rw [printfEmitter, hmodify, h]
  rfl

end

theorem conversion_signed {source : PrintfSource} {st : HandleFmt} {v : PrintfValue} {c : Char} (hc : c = 'd' ∨ c = 'i')
    {width : Nat} (hl : st.l = v.modifier.length) (hpad : st.pad = width) (more : List PrintfArg) :
    st.conversion source c (v.arg :: more) =
      some ((IntFormat.print { zero := st.padWithZero, width := width } v.signed).map .char,
        more) := by
  obtain ⟨value, hvalue, hsigned⟩ : ∃ value, st.signedArg (v.arg :: more) = some (value, more) ∧
      value.toInt = v.signed := by
    cases v with
    | int x | long x =>
      refine ⟨x.signExtend 64, ?_, BitVec.toInt_signExtend_of_le (by decide)⟩
      simp [HandleFmt.signedArg, PrintfValue.arg, hl, PrintfValue.modifier]
    | longLong x =>
      exact ⟨x, by simp [HandleFmt.signedArg, PrintfValue.arg, hl, PrintfValue.modifier], rfl⟩
  rw [← hsigned]
  rcases hc with rfl | rfl <;>
    simp [HandleFmt.conversion, hvalue, hpad, printNum_signed]

theorem conversion_unsigned {source : PrintfSource} {st : HandleFmt} {v : PrintfValue} {c : Char} {base : Nat}
    (hc : c = 'u' ∧ base = 10 ∨ c = 'x' ∧ base = 16) {width : Nat}
    (hl : st.l = v.modifier.length) (hpad : st.pad = width) (more : List PrintfArg) :
    st.conversion source c (v.arg :: more) = some (((Nat.toDigits base v.unsigned).leftpad width
      (if st.padWithZero then '0' else ' ')).map .char, more) := by
  obtain ⟨value, hvalue, hunsigned⟩ : ∃ value, st.unsignedArg (v.arg :: more) =
      some (value, more) ∧ value.toNat = v.unsigned := by
    cases v with
    | int x | long x =>
      refine ⟨x.zeroExtend 64, ?_, BitVec.toNat_setWidth_of_le (by decide)⟩
      simp [HandleFmt.unsignedArg, PrintfValue.arg, hl, PrintfValue.modifier]
    | longLong x =>
      exact ⟨x, by simp [HandleFmt.unsignedArg, PrintfValue.arg, hl, PrintfValue.modifier], rfl⟩
  rw [← hunsigned]
  rcases hc with ⟨rfl, rfl⟩ | ⟨rfl, rfl⟩
  · simp [HandleFmt.conversion, hvalue, hpad, printNum_unsigned (.inl rfl)]
  · simp [HandleFmt.conversion, hvalue, hpad, printNum_unsigned (.inr rfl)]

theorem conversion_number {source : PrintfSource} {st : HandleFmt} {v : PrintfValue} (conv : PrintfConversion) {width : Nat}
    (hl : st.l = v.modifier.length) (hpad : st.pad = width) (more : List PrintfArg) :
    st.conversion source conv.char (v.arg :: more) =
      some ((conv.standard st.padWithZero width v).map .char, more) := by
  cases conv with
  | d => exact conversion_signed (.inl rfl) hl hpad more
  | i => exact conversion_signed (.inr rfl) hl hpad more
  | u => exact conversion_unsigned (.inl ⟨rfl, rfl⟩) hl hpad more
  | x => exact conversion_unsigned (.inr ⟨rfl, rfl⟩) hl hpad more

theorem conversion_string {source : PrintfSource} {st : HandleFmt} {width precision : Nat} (hpad : st.pad = width)
    (hprecision : st.precision = precision) (s : List Char) (more : List PrintfArg) :
    st.conversion source 's' (.str s :: more) =
      some (((if precision = 0 then s else s.take precision).leftpad width ' ').map .char, more) := by
  have hlen : (if st.precision ≠ 0 ∧ st.precision < (s.length : Int) then st.precision
      else (s.length : Int)) = ((if precision = 0 then s else s.take precision).length : Int) := by
    rw [hprecision]
    by_cases hzero : precision = 0
    · simp [hzero]
    · rw [if_neg hzero, List.length_take]
      split_ifs with hshort <;> omega
  have htake : s.take (if precision = 0 then s else s.take precision).length =
      if precision = 0 then s else s.take precision := by
    split_ifs
    · exact List.take_length
    · rw [List.length_take, List.take_eq_take_min, Nat.min_assoc]
      simp
  have hrest (n : Nat) : ((width : Int) - n).toNat = width - n := by omega
  simp only [HandleFmt.conversion, Option.getD_some, hlen, hpad, Int.toNat_natCast, htake, hrest]
  rfl

theorem printfEmitter_directive (source : PrintfSource) (d : PrintfDirective) (rest : List Char) (more : List PrintfArg) :
    printfEmitter source none (d.text ++ rest) (d.args ++ more) =
      (printfEmitter source none rest more).map (d.emitted ++ ·) := by
  cases d with
  | literal c h =>
    show printfEmitter source none (c :: rest) more = _
    rw [printfEmitter, if_neg h]
    rfl
  | percent =>
    have hpercent : HandleFmt.conversion source {} '%' more = some ([.char '%'], more) := rfl
    exact printfEmitter_conversion rfl hpercent
  | char x =>
    have hchar : HandleFmt.conversion source {} 'c' (.word x :: more) = some ([.int x], more) := rfl
    exact printfEmitter_conversion rfl hchar
  | string width precision s =>
    have hstart : printfEmitter source none ((PrintfDirective.string width precision s).text ++ rest)
        (.str s :: more) = printfEmitter source (some {}) (PrintfDirective.widthText width ++
          ((if precision = 0 then [] else '.' :: Nat.toDigits 10 precision) ++ 's' :: rest))
          (.str s :: more) := by
      simp only [PrintfDirective.text, List.cons_append, List.append_assoc, List.nil_append,
        printfEmitter, if_true]
    show printfEmitter source none _ (.str s :: more) = _
    rw [hstart, printfEmitter_widthText rfl rfl]
    by_cases hzero : precision = 0
    · rw [if_pos hzero, List.nil_append]
      exact printfEmitter_conversion rfl
        (conversion_string (by rfl) (by rw [hzero]; rfl) s more)
    · rw [if_neg hzero, List.cons_append, printfEmitter_modify (by rfl),
        printfEmitter_precision rfl rfl]
      exact printfEmitter_conversion rfl (conversion_string (by rfl) (by rfl) s more)
  | number conv zero width v =>
    have hstart : printfEmitter source none ((PrintfDirective.number conv zero width v).text ++ rest)
        (v.arg :: more) = printfEmitter source (some { padWithZero := zero })
          (PrintfDirective.widthText width ++ (v.modifier ++ conv.char :: rest))
          (v.arg :: more) := by
      simp only [PrintfDirective.text, List.cons_append, List.append_assoc, List.nil_append,
        printfEmitter, if_true]
      cases zero
      · rfl
      · exact printfEmitter_modify rfl
    show printfEmitter source none _ (v.arg :: more) = _
    rw [hstart, printfEmitter_widthText rfl rfl, printfEmitter_modifier]
    have hmodify (st : HandleFmt) : st.modify conv.char = none := by
      cases conv <;> rfl
    exact printfEmitter_conversion (hmodify _)
      (conversion_number conv (Nat.zero_add _) (by rfl) more)

theorem printfEmitter_standard (source : PrintfSource) (directives : List PrintfDirective)
    (more : List PrintfArg) :
    printfEmitter source none (directives.flatMap PrintfDirective.text)
        (directives.flatMap PrintfDirective.args ++ more) =
      some (directives.flatMap PrintfDirective.emitted) := by
  induction directives with
  | nil => rfl
  | cons d directives ih =>
    rw [List.flatMap_cons, List.flatMap_cons, List.flatMap_cons, List.append_assoc,
      printfEmitter_directive, ih]
    rfl

end Chpok
