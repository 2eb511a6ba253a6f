import Chpok.Libpok.StrftimeStandard

/-! `strftime` gives what the conversions of a format should give if each conversion does. -/

namespace Chpok

open BoundedOutput DecimalText Standard

/-- The dates on which the code has the text of a conversion right -/
def Tm.Right (tm : Tm) : Char → Prop
  | 'B' => tm.mon ≠ 1
  | 'c' => 10 ≤ tm.mday
  | 'C' => fullYear tm / 100 = fullYear tm % 100 ∧ 10 ≤ fullYear tm % 100
  | 'D' => False
  | 'e' => 10 ≤ tm.mday
  | 'F' => False
  | 'I' => False
  | 'j' => False
  | 'm' => False
  | 'r' => False
  | 'U' => False
  | 'W' => tm.wday = 0 ∧ tm.yday % 7 ≠ 6 ∧ 70 ≤ tm.yday
  | 'x' => False
  | 'z' => False
  | '%' => False
  | _ => True

/-- Text, and conversions with one of the modifiers or none -/
inductive Item where
  | literal (c : Char)
  | conversion (modifiers : List Char) (c : Char)

namespace Item

def WellFormed : Item → Prop
  | literal c => c ≠ '%' ∧ c ≠ '\x00'
  | conversion modifiers c => modifiers ∈ [[], ['E'], ['O']] ∧ c ∈ conversions

/-- The part of the format -/
def text : Item → List Char
  | literal c => [c]
  | conversion modifiers c => '%' :: (modifiers ++ [c])

/-- What should be produced -/
def expansion (timezone : Int) (tm : Tm) : Item → List Char
  | literal c => [c]
  | conversion _ c => Standard.expansion timezone tm c

/-- What is produced -/
def produced (timezone : Int) (tm : Tm) : Item → List Char
  | literal c => [c]
  | conversion _ c => converted timezone tm c

def Right (tm : Tm) : Item → Prop
  | literal _ => True
  | conversion _ c => tm.Right c

end Item

/-- With a buffer for the expansion and a null, the call returns its length and stores both. The
size of the buffer is one of those that `vsnprintf` can count in an `int`. -/
def Expands (timezone : Int) (tm : Tm) (items : List Item) : Prop :=
  let expansion := items.flatMap (Item.expansion timezone tm)
  ∀ (mem : Nat → Char) (maxsize : Nat), expansion.length < maxsize → maxsize ≤ 2 ^ 31 →
    let result := strftime libpokVsnprintf timezone mem maxsize (items.flatMap Item.text) tm
    result.1 = expansion.length ∧ (∀ i < expansion.length, result.2 i = expansion.getD i '\x00') ∧
      result.2 expansion.length = '\x00'

variable {timezone : Int} {tm : Tm} {items : List Item} {c : Char}

theorem number_ne {w : Nat} {x y : Int} (hx : 0 ≤ x) (hne : x ≠ y) (hy : 0 ≤ y) :
    number w x ≠ number w y := by
  intro h
  have heq := eq_of_padded_eq h
  omega

theorem mem_number {w : Nat} {x : Int} {ch : Char} (h : ch ∈ number w x) : ch.isDigit = true := by
  rcases mem_padded h with rfl | hdigit
  · decide
  · exact hdigit

theorem length_number {w : Nat} {x : Int} (hw : 0 < w) (hlow : 0 ≤ x) (hx : x < 10 ^ w) :
    (number w x).length = w := by
  apply length_padded_of_lt hw
  have hcast : ((10 ^ w : Nat) : Int) = 10 ^ w := by push_cast; rfl
  omega

theorem le_length_number (w : Nat) (x : Int) : w ≤ (number w x).length := by
  rw [number, length_padded]
  exact Nat.le_max_left _ _

theorem append_ne_of_left {u v s t : List Char} (hlength : u.length = v.length) (hne : u ≠ v) :
    u ++ s ≠ v ++ t := by
  intro h
  exact hne (List.append_inj h hlength).1

theorem sign_notMem_zone (ch : Char) (hch : ch.isDigit = false)
    (hne : ch ≠ if 0 < timezone then '-' else '+') : ch ∉ zone timezone := by
  intro h
  simp only [zone, List.mem_cons, List.mem_append] at h
  rcases h with heq | hhours | hminutes
  · exact hne heq
  · rw [mem_number hhours] at hch
    contradiction
  · rw [mem_number hminutes] at hch
    contradiction

theorem converted_ne_zone : converted timezone tm 'z' ≠ zone timezone := by
  intro h
  have hpercent := percent_mem_zone timezone tm
  rw [h] at hpercent
  refine sign_notMem_zone '%' (by decide) ?_ hpercent
  split_ifs <;> decide

theorem date_ne (hvalid : tm.Valid) : converted timezone tm 'D' ≠ date tm := by
  obtain ⟨hlow, hhigh⟩ := hvalid.date.month
  have hmon : (number 2 tm.mon).length = 2 := length_number (by decide) hlow (by omega)
  have hnext : (number 2 (tm.mon + 1)).length = 2 := length_number (by decide) (by omega) (by omega)
  rw [hvalid.converted_date]
  apply append_ne_of_left (by rw [hmon, hnext])
  exact number_ne hlow (by omega) (by omega)

theorem hour12_ne (hvalid : tm.Valid) : number 2 (tm.hour % 12 + 1) ≠ number 2 (hour12 tm) := by
  have hhour := hvalid.hour
  rw [hour12]
  split_ifs <;> exact number_ne (by omega) (by omega) (by omega)

theorem length_hour12 (hvalid : tm.Valid) :
    (number 2 (tm.hour % 12 + 1)).length = (number 2 (hour12 tm)).length := by
  have hhour := hvalid.hour
  rw [hour12, length_number (by decide) (by omega) (by omega)]
  split_ifs <;> rw [length_number (by decide) (by omega) (by omega)]

theorem time12_ne (hvalid : tm.Valid) : converted timezone tm 'r' ≠ time12 tm := by
  rw [hvalid.converted_time12]
  exact append_ne_of_left (length_hour12 hvalid) (hour12_ne hvalid)

theorem isoDate_ne (hvalid : tm.Valid) : converted timezone tm 'F' ≠ isoDate tm := by
  rw [hvalid.converted_isoDate]
  intro h
  have hlength := congrArg List.length h
  obtain ⟨hlow, hhigh⟩ := hvalid.date.month
  have hmon : (number 2 tm.mon).length = 2 := length_number (by decide) hlow (by omega)
  have hnext : (number 2 (tm.mon + 1)).length = 2 := length_number (by decide) (by omega) (by omega)
  have hminus : minusBytes.length = 3 := by decide
  simp only [isoDate, List.length_append, List.length_cons, hmon, hnext, hminus] at hlength
  omega

theorem day_eq_iff (hvalid : tm.Valid) : number 0 tm.mday = day tm ↔ 10 ≤ tm.mday := by
  obtain ⟨hlow, -⟩ := hvalid.mday_range
  rw [number, day, digits_eq_filled_iff (by decide)]
  omega

theorem length_day_le (tm : Tm) : (number 0 tm.mday).length ≤ (day tm).length := by
  rw [number, day, length_padded, length_padded]
  omega

theorem dateTime_eq_iff (hvalid : tm.Valid) :
    converted timezone tm 'c' = dateTime tm ↔ 10 ≤ tm.mday := by
  rw [hvalid.converted_dateTime, dateTime, ← day_eq_iff hvalid]
  constructor
  · intro h
    have hrest := (List.cons.inj (List.append_cancel_left h)).2
    have hday := (List.cons.inj (List.append_cancel_left hrest)).2
    exact List.append_cancel_right hday
  · intro h
    rw [h]

theorem month_eq_iff (hvalid : tm.Valid) : converted timezone tm 'B' = month tm ↔ tm.mon ≠ 1 := by
  constructor
  · rintro h hmon
    rw [converted_strings rfl, entry, month, hmon] at h
    revert h
    decide
  · exact hvalid.converted_month

theorem century_eq_iff (hvalid : tm.Valid) :
    converted timezone tm 'C' = number 2 (fullYear tm / 100) ↔
      fullYear tm / 100 = fullYear tm % 100 ∧ 10 ≤ fullYear tm % 100 := by
  have hyear : 0 ≤ fullYear tm := hvalid.year.1
  rw [hvalid.converted_century, number, filled_eq_padded_iff (by decide) (by decide)]
  omega

theorem weekdayNumber_eq (hvalid : tm.Valid) :
    converted timezone tm 'u' = number 0 (if tm.wday = 0 then 7 else tm.wday) := by
  obtain ⟨hlow, hhigh⟩ := hvalid.wday_range
  have hmod : (tm.wday + 6).tmod 7 = (tm.wday + 6) % 7 := Int.tmod_eq_emod_of_nonneg (by omega)
  have heq : (tm.wday + 6).tmod 7 + 1 = if tm.wday = 0 then 7 else tm.wday := by
    rw [hmod]
    split_ifs <;> omega
  rw [← heq]
  exact converted_digits rfl (by omega) (by omega)

theorem mondayWeek_eq_iff (hvalid : tm.Valid) : converted timezone tm 'W' = number 2 (week tm 1) ↔
    tm.wday = 0 ∧ tm.yday % 7 ≠ 6 ∧ 70 ≤ tm.yday := by
  rw [hvalid.converted_weekNumber.2, number, number, digits_eq_padded_iff (by decide)]
  exact hvalid.weekNumber_eq_week_iff

theorem sundayWeek_ne (hvalid : tm.Valid) : converted timezone tm 'U' ≠ number 2 (week tm 0) := by
  rw [hvalid.converted_weekNumber.1]
  intro h
  exact hvalid.weekNumber_ne_week (eq_of_padded_eq h)

theorem percent_eq : converted timezone tm '%' = "%??".toList :=
  (converted_strings rfl).trans rfl

theorem yday_eq (hvalid : tm.Valid) : converted timezone tm 'j' = number 3 tm.yday := by
  obtain ⟨hlow, hhigh⟩ := hvalid.yday_range
  exact converted_zeros rfl hlow (by omega)

theorem zoneName_eq : converted timezone tm 'Z' = [] := by
  rw [converted_printf rfl]
  rfl

/-- A conversion is right on the dates of `Right`. -/
theorem converted_eq_iff (hvalid : tm.Valid) (hc : c ∈ conversions) :
    converted timezone tm c = Standard.expansion timezone tm c ↔ tm.Right c := by
  have hlist : conversions = ['a', 'A', 'b', 'B', 'c', 'C', 'd', 'D', 'e', 'F', 'h', 'H', 'I', 'j',
    'm', 'M', 'n', 'p', 'r', 'R', 'S', 't', 'T', 'u', 'U', 'w', 'W', 'x', 'X', 'y', 'Y', 'z', 'Z',
    '%'] := rfl
  have hmon := hvalid.date.month
  have hyday := hvalid.yday_range
  have hwday := hvalid.wday_range
  rw [hlist] at hc
  simp only [List.mem_cons, List.not_mem_nil, or_false] at hc
  rcases hc with rfl | rfl | rfl | rfl | rfl | rfl | rfl | rfl | rfl | rfl | rfl | rfl | rfl | rfl |
    rfl | rfl | rfl | rfl | rfl | rfl | rfl | rfl | rfl | rfl | rfl | rfl | rfl | rfl | rfl | rfl |
    rfl | rfl | rfl | rfl
  · exact iff_of_true hvalid.converted_weekday.2 trivial
  · exact iff_of_true hvalid.converted_weekday.1 trivial
  · exact iff_of_true hvalid.converted_abbrev trivial
  · exact month_eq_iff hvalid
  · exact dateTime_eq_iff hvalid
  · exact century_eq_iff hvalid
  · exact iff_of_true hvalid.converted_mday trivial
  · exact iff_of_false (date_ne hvalid) not_false
  · rw [hvalid.converted_day]
    exact day_eq_iff hvalid
  · exact iff_of_false (isoDate_ne hvalid) not_false
  · exact iff_of_true hvalid.converted_h trivial
  · exact iff_of_true hvalid.converted_hour trivial
  · rw [hvalid.converted_hour12]
    exact iff_of_false (hour12_ne hvalid) not_false
  · rw [yday_eq hvalid]
    exact iff_of_false (number_ne hyday.1 (by omega) (by omega)) not_false
  · rw [hvalid.converted_mon]
    exact iff_of_false (number_ne hmon.1 (by omega) (by omega)) not_false
  · exact iff_of_true hvalid.converted_min trivial
  · exact iff_of_true ((converted_strings rfl).trans rfl) trivial
  · exact iff_of_true hvalid.converted_halfDay trivial
  · exact iff_of_false (time12_ne hvalid) not_false
  · exact iff_of_true hvalid.converted_time trivial
  · exact iff_of_true hvalid.converted_sec trivial
  · exact iff_of_true ((converted_strings rfl).trans rfl) trivial
  · exact iff_of_true hvalid.converted_timeSeconds trivial
  · exact iff_of_true (weekdayNumber_eq hvalid) trivial
  · exact iff_of_false (sundayWeek_ne hvalid) not_false
  · exact iff_of_true (converted_digits rfl hwday.1 (by omega)) trivial
  · exact mondayWeek_eq_iff hvalid
  · exact iff_of_false (date_ne hvalid) not_false
  · exact iff_of_true hvalid.converted_X trivial
  · exact iff_of_true hvalid.converted_year2 trivial
  · exact iff_of_true hvalid.converted_year trivial
  · exact iff_of_false converted_ne_zone not_false
  · exact iff_of_true zoneName_eq trivial
  · rw [percent_eq]
    exact iff_of_false (show "%??".toList ≠ ['%'] by decide) not_false

/-- Apart from `%F`, `%%` and `%z` no text is too long. -/
theorem length_converted_le (timezone : Int) (hvalid : tm.Valid) (hc : c ∈ conversions) (hF : c ≠ 'F')
    (hpercent : c ≠ '%') (hzone : c ≠ 'z') :
    (converted timezone tm c).length ≤ (Standard.expansion timezone tm c).length := by
  by_cases hright : tm.Right c
  · rw [(converted_eq_iff hvalid hc).mpr hright]
  have hmon := hvalid.date.month
  have hyday := hvalid.yday_range
  have hmonth : (number 2 tm.mon).length = (number 2 (tm.mon + 1)).length := by
    rw [length_number (by decide) hmon.1 (by omega), length_number (by decide) (by omega) (by omega)]
  have hwday := hvalid.wday_range
  have hweek : (number 0 tm.weekNumber).length ≤ 2 := by
    have hsmall : tm.weekNumber.toNat < 10 ^ 2 := by
      rcases hvalid.weekNumber_cases with ⟨hle, heq⟩ | ⟨hlt, hlate, hmax⟩ <;> omega
    have hdigits := (Nat.length_toDigits_le_iff (by decide) (by decide)).mpr hsmall
    rw [number, length_padded]
    omega
  unfold Tm.Right at hright
  split at hright
  · have hfeb : tm.mon = 1 := not_not.mp hright
    rw [converted_strings rfl, entry, hfeb]
    simp only [Standard.expansion, month, hfeb]
    decide
  · rw [hvalid.converted_dateTime]
    have hday := length_day_le tm
    simp only [Standard.expansion, dateTime, List.length_append, List.length_cons]
    omega
  · rw [hvalid.converted_century]
    have hsmall : (fullYear tm % 100).toNat < 10 ^ 2 := by omega
    rw [length_padded_of_lt (by decide) hsmall]
    exact le_length_number 2 _
  · rw [hvalid.converted_date]
    simp only [Standard.expansion, date, List.length_append, List.length_cons, hmonth, Nat.le_refl]
  · rw [hvalid.converted_day]
    exact length_day_le tm
  · contradiction
  · rw [hvalid.converted_hour12]
    exact (length_hour12 hvalid).le
  · rw [yday_eq hvalid, length_number (by decide) hyday.1 (by omega)]
    exact le_length_number 3 _
  · rw [hvalid.converted_mon]
    exact hmonth.le
  · rw [hvalid.converted_time12]
    simp only [Standard.expansion, time12, List.length_append, List.length_cons,
      length_hour12 hvalid, Nat.le_refl]
  · rw [hvalid.converted_weekNumber.1]
    exact hweek.trans (le_length_number 2 _)
  · rw [hvalid.converted_weekNumber.2]
    exact hweek.trans (le_length_number 2 _)
  · have hsame : converted timezone tm 'x' = converted timezone tm 'D' := rfl
    rw [hsame, hvalid.converted_date]
    simp only [Standard.expansion, date, List.length_append, List.length_cons, hmonth, Nat.le_refl]
  · contradiction
  · contradiction
  · exact absurd trivial hright

/-- No text is much longer than it should be. -/
theorem length_converted_le_add (hvalid : tm.Valid) (hc : c ∈ conversions) :
    (converted timezone tm c).length ≤ (Standard.expansion timezone tm c).length + 16 := by
  by_cases hF : c = 'F'
  · subst hF
    obtain ⟨hlow, hhigh⟩ := hvalid.date.month
    have hmon : (number 2 tm.mon).length = 2 := length_number (by decide) hlow (by omega)
    rw [hvalid.converted_isoDate]
    simp only [Standard.expansion, isoDate, List.length_append, List.length_cons, hmon]
    have hminus : minusBytes.length = 3 := by decide
    omega
  by_cases hpercent : c = '%'
  · subst hpercent
    have hlength : "%??".toList.length = 3 := by decide
    rw [percent_eq, hlength]
    omega
  by_cases hzone : c = 'z'
  · subst hzone
    have hprint := length_print_le (BitVec.ofInt 32 (Tm.tzParts timezone).1)
    rw [converted_zone, List.length_append]
    have hflags : "%+02d".toList.length = 5 := by decide
    omega
  · have hle := length_converted_le timezone hvalid hc hF hpercent hzone
    omega

/-- Characters that most of the texts consist of -/
def plain (ch : Char) : Bool := ch.isAlphanum || "/: \n\t".toList.contains ch

theorem all_number (w : Nat) (x : Int) : (number w x).all plain = true := by
  rw [List.all_eq_true]
  intro ch hch
  simp [plain, Char.isAlphanum, mem_number hch]

theorem all_day : (day tm).all plain = true := by
  rw [List.all_eq_true]
  intro ch hch
  rcases mem_padded hch with rfl | hdigit
  · decide
  · simp [plain, Char.isAlphanum, hdigit]

theorem all_take {s : List Char} (h : s.all plain = true) (n : Nat) :
    (s.take n).all plain = true := by
  rw [List.all_eq_true] at h ⊢
  intro ch hch
  exact h ch (List.mem_of_mem_take hch)

theorem all_name (table : List (List Char)) (h : table.all (·.all plain) = true) (i : Nat) :
    (table.getD i []).all plain = true := by
  rw [List.getD_eq_getElem?_getD]
  cases hget : table[i]? with
  | none => rfl
  | some s => exact List.all_eq_true.mp h s (List.mem_of_getElem? hget)

theorem all_weekday : (weekday tm).all plain = true := all_name _ (by decide) _

theorem all_month : (month tm).all plain = true := all_name _ (by decide) _

theorem all_halfDay : (halfDay tm).all plain = true := by
  rw [halfDay]
  split_ifs <;> decide

theorem all_expansion (hF : c ≠ 'F') (hz : c ≠ 'z') (hpercent : c ≠ '%') :
    (Standard.expansion timezone tm c).all plain = true := by
  have hsigns : plain '/' = true ∧ plain ':' = true ∧ plain ' ' = true ∧ plain '\n' = true ∧
      plain '\t' = true := by decide
  unfold Standard.expansion
  split <;> simp_all [date, time, timeSeconds, time12, dateTime, all_number, all_day, all_take,
    all_weekday, all_month, all_halfDay]

theorem isDigit_of_plain {ch : Char} (hch : plain ch = false) : ch.isDigit = false := by
  simp only [plain, Char.isAlphanum, Bool.or_eq_false_iff] at hch
  exact hch.1.2

theorem notMem_expansion {ch : Char} (hch : plain ch = false) (hF : c = 'F' → ch ≠ '-')
    (hz : c = 'z' → ch ≠ if 0 < timezone then '-' else '+') (hpercent : c = '%' → ch ≠ '%') :
    ch ∉ Standard.expansion timezone tm c := by
  intro hmem
  have hdigit := isDigit_of_plain hch
  have hnumber (w : Nat) (x : Int) : ch ∉ number w x := by
    intro h
    rw [mem_number h] at hdigit
    contradiction
  by_cases hiso : c = 'F'
  · subst hiso
    simp only [Standard.expansion, isoDate, List.mem_append, List.mem_cons, hnumber, false_or,
      or_false, or_self] at hmem
    exact hF rfl hmem
  by_cases hoffset : c = 'z'
  · subst hoffset
    exact sign_notMem_zone ch hdigit (hz rfl) hmem
  by_cases hsign : c = '%'
  · subst hsign
    exact hpercent rfl (List.mem_singleton.mp hmem)
  · have hplain := List.all_eq_true.mp (all_expansion hiso hoffset hsign) ch hmem
    rw [hch] at hplain
    contradiction

theorem notMem_converted {ch : Char} {modifiers : List Char}
    (h : items.flatMap (Item.expansion timezone tm) = items.flatMap (Item.produced timezone tm))
    (hnot : ∀ modifiers c, .conversion modifiers c ∈ items →
      ch ∉ Standard.expansion timezone tm c)
    (hmem : .conversion modifiers c ∈ items) : ch ∉ converted timezone tm c := by
  have hle : ∀ item ∈ items, (item.expansion timezone tm).count ch ≤
      (item.produced timezone tm).count ch := by
    intro item hitem
    cases item with
    | literal d => exact Nat.le_refl _
    | conversion modifiers d =>
      have hzero : (Standard.expansion timezone tm d).count ch = 0 :=
        List.count_eq_zero.mpr (hnot modifiers d hitem)
      exact hzero.trans_le (Nat.zero_le _)
  have heq := measure_eq_of_flatMap_eq (fun _ _ => List.count_append) hle h _ hmem
  have hzero : (Standard.expansion timezone tm c).count ch = 0 :=
    List.count_eq_zero.mpr (hnot modifiers c hmem)
  exact List.count_eq_zero.mp (heq.symm.trans hzero)

theorem produced_eq_iff (hvalid : tm.Valid) {item : Item} (hitem : item.WellFormed) :
    item.produced timezone tm = item.expansion timezone tm ↔ item.Right tm := by
  cases item with
  | literal c => exact iff_of_true rfl trivial
  | conversion modifiers c => exact converted_eq_iff hvalid hitem.2

/-- The texts of the conversions show in the whole text. -/
theorem right_of_flatMap_eq (timezone : Int) (hvalid : tm.Valid) (hitems : ∀ item ∈ items, item.WellFormed)
    (h : items.flatMap (Item.expansion timezone tm) = items.flatMap (Item.produced timezone tm)) :
    ∀ item ∈ items, item.Right tm := by
  have hforeign (ch : Char) (hch : plain ch = false) (hF : ch ≠ '-') (hz : ch ≠ '+')
      (hnot : ∀ modifiers, .conversion modifiers '%' ∈ items → ch ≠ '%') {modifiers c}
      (hmem : .conversion modifiers c ∈ items) : ch ∉ converted timezone tm c := by
    apply notMem_converted h _ hmem
    intro modifiers c hother
    apply notMem_expansion hch (fun _ => hF)
    · intro _
      split_ifs
      · exact hF
      · exact hz
    · rintro rfl
      exact hnot modifiers hother
  have hpercent {modifiers c} (hmem : .conversion modifiers c ∈ items) : c ≠ '%' := by
    rintro rfl
    apply hforeign '?' (by decide) (by decide) (by decide) (fun _ _ => by decide) hmem
    rw [percent_eq]
    decide
  have hiso {modifiers c} (hmem : .conversion modifiers c ∈ items) : c ≠ 'F' := by
    rintro rfl
    apply hforeign '\u00e2' (by decide) (by decide) (by decide) (fun _ _ => by decide) hmem
    rw [hvalid.converted_isoDate]
    exact List.mem_append_right _ (List.mem_append_left _ (by decide))
  -- only `%%` should give a percent sign, and it does not occur
  have hzone {modifiers c} (hmem : .conversion modifiers c ∈ items) : c ≠ 'z' := by
    rintro rfl
    exact hforeign '%' (by decide) (by decide) (by decide)
      (fun _ hother => absurd rfl (hpercent hother)) hmem (percent_mem_zone timezone tm)
  have hle : ∀ item ∈ items, (item.produced timezone tm).length ≤
      (item.expansion timezone tm).length := by
    intro item hmem
    cases item with
    | literal d => exact Nat.le_refl _
    | conversion modifiers d =>
      exact length_converted_le timezone hvalid (hitems _ hmem).2 (hiso hmem) (hpercent hmem) (hzone hmem)
  have hlength := measure_eq_of_flatMap_eq (fun _ _ => List.length_append) hle h.symm
  intro item hmem
  exact (produced_eq_iff hvalid (hitems item hmem)).mp (eq_of_flatMap_eq hlength h.symm item hmem)

theorem skipModifiers_conversion {modifiers rest : List Char}
    (hmodifiers : modifiers ∈ [[], ['E'], ['O']]) (hc : c ∈ conversions) :
    skipModifiers (modifiers ++ [c] ++ rest) = c :: rest := by
  have hE : c ≠ 'E' := by
    rintro rfl
    revert hc
    decide
  have hO : c ≠ 'O' := by
    rintro rfl
    revert hc
    decide
  simp only [List.mem_cons, List.not_mem_nil, or_false] at hmodifiers
  rcases hmodifiers with rfl | rfl | rfl <;> simp [skipModifiers, hE, hO]

theorem expand_items (timezone : Int) (tm : Tm) (hitems : ∀ item ∈ items, item.WellFormed) :
    expand timezone tm (items.flatMap Item.text) = items.flatMap (Item.produced timezone tm) := by
  induction items with
  | nil => exact expand_nil
  | cons item items ih =>
    rw [List.forall_mem_cons] at hitems
    obtain ⟨hfirst, hrest⟩ := hitems
    rw [List.flatMap_cons, List.flatMap_cons, ← ih hrest]
    cases item with
    | literal c => exact expand_literal hfirst.1
    | conversion modifiers c =>
      exact expand_conversion (skipModifiers_conversion hfirst.1 hfirst.2)

theorem strftime_expand (mem : Nat → Char) {maxsize : Nat} {format : List Char}
    (hroom : (expand timezone tm format).length < maxsize) (hmax : maxsize ≤ 2 ^ 31) :
    let result := strftime libpokVsnprintf timezone mem maxsize format tm
    result.1 = (expand timezone tm format).length ∧
      (∀ i < (expand timezone tm format).length,
        result.2 i = (expand timezone tm format).getD i '\x00') ∧
      result.2 (expand timezone tm format).length = '\x00' := by
  obtain ⟨hlength, hbytes, hnull, -⟩ := strftime_written (libpokVsnprintf_follows timezone tm) mem
    hmax (Nat.zero_lt_of_lt hroom) (Pieces.output_of_lt hroom)
  exact ⟨hlength, hbytes, hnull⟩

theorem eq_of_stored {mem : Nat → Char} {u v : List Char} (hlength : u.length = v.length)
    (hu : ∀ i < u.length, mem i = u.getD i '\x00') (hv : ∀ i < v.length, mem i = v.getD i '\x00') :
    u = v := by
  apply List.ext_getElem hlength
  intro i hi hi'
  have hsame := (hu i hi).symm.trans (hv i hi')
  rwa [List.getD_eq_getElem _ _ hi, List.getD_eq_getElem _ _ hi'] at hsame

theorem length_produced_le (timezone : Int) (hvalid : tm.Valid)
    (hitems : ∀ item ∈ items, item.WellFormed) :
    (items.flatMap (Item.produced timezone tm)).length ≤
      (items.flatMap (Item.expansion timezone tm)).length + 16 * items.length := by
  induction items with
  | nil => exact Nat.le_refl _
  | cons item items ih =>
    rw [List.forall_mem_cons] at hitems
    obtain ⟨hfirst, hrest⟩ := hitems
    have hle := ih hrest
    have hitem : (item.produced timezone tm).length ≤ (item.expansion timezone tm).length + 16 := by
      cases item with
      | literal c => exact Nat.le_add_right _ _
      | conversion modifiers c => exact length_converted_le_add hvalid hfirst.2
    simp only [List.flatMap_cons, List.length_append, List.length_cons]
    omega

/-- The text is as it should be if and only if each conversion of the format is right. -/
theorem strftime_expansion (timezone : Int) (hvalid : tm.Valid)
    (hitems : ∀ item ∈ items, item.WellFormed)
    (hsize : (items.flatMap (Item.expansion timezone tm)).length + 16 * items.length < 2 ^ 31) :
    Expands timezone tm items ↔ ∀ item ∈ items, item.Right tm := by
  have hexpand := expand_items timezone tm hitems
  constructor
  · intro h
    apply right_of_flatMap_eq timezone hvalid hitems
    have hle := length_produced_le timezone hvalid hitems
    rw [← hexpand] at hle ⊢
    -- a buffer with room for both texts
    obtain ⟨hlength, hbytes, -⟩ := strftime_expand (fun _ => '\x00') (hle.trans_lt hsize) le_rfl
    obtain ⟨hlength', hbytes', -⟩ := h (fun _ => '\x00') (2 ^ 31) (by omega) le_rfl
    exact eq_of_stored (hlength'.symm.trans hlength) hbytes' hbytes
  · intro hright mem maxsize hroom hmax
    have hsame : items.flatMap (Item.produced timezone tm) =
        items.flatMap (Item.expansion timezone tm) :=
      List.flatMap_congr fun item hmem =>
        (produced_eq_iff hvalid (hitems item hmem)).mpr (hright item hmem)
    rw [hsame] at hexpand
    rw [← hexpand] at hroom ⊢
    exact strftime_expand mem hroom hmax

theorem newYear1970_valid : newYear1970.Valid where
  date := ⟨by decide, by decide, by decide, by decide, by decide, by decide⟩
  hour := by decide
  min := by decide
  sec := by decide
  year := by decide

/-- The format `%Y-%Od` -/
theorem strftime_expansion_yearDay :
    Expands 0 newYear1970 [.conversion [] 'Y', .literal '-', .conversion ['O'] 'd'] := by
  apply (strftime_expansion 0 newYear1970_valid _ (by decide)).mpr
  · intro item hmem
    simp only [List.mem_cons, List.not_mem_nil, or_false] at hmem
    rcases hmem with rfl | rfl | rfl <;> trivial
  · intro item hmem
    simp only [List.mem_cons, List.not_mem_nil, or_false] at hmem
    rcases hmem with rfl | rfl | rfl
    · exact ⟨by decide, by decide⟩
    · exact ⟨by decide, by decide⟩
    · exact ⟨by decide, by decide⟩

/-- Two percent signs give one with two question marks. -/
theorem strftime_expansion_fails : ¬ ∀ (timezone : Int) (tm : Tm) (items : List Item), tm.Valid →
    (∀ item ∈ items, item.WellFormed) → Expands timezone tm items := by
  intro h
  have hwf : ∀ item ∈ [Item.conversion [] '%'], item.WellFormed := by
    rw [List.forall_mem_singleton]
    exact ⟨by decide, by decide⟩
  have hproduced : expand 0 newYear1970 ['%', '%'] = "%??".toList := by
    rw [expand_conversion rfl, percent_eq]
    simp
  have hroom : (expand 0 newYear1970 ['%', '%']).length < 4 := by
    rw [hproduced]
    decide
  obtain ⟨hlength, -⟩ := h 0 newYear1970 _ newYear1970_valid hwf (fun _ => '\x00') 4
    (by decide) (by decide)
  have hthree := (strftime_expand (fun _ => '\x00') hroom (by decide)).1.symm.trans hlength
  rw [hproduced] at hthree
  exact absurd hthree (by decide)

end Chpok
