import Chpok.Kernel.Console
import Mathlib.Tactic.IntervalCases

/-! Everything that is printed reaches the serial line, and the screen is a window onto a page
without end. -/

namespace Chpok

namespace X86Console

variable {s : X86Console} {p : TextPage} {attr top : Nat} {mem : Nat → Char × Nat}

/-- The contents of the rows of a page that no text has reached -/
def blankCell (attr r : Nat) : Char × Nat := ('\x00', if r < 25 then attr else 7)

/-- The screen shows the page from a row on; the memory behind the screen is as it has been. -/
structure Shows (attr : Nat) (mem : Nat → Char × Nat) (s : X86Console) (p : TextPage)
    (top : Nat) : Prop where
  curAttr : s.curAttr = 7
  row : top + s.row = p.row
  col : s.col = p.col
  cells : ∀ r < 25, ∀ c < 80, s.cells (80 * r + c) = p.cell (top + r) c
  blank : ∀ r > p.row, ∀ c, p.cell r c = blankCell attr r
  outside : ∀ i ≥ 25 * 80, s.cells i = mem i

/-- The place is on the screen. -/
structure Window (attr : Nat) (mem : Nat → Char × Nat) (s : X86Console) (p : TextPage)
    (top : Nat) : Prop extends Shows attr mem s p top where
  onScreen : s.row < 25 ∧ s.col < 80
  last : top = 0 ∨ s.row = 24

/-- A place may be behind the last row of the screen before it is scrolled; then its row is empty. -/
structure Placed (attr : Nat) (mem : Nat → Char × Nat) (s : X86Console) (p : TextPage)
    (top : Nat) : Prop extends Shows attr mem s p top where
  near : s.row ≤ 25 ∧ s.col < 80
  last : top = 0 ∨ 24 ≤ s.row
  fresh : s.row = 25 → ∀ c, p.cell p.row c = blankCell attr p.row

/-- The text goes on in the next row. -/
theorem Window.nextRow (h : Window attr mem s p top) :
    Placed attr mem { s with col := 0, row := s.row + 1 } p.nextRow top := by
  have hrow : top + (s.row + 1) = p.row + 1 := by
    rw [← h.row]
    rfl
  refine ⟨⟨h.curAttr, hrow, rfl, h.cells, fun r hr c => ?_, h.outside⟩,
    ⟨h.onScreen.1, Nat.succ_pos 79⟩,
    h.last.imp_right fun he => he.ge.trans (Nat.le_succ _), fun _ c => h.blank _ (Nat.lt_succ_self _) c⟩
  exact h.blank r (lt_trans (Nat.lt_succ_self _) hr) c

theorem Window.advance (h : Window attr mem s p top) (col : Nat) :
    Placed attr mem (endRow { s with col := col }) (p.advance col) top := by
  unfold endRow TextPage.advance
  by_cases hfull : col ≥ 80
  · rw [if_pos hfull]
    simp only [if_pos hfull]
    exact h.nextRow
  · rw [if_neg hfull]
    simp only [if_neg hfull]
    exact ⟨⟨h.curAttr, h.row, rfl, h.cells, h.blank, h.outside⟩,
      ⟨h.onScreen.1.le, Nat.lt_of_not_le hfull⟩, h.last.imp_right fun he => he.ge, fun he => absurd he h.onScreen.1.ne⟩

/-- A character is written at the place. -/
theorem Window.write (h : Window attr mem s p top) (c : Char) :
    Window attr mem
      { s with cells := Function.update s.cells (80 * s.row + s.col) (c, s.curAttr) }
      { p with
        cell := Function.update p.cell p.row (Function.update (p.cell p.row) p.col (c, 7)) }
      top := by
  obtain ⟨hrow, hcol⟩ := h.onScreen
  refine ⟨⟨h.curAttr, h.row, h.col, fun r hr d hd => ?_, fun r hr d => ?_, fun i hi => ?_⟩,
    h.onScreen, h.last⟩
  · show Function.update s.cells (80 * s.row + s.col) (c, s.curAttr) (80 * r + d) =
      Function.update p.cell p.row (Function.update (p.cell p.row) p.col (c, 7)) (top + r) d
    by_cases hr' : r = s.row
    · subst hr'
      rw [h.row, Function.update_self]
      by_cases hd' : d = s.col
      · subst hd'
        rw [Function.update_self, h.col, Function.update_self, h.curAttr]
      · rw [Function.update_of_ne (by omega), h.cells _ hr d hd, h.row,
          Function.update_of_ne (h.col ▸ hd')]
    · have hne : 80 * r + d ≠ 80 * s.row + s.col := by omega
      have hpage : top + r ≠ p.row := by
        rw [← h.row]
        omega
      rw [Function.update_of_ne hne, h.cells r hr d hd, Function.update_of_ne hpage]
  · show Function.update p.cell p.row (Function.update (p.cell p.row) p.col (c, 7)) r d = _
    rw [Function.update_of_ne (Nat.ne_of_gt hr)]
    exact h.blank r hr d
  · show Function.update s.cells (80 * s.row + s.col) (c, s.curAttr) i = mem i
    rw [Function.update_of_ne (by omega)]
    exact h.outside i hi

theorem Window.placeChar (h : Window attr mem s p top) (c : Char) :
    Placed attr mem (s.placeChar c).endRow (p.put 7 c) top := by
  obtain ⟨hrow, hcol⟩ := h.onScreen
  have hstay (t : X86Console) (ht : t.col < 80) : t.endRow = t := if_neg (Nat.not_le.mpr ht)
  unfold X86Console.placeChar TextPage.put
  split_ifs with hreturn hnewline htab
  · rw [hstay _ (Nat.succ_pos 79)]
    exact ⟨⟨h.curAttr, h.row, rfl, h.cells, h.blank, h.outside⟩, ⟨hrow.le, Nat.succ_pos 79⟩,
      h.last.imp_right fun he => he.ge,
      fun he => absurd he hrow.ne⟩
  · rw [hstay _ (Nat.succ_pos 79)]
    exact h.nextRow
  · have hstop : s.col + (8 - s.col % 8) = 8 * (p.col / 8 + 1) := by
      rw [← h.col]
      omega
    rw [hstop]
    exact h.advance _
  · have hnext : s.col + 1 = p.col + 1 := by rw [h.col]
    rw [hnext]
    exact (h.write c).advance _

theorem Placed.scroll (h : Placed attr mem s p top) :
    ∃ top', Window attr mem s.scroll p top' := by
  obtain ⟨hrow, hcol⟩ := h.near
  unfold X86Console.scroll
  by_cases hend : s.row ≥ 25
  · have hrow' : s.row = 25 := Nat.le_antisymm hrow hend
    rw [if_pos hend]
    refine ⟨top + 1, ⟨h.curAttr, ?_, h.col, fun r hr c hc => ?_, h.blank, fun i hi => ?_⟩,
      ⟨Nat.lt_succ_self 24, hcol⟩, .inr rfl⟩
    · show top + 1 + 24 = p.row
      rw [← h.row, hrow']
    · show (if 80 * r + c < 24 * 80 then s.cells (80 * r + c + 80)
        else if 80 * r + c < 25 * 80 then ('\x00', s.curAttr) else s.cells (80 * r + c)) = _
      by_cases hr' : r < 24
      · have hnext : 80 * r + c + 80 = 80 * (r + 1) + c := by omega
        rw [if_pos (by omega), hnext, h.cells (r + 1) (by omega) c hc, Nat.add_assoc,
          Nat.add_comm 1 r]
      · have hlastRow : top + 1 + r = p.row := by
          rw [← h.row, hrow']
          omega
        have hlow : ¬ p.row < 25 := by omega
        rw [if_neg (by omega), if_pos (by omega), hlastRow, h.fresh hrow' c, blankCell,
          if_neg hlow, h.curAttr]
    · show (if i < 24 * 80 then s.cells (i + 80)
        else if i < 25 * 80 then ('\x00', s.curAttr) else s.cells i) = mem i
      rw [if_neg (by omega), if_neg (by omega)]
      exact h.outside i hi
  · rw [if_neg hend]
    refine ⟨top, h.toShows, ⟨Nat.lt_of_not_le hend, hcol⟩, ?_⟩
    exact h.last.imp_right fun hge => Nat.le_antisymm (Nat.le_of_lt_succ (Nat.lt_of_not_le hend)) hge

theorem Window.writeVga (h : Window attr mem s p top) (c : Char) :
    ∃ top', Window attr mem (s.writeVga c) (p.put 7 c) top' := (h.placeChar c).scroll

theorem writeVga_serial (s : X86Console) (c : Char) : (s.writeVga c).serial = s.serial := by
  unfold X86Console.writeVga X86Console.scroll endRow X86Console.placeChar
  split_ifs <;> rfl

theorem Window.write_text (h : Window attr mem s p top) (port : SerialPort) (text : List Char) :
    (∃ top', Window attr mem (s.write port text) (text.foldl (TextPage.put 7) p) top') ∧
      (s.write port text).serial =
        Function.update s.serial port (s.serial port ++ text.flatMap serialText) := by
  induction text generalizing s p top with
  | nil =>
    refine ⟨⟨top, h⟩, ?_⟩
    rw [List.flatMap_nil, List.append_nil, Function.update_eq_self]
    rfl
  | cons c text ih =>
    set u : X86Console :=
      { s with serial := Function.update s.serial port (s.serial port ++ serialText c) } with hu
    have hwindow : Window attr mem u p top :=
      ⟨⟨h.curAttr, h.row, h.col, h.cells, h.blank, h.outside⟩, h.onScreen, h.last⟩
    obtain ⟨top', hnext⟩ := hwindow.writeVga c
    obtain ⟨hshown, hserial⟩ := ih hnext
    refine ⟨hshown, ?_⟩
    have hstep : s.write port (c :: text) = (u.writeVga c).write port text := rfl
    rw [hstep, hserial, writeVga_serial, hu]
    simp only [Function.update_self, Function.update_idem, List.flatMap_cons, List.append_assoc]

end X86Console

/-- What is kept, as it is stored -/
def shown (emitted : List Emitted) : List Char :=
  (emitted.filter fun e => !e.negative).map Emitted.byte

/-- What a console call prints, and on which line. In `printf` the characters of a text that are
above 127, and negative arguments of `%c`, are lost. -/
inductive ConsoleOutput where
  | printf (directives : List PrintfDirective) (more : List PrintfArg)
  | write (port : SerialPort) (text : List Char)

namespace ConsoleOutput

def call : ConsoleOutput → ConsoleCall
  | printf directives more => .printf (directives.flatMap PrintfDirective.text)
    (directives.flatMap PrintfDirective.args ++ more)
  | write port text => .write port text

def port : ConsoleOutput → SerialPort
  | printf _ _ => .main
  | write port _ => port

def text : ConsoleOutput → List Char
  | printf directives _ => shown (directives.flatMap PrintfDirective.emitted)
  | write _ text => text

end ConsoleOutput

theorem putc_spec {f : SFile} (hf : f.buff.length < 128) (e : Emitted) :
    ∃ u, f.putc e = some u ∧ u.buff.length < 128 ∧
      u.out.flatten ++ u.buff = f.out.flatten ++ f.buff ++ shown [e] := by
  unfold SFile.putc
  by_cases hnegative : e.negative = true
  · have hplain : shown [e] = [] := by simp [shown, hnegative]
    rw [if_pos hnegative, hplain]
    exact ⟨f, rfl, hf, (List.append_nil _).symm⟩
  · have hplain : shown [e] = [e.byte] := by simp [shown, hnegative]
    rw [if_neg hnegative, if_pos hf, hplain]
    refine ⟨_, rfl, ?_, ?_⟩
    · split_ifs with hfull
      · exact Nat.succ_pos 127
      · simp only [List.length_append, List.length_singleton] at hfull ⊢
        omega
    · split_ifs
      · simp [SFile.flush]
      · simp

/-- The buffer of `printf` never overflows, and nothing is lost in it. -/
theorem kernelPrintf_eq {format : List Char} {args : List PrintfArg} {emitted : List Emitted}
    (hemitted : printfEmitter .kernel none format args = some emitted) :
    ∃ pieces, kernelPrintf format args = some pieces ∧
      pieces.flatten = shown emitted := by
  have hrun : ∀ (emitted : List Emitted) (f : SFile), f.buff.length < 128 →
      ∃ g, emitted.foldlM SFile.putc f = some g ∧ g.buff.length < 128 ∧
        g.out.flatten ++ g.buff =
          f.out.flatten ++ f.buff ++ shown emitted := by
    intro emitted
    induction emitted with
    | nil => exact fun f hf => ⟨f, rfl, hf, (List.append_nil _).symm⟩
    | cons e emitted ih =>
      intro f hf
      obtain ⟨u, hu, hroom, hout⟩ := putc_spec hf e
      obtain ⟨g, hg, hroom', hout'⟩ := ih u hroom
      refine ⟨g, ?_, hroom', ?_⟩
      · rw [List.foldlM_cons, hu]
        exact hg
      · rw [hout', hout, List.append_assoc, shown, shown, ← List.map_append, ← List.filter_append]
        rfl
  obtain ⟨g, hg, -, hout⟩ := hrun emitted ⟨[], []⟩ (Nat.succ_pos 127)
  refine ⟨g.flush.out, ?_, ?_⟩
  · rw [kernelPrintf, hemitted, Option.bind_some, hg]
    rfl
  · rw [SFile.flush, List.flatten_append, List.flatten_singleton, hout]
    rfl

theorem write_pieces (s : X86Console) (port : SerialPort) (pieces : List (List Char)) :
    pieces.foldl (·.write port ·) s = s.write port pieces.flatten := by
  induction pieces generalizing s with
  | nil => rfl
  | cons piece pieces ih =>
    rw [List.foldl_cons, ih, List.flatten_cons, X86Console.write, X86Console.write,
      X86Console.write, List.foldl_append]

theorem step_call (s : X86Console) (o : ConsoleOutput) :
    o.call.step s = some (s.write o.port o.text) := by
  cases o with
  | printf directives more =>
    obtain ⟨pieces, hpieces, hflat⟩ := kernelPrintf_eq (printfEmitter_standard .kernel directives more)
    rw [ConsoleOutput.call, ConsoleCall.step, hpieces, Option.map_some, write_pieces, hflat]
    rfl
  | write port text => rfl

open X86Console in
/-- Each serial line carries what has been printed on it. The screen shows the last rows of all that
has been printed, and the memory behind it is not touched. -/
theorem console_shows_output (s : X86Console) (outputs : List ConsoleOutput) :
    let page := (outputs.flatMap ConsoleOutput.text).foldl (TextPage.put 7)
      (TextPage.blank s.curAttr 7)
    ∃ t, Run.exec ConsoleCall.step s.init (outputs.map ConsoleOutput.call) = some t ∧
      (∀ port, t.serial port = s.serial port ++
        (outputs.filter fun o => o.port = port).flatMap fun o => o.text.flatMap serialText) ∧
      t.row = min page.row 24 ∧ t.col = page.col ∧ t.col < 80 ∧
      (∀ r < 25, ∀ c < 80, t.cells (80 * r + c) = page.cell (page.row - t.row + r) c) ∧
      ∀ i ≥ 25 * 80, t.cells i = s.cells i := by
  intro page
  have hrun : ∀ (outputs : List ConsoleOutput) (u : X86Console) (p : TextPage) (top : Nat),
      Window s.curAttr s.cells u p top →
      ∃ t top', Run.exec ConsoleCall.step u (outputs.map ConsoleOutput.call) = some t ∧
        Window s.curAttr s.cells t
          ((outputs.flatMap ConsoleOutput.text).foldl (TextPage.put 7) p) top' ∧
        ∀ port, t.serial port = u.serial port ++
          (outputs.filter fun o => o.port = port).flatMap fun o => o.text.flatMap serialText := by
    intro outputs
    induction outputs with
    | nil => exact fun u p top h => ⟨u, top, rfl, h, fun _ => (List.append_nil _).symm⟩
    | cons o outputs ih =>
      intro u p top h
      obtain ⟨⟨top', hwindow⟩, hserial⟩ := h.write_text o.port o.text
      obtain ⟨t, top'', ht, hthen, hserial'⟩ := ih _ _ top' hwindow
      refine ⟨t, top'', ?_, ?_, fun port => ?_⟩
      · rw [List.map_cons, Run.exec_cons]
        exact ⟨_, step_call u o, ht⟩
      · rw [List.flatMap_cons, List.foldl_append]
        exact hthen
      · rw [hserial', hserial]
        by_cases hport : o.port = port
        · subst hport
          simp
        · simp [hport, Function.update_of_ne (Ne.symm hport)]
  have hstart : Window s.curAttr s.cells s.init (TextPage.blank s.curAttr 7) 0 := by
    refine ⟨⟨rfl, rfl, rfl, fun r hr c hc => ?_, fun r _ c => rfl, fun i hi => ?_⟩,
      ⟨Nat.succ_pos 24, Nat.succ_pos 79⟩, .inl rfl⟩
    · show (if 80 * r + c < 25 * 80 then ('\x00', s.curAttr) else s.cells (80 * r + c)) =
        ('\x00', if 0 + r < 25 then s.curAttr else 7)
      rw [if_pos (by omega), if_pos (by omega)]
    · show (if i < 25 * 80 then ('\x00', s.curAttr) else s.cells i) = s.cells i
      rw [if_neg (by omega)]
  obtain ⟨t, top, ht, hwindow, hserial⟩ := hrun outputs _ _ 0 hstart
  have hrow : top + t.row = page.row := hwindow.row
  have hscreen := hwindow.onScreen
  have hlast := hwindow.last
  refine ⟨t, ht, hserial, by omega, hwindow.col, hscreen.2, fun r hr c hc => ?_, hwindow.outside⟩
  have htop : page.row - t.row = top := by omega
  rw [htop]
  exact hwindow.cells r hr c hc

namespace SSprintf

theorem truncatedString_zero (str : Nat → Char) (text : List Char) (i : Nat) :
    truncatedString str 0 text i = str i := by
  rw [truncatedString, if_neg (fun h => absurd h.1 (Nat.not_lt_zero i)),
    if_neg fun h => absurd h.1 (Nat.lt_irrefl 0)]

theorem truncatedString_succ (str : Nat → Char) (n : Nat) (c : Char) (text : List Char) (i : Nat) :
    truncatedString str (n + 2) (c :: text) (i + 1) =
      truncatedString (fun j => str (j + 1)) (n + 1) text i := by
  unfold truncatedString
  rw [List.getD_cons_succ, List.length_cons]
  refine if_congr (by omega) rfl (if_congr ?_ rfl rfl)
  omega

/-- The string begins where the pointer is, and goes as far as there is room. -/
theorem putc_all {emitted : List Emitted} (hplain : ∀ e ∈ emitted, e.negative = false)
    (out : SSprintf) (i : Nat) :
    ((emitted.foldl putc out).putc (.int 0)).str i =
      if i < out.ptr then out.str i
      else truncatedString (fun j => out.str (out.ptr + j)) out.size (emitted.map Emitted.byte)
        (i - out.ptr) := by
  induction emitted generalizing out with
  | nil =>
    obtain ⟨str, ptr, size⟩ := out
    have hend (str' : Nat → Char) (h : str' = Function.update str ptr '\x00') (hpos : 0 < size) :
        str' i = if i < ptr then str i
          else truncatedString (fun j => str (ptr + j)) size [] (i - ptr) := by
      subst h
      rcases Nat.lt_trichotomy i ptr with hlt | rfl | hgt
      · rw [if_pos hlt, Function.update_of_ne hlt.ne]
      · rw [if_neg (Nat.lt_irrefl i), Function.update_self, Nat.sub_self, truncatedString,
          if_neg (fun h => absurd h.2 (Nat.lt_irrefl 0)), if_pos ⟨hpos, (Nat.min_zero _).symm⟩]
      · have hne : ¬ (0 < size ∧ i - ptr = min (size - 1) ([] : List Char).length) := by
          simp only [List.length_nil, Nat.min_zero]
          omega
        rw [if_neg (Nat.not_lt.mpr hgt.le), Function.update_of_ne hgt.ne', truncatedString,
          if_neg (fun h => absurd h.2 (Nat.not_lt_zero _)), if_neg hne,
          Nat.add_sub_cancel' hgt.le]
    rcases size with - | - | size
    · show str i = _
      by_cases hlt : i < ptr
      · rw [if_pos hlt]
      · rw [if_neg hlt, truncatedString_zero, Nat.add_sub_cancel' (Nat.le_of_not_lt hlt)]
    · exact hend _ rfl Nat.one_pos
    · exact hend _ rfl (Nat.succ_pos _)
  | cons e emitted ih =>
    obtain ⟨he, hrest⟩ := List.forall_mem_cons.mp hplain
    have hshown : ¬ e.negative = true := Bool.eq_false_iff.mp he
    obtain ⟨str, ptr, size⟩ := out
    rw [List.foldl_cons, ih hrest, List.map_cons]
    rcases size with - | - | size
    · have hstep : putc ⟨str, ptr, 0⟩ e = ⟨str, ptr, 0⟩ := if_neg hshown
      rw [hstep]
      simp only [truncatedString_zero]
    · have hstep : putc ⟨str, ptr, 1⟩ e = ⟨Function.update str ptr '\x00', ptr + 1, 0⟩ :=
        if_neg hshown
      rw [hstep]
      simp only [truncatedString_zero]
      rcases Nat.lt_trichotomy i ptr with hlt | rfl | hgt
      · rw [if_pos (Nat.lt_succ_of_lt hlt), if_pos hlt, Function.update_of_ne hlt.ne]
      · rw [if_pos (Nat.lt_succ_self i), if_neg (Nat.lt_irrefl i), Function.update_self,
          Nat.sub_self]
        rfl
      · have hindex : ptr + 1 + (i - (ptr + 1)) = i := by omega
        have hne : ¬ (0 < 1 ∧ i - ptr = min (1 - 1) (e.byte :: emitted.map Emitted.byte).length) := by
          omega
        have hback : ptr + (i - ptr) = i := by omega
        rw [if_neg (by omega), if_neg (by omega), hindex, Function.update_of_ne hgt.ne',
          truncatedString, if_neg (fun h => absurd h.1 (Nat.not_lt_zero _)), if_neg hne, hback]
    · have hstep : putc ⟨str, ptr, size + 2⟩ e =
        ⟨Function.update str ptr e.byte, ptr + 1, size + 1⟩ :=
        if_neg hshown
      rw [hstep]
      rcases Nat.lt_trichotomy i ptr with hlt | rfl | hgt
      · simp only [if_pos (Nat.lt_succ_of_lt hlt), if_pos hlt, Function.update_of_ne hlt.ne]
      · simp only [if_pos (Nat.lt_succ_self i), if_neg (Nat.lt_irrefl i), Function.update_self,
          Nat.sub_self]
        rfl
      · obtain ⟨k, rfl⟩ : ∃ k, i = ptr + 1 + k := ⟨i - (ptr + 1), by omega⟩
        have hindex : ptr + 1 + k - (ptr + 1) = k := by omega
        have hindex' : ptr + 1 + k - ptr = k + 1 := by omega
        have hsame : (fun j => Function.update str ptr e.byte (ptr + 1 + j)) =
            fun j => str (ptr + (j + 1)) := by
          funext j
          rw [Function.update_of_ne (by omega)]
          congr 1
          omega
        simp only [if_neg (Nat.not_lt.mpr (Nat.le_add_right (ptr + 1) k)),
          if_neg (Nat.not_lt.mpr hgt.le), hindex, hindex', truncatedString_succ, hsame]

theorem size_all {emitted : List Emitted} (hplain : ∀ e ∈ emitted, e.negative = false)
    (out : SSprintf) : (emitted.foldl putc out).size = out.size - emitted.length := by
  induction emitted generalizing out with
  | nil => rfl
  | cons e emitted ih =>
    obtain ⟨he, hrest⟩ := List.forall_mem_cons.mp hplain
    have hshown : ¬ e.negative = true := Bool.eq_false_iff.mp he
    have hstep : (putc out e).size = out.size - 1 := by
      obtain ⟨str, ptr, size⟩ := out
      rcases size with - | - | size <;> exact congrArg SSprintf.size (if_neg hshown)
    rw [List.foldl_cons, ih hrest, hstep, List.length_cons]
    omega

end SSprintf

/-- The two functions differ in the floating numbers only, which libpok's has a case for. -/
theorem printfEmitter_kernel {st : Option HandleFmt} {format : List Char} {args : List PrintfArg}
    {emitted : List Emitted} (h : printfEmitter .libpok st format args = some emitted) :
    printfEmitter .kernel st format args = some emitted := by
  induction format generalizing st args emitted with
  | nil => exact h
  | cons c format ih =>
    cases st with
    | none =>
      rw [printfEmitter] at h ⊢
      split_ifs at h ⊢ with hspec
      · exact ih h
      · obtain ⟨rest, hrest, rfl⟩ := Option.map_eq_some_iff.mp h
        rw [ih hrest]
        rfl
    | some st =>
      rw [printfEmitter] at h ⊢
      cases hmodify : st.modify c with
      | some next =>
        rw [hmodify] at h
        exact ih h
      | none =>
        rw [hmodify] at h
        obtain ⟨⟨text, args'⟩, hconversion, h⟩ := Option.bind_eq_some_iff.mp h
        obtain ⟨rest, hrest, rfl⟩ := Option.map_eq_some_iff.mp h
        have hsame : st.conversion .kernel c args = some (text, args') := by
          rw [← hconversion]
          unfold HandleFmt.conversion at hconversion ⊢
          split at hconversion
          case h_7 => cases hconversion
          all_goals rfl
        dsimp only
        rw [hsame, Option.bind_some, ih hrest]
        rfl

end Chpok
