import PeachOS.TerminalLayout

/-! A backspace right after a character. -/

namespace PeachOS
open Program Transition

/-- A character and a backspace leave the saved cursor where it was, its cell blank, and every other cell. -/
def Kernel.Erases (kernel : Kernel) (shell : Addr) (c colour back : Byte) : Prop :=
  ∃ middle after, terminalWritechar c colour kernel = (.ok (), middle) ∧
    terminalWritechar 0x08 back middle = (.ok (), after) ∧
    after.screen.saved shell = kernel.screen.saved shell ∧
    (after.screen.view shell).cells = Function.update (kernel.screen.view shell).cells
      (kernel.screen.saved shell).cell (terminalMakeChar 0x20 peachosColor) ∧
    ∀ buffer, buffer ≠ (kernel.screen.shellRecords shell).videoMem →
      after.screen.videoMems buffer = kernel.screen.videoMems buffer

/-- A character by a task of any shell, or a switch to another task. -/
def OutputStep (allowed : Terminal → Byte → Prop) (before after : Kernel) : Prop :=
  ∃ shell, WriteStep allowed shell before after

section Cursor
variable {cursor saved : Terminal}

theorem Terminal.advance_col (cursor : Terminal) : cursor.advance.terminalCol.toNat < vgaWidth := by
  unfold Terminal.advance
  split
  · exact (by decide : (0 : HalfWord).toNat < 80)
  next room => exact not_le.mp room

/-- A backspace takes the cursor back over a character, save when the character has wrapped it into the next row. -/
theorem Terminal.InGrid.erased_iff (inside : saved.InGrid) :
    cursor.advance.backspaced = saved ↔ cursor = saved ∧ saved.terminalCol.toNat ≠ 79 := by
  have col := inside.col
  unfold vgaWidth at col
  by_cases full : vgaWidth ≤ (cursor.terminalCol + 1).toNat
  · have wrapped : cursor.advance = ⟨cursor.terminalRow + 1, 0⟩ := if_pos full
    rw [wrapped]
    refine iff_of_false (inside.not_first rfl) (fun ⟨same, notLast⟩ => ?_)
    rw [same] at full
    unfold vgaWidth at full
    bv_omega
  · have moved : cursor.advance = ⟨cursor.terminalRow, cursor.terminalCol + 1⟩ := if_neg full
    have room : (cursor.terminalCol + 1).toNat < vgaWidth := not_le.mp full
    rw [moved]
    by_cases first : cursor.terminalCol + 1 = 0
    · refine iff_of_false (inside.not_first first) (fun ⟨same, _⟩ => ?_)
      rw [same] at first
      bv_omega
    · have next : (⟨cursor.terminalRow, cursor.terminalCol + 1⟩ : Terminal).terminalCol ≠ 0 := first
      obtain ⟨left, back⟩ := Terminal.backspaced_of_later next room
      have start : cursor.terminalCol + 1 - 1 = cursor.terminalCol := by bv_omega
      rw [back, left, start]
      refine ⟨fun same => ⟨same, ?_⟩, And.left⟩
      rw [← same] at col ⊢
      unfold vgaWidth at room
      dsimp only at col ⊢
      bv_omega

theorem Terminal.cell_of_origin (origin : cursor.advance.terminalRow = 0 ∧ cursor.advance.terminalCol = 0) :
    cursor.cell ≠ 0 := by
  unfold Terminal.advance vgaWidth at origin
  unfold Terminal.cell vgaWidth
  split at origin
  · dsimp only at origin
    bv_omega
  · dsimp only at origin
    bv_omega

end Cursor

section Erase
variable {kernel : Kernel} {shell : Addr}

theorem Printable.glyph {c : Byte} (printable : Printable c) : c ≠ 10 ∧ c ≠ 0x08 := by
  obtain ⟨low, high⟩ := printable
  constructor <;> bv_omega

def Screen.erased (screen : Screen) (shell : Addr) (c colour back : Byte) : Screen :=
  (screen.written shell c colour).written shell 0x08 back

theorem Kernel.Writes.erase_run (writes : kernel.Writes shell) (c colour back : Byte) :
    ∃ middle, terminalWritechar c colour kernel = (.ok (), middle) ∧
      terminalWritechar 0x08 back middle = (.ok (), kernel.setScreen (kernel.screen.erased shell c colour back)) := by
  obtain ⟨records, current⟩ := kernel.screen.written_kept shell c colour
  exact ⟨_, writes.run c colour, (writes.setScreen records current).run 0x08 back⟩

theorem Kernel.Writes.erases_iff (writes : kernel.Writes shell) (c colour back : Byte) :
    kernel.Erases shell c colour back ↔
      (kernel.screen.erased shell c colour back).saved shell = kernel.screen.saved shell ∧
      ((kernel.screen.erased shell c colour back).view shell).cells = Function.update (kernel.screen.view shell).cells
        (kernel.screen.saved shell).cell (terminalMakeChar 0x20 peachosColor) ∧
      ∀ buffer, buffer ≠ (kernel.screen.shellRecords shell).videoMem →
        (kernel.screen.erased shell c colour back).videoMems buffer = kernel.screen.videoMems buffer := by
  obtain ⟨middle, first, second⟩ := writes.erase_run c colour back
  constructor
  · rintro ⟨middle', after, first', second', outcome⟩
    rw [first, Prod.mk.injEq] at first'
    obtain ⟨-, rfl⟩ := first'
    rw [second, Prod.mk.injEq] at second'
    obtain ⟨-, rfl⟩ := second'
    exact outcome
  · intro outcome
    exact ⟨middle, _, first, second, outcome⟩

theorem Screen.erased_view (screen : Screen) (shell : Addr) (c colour back : Byte) :
    (screen.erased shell c colour back).view shell =
      (View.write ⟨screen.cursor shell, (screen.view shell).cells⟩ ⟨0, c, colour⟩).write ⟨0, 0x08, back⟩ := by
  have settled := screen.written_settled shell c colour
  have first := screen.view_written shell ⟨0, c, colour⟩
  have second := Screen.view_own (settled.2.trans settled.1.symm) ⟨0, 0x08, back⟩
  rw [← first]
  exact second

theorem Screen.erased_other (screen : Screen) (shell : Addr) (c colour back : Byte) {buffer : Addr}
    (other : buffer ≠ (screen.shellRecords shell).videoMem) :
    (screen.erased shell c colour back).videoMems buffer = screen.videoMems buffer := by
  have records := (screen.written_kept shell c colour).1
  unfold Screen.erased
  rw [Screen.written_eq (screen.written shell c colour)]
  refine (Screen.drawn_other _ shell 0x08 back (by rw [records]; exact other)).trans ?_
  rw [Screen.written_eq]
  exact screen.drawn_other shell c colour other

theorem View.write_glyph (view : View) {c : Byte} (glyph : c ≠ 10 ∧ c ≠ 0x08) (colour : Byte) :
    view.write ⟨0, c, colour⟩ = ⟨view.cursor.advance, view.put view.cursor c colour⟩ := by
  have next : view.cursor.next c = view.cursor.advance := (if_neg glyph.1).trans (if_neg glyph.2)
  unfold View.write
  dsimp only
  rw [next, if_neg glyph.1, if_neg glyph.2]

theorem View.write_backspace (view : View) (back : Byte) : view.write ⟨0, 0x08, back⟩ =
    if view.cursor.terminalRow = 0 ∧ view.cursor.terminalCol = 0 then view
    else ⟨view.cursor.backspaced, view.put view.cursor.left 0x20 peachosColor⟩ := by
  have other : (0x08 : Byte) ≠ 10 := by decide
  unfold View.write Terminal.next
  dsimp only
  rw [if_neg other, if_pos rfl, if_neg other, if_pos rfl]
  by_cases origin : view.cursor.terminalRow = 0 ∧ view.cursor.terminalCol = 0
  · rw [if_pos origin, if_pos origin, if_pos origin]
  · rw [if_neg origin, if_neg origin, if_neg origin]

theorem Kernel.Writes.erases (writes : kernel.Writes shell) (inside : (kernel.screen.saved shell).InGrid)
    (same : kernel.screen.cursor shell = kernel.screen.saved shell)
    (notLast : (kernel.screen.saved shell).terminalCol.toNat ≠ 79) {c : Byte} (printable : Printable c)
    (colour back : Byte) : kernel.Erases shell c colour back := by
  have view := kernel.screen.erased_view shell c colour back
  rw [View.write_glyph _ printable.glyph, View.write_backspace, same] at view
  have erased : (kernel.screen.saved shell).advance.backspaced = kernel.screen.saved shell :=
    inside.erased_iff.mpr ⟨rfl, notLast⟩
  have later : (kernel.screen.saved shell).advance.terminalCol ≠ 0 := fun first => inside.not_first first erased
  have left := (Terminal.backspaced_of_later later (Terminal.advance_col _)).2.symm.trans erased
  rw [if_neg (fun origin => later origin.2), erased] at view
  refine (writes.erases_iff c colour back).mpr ⟨congrArg View.cursor view, ?_, fun buffer other => ?_⟩
  · rw [congrArg View.cells view]
    unfold View.put
    dsimp only
    rw [left, Function.update_idem]
  · exact kernel.screen.erased_other shell c colour back other

/-- From the upper left corner the backspace blanks nothing: a character that has wrapped there has to have been
in its cell before. -/
theorem Kernel.Writes.kept_of_origin (writes : kernel.Writes shell) {c colour back : Byte} (printable : Printable c)
    (origin : (kernel.screen.cursor shell).advance.terminalRow = 0 ∧
      (kernel.screen.cursor shell).advance.terminalCol = 0) (erases : kernel.Erases shell c colour back) :
    (kernel.screen.view shell).cells (kernel.screen.cursor shell).cell = terminalMakeChar c colour := by
  have view := kernel.screen.erased_view shell c colour back
  rw [View.write_glyph _ printable.glyph, View.write_backspace, if_pos origin] at view
  obtain ⟨cursor, cells, -⟩ := (writes.erases_iff c colour back).mp erases
  have first : (kernel.screen.saved shell).cell = 0 := by
    rw [← cursor, show (kernel.screen.erased shell c colour back).saved shell = _ from congrArg View.cursor view]
    unfold Terminal.cell
    rw [origin.1, origin.2]
    rfl
  have away : (kernel.screen.cursor shell).cell ≠ (kernel.screen.saved shell).cell := by
    rw [first]
    exact Terminal.cell_of_origin origin
  have here := congrFun (cells.symm.trans (congrArg View.cells view)) (kernel.screen.cursor shell).cell
  rw [Function.update_of_ne away] at here
  exact here.trans (Function.update_self _ _ _)

/-- When the backspace takes every character back, the shell writes at its saved cursor, and not in the last column. -/
theorem Kernel.Writes.of_erases (writes : kernel.Writes shell) (inside : (kernel.screen.saved shell).InGrid)
    (erases : ∀ c colour back, Printable c → kernel.Erases shell c colour back) :
    kernel.screen.cursor shell = kernel.screen.saved shell ∧ (kernel.screen.saved shell).terminalCol.toNat ≠ 79 := by
  have letters : Printable 97 ∧ Printable 98 := by
    unfold Printable
    decide
  have erasesA := erases 97 peachosColor 0 letters.1
  have erasesB := erases 98 peachosColor 0 letters.2
  by_cases origin : (kernel.screen.cursor shell).advance.terminalRow = 0 ∧
      (kernel.screen.cursor shell).advance.terminalCol = 0
  · have both := (writes.kept_of_origin letters.1 origin erasesA).symm.trans
      (writes.kept_of_origin letters.2 origin erasesB)
    exact absurd both (by decide)
  · have view := kernel.screen.erased_view shell 97 peachosColor 0
    rw [View.write_glyph _ letters.1.glyph, View.write_backspace, if_neg origin] at view
    have cursor := ((writes.erases_iff 97 peachosColor 0).mp erasesA).1
    exact inside.erased_iff.mp ((congrArg View.cursor view).symm.trans cursor)

end Erase

theorem OutputStep.clear {before after : Kernel}
    (step : OutputStep (fun cursor c => ¬(c = 0x08 ∧ cursor = ⟨0, 0⟩)) before after)
    (clear : before.screen.backspace = false) : after.screen.backspace = false := by
  obtain ⟨shell, step⟩ := step
  cases step with
  | write c colour writes fits run =>
    rw [writes.ok run]
    by_cases back : c = 0x08
    · rw [Screen.written_eq]
      refine (if_pos back).trans (decide_eq_false (fun origin => fits ⟨back, ?_⟩))
      cases cursor : before.screen.cursor shell
      rw [cursor] at origin
      rw [Terminal.mk.injEq]
      exact origin
    · exact before.screen.written_clear shell c colour clear back
  | run task run =>
    rw [(taskSwitch_kept run).1]
    exact clear

theorem twoShells_types (allowed : Terminal → Byte → Prop) (letters : ∀ cursor, allowed cursor 97) (n : Nat)
    (inside : n ≤ 79) : ∃ last : Kernel, Run (OutputStep allowed) twoShells last ∧
      last.Writes 0x902000 ∧ last.screen.backspace = false ∧ last.screen.saved 0x902000 = ⟨0, BitVec.ofNat 16 n⟩ := by
  induction n with
  | zero => exact ⟨twoShells, Relation.ReflTransGen.refl, twoShells_writes, rfl, rfl⟩
  | succ n ih =>
    obtain ⟨last, run, writes, clear, saved⟩ := ih (by omega)
    obtain ⟨records, current⟩ := last.screen.written_kept 0x902000 97 peachosColor
    refine ⟨_, run.tail ⟨_, WriteStep.write 97 peachosColor writes (letters _) (writes.run 97 peachosColor)⟩,
      writes.setScreen records current, last.screen.written_clear _ _ _ clear (by decide), ?_⟩
    have room : ¬vgaWidth ≤ (BitVec.ofNat 16 n + 1 : HalfWord).toNat := by
      unfold vgaWidth
      bv_omega
    have next : (BitVec.ofNat 16 n + 1 : HalfWord) = BitVec.ofNat 16 (n + 1) := by bv_omega
    show (last.screen.written 0x902000 97 peachosColor).saved 0x902000 = _
    rw [(last.screen.written_settled 0x902000 97 peachosColor).1, Screen.cursor_clear clear, saved]
    show (⟨0, BitVec.ofNat 16 n⟩ : Terminal).advance = _
    unfold Terminal.advance
    dsimp only
    rw [if_neg room, next]

/-- A backspace takes back every character if and only if the shell writes at its saved cursor, and not in the
last column; the shells do write there as long as none of them writes a backspace in the upper left corner. -/
theorem terminal_erases {kernel : Kernel} {shell : Addr} (writes : kernel.Writes shell)
    (inside : (kernel.screen.saved shell).InGrid) :
    ((∀ c colour back, Printable c → kernel.Erases shell c colour back) ↔
      kernel.screen.cursor shell = kernel.screen.saved shell ∧
        (kernel.screen.saved shell).terminalCol.toNat ≠ 79) ∧
    ∀ start : Kernel, start.screen.backspace = false →
      Run (OutputStep (fun cursor c => ¬(c = 0x08 ∧ cursor = ⟨0, 0⟩))) start kernel →
      ((∀ c colour back, Printable c → kernel.Erases shell c colour back) ↔
        (kernel.screen.saved shell).terminalCol.toNat ≠ 79) := by
  have exactly : (∀ c colour back, Printable c → kernel.Erases shell c colour back) ↔
      kernel.screen.cursor shell = kernel.screen.saved shell ∧
        (kernel.screen.saved shell).terminalCol.toNat ≠ 79 := by
    constructor
    · exact writes.of_erases inside
    · intro ⟨same, notLast⟩ c colour back printable
      exact writes.erases inside same notLast printable colour back
  refine ⟨exactly, fun start clear run => exactly.trans (and_iff_right ?_)⟩
  exact Screen.cursor_clear (run.invariant (fun kernel => kernel.screen.backspace = false)
    (fun _ _ held step => step.clear held) clear) shell

/-- Three letters are written, and every further one can be taken back. -/
theorem terminal_erases_letter : ∃ last : Kernel,
    Run (OutputStep (fun cursor c => ¬(c = 0x08 ∧ cursor = ⟨0, 0⟩))) twoShells last ∧
      last.screen.saved 0x902000 = ⟨0, 3⟩ ∧
      ∀ c colour back, Printable c → last.Erases 0x902000 c colour back := by
  obtain ⟨last, run, writes, _, saved⟩ := twoShells_types (fun cursor c => ¬(c = 0x08 ∧ cursor = ⟨0, 0⟩))
    (fun _ both => absurd both.1 (by decide)) 3 (by decide)
  have inside : (last.screen.saved 0x902000).InGrid := by
    rw [saved]
    exact ⟨by decide, by decide⟩
  refine ⟨last, run, saved, ((terminal_erases writes inside).2 twoShells rfl run).mpr ?_⟩
  rw [saved]
  decide

/-- In the last column the backspace does not take a letter back: the cursor ends up in column 65535 of the next row. -/
theorem terminal_erase_wraps : ¬∀ (start last : Kernel) (shell : Addr), start.screen.saved shell = ⟨0, 0⟩ →
    start.screen.backspace = false → Run (OutputStep (fun _ _ => True)) start last → last.Writes shell →
      (last.screen.saved shell).InGrid → last.screen.saved shell ≠ ⟨24, 79⟩ →
        ∀ c colour back, Printable c → last.Erases shell c colour back := by
  intro always
  obtain ⟨last, run, writes, clear, saved⟩ := twoShells_types (fun _ _ => True) (fun _ => trivial) 79 (Nat.le_refl _)
  have inside : (last.screen.saved 0x902000).InGrid := by
    rw [saved]
    exact ⟨by decide, by decide⟩
  have notLast : last.screen.saved 0x902000 ≠ ⟨24, 79⟩ := by
    rw [saved, ne_eq, Terminal.mk.injEq]
    decide
  have erases := always twoShells last 0x902000 rfl rfl run writes inside notLast
  have column := (writes.of_erases inside erases).2
  rw [saved] at column
  exact absurd column (by decide)

end PeachOS
