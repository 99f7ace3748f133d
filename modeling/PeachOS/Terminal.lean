import PeachOS.Video

/-! What one character does to the cursor and the buffer of the shell it is written for. -/

namespace PeachOS
open Program

/-- The position in the buffer of the cell under a cursor. -/
def Terminal.cell (cursor : Terminal) : Nat :=
  cursor.terminalRow.toNat * vgaWidth + cursor.terminalCol.toNat

def Terminal.newline (cursor : Terminal) : Terminal := ⟨cursor.terminalRow + 1, 0⟩

def Terminal.advance (cursor : Terminal) : Terminal :=
  if vgaWidth ≤ (cursor.terminalCol + 1).toNat then ⟨cursor.terminalRow + 1, 0⟩
  else ⟨cursor.terminalRow, cursor.terminalCol + 1⟩

/-- The cell that a backspace blanks. -/
def Terminal.left (cursor : Terminal) : Terminal :=
  if cursor.terminalCol = 0 then ⟨cursor.terminalRow - 1, BitVec.ofNat 16 vgaWidth - 1⟩
  else ⟨cursor.terminalRow, cursor.terminalCol - 1⟩

/-- The cursor after a backspace: one left of where the blank moved it to. -/
def Terminal.backspaced (cursor : Terminal) : Terminal :=
  ⟨cursor.left.advance.terminalRow, cursor.left.advance.terminalCol - 1⟩

def Screen.at (screen : Screen) (cursor : Terminal) : Screen :=
  { screen with terminalRow := cursor.terminalRow, terminalCol := cursor.terminalCol }

def Screen.saved (screen : Screen) (shell : Addr) : Terminal :=
  screen.terminals (screen.shellRecords shell).terminal

/-- Where a character for the shell goes: while the flag is set the saved cursor is not
looked at. -/
def Screen.cursor (screen : Screen) (shell : Addr) : Terminal :=
  if screen.backspace then ⟨screen.terminalRow, screen.terminalCol⟩ else screen.saved shell

/-- A character in one cell of the shell's buffer, and on the screen when the shell has
the foreground shell's number. -/
def Screen.put (screen : Screen) (shell : Addr) (cursor : Terminal) (c colour : Byte) : Screen :=
  let record := screen.shellRecords shell
  let buffer := Function.update (screen.videoMems record.videoMem) cursor.cell (terminalMakeChar c colour)
  { screen with
    videoMems := Function.update screen.videoMems record.videoMem buffer
    vga := if (screen.shellRecords screen.currentShell).shellId = record.shellId then
        fun cell => if cell < videoCells then buffer cell else screen.vga cell
      else screen.vga }

/-- The cursor both in the globals and in the shell's terminal. -/
def Screen.settle (screen : Screen) (shell : Addr) (cursor : Terminal) : Screen :=
  { screen.at cursor with
    terminals := Function.update screen.terminals (screen.shellRecords shell).terminal cursor }

def Screen.written (screen : Screen) (shell : Addr) (c colour : Byte) : Screen :=
  let cursor := screen.cursor shell
  if c = 10 then screen.settle shell cursor.newline
  else if c = 0x08 then
    if cursor.terminalRow = 0 ∧ cursor.terminalCol = 0 then
      { screen.settle shell cursor with backspace := true }
    else
      { (screen.put shell cursor.left 0x20 peachosColor).settle shell cursor.backspaced with
        backspace := false }
  else (screen.put shell cursor c colour).settle shell cursor.advance

theorem Screen.cursor_clear {screen : Screen} (clear : screen.backspace = false) (shell : Addr) :
    screen.cursor shell = screen.saved shell := by
  unfold Screen.cursor
  rw [clear]
  rfl

/-- The current task belongs to a process of the shell, and nothing on the way is null. -/
structure Kernel.Writes (kernel : Kernel) (shell : Addr) : Prop where
  task : kernel.currentTask ≠ 0
  process : kernel.owner ≠ 0
  owner : (kernel.processRecords kernel.owner).shell = shell
  nonnull : shell ≠ 0
  terminal : (kernel.screen.shellRecords shell).terminal ≠ 0
  videoMem : (kernel.screen.shellRecords shell).videoMem ≠ 0
  foreground : kernel.screen.currentShell ≠ 0

section Writes
variable {kernel : Kernel} {shell : Addr}

theorem Kernel.Writes.setScreen (writes : kernel.Writes shell) {screen : Screen}
    (records : screen.shellRecords = kernel.screen.shellRecords)
    (current : screen.currentShell = kernel.screen.currentShell) :
    (kernel.setScreen screen).Writes shell where
  task := writes.task
  process := writes.process
  owner := writes.owner
  nonnull := writes.nonnull
  terminal := by
    show (screen.shellRecords shell).terminal ≠ 0
    rw [records]
    exact writes.terminal
  videoMem := by
    show (screen.shellRecords shell).videoMem ≠ 0
    rw [records]
    exact writes.videoMem
  foreground := by
    show screen.currentShell ≠ 0
    rw [current]
    exact writes.foreground

theorem Kernel.Writes.shell_run (writes : kernel.Writes shell) :
    getCurrentTaskShell kernel = (.ok shell, kernel) := by
  unfold getCurrentTaskShell
  rw [read_bind, if_neg writes.task, read_bind]
  refine (congrFun (if_neg writes.process) kernel).trans ?_
  rw [read_run, ← writes.owner]
  rfl

theorem Kernel.Writes.terminal_run (writes : kernel.Writes shell) :
    getCurrentTerminal kernel = (.ok (kernel.screen.shellRecords shell).terminal, kernel) := by
  unfold getCurrentTerminal
  rw [bind_ok writes.shell_run, if_neg writes.nonnull]
  rfl

theorem Kernel.Writes.init_run (writes : kernel.Writes shell) :
    (if kernel.screen.backspace then pure () else terminalInit : KernelProg Unit) kernel =
      (.ok (), kernel.setScreen (kernel.screen.at (kernel.screen.cursor shell))) := by
  unfold Screen.cursor
  by_cases flag : kernel.screen.backspace = true
  · rw [if_pos flag, if_pos flag]
    rfl
  · rw [if_neg flag, if_neg flag]
    unfold terminalInit
    rw [bind_ok writes.terminal_run, if_neg writes.terminal]
    rfl

theorem Kernel.Writes.save_run (writes : kernel.Writes shell) (cursor : Terminal) :
    (do
      let terminal ← getCurrentTerminal
      terminalSave terminal : KernelProg Unit) (kernel.setScreen (kernel.screen.at cursor)) =
      (.ok (), kernel.setScreen (kernel.screen.settle shell cursor)) := by
  have moved : (kernel.setScreen (kernel.screen.at cursor)).Writes shell :=
    writes.setScreen rfl rfl
  rw [bind_ok moved.terminal_run]
  unfold terminalSave
  rw [if_neg moved.terminal]
  rfl

theorem Kernel.Writes.putchar_run (writes : kernel.Writes shell) (cursor : Terminal) (c colour : Byte) :
    terminalPutchar cursor.terminalCol.toNat cursor.terminalRow.toNat c colour kernel =
      (.ok (), kernel.setScreen (kernel.screen.put shell cursor c colour)) := by
  unfold terminalPutchar
  rw [bind_ok writes.shell_run, if_neg writes.nonnull, read_bind, if_neg writes.videoMem]
  unfold Kernel.updateScreen
  rw [update_bind, read_bind]
  refine (congrFun (if_neg writes.foreground) _).trans ?_
  rw [read_bind]
  unfold Screen.put
  dsimp only
  by_cases same : (kernel.screen.shellRecords kernel.screen.currentShell).shellId =
      (kernel.screen.shellRecords shell).shellId
  · rw [if_pos same]
    refine (congrFun (if_pos same) _).trans ?_
    rw [update_run]
    simp only [Kernel.setScreen, Screen.show, Function.update_self]
    rfl
  · rw [if_neg same]
    exact (congrFun (if_neg same) _).trans rfl

theorem Kernel.Writes.newline_run (writes : kernel.Writes shell) (backspace : KernelProg Unit)
    (colour : Byte) : terminalWritecharWith backspace 10 colour kernel =
      (.ok (), kernel.setScreen (kernel.screen.settle shell (kernel.screen.cursor shell).newline)) := by
  unfold terminalWritecharWith Kernel.updateScreen
  rw [read_bind, bind_ok writes.init_run, if_pos rfl, update_bind]
  exact writes.save_run (kernel.screen.cursor shell).newline

theorem Kernel.Writes.glyph_run (writes : kernel.Writes shell) (backspace : KernelProg Unit)
    {c : Byte} (colour : Byte) (notNewline : c ≠ 10) (notBackspace : c ≠ 0x08) :
    terminalWritecharWith backspace c colour kernel = (.ok (), kernel.setScreen
      ((kernel.screen.put shell (kernel.screen.cursor shell) c colour).settle shell
        (kernel.screen.cursor shell).advance)) := by
  have moved : (kernel.setScreen (kernel.screen.at (kernel.screen.cursor shell))).Writes shell :=
    writes.setScreen rfl rfl
  have put := moved.putchar_run (kernel.screen.cursor shell) c colour
  have stored : (kernel.setScreen (kernel.screen.put shell (kernel.screen.cursor shell) c colour)).Writes
      shell := writes.setScreen rfl rfl
  unfold terminalWritecharWith
  rw [read_bind, bind_ok writes.init_run, if_neg notNewline, if_neg notBackspace, read_bind]
  refine (bind_ok put).trans ?_
  unfold Kernel.updateScreen
  rw [update_bind]
  have advanced := stored.save_run (kernel.screen.cursor shell).advance
  unfold Terminal.advance at advanced ⊢
  by_cases full : vgaWidth ≤ ((kernel.screen.cursor shell).terminalCol + 1).toNat
  · rw [if_pos full] at advanced ⊢
    refine Eq.trans (congrArg _ ?_) advanced
    exact congrArg _ (if_pos full)
  · rw [if_neg full] at advanced ⊢
    refine Eq.trans (congrArg _ ?_) advanced
    exact congrArg _ (if_neg full)

/-- The body of `terminal_backspace`, from the state that the start of `terminal_writechar`
leaves. -/
theorem Kernel.Writes.backspace_run (writes : kernel.Writes shell) (inner : KernelProg Unit)
    (cursor : Terminal) : terminalBackspace (terminalWritecharWith inner)
      (kernel.setScreen (kernel.screen.at cursor)) = (.ok (), kernel.setScreen
      (if cursor.terminalRow = 0 ∧ cursor.terminalCol = 0 then
        { kernel.screen.at cursor with backspace := true }
      else { ((kernel.screen.put shell cursor.left 0x20 peachosColor).settle shell cursor.left.advance).at
          cursor.backspaced with backspace := false })) := by
  unfold terminalBackspace Kernel.updateScreen
  rw [update_bind, read_bind]
  by_cases origin : cursor.terminalRow = 0 ∧ cursor.terminalCol = 0
  · rw [if_pos origin]
    exact congrFun (if_pos origin) _
  · rw [if_neg origin]
    refine (congrFun (if_neg origin) _).trans ?_
    -- the flag makes the blank go where the globals point
    have place : ({ kernel.screen.at cursor with backspace := true } : Screen).wrapLeft.stepLeft =
        { kernel.screen.at cursor.left with backspace := true } := by
      unfold Terminal.left
      by_cases first : cursor.terminalCol = 0
      · rw [if_pos first]
        exact congrArg Screen.stepLeft (if_pos first)
      · rw [if_neg first]
        exact congrArg Screen.stepLeft (if_neg first)
    have ready : (kernel.setScreen { kernel.screen.at cursor.left with backspace := true }).Writes
        shell := writes.setScreen rfl rfl
    have blank := ready.glyph_run inner peachosColor (by decide : (0x20 : Byte) ≠ 10) (by decide)
    rw [update_bind, update_bind]
    dsimp only [Kernel.setScreen] at blank ⊢
    rw [place, bind_ok blank]
    rfl

theorem Kernel.Writes.run (writes : kernel.Writes shell) (c colour : Byte) :
    terminalWritechar c colour kernel =
      (.ok (), kernel.setScreen (kernel.screen.written shell c colour)) := by
  unfold terminalWritechar Screen.written
  by_cases newline : c = 10
  · rw [newline]
    exact writes.newline_run _ colour
  · by_cases back : c = 0x08
    · have body := writes.backspace_run fault (kernel.screen.cursor shell)
      unfold terminalWritecharWith at body ⊢
      dsimp only
      rw [if_neg newline, if_pos back, read_bind, bind_ok writes.init_run, if_neg newline, if_pos back,
        bind_ok body]
      by_cases origin : (kernel.screen.cursor shell).terminalRow = 0 ∧
          (kernel.screen.cursor shell).terminalCol = 0
      · rw [if_pos origin, if_pos origin]
        have flagged : (kernel.setScreen { kernel.screen with backspace := true }).Writes shell :=
          writes.setScreen rfl rfl
        exact flagged.save_run (kernel.screen.cursor shell)
      · rw [if_neg origin, if_neg origin]
        let blanked := (kernel.screen.put shell (kernel.screen.cursor shell).left 0x20 peachosColor).settle
          shell (kernel.screen.cursor shell).left.advance
        have cleared : (kernel.setScreen { blanked with backspace := false }).Writes shell :=
          writes.setScreen rfl rfl
        refine (cleared.save_run (kernel.screen.cursor shell).backspaced).trans ?_
        simp only [blanked, Kernel.setScreen, Screen.settle, Screen.at, Function.update_idem]
    · dsimp only
      rw [if_neg newline, if_neg back]
      exact writes.glyph_run _ colour newline back

end Writes

end PeachOS
