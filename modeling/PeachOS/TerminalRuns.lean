import PeachOS.HeapRoom
import PeachOS.Terminal

/-! Terminals over any number of characters: where the cursor of one shell gets to, and
what the shells' tasks see of each other. -/

namespace PeachOS
open Program Transition

structure Terminal.InGrid (cursor : Terminal) : Prop where
  row : cursor.terminalRow.toNat < vgaHeight
  col : cursor.terminalCol.toNat < vgaWidth

def Terminal.next (cursor : Terminal) (c : Byte) : Terminal :=
  if c = 10 then cursor.newline
  else if c = 0x08 then
    if cursor.terminalRow = 0 ∧ cursor.terminalCol = 0 then cursor else cursor.backspaced
  else cursor.advance

/-- No newline in the last row, no backspace at the start of a row but the first, no
other character in the last cell. -/
def Terminal.Fits (cursor : Terminal) (c : Byte) : Prop :=
  if c = 10 then cursor.terminalRow.toNat + 1 < vgaHeight
  else if c = 0x08 then cursor.terminalCol = 0 → cursor.terminalRow = 0
  else cursor.terminalRow.toNat + 1 < vgaHeight ∨ cursor.terminalCol.toNat + 1 < vgaWidth

section Grid
variable {cursor saved : Terminal}

theorem Terminal.InGrid.newline_iff (inside : cursor.InGrid) :
    cursor.newline.InGrid ↔ cursor.terminalRow.toNat + 1 < vgaHeight := by
  have row := inside.row
  have next : (cursor.terminalRow + 1).toNat = cursor.terminalRow.toNat + 1 := by
    unfold vgaHeight at row
    bv_omega
  constructor
  · intro outcome
    rw [← next]
    exact outcome.row
  · intro room
    exact ⟨by rw [← next] at room; exact room, (by decide : (0 : HalfWord).toNat < 80)⟩

theorem Terminal.InGrid.advance_iff (inside : cursor.InGrid) : cursor.advance.InGrid ↔
    cursor.terminalRow.toNat + 1 < vgaHeight ∨ cursor.terminalCol.toNat + 1 < vgaWidth := by
  have col := inside.col
  have next : (cursor.terminalCol + 1).toNat = cursor.terminalCol.toNat + 1 := by
    unfold vgaWidth at col
    bv_omega
  unfold Terminal.advance
  rw [next]
  by_cases full : vgaWidth ≤ cursor.terminalCol.toNat + 1
  · rw [if_pos full]
    exact inside.newline_iff.trans (or_iff_left (not_lt.mpr full)).symm
  · rw [if_neg full]
    have room : cursor.terminalCol.toNat + 1 < vgaWidth := by omega
    exact iff_of_true ⟨inside.row, by rw [next]; exact room⟩ (Or.inr room)

theorem Terminal.InGrid.left (inside : cursor.InGrid)
    (notOrigin : ¬(cursor.terminalRow = 0 ∧ cursor.terminalCol = 0)) : cursor.left.InGrid := by
  obtain ⟨row, col⟩ := inside
  unfold vgaHeight at row
  unfold vgaWidth at col
  unfold Terminal.left
  by_cases first : cursor.terminalCol = 0
  · rw [if_pos first]
    have above : cursor.terminalRow ≠ 0 := fun top => notOrigin ⟨top, first⟩
    refine ⟨?_, (by decide : (BitVec.ofNat 16 vgaWidth - 1 : HalfWord).toNat < 80)⟩
    show (cursor.terminalRow - 1).toNat < 25
    bv_omega
  · rw [if_neg first]
    refine ⟨row, ?_⟩
    show (cursor.terminalCol - 1).toNat < 80
    bv_omega

theorem Terminal.InGrid.not_first (inside : saved.InGrid) (first : cursor.terminalCol = 0) :
    cursor.backspaced ≠ saved := by
  have wraps : (⟨cursor.terminalRow - 1, BitVec.ofNat 16 vgaWidth - 1⟩ : Terminal).advance =
      ⟨cursor.terminalRow - 1 + 1, 0⟩ :=
    if_pos (by decide : vgaWidth ≤ (BitVec.ofNat 16 vgaWidth - 1 + 1 : HalfWord).toNat)
  have col := inside.col
  unfold Terminal.backspaced Terminal.left
  rw [if_pos first, wraps]
  rintro rfl
  exact absurd col (by decide : ¬(0 - 1 : HalfWord).toNat < 80)

theorem Terminal.backspaced_of_later (later : cursor.terminalCol ≠ 0) (inside : cursor.terminalCol.toNat < vgaWidth) :
    cursor.left = ⟨cursor.terminalRow, cursor.terminalCol - 1⟩ ∧ cursor.backspaced = cursor.left := by
  have left : cursor.left = ⟨cursor.terminalRow, cursor.terminalCol - 1⟩ := if_neg later
  have back : cursor.terminalCol - 1 + 1 = cursor.terminalCol := by bv_omega
  have stays : cursor.left.advance = ⟨cursor.terminalRow, cursor.terminalCol - 1 + 1⟩ := by
    rw [left]
    refine if_neg ?_
    rw [back]
    exact not_le.mpr inside
  refine ⟨left, ?_⟩
  unfold Terminal.backspaced
  rw [stays, left, back]

/-- The blank moves the cursor back to where the backspace started, and from the first
column the last step left wraps around. -/
theorem Terminal.InGrid.backspaced_iff (inside : cursor.InGrid)
    (notOrigin : ¬(cursor.terminalRow = 0 ∧ cursor.terminalCol = 0)) :
    cursor.backspaced.InGrid ↔ cursor.terminalCol ≠ 0 := by
  by_cases first : cursor.terminalCol = 0
  · exact iff_of_false (fun outcome => outcome.not_first first rfl) (not_not.mpr first)
  · have back := (Terminal.backspaced_of_later first inside.col).2
    rw [back]
    exact iff_of_true (inside.left notOrigin) first

theorem Terminal.InGrid.next_iff (inside : cursor.InGrid) (c : Byte) :
    (cursor.next c).InGrid ↔ cursor.Fits c := by
  unfold Terminal.next Terminal.Fits
  by_cases newline : c = 10
  · rw [if_pos newline, if_pos newline]
    exact inside.newline_iff
  · rw [if_neg newline, if_neg newline]
    by_cases back : c = 0x08
    · rw [if_pos back, if_pos back]
      by_cases origin : cursor.terminalRow = 0 ∧ cursor.terminalCol = 0
      · rw [if_pos origin]
        exact iff_of_true inside (fun _ => origin.1)
      · rw [if_neg origin, inside.backspaced_iff origin]
        constructor
        · exact fun other first => absurd first other
        · exact fun top first => origin ⟨top first, first⟩
    · rw [if_neg back, if_neg back]
      exact inside.advance_iff

end Grid

/-- The cells that a character changes, with the screen when the shell is in front. -/
def Screen.drawn (screen : Screen) (shell : Addr) (c colour : Byte) : Screen :=
  let cursor := screen.cursor shell
  if c = 10 then screen
  else if c = 0x08 then
    if cursor.terminalRow = 0 ∧ cursor.terminalCol = 0 then screen
    else screen.put shell cursor.left 0x20 peachosColor
  else screen.put shell cursor c colour

/-- The flag after a character: only a backspace sets or clears it. -/
def Screen.flagged (screen : Screen) (shell : Addr) (c : Byte) : Bool :=
  let cursor := screen.cursor shell
  if c = 0x08 then decide (cursor.terminalRow = 0 ∧ cursor.terminalCol = 0) else screen.backspace

section Written
variable (screen : Screen) (shell : Addr) (c colour : Byte)

theorem Screen.written_eq : screen.written shell c colour =
    { (screen.drawn shell c colour).settle shell ((screen.cursor shell).next c) with
      backspace := screen.flagged shell c } := by
  unfold Screen.written Screen.drawn Screen.flagged Terminal.next
  generalize screen.cursor shell = cursor
  dsimp only
  by_cases newline : c = 10
  · subst newline
    rfl
  · by_cases back : c = 0x08
    · subst back
      by_cases origin : cursor.terminalRow = 0 ∧ cursor.terminalCol = 0
      · rw [if_neg newline, if_pos rfl, if_pos origin, if_neg newline, if_pos rfl, if_pos origin,
          if_neg newline, if_pos rfl, if_pos origin, if_pos rfl, decide_eq_true origin]
      · rw [if_neg newline, if_pos rfl, if_neg origin, if_neg newline, if_pos rfl, if_neg origin,
          if_neg newline, if_pos rfl, if_neg origin, if_pos rfl, decide_eq_false origin]
    · rw [if_neg newline, if_neg back, if_neg newline, if_neg back, if_neg newline, if_neg back,
        if_neg back]
      rfl

theorem Screen.drawn_kept : (screen.drawn shell c colour).shellRecords = screen.shellRecords ∧
    (screen.drawn shell c colour).terminals = screen.terminals ∧
    (screen.drawn shell c colour).currentShell = screen.currentShell := by
  unfold Screen.drawn
  dsimp only
  split
  · exact ⟨rfl, rfl, rfl⟩
  · split
    · split <;> exact ⟨rfl, rfl, rfl⟩
    · exact ⟨rfl, rfl, rfl⟩

theorem Screen.written_settled :
    (screen.written shell c colour).saved shell = (screen.cursor shell).next c ∧
      (screen.written shell c colour).cursor shell = (screen.cursor shell).next c := by
  have saved : (screen.written shell c colour).saved shell = (screen.cursor shell).next c := by
    rw [Screen.written_eq]
    exact Function.update_self _ _ _
  refine ⟨saved, ?_⟩
  unfold Screen.cursor at *
  rw [saved, Screen.written_eq]
  exact ite_self _

theorem Screen.written_clear (clear : screen.backspace = false) (other : c ≠ 0x08) :
    (screen.written shell c colour).backspace = false := by
  rw [Screen.written_eq]
  exact (if_neg other).trans clear

theorem Screen.put_cells (cursor : Terminal) {buffer : Addr} {cell : Nat}
    (changed : (screen.put shell cursor c colour).videoMems buffer cell ≠ screen.videoMems buffer cell) :
    buffer = (screen.shellRecords shell).videoMem ∧ cell = cursor.cell := by
  unfold Screen.put at changed
  dsimp only at changed
  by_cases own : buffer = (screen.shellRecords shell).videoMem
  · refine ⟨own, ?_⟩
    by_contra other
    rw [own, Function.update_self, Function.update_of_ne other] at changed
    exact changed rfl
  · rw [Function.update_of_ne own] at changed
    exact absurd rfl changed

theorem Screen.drawn_cells (inside : (screen.cursor shell).InGrid) {buffer : Addr} {cell : Nat}
    (changed : (screen.drawn shell c colour).videoMems buffer cell ≠ screen.videoMems buffer cell) :
    buffer = (screen.shellRecords shell).videoMem ∧
      ∃ row < vgaHeight, ∃ col < vgaWidth, cell = row * vgaWidth + col := by
  unfold Screen.drawn at changed
  dsimp only at changed
  split at changed
  · exact absurd rfl changed
  · split at changed
    · split at changed
      · exact absurd rfl changed
      next notOrigin =>
        obtain ⟨own, place⟩ := Screen.put_cells _ _ _ _ _ changed
        have left := inside.left notOrigin
        exact ⟨own, _, left.row, _, left.col, place⟩
    · obtain ⟨own, place⟩ := Screen.put_cells _ _ _ _ _ changed
      exact ⟨own, _, inside.row, _, inside.col, place⟩

end Written

/-- A character by a task of the shell, when `allowed`, or a switch to another task. -/
inductive WriteStep (allowed : Terminal → Byte → Prop) (shell : Addr) : Kernel → Kernel → Prop
  | write {kernel after : Kernel} (c colour : Byte) (writes : kernel.Writes shell)
      (fits : allowed (kernel.screen.cursor shell) c)
      (run : terminalWritechar c colour kernel = (.ok (), after)) :
      WriteStep allowed shell kernel after
  | run {kernel after : Kernel} (task : Addr) (run : taskSwitch task kernel = (.ok (), after)) :
      WriteStep allowed shell kernel after

theorem Kernel.Writes.ok {kernel after : Kernel} {shell : Addr} (writes : kernel.Writes shell)
    {c colour : Byte} (run : terminalWritechar c colour kernel = (.ok (), after)) :
    after.screen = kernel.screen.written shell c colour := by
  rw [writes.run, Prod.mk.injEq] at run
  rw [← run.2]
  rfl

/-- The cursor that the next character goes to is the saved one, and lies in the grid. -/
structure Screen.Steady (screen : Screen) (shell : Addr) : Prop where
  same : screen.cursor shell = screen.saved shell
  inside : (screen.saved shell).InGrid

theorem WriteStep.steady {before after : Kernel} {shell : Addr}
    (step : WriteStep Terminal.Fits shell before after) (steady : before.screen.Steady shell) :
    after.screen.Steady shell := by
  cases step with
  | write c colour writes fits run =>
    have inside : (before.screen.cursor shell).InGrid := steady.same ▸ steady.inside
    obtain ⟨saved, cursor⟩ := before.screen.written_settled shell c colour
    rw [writes.ok run]
    exact ⟨cursor.trans saved.symm, saved ▸ (inside.next_iff c).mpr fits⟩
  | run task run =>
    rw [(taskSwitch_kept run).1]
    exact steady

/-- From the upper left corner the cursor stays in the grid as long as every character
fits, and then each character changes cells of the grid only; the cursor leaves the grid
with the first one that does not fit. -/
theorem terminal_inGrid {start last : Kernel} {shell : Addr}
    (saved : start.screen.saved shell = ⟨0, 0⟩) (cursor : start.screen.cursor shell = ⟨0, 0⟩)
    (run : Run (WriteStep Terminal.Fits shell) start last) :
    (last.screen.saved shell).InGrid ∧
    ∀ c colour after, last.Writes shell → terminalWritechar c colour last = (.ok (), after) →
      (∀ buffer cell, after.screen.videoMems buffer cell ≠ last.screen.videoMems buffer cell →
        buffer = (last.screen.shellRecords shell).videoMem ∧
          ∃ row < vgaHeight, ∃ col < vgaWidth, cell = row * vgaWidth + col) ∧
      ((after.screen.saved shell).InGrid ↔ (last.screen.cursor shell).Fits c) := by
  have first : start.screen.Steady shell :=
    ⟨cursor.trans saved.symm, saved ▸ ⟨by decide, by decide⟩⟩
  have steady := run.invariant (fun kernel => kernel.screen.Steady shell)
    (fun _ _ held step => step.steady held) first
  have inside : (last.screen.cursor shell).InGrid := steady.same ▸ steady.inside
  refine ⟨steady.inside, fun c colour after writes write => ⟨fun buffer cell changed => ?_, ?_⟩⟩
  · rw [writes.ok write, Screen.written_eq] at changed
    exact last.screen.drawn_cells shell c colour inside changed
  · rw [writes.ok write, (last.screen.written_settled shell c colour).1]
    exact inside.next_iff c

/-- Two processes with a task each, and a shell of its own for each. -/
def twoShells : Kernel :=
  { bootKernel with
    currentTask := 0x901000
    tasks := fun task => { Task.zero with
      pageDirectory := 0x908000
      process := if task = 0x901000 then 0x900000 else 0xA00000 }
    processRecords := fun process => { Process.zero with
      shell := if process = 0x900000 then 0x902000 else 0xA02000 }
    screen := { Screen.blank with
      currentShell := 0x902000
      terminals := fun terminal => if terminal = 0x904000 then ⟨0, 0⟩ else ⟨3, 4⟩
      shellRecords := fun shell =>
        if shell = 0x902000 then ⟨0, 0x903000, 0x904000, 0x900000⟩
        else ⟨1, 0xA03000, 0xA04000, 0xA00000⟩ } }

theorem twoShells_writes : twoShells.Writes 0x902000 where
  task := by decide
  process := by decide
  owner := rfl
  nonnull := by decide
  terminal := by decide
  videoMem := by decide
  foreground := by decide

theorem terminal_inGrid_char : ∃ last : Kernel,
    last.screen.saved 0x902000 = ⟨0, 1⟩ ∧ (last.screen.saved 0x902000).InGrid := by
  have step := WriteStep.write 97 peachosColor twoShells_writes
    (by unfold Terminal.Fits; decide : Terminal.Fits _ _) (twoShells_writes.run 97 peachosColor)
  exact ⟨_, rfl, (terminal_inGrid rfl rfl (Relation.ReflTransGen.single step)).1⟩

/-- A newline and a backspace leave the cursor in column 65535. -/
theorem terminal_leaves_grid : ¬∀ (start last : Kernel) (shell : Addr),
    start.screen.saved shell = ⟨0, 0⟩ → start.screen.cursor shell = ⟨0, 0⟩ →
      Run (WriteStep (fun _ _ => True) shell) start last → (last.screen.saved shell).InGrid := by
  intro always
  have newline := twoShells_writes.run 10 peachosColor
  have moved := twoShells_writes.setScreen
    (show (twoShells.screen.written 0x902000 10 peachosColor).shellRecords = _ from rfl) rfl
  have back := moved.run 0x08 peachosColor
  have first : WriteStep (fun _ _ => True) 0x902000 twoShells _ :=
    WriteStep.write 10 peachosColor twoShells_writes trivial newline
  have second : WriteStep (fun _ _ => True) 0x902000 _ _ :=
    WriteStep.write 0x08 peachosColor moved trivial back
  have inside := always twoShells _ 0x902000 rfl rfl ((Relation.ReflTransGen.single first).tail second)
  exact absurd inside.col (by decide)

structure Output where
  task : Addr
  c : Byte
  colour : Byte

def writeAll : List Output → KernelProg Unit
  | [] => pure ()
  | output :: rest => do
      taskSwitch output.task
      terminalWritechar output.c output.colour
      writeAll rest

def Kernel.shellOf (kernel : Kernel) (task : Addr) : Addr :=
  (kernel.processRecords (kernel.tasks task).process).shell

/-- A task of a process with a shell. -/
structure Kernel.Speaks (kernel : Kernel) (task : Addr) : Prop where
  nonnull : task ≠ 0
  directory : (kernel.tasks task).pageDirectory ≠ 0
  process : (kernel.tasks task).process ≠ 0
  shell : kernel.shellOf task ≠ 0
  terminal : (kernel.screen.shellRecords (kernel.shellOf task)).terminal ≠ 0
  videoMem : (kernel.screen.shellRecords (kernel.shellOf task)).videoMem ≠ 0
  foreground : kernel.screen.currentShell ≠ 0

/-- What a shell shows: its cursor and the cells of its buffer. -/
structure View where
  cursor : Terminal
  cells : VideoMem

def Screen.view (screen : Screen) (shell : Addr) : View :=
  ⟨screen.saved shell, screen.videoMems (screen.shellRecords shell).videoMem⟩

def View.put (view : View) (cursor : Terminal) (c colour : Byte) : VideoMem :=
  Function.update view.cells cursor.cell (terminalMakeChar c colour)

/-- A character on a terminal that belongs to nobody else. -/
def View.write (view : View) (output : Output) : View where
  cursor := view.cursor.next output.c
  cells :=
    if output.c = 10 then view.cells
    else if output.c = 0x08 then
      if view.cursor.terminalRow = 0 ∧ view.cursor.terminalCol = 0 then view.cells
      else view.put view.cursor.left 0x20 peachosColor
    else view.put view.cursor output.c output.colour

/-- Different shells have buffers and terminals of their own. -/
structure Screen.Apart (screen : Screen) (left right : Addr) : Prop where
  videoMem : (screen.shellRecords left).videoMem ≠ (screen.shellRecords right).videoMem
  terminal : (screen.shellRecords left).terminal ≠ (screen.shellRecords right).terminal

section Views
variable {screen : Screen} {shell other : Addr}

theorem Screen.drawn_own (screen : Screen) (shell : Addr) (c colour : Byte) :
    (screen.drawn shell c colour).videoMems (screen.shellRecords shell).videoMem =
      (View.write ⟨screen.cursor shell, screen.videoMems (screen.shellRecords shell).videoMem⟩
        ⟨0, c, colour⟩).cells := by
  unfold Screen.drawn View.write
  dsimp only
  by_cases newline : c = 10
  · rw [if_pos newline, if_pos newline]
  · rw [if_neg newline, if_neg newline]
    by_cases back : c = 0x08
    · rw [if_pos back, if_pos back]
      split
      · rfl
      · exact Function.update_self _ _ _
    · rw [if_neg back, if_neg back]
      exact Function.update_self _ _ _

theorem Screen.drawn_other (screen : Screen) (shell : Addr) (c colour : Byte) {buffer : Addr}
    (other : buffer ≠ (screen.shellRecords shell).videoMem) :
    (screen.drawn shell c colour).videoMems buffer = screen.videoMems buffer := by
  unfold Screen.drawn
  dsimp only
  split
  · rfl
  · split
    · split
      · rfl
      · exact Function.update_of_ne other _ _
    · exact Function.update_of_ne other _ _

theorem Screen.view_written (screen : Screen) (shell : Addr) (output : Output) :
    (screen.written shell output.c output.colour).view shell =
      View.write ⟨screen.cursor shell, (screen.view shell).cells⟩ output := by
  have saved := (screen.written_settled shell output.c output.colour).1
  have cells := screen.drawn_own shell output.c output.colour
  have records := (screen.drawn_kept shell output.c output.colour).1
  unfold Screen.view
  rw [saved, Screen.written_eq]
  dsimp only [Screen.settle, Screen.at]
  rw [records, cells]
  rfl

/-- A character changes its own shell's view as if that shell were alone. -/
theorem Screen.view_own (steady : screen.cursor shell = screen.saved shell) (output : Output) :
    (screen.written shell output.c output.colour).view shell = (screen.view shell).write output := by
  rw [Screen.view_written, steady]
  rfl

theorem Screen.view_other (apart : screen.Apart shell other) (output : Output) :
    (screen.written shell output.c output.colour).view other = screen.view other := by
  obtain ⟨records, terminals, _⟩ := screen.drawn_kept shell output.c output.colour
  unfold Screen.view Screen.saved
  rw [Screen.written_eq]
  dsimp only [Screen.settle, Screen.at]
  rw [records, terminals, Function.update_of_ne apart.terminal.symm,
    screen.drawn_other shell _ _ apart.videoMem.symm]

end Views

section Outputs
variable {kernel : Kernel}

theorem Screen.written_kept (screen : Screen) (shell : Addr) (c colour : Byte) :
    (screen.written shell c colour).shellRecords = screen.shellRecords ∧
      (screen.written shell c colour).currentShell = screen.currentShell := by
  obtain ⟨records, _, current⟩ := screen.drawn_kept shell c colour
  rw [Screen.written_eq]
  exact ⟨records, current⟩

theorem Kernel.Speaks.switch {task : Addr} (speaks : kernel.Speaks task) :
    taskSwitch task kernel = (.ok (), kernel.switched task) ∧
      (kernel.switched task).Writes (kernel.shellOf task) := by
  refine ⟨taskSwitch_run speaks.nonnull speaks.directory, ?_⟩
  exact ⟨speaks.nonnull, speaks.process, rfl, speaks.shell, speaks.terminal, speaks.videoMem, speaks.foreground⟩

theorem Kernel.Speaks.later {task : Addr} (speaks : kernel.Speaks task) (other : Addr) {screen : Screen}
    (records : screen.shellRecords = kernel.screen.shellRecords)
    (current : screen.currentShell = kernel.screen.currentShell) :
    ((kernel.switched other).setScreen screen).Speaks task := by
  obtain ⟨nonnull, directory, process, shell, terminal, videoMem, foreground⟩ := speaks
  rw [← records] at terminal videoMem
  rw [← current] at foreground
  exact ⟨nonnull, directory, process, shell, terminal, videoMem, foreground⟩

theorem writeAll_run (outputs : List Output) (speak : ∀ output ∈ outputs, kernel.Speaks output.task) :
    ∃ last, writeAll outputs kernel = (.ok (), last) ∧
      last.screen = outputs.foldl (fun screen output =>
        screen.written (kernel.shellOf output.task) output.c output.colour) kernel.screen := by
  induction outputs generalizing kernel with
  | nil => exact ⟨kernel, rfl, rfl⟩
  | cons output rest ih =>
    obtain ⟨switch, writes⟩ := (speak output List.mem_cons_self).switch
    obtain ⟨records, current⟩ :=
      kernel.screen.written_kept (kernel.shellOf output.task) output.c output.colour
    obtain ⟨last, ran, screen⟩ := ih (fun next member =>
      (speak next (List.mem_cons_of_mem _ member)).later output.task records current)
    refine ⟨last, ?_, screen⟩
    unfold writeAll
    rw [bind_ok switch, bind_ok (writes.run output.c output.colour)]
    exact ran

/-- What holds of the screen and the writing shell before every output. -/
def AtEach (holds : Screen → Addr → Prop) (shellOf : Addr → Addr) : List Output → Screen → Prop
  | [], _ => True
  | output :: rest, screen => holds screen (shellOf output.task) ∧
      AtEach holds shellOf rest (screen.written (shellOf output.task) output.c output.colour)

/-- The cursor is in the grid and is the saved one of the shell: the flag that an empty
backspace leaves set does not carry another shell's cursor over. -/
def Screen.Undisturbed (screen : Screen) (shell : Addr) : Prop :=
  (screen.cursor shell).InGrid ∧ screen.cursor shell = screen.saved shell

section Folds
variable {shellOf : Addr → Addr} {shell : Addr}

theorem AtEach.mono {holds weaker : Screen → Addr → Prop}
    (implies : ∀ screen shell, holds screen shell → weaker screen shell) {outputs : List Output} {screen : Screen}
    (each : AtEach holds shellOf outputs screen) : AtEach weaker shellOf outputs screen := by
  induction outputs generalizing screen with
  | nil => trivial
  | cons output rest ih => exact ⟨implies _ _ each.1, ih each.2⟩

theorem View.fold_others (outputs : List Output) (screen : Screen)
    (apart : ∀ output ∈ outputs, shellOf output.task ≠ shell → screen.Apart (shellOf output.task) shell)
    (steady : AtEach (fun screen shell => screen.cursor shell = screen.saved shell) shellOf outputs screen) :
    (outputs.foldl (fun screen output =>
      screen.written (shellOf output.task) output.c output.colour) screen).view shell =
    (outputs.filter (fun output => shellOf output.task == shell)).foldl View.write (screen.view shell) := by
  induction outputs generalizing screen with
  | nil => rfl
  | cons output rest ih =>
    obtain ⟨steady, later⟩ := steady
    have records := (screen.written_kept (shellOf output.task) output.c output.colour).1
    have kept : ∀ next ∈ rest, shellOf next.task ≠ shell →
        (screen.written (shellOf output.task) output.c output.colour).Apart (shellOf next.task) shell := by
      intro next member different
      obtain ⟨videoMem, terminal⟩ := apart next (List.mem_cons_of_mem _ member) different
      rw [← records] at videoMem terminal
      exact ⟨videoMem, terminal⟩
    rw [List.foldl_cons, ih _ kept later]
    by_cases own : shellOf output.task = shell
    · subst own
      rw [List.filter_cons_of_pos (by simp), List.foldl_cons, Screen.view_own steady]
    · rw [List.filter_cons_of_neg (by simpa using own),
        Screen.view_other (apart output List.mem_cons_self own)]

/-- Alone, a shell's saved cursor and the globals agree from the first output on. -/
theorem View.fold_alone (outputs : List Output) (screen : Screen)
    (own : ∀ output ∈ outputs, shellOf output.task = shell)
    (steady : screen.cursor shell = screen.saved shell) :
    (outputs.foldl (fun screen output =>
      screen.written (shellOf output.task) output.c output.colour) screen).view shell =
    outputs.foldl View.write (screen.view shell) := by
  induction outputs generalizing screen with
  | nil => rfl
  | cons output rest ih =>
    have here := own output List.mem_cons_self
    have settled := screen.written_settled shell output.c output.colour
    rw [List.foldl_cons, here, List.foldl_cons, ih _ (fun next member => own next
      (List.mem_cons_of_mem _ member)) (settled.2.trans settled.1.symm), Screen.view_own steady]

end Folds

/-- While nothing disturbs the cursors, what a shell shows at the end is what its own
tasks' characters alone would have left. -/
theorem terminal_independent (outputs : List Output) (shell : Addr)
    (speak : ∀ output ∈ outputs, kernel.Speaks output.task)
    (apart : ∀ output ∈ outputs, kernel.shellOf output.task ≠ shell →
      kernel.screen.Apart (kernel.shellOf output.task) shell)
    (clear : kernel.screen.backspace = false)
    (undisturbed : AtEach Screen.Undisturbed kernel.shellOf outputs kernel.screen) :
    ∃ last alone, writeAll outputs kernel = (.ok (), last) ∧
      writeAll (outputs.filter (fun output => kernel.shellOf output.task == shell)) kernel =
        (.ok (), alone) ∧ last.screen.view shell = alone.screen.view shell := by
  obtain ⟨last, ran, screen⟩ := writeAll_run outputs speak
  have own : ∀ output ∈ outputs.filter (fun output => kernel.shellOf output.task == shell),
      kernel.shellOf output.task = shell := by
    intro output member
    simpa using (List.mem_filter.mp member).2
  have speakAlone : ∀ output ∈ outputs.filter (fun output => kernel.shellOf output.task == shell),
      kernel.Speaks output.task := fun output member => speak output (List.mem_filter.mp member).1
  obtain ⟨alone, ranAlone, screenAlone⟩ := writeAll_run _ speakAlone
  have steady := Screen.cursor_clear clear shell
  refine ⟨last, alone, ran, ranAlone, ?_⟩
  rw [screen, screenAlone, View.fold_alone _ _ own steady]
  exact View.fold_others outputs kernel.screen apart (undisturbed.mono (fun _ _ here => here.2))

end Outputs

theorem twoShells_speaks : twoShells.Speaks 0x901000 ∧ twoShells.Speaks 0xA01000 :=
  ⟨⟨by decide, by decide, by decide, by decide, by decide, by decide, by decide⟩,
    by decide, by decide, by decide, by decide, by decide, by decide, by decide⟩

theorem twoShells_apart : twoShells.screen.Apart 0x902000 0xA02000 := ⟨by decide, by decide⟩

theorem terminal_independent_two : ∃ last alone,
    writeAll [⟨0x901000, 97, peachosColor⟩, ⟨0xA01000, 98, peachosColor⟩] twoShells = (.ok (), last) ∧
      writeAll [⟨0xA01000, 98, peachosColor⟩] twoShells = (.ok (), alone) ∧
      last.screen.view 0xA02000 = alone.screen.view 0xA02000 := by
  refine terminal_independent [⟨0x901000, 97, peachosColor⟩, ⟨0xA01000, 98, peachosColor⟩] 0xA02000
    ?_ ?_ rfl ⟨⟨⟨by decide, by decide⟩, rfl⟩, ⟨⟨by decide, by decide⟩, rfl⟩, trivial⟩
  · intro output member
    simp only [List.mem_cons, List.not_mem_nil, or_false] at member
    rcases member with rfl | rfl
    · exact twoShells_speaks.1
    · exact twoShells_speaks.2
  · intro output member different
    simp only [List.mem_cons, List.not_mem_nil, or_false] at member
    rcases member with rfl | rfl
    · exact twoShells_apart
    · exact absurd rfl different

/-- After one shell's backspace in its empty first cell, another shell's character goes to
the upper left corner and not to that shell's cursor. -/
theorem terminal_disturbed : ¬∀ (kernel : Kernel) (outputs : List Output) (shell : Addr),
    (∀ output ∈ outputs, kernel.Speaks output.task) →
    (∀ output ∈ outputs, kernel.shellOf output.task ≠ shell →
      kernel.screen.Apart (kernel.shellOf output.task) shell) →
    kernel.screen.backspace = false →
    AtEach (fun screen shell => (screen.cursor shell).InGrid) kernel.shellOf outputs kernel.screen →
    ∀ last alone, writeAll outputs kernel = (.ok (), last) →
      writeAll (outputs.filter (fun output => kernel.shellOf output.task == shell)) kernel =
        (.ok (), alone) → last.screen.view shell = alone.screen.view shell := by
  intro always
  have speak : ∀ output ∈ ([⟨0x901000, 8, peachosColor⟩, ⟨0xA01000, 97, peachosColor⟩] : List Output),
      twoShells.Speaks output.task := by
    intro output member
    simp only [List.mem_cons, List.not_mem_nil, or_false] at member
    rcases member with rfl | rfl
    · exact twoShells_speaks.1
    · exact twoShells_speaks.2
  obtain ⟨last, ran, screen⟩ := writeAll_run _ speak
  obtain ⟨alone, ranAlone, screenAlone⟩ := writeAll_run [⟨0xA01000, 97, peachosColor⟩]
    (fun output member => speak output (List.mem_cons_of_mem _ member))
  have same := always twoShells _ 0xA02000 speak (by
    intro output member different
    simp only [List.mem_cons, List.not_mem_nil, or_false] at member
    rcases member with rfl | rfl
    · exact twoShells_apart
    · exact absurd rfl different) rfl
    ⟨⟨by decide, by decide⟩, ⟨by decide, by decide⟩, trivial⟩ last alone ran ranAlone
  rw [screen, screenAlone] at same
  have cursor := congrArg View.cursor same
  exact absurd cursor (by decide)

end PeachOS
