import PeachOS.Keyboard

/-! The terminal of `video/video.c`: every shell has a buffer and a cursor of its own,
and the shell in the foreground is copied to the screen. -/

namespace PeachOS
open Program

abbrev vgaWidth : Nat := 80
abbrev vgaHeight : Nat := 25
abbrev peachosColor : Byte := 240

abbrev videoCells : Nat := 2048

def Kernel.setScreen (kernel : Kernel) (screen : Screen) : Kernel := { kernel with screen := screen }

def Kernel.updateScreen (change : Screen → Screen) : KernelProg Unit :=
  update (fun kernel => kernel.setScreen (change kernel.screen))

/-- `memcpy` of a buffer to the screen. -/
def Screen.show (screen : Screen) (buffer : VideoMem) : Screen :=
  { screen with vga := fun cell => if cell < videoCells then buffer cell else screen.vga cell }

/-- Both arguments are signed characters, which the `int` arithmetic extends. -/
def terminalMakeChar (c colour : Byte) : HalfWord :=
  (colour.signExtend 16 <<< 8) ||| c.signExtend 16

def getCurrentTaskShell : KernelProg Addr := do
  let task ← read Kernel.currentTask
  if task = 0 then fault
  else
    let process ← read (fun kernel => (kernel.tasks task).process)
    if process = 0 then fault
    else read (fun kernel => (kernel.processRecords process).shell)

/-- The address of the current task's shell's terminal. -/
def getCurrentTerminal : KernelProg Addr := do
  let shell ← getCurrentTaskShell
  if shell = 0 then fault
  else read (fun kernel => (kernel.screen.shellRecords shell).terminal)

def terminalInit : KernelProg Unit := do
  let terminal ← getCurrentTerminal
  if terminal = 0 then fault
  else Kernel.updateScreen (fun screen =>
    { screen with
      terminalRow := (screen.terminals terminal).terminalRow
      terminalCol := (screen.terminals terminal).terminalCol })

def terminalSave (terminal : Addr) : KernelProg Unit :=
  if terminal = 0 then fault
  else Kernel.updateScreen (fun screen =>
    { screen with
      terminals := Function.update screen.terminals terminal ⟨screen.terminalRow, screen.terminalCol⟩ })

def terminalPutchar (x y : Nat) (c colour : Byte) : KernelProg Unit := do
  let shell ← getCurrentTaskShell
  if shell = 0 then fault
  else
    let record ← read (fun kernel => kernel.screen.shellRecords shell)
    if record.videoMem = 0 then fault
    else
      Kernel.updateScreen (fun screen =>
        { screen with
          videoMems := Function.update screen.videoMems record.videoMem
            (Function.update (screen.videoMems record.videoMem) (y * vgaWidth + x)
              (terminalMakeChar c colour)) })
      let current ← read (fun kernel => kernel.screen.currentShell)
      if current = 0 then fault
      else
        let id ← read (fun kernel => (kernel.screen.shellRecords current).shellId)
        if id = record.shellId then
          Kernel.updateScreen (fun screen => screen.show (screen.videoMems record.videoMem))
        else pure ()

/-- `terminal_writechar` with the body of `terminal_backspace` as a parameter. -/
def terminalWritecharWith (terminalBackspace : KernelProg Unit) (c colour : Byte) : KernelProg Unit := do
  let backspace ← read (fun kernel => kernel.screen.backspace)
  let _ ← (if backspace then pure () else terminalInit)
  if c = 10 then
    Kernel.updateScreen (fun screen =>
      { screen with terminalRow := screen.terminalRow + 1, terminalCol := 0 })
    let terminal ← getCurrentTerminal
    terminalSave terminal
  else if c = 0x08 then
    terminalBackspace
    let terminal ← getCurrentTerminal
    terminalSave terminal
  else
    let screen ← read Kernel.screen
    terminalPutchar screen.terminalCol.toNat screen.terminalRow.toNat c colour
    Kernel.updateScreen (fun screen =>
      if vgaWidth ≤ (screen.terminalCol + 1).toNat then
        { screen with terminalRow := screen.terminalRow + 1, terminalCol := 0 }
      else { screen with terminalCol := screen.terminalCol + 1 })
    let terminal ← getCurrentTerminal
    terminalSave terminal

/-- From the first column to behind the end of the row above. -/
def Screen.wrapLeft (screen : Screen) : Screen :=
  if screen.terminalCol = 0 then
    { screen with terminalRow := screen.terminalRow - 1, terminalCol := BitVec.ofNat 16 vgaWidth }
  else screen

def Screen.stepLeft (screen : Screen) : Screen :=
  { screen with terminalCol := screen.terminalCol - 1 }

/-- The flag stays set when there is nothing to the left of the cursor. -/
def terminalBackspace (terminalWritechar : Byte → Byte → KernelProg Unit) : KernelProg Unit := do
  Kernel.updateScreen ({ · with backspace := true })
  let screen ← read Kernel.screen
  if screen.terminalRow = 0 ∧ screen.terminalCol = 0 then pure ()
  else
    Kernel.updateScreen Screen.wrapLeft
    Kernel.updateScreen Screen.stepLeft
    terminalWritechar 0x20 peachosColor
    Kernel.updateScreen Screen.stepLeft
    Kernel.updateScreen ({ · with backspace := false })

/-- The two functions call each other, but a backspace writes a blank, which calls no
backspace again. -/
def terminalWritechar (c colour : Byte) : KernelProg Unit :=
  terminalWritecharWith (terminalBackspace (terminalWritecharWith fault)) c colour

def print : List Byte → KernelProg Unit
  | [] => pure ()
  | c :: rest => do
      terminalWritechar c peachosColor
      print rest

end PeachOS
