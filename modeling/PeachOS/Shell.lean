import PeachOS.Below
import PeachOS.Video

/-! The shells of `task/shell.c`. The table of shells is not checked against its size. -/

namespace PeachOS
open Program

abbrev sizeofShell : Word := 24
abbrev sizeofTerminal : Word := 4

/-- `0:/shell.elf` -/
def shellElf : List Byte :=
  [0x30, 0x3a, 0x2f, 0x73, 0x68, 0x65, 0x6c, 0x6c, 0x2e, 0x65, 0x6c, 0x66]

def Shell.zero : Shell := ⟨0, 0, 0, 0⟩

def Screen.setShell (screen : Screen) (shell : Addr) (change : Shell → Shell) : Screen :=
  { screen with
    shellRecords := Function.update screen.shellRecords shell (change (screen.shellRecords shell)) }

/-- `kzalloc` of a video buffer clears its cells, if it finds a block. -/
def Screen.clearVideoMem (screen : Screen) (videoMem : Addr) : Screen :=
  if videoMem = 0 then screen
  else { screen with
    videoMems := Function.update screen.videoMems videoMem
      (fun cell => if cell < videoCells then 0 else screen.videoMems videoMem cell) }

def shellSlotAvailable (kernel : Kernel) (id : Int) : Bool := kernel.screen.shells id == 0

def getCurrentShell : KernelProg Addr := read (fun kernel => kernel.screen.currentShell)

def shellSwitch (shellId : Int) : KernelProg Int := do
  let shell ← read (fun kernel => kernel.screen.shells shellId)
  if shell = 0 then pure (-EINVARG)
  else
    Kernel.updateScreen ({ · with currentShell := shell })
    let record ← read (fun kernel => kernel.screen.shellRecords shell)
    processSwitch record.process
    if record.videoMem = 0 then fault
    else
      Kernel.updateScreen (fun screen => screen.show (screen.videoMems record.videoMem))
      pure 0

/-- The shell that `shell_switch_to_next` chooses. -/
def Screen.nextShell (screen : Screen) : Int :=
  let currentShellId := (screen.shellRecords screen.currentShell).shellId
  if currentShellId = 0 ∧ screen.shells (currentShellId + 1) ≠ 0 then currentShellId + 1
  else if currentShellId = 0 ∧ screen.shells (currentShellId + 1) = 0 then currentShellId
  else if currentShellId ≠ 0 ∧ screen.shells (currentShellId + 1) ≠ 0 then currentShellId + 1
  else 0

def shellSwitchToNext : KernelProg Unit := do
  let current ← getCurrentShell
  if current = 0 then fault
  else
    let shellId ← read (fun kernel => kernel.screen.nextShell)
    let _ ← shellSwitch shellId
    pure ()

/-- The two loops of `shell_initialize`. -/
def blankRows (buffer : VideoMem) : VideoMem :=
  (List.range vgaHeight).foldl (fun buffer y =>
    (List.range vgaWidth).foldl (fun buffer x =>
      Function.update buffer (y * vgaWidth + x) (terminalMakeChar 0x20 peachosColor)) buffer) buffer

def shellInitialize (shell : Addr) : KernelProg Unit := do
  let record ← read (fun kernel => kernel.screen.shellRecords shell)
  if record.videoMem = 0 then fault
  else Kernel.updateScreen (fun screen =>
    { screen with
      videoMems := Function.update screen.videoMems record.videoMem
        (blankRows (screen.videoMems record.videoMem)) })

namespace Below
variable {σ : Type} (below : Below σ)

/-- The new shell gets its video buffer. -/
def shellVideoBuf (shell : Addr) : Prog σ Stop Unit := do
  let videoBuf ← below.kzalloc (.videoMem shell) 4096
  below.kernel (Kernel.updateScreen (·.clearVideoMem videoBuf))
  below.kernel (Kernel.updateScreen (·.setShell shell ({ · with videoMem := videoBuf })))

/-- The new shell gets its terminal. A store through a null pointer has no behaviour. -/
def shellTerminal (shell : Addr) : Prog σ Stop Unit := do
  let terminal ← below.kzalloc (.terminal shell) sizeofTerminal
  if terminal = 0 then below.kernel fault
  else
    below.kernel (Kernel.updateScreen (fun screen =>
      { screen with terminals := Function.update screen.terminals terminal ⟨0, 0⟩ }))
    below.kernel (Kernel.updateScreen (·.setShell shell ({ · with terminal := terminal })))

/-- The result, and the shell that goes out. The result of `process_inject_arguments` is
not looked at. -/
def shellNew (id : Int) : Prog σ Stop (Int × Addr) := do
  let available ← below.kernel (read (shellSlotAvailable · id))
  if !available then pure (-EINVARG, 0)
  else
    let shell ← below.kzalloc .shell sizeofShell
    if shell = 0 then below.kernel fault
    else
      below.kernel (Kernel.updateScreen (·.setShell shell (fun _ => { Shell.zero with shellId := id })))
      below.shellVideoBuf shell
      below.shellTerminal shell
      let (res, shellProcess) ← below.processLoadSwitch shellElf
      if res < 0 then pure (- EIO, 0)
      else
        below.kernel (update (fun kernel => kernel.setProcess shellProcess ({ · with shell := shell })))
        below.kernel (Kernel.updateScreen (·.setShell shell ({ · with process := shellProcess })))
        let _ ← below.processInjectArguments shellProcess [itoa id]
        below.kernel (shellInitialize shell)
        below.kernel (Kernel.updateScreen (fun screen =>
          { screen with shells := Function.update screen.shells id shell }))
        let _ ← below.kernel (shellSwitch id)
        pure (res, shell)

end Below

end PeachOS
