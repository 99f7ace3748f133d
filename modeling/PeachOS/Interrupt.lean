import PeachOS.Lib.Cpu
import PeachOS.Task

/-! The way into the kernel and out of it: the assembly of `idt.asm` and `task.asm`, and
the C code that a clock interrupt runs. -/

namespace PeachOS
open Program ByteMemory Cpu

abbrev kernelCodeSelector : Word := 0x08
abbrev kernelDataSelector : Word := 0x10

/-- `esp0` of the task state segment. -/
abbrev kernelStack : Addr := 0x600000

/-- `struct interrupt_frame`, in the order of its fields. -/
structure InterruptFrame where
  edi : Word
  esi : Word
  ebp : Word
  reserved : Word
  ebx : Word
  edx : Word
  ecx : Word
  eax : Word
  ip : Word
  cs : Word
  flags : Word
  esp : Word
  ss : Word

def loadFrame (bytes : Bytes) (frame : Addr) : InterruptFrame where
  edi := load32 bytes frame
  esi := load32 bytes (frame + 4)
  ebp := load32 bytes (frame + 8)
  reserved := load32 bytes (frame + 12)
  ebx := load32 bytes (frame + 16)
  edx := load32 bytes (frame + 20)
  ecx := load32 bytes (frame + 24)
  eax := load32 bytes (frame + 28)
  ip := load32 bytes (frame + 32)
  cs := load32 bytes (frame + 36)
  flags := load32 bytes (frame + 40)
  esp := load32 bytes (frame + 44)
  ss := load32 bytes (frame + 48)

def loadRegisters (bytes : Bytes) (registers : Addr) : Registers where
  edi := load32 bytes registers
  esi := load32 bytes (registers + 4)
  ebp := load32 bytes (registers + 8)
  ebx := load32 bytes (registers + 12)
  edx := load32 bytes (registers + 16)
  ecx := load32 bytes (registers + 20)
  eax := load32 bytes (registers + 24)
  ip := load32 bytes (registers + 28)
  cs := load32 bytes (registers + 32)
  flags := load32 bytes (registers + 36)
  esp := load32 bytes (registers + 40)
  ss := load32 bytes (registers + 44)

def taskRegisters (task : Addr) : Addr := task + 4

/-- The code of `int%1` before `interrupt_handler`; `site` is the return address. -/
def interruptEntry (number site : Word) : List Instr :=
  [.pushad, .push .esp, .pushImm number, .call site]

/-- The code of `int%1` after `interrupt_handler`, up to the `iret`. -/
def interruptExit : List Instr := [.add .esp 8, .popad]

/-- The code of `isr80h_wrapper` before `isr80h_handler`. -/
def isr80hEntry (site : Word) : List Instr :=
  [.pushad, .push .esp, .push .eax, .call site]

/-- The code of `isr80h_wrapper` after `isr80h_handler`, up to the `iretd`. -/
def isr80hExit (tmpRes : Addr) : List Instr :=
  [.storeTo tmpRes .eax, .add .esp 8, .popad, .loadFrom .eax tmpRes]

def restoreGeneralPurposeRegisters : List Instr :=
  [.push .ebp, .mov .ebp .esp, .load .ebx .ebp 8, .load .edi .ebx 0, .load .esi .ebx 4,
    .load .ebp .ebx 8, .load .edx .ebx 16, .load .ecx .ebx 20, .load .eax .ebx 24, .load .ebx .ebx 12,
    .add .esp 4, .ret]

def taskReturnArgument : List Instr := [.mov .ebp .esp, .load .ebx .ebp 4]

def taskReturnFlags : List Instr := [.pushf, .pop .eax, .or .eax 0x200, .push .eax]

def taskReturnSegments : List Instr :=
  [.loadLow .eax .ebx 44, .movSeg .ds .eax, .movSeg .es .eax, .movSeg .fs .eax, .movSeg .gs .eax]

/-- `task_return` up to the `iretd`; `site` is the return address of its call. -/
def taskReturn (site : Word) : List Instr :=
  taskReturnArgument ++ [.pushAt .ebx 44, .pushAt .ebx 40] ++ taskReturnFlags ++
    [.pushAt .ebx 32, .pushAt .ebx 28] ++ taskReturnSegments ++ [.pushAt .ebp 4, .call site] ++
    restoreGeneralPurposeRegisters ++ [.add .esp 4]

/-- The variables that the interrupt code of `idt.c` and `kernel.c` keeps besides the
kernel's. -/
structure Interrupts where
  kernel : Kernel
  kernelChunk : Addr
  c : Int

/-- How interrupt code ends other than by returning; `task_return` does not come back. -/
inductive Leave where
  | stopped (reason : Stop)
  | taskReturn (registers : Addr)

abbrev InterruptProg (α : Type) : Type := Prog Interrupts Leave α

namespace Interrupts

def setKernel (interrupts : Interrupts) (kernel : Kernel) : Interrupts :=
  { interrupts with kernel := kernel }

def onKernel {α : Type} (call : KernelProg α) : InterruptProg α := fun interrupts =>
  match call interrupts.kernel with
  | (.ok result, kernel) => (.ok result, interrupts.setKernel kernel)
  | (.error reason, kernel) => (.error (.stopped reason), interrupts.setKernel kernel)

end Interrupts

def kernelPage : InterruptProg Unit := do
  let chunk ← read Interrupts.kernelChunk
  Interrupts.onKernel (Kernel.pagingSwitch chunk)

def taskPage : InterruptProg Unit := do
  let current ← read (fun interrupts => interrupts.kernel.currentTask)
  Interrupts.onKernel (taskSwitch current)

/-- The assignments of `task_save_state`. -/
def InterruptFrame.saved (frame : InterruptFrame) : Registers where
  ip := frame.ip
  cs := frame.cs
  flags := frame.flags
  esp := frame.esp
  ss := frame.ss
  eax := frame.eax
  ebp := frame.ebp
  ebx := frame.ebx
  ecx := frame.ecx
  edi := frame.edi
  edx := frame.edx
  esi := frame.esi

def taskSaveState (task : Addr) (frame : InterruptFrame) : KernelProg Unit :=
  update (fun kernel => kernel.setTask task ({ · with registers := frame.saved }))

def taskCurrentSaveState (frame : InterruptFrame) : KernelProg Unit := do
  let task ← read Kernel.currentTask
  if task = 0 then panic "\nNo current task is running"
  else taskSaveState task frame

def taskNext : InterruptProg Unit := do
  let nextTask ← Interrupts.onKernel taskGetNext
  if nextTask = 0 then Interrupts.onKernel (panic "No more tasks!\n")
  else
    Interrupts.onKernel (taskSwitch nextTask)
    stop (.taskReturn (taskRegisters nextTask))

def idtClock : InterruptProg Unit := do
  let c ← read Interrupts.c
  if c < 10 then update (fun interrupts => { interrupts with c := interrupts.c + 1 })
  else taskNext

/-- `interrupt_callbacks` with the entry of the clock; `others` is the rest of the table. -/
def interruptCallbacks (others : Word → Option (InterruptProg Unit)) (interrupt : Word) :
    Option (InterruptProg Unit) :=
  if interrupt = 0x20 then some idtClock else others interrupt

def interruptHandler (callbacks : Word → Option (InterruptProg Unit)) (interrupt : Word)
    (frame : InterruptFrame) : InterruptProg Unit := do
  kernelPage
  match callbacks interrupt with
  | some callback =>
      Interrupts.onKernel (taskCurrentSaveState frame)
      callback
  | none => pure ()
  taskPage

end PeachOS
