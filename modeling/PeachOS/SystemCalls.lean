import PeachOS.Interrupt
import PeachOS.Shell

/-! The system calls of `isr80h`, and the way into them and into the other interrupts, over
what lies below. `task_return` does not come back, so nothing of a call runs after it. -/

namespace PeachOS
open Program ByteMemory

abbrev peachosMaxIsr80hCommands : Int := 1024

/-- `0:/` -/
def drivePrefix : List Byte := [0x30, 0x3a, 0x2f]

/-- What a call meets besides the kernel's records: the kernel's own address space, and the
memory of the task as its page directory shows it. `unread` is in a buffer on the kernel's
stack that the call did not fill. -/
structure Caller where
  kernelChunk : Addr
  stackItem : Nat → Word
  string : Addr → List Byte
  physical : Addr → Addr
  arguments : Addr → List (List Byte)
  unread : List Byte

/-- How a command ends: with a result for the caller, or in `task_return`. -/
inductive CommandEnd where
  | result (value : Word)
  | taskReturn (registers : Addr)
  deriving DecidableEq

def taskPageTask (task : Addr) : KernelProg Unit := do
  let record ← read (fun kernel => kernel.tasks task)
  Kernel.pagingSwitch record.pageDirectory

/-- `task_current()->process`. -/
def taskCurrentProcess : KernelProg Addr := do
  let task ← read Kernel.currentTask
  if task = 0 then fault else read (fun kernel => (kernel.tasks task).process)

namespace Below
variable {σ : Type} (below : Below σ) (caller : Caller)

def kernelPage : Prog σ Stop Unit := below.kernel (Kernel.pagingSwitch caller.kernelChunk)

def taskPage : Prog σ Stop Unit := do
  let current ← below.kernel (read Kernel.currentTask)
  below.kernel (taskSwitch current)

def taskGetStackItem (task : Addr) (index : Nat) : Prog σ Stop Word := do
  if task = 0 then below.kernel fault
  else
    below.kernel (taskPageTask task)
    below.kernelPage caller
    pure (caller.stackItem index)

/-- `copy_string_from_task` once it has `tmp`: the task's page directory maps it for as long
as the string is copied there. -/
def copyThrough (task tmp virtual : Addr) (max : Nat) : Prog σ Stop Int := do
  if task = 0 then below.kernel fault
  else
    let pageDirectory ← below.kernel (read (fun kernel => (kernel.tasks task).pageDirectory))
    if pageDirectory = 0 then below.kernel fault
    else
      let bytes ← below.kernel (read (fun kernel => kernel.memory.bytes))
      let taskDirectory := directoryEntry bytes pageDirectory
      let oldEntry := pagingGet bytes taskDirectory tmp
      let _ ← below.kernel (Kernel.onBytes (pagingMap · pageDirectory tmp tmp
        (pagingIsWriteable ||| pagingIsPresent ||| pagingAccessFromAll)))
      below.kernel (Kernel.pagingSwitch pageDirectory)
      below.kernel (update (fun kernel => kernel.setMemory { kernel.memory with
        bytes := storeBytes kernel.memory.bytes tmp (strncpy (caller.string virtual) max) }))
      below.kernelPage caller
      below.kernel (Kernel.onBytes (pagingSet · taskDirectory tmp oldEntry))

/-- The result, and the string in the caller's buffer. -/
def copyStringFromTask (task virtual : Addr) (max : Nat) : Prog σ Stop (Int × List Byte) := do
  if pagingPageSize ≤ max then pure (-EINVARG, caller.unread)
  else
    let tmp ← below.kzalloc .kernel (BitVec.ofNat 32 max)
    if tmp = 0 then pure (-ENOMEM, caller.unread)
    else
      let res ← below.copyThrough caller task tmp virtual max
      below.kfree tmp
      if res < 0 then pure (- EIO, caller.unread)
      else pure (res, strncpy (caller.string virtual) max)

def isr80hCommand0Sum : Prog σ Stop CommandEnd := do
  let current ← below.kernel (read Kernel.currentTask)
  let v2 ← below.taskGetStackItem caller current 1
  let v1 ← below.taskGetStackItem caller current 0
  pure (.result (v1 + v2))

/-- The result of the copy is not looked at. -/
def isr80hCommand1Print : Prog σ Stop CommandEnd := do
  let current ← below.kernel (read Kernel.currentTask)
  let userSpaceMsgBuffer ← below.taskGetStackItem caller current 0
  let (_, buf) ← below.copyStringFromTask caller current userSpaceMsgBuffer 1024
  below.kernel (print (buf.take (strlen buf)))
  pure (.result 0)

def isr80hCommand2GetKey : Prog σ Stop CommandEnd := do
  let c ← below.kernel keyboardPop
  pure (.result (c.signExtend 32))

def isr80hCommand3Putchar : Prog σ Stop CommandEnd := do
  let current ← below.kernel (read Kernel.currentTask)
  let item ← below.taskGetStackItem caller current 0
  below.kernel (terminalWritechar (item.setWidth 8) peachosColor)
  pure (.result 0)

def isr80hCommand4Malloc : Prog σ Stop CommandEnd := do
  let current ← below.kernel (read Kernel.currentTask)
  let size ← below.taskGetStackItem caller current 0
  let process ← below.kernel taskCurrentProcess
  let ptr ← below.processMalloc process size
  pure (.result ptr)

def isr80hCommand5Free : Prog σ Stop CommandEnd := do
  let current ← below.kernel (read Kernel.currentTask)
  let ptrToFree ← below.taskGetStackItem caller current 0
  let process ← below.kernel taskCurrentProcess
  below.processFree process ptrToFree
  pure (.result 0)

/-- `task_switch(process->task)` and `task_return` to it. -/
def startTask (process : Addr) : Prog σ Stop CommandEnd := do
  if process = 0 then below.kernel fault
  else
    let task ← below.kernel (read (fun kernel => (kernel.processRecords process).task))
    below.kernel (taskSwitch task)
    pure (.taskReturn (taskRegisters task))

/-- A name that does not fit behind `0:/` is written past the end of `path`. -/
def isr80hCommand6ProcessLoadStart : Prog σ Stop CommandEnd := do
  let current ← below.kernel (read Kernel.currentTask)
  let filenameUserPtr ← below.taskGetStackItem caller current 0
  let (res, filename) ← below.copyStringFromTask caller current filenameUserPtr peachosMaxPath
  if res < 0 then pure (.result 0)
  else
    let path := drivePrefix ++ filename.take (strlen filename)
    if peachosMaxPath < path.length + 1 then below.kernel fault
    else
      let (res, process) ← below.processLoadSwitch path
      if res < 0 then pure (.result 0) else below.startTask process

/-- The list of arguments is empty where the pointer is null. -/
def isr80hCommand7InvokeSystemCommand : Prog σ Stop CommandEnd := do
  let current ← below.kernel (read Kernel.currentTask)
  let item ← below.taskGetStackItem caller current 0
  let arguments := caller.arguments (caller.physical item)
  match arguments with
  | [] => pure (.result (BitVec.ofInt 32 (-EINVARG)))
  | programName :: _ =>
      if strlen programName = 0 then pure (.result (BitVec.ofInt 32 (-EINVARG)))
      else
        let path := drivePrefix ++ strncpy programName peachosMaxPath
        if peachosMaxPath < path.length then below.kernel fault
        else
          let (res, process) ← below.processLoadSwitch path
          if res < 0 then pure (.result (BitVec.ofInt 32 res))
          else
            let res ← below.processInjectArguments process arguments
            if res < 0 then pure (.result (BitVec.ofInt 32 res)) else below.startTask process

def isr80hCommand8GetProgramArguments : Prog σ Stop CommandEnd := do
  let process ← below.kernel taskCurrentProcess
  let current ← below.kernel (read Kernel.currentTask)
  let item ← below.taskGetStackItem caller current 0
  let arguments := caller.physical item
  if arguments = 0 then below.kernel fault
  else
    let record ← below.kernel (read (fun kernel => (kernel.processRecords process).arguments))
    below.kernel (update (fun kernel => kernel.setMemory { kernel.memory with
      bytes := store32 (store32 kernel.memory.bytes arguments record.argc) (arguments + 4) record.argv }))
    pure (.result 0)

def taskNext : Prog σ Stop CommandEnd := do
  let nextTask ← below.kernel taskGetNext
  if nextTask = 0 then below.kernel (panic "No more tasks!\n")
  else
    below.kernel (taskSwitch nextTask)
    pure (.taskReturn (taskRegisters nextTask))

def isr80hCommand9Exit : Prog σ Stop CommandEnd := do
  let process ← below.kernel taskCurrentProcess
  let _ ← below.processTerminate process
  below.taskNext

def isr80hCommands : Int → Option (Prog σ Stop CommandEnd)
  | 0 => some (below.isr80hCommand0Sum caller)
  | 1 => some (below.isr80hCommand1Print caller)
  | 2 => some below.isr80hCommand2GetKey
  | 3 => some (below.isr80hCommand3Putchar caller)
  | 4 => some (below.isr80hCommand4Malloc caller)
  | 5 => some (below.isr80hCommand5Free caller)
  | 6 => some (below.isr80hCommand6ProcessLoadStart caller)
  | 7 => some (below.isr80hCommand7InvokeSystemCommand caller)
  | 8 => some (below.isr80hCommand8GetProgramArguments caller)
  | 9 => some below.isr80hCommand9Exit
  | _ => none

def isr80hHandleCommand (command : Int) : Prog σ Stop CommandEnd :=
  if command < 0 ∨ peachosMaxIsr80hCommands ≤ command then pure (.result 0)
  else
    match below.isr80hCommands caller command with
    | some commandFunc => commandFunc
    | none => below.kernel (panic "\n Command doesnt exist")

/-- What the kernel does around its work for a task. -/
def enter (frame : InterruptFrame) (work : Prog σ Stop CommandEnd) : Prog σ Stop CommandEnd := do
  below.kernelPage caller
  below.kernel (taskCurrentSaveState frame)
  let ended ← work
  match ended with
  | .taskReturn registers => pure (.taskReturn registers)
  | .result value =>
      below.taskPage
      pure (.result value)

def isr80hHandler (command : Int) (frame : InterruptFrame) : Prog σ Stop CommandEnd :=
  below.enter caller frame (below.isr80hHandleCommand caller command)

def idtHandleExecption : Prog σ Stop CommandEnd := do
  let process ← below.kernel taskCurrentProcess
  let _ ← below.processTerminate process
  below.taskNext

/-- `c` is the clock's own counter. -/
def idtClock (c : Int) : Prog σ Stop CommandEnd :=
  if c < 10 then pure (.result 0) else below.taskNext

/-- `key` is the character of the scancode, if a key was pressed. -/
def classicKeyboardInterruptHandler (key : Option Byte) : Prog σ Stop CommandEnd := do
  below.kernelPage caller
  match key with
  | none => pure (.result 0)
  | some c =>
      if c = 96 then
        below.kernel shellSwitchToNext
        pure (.result 0)
      else
        let _ ← (if c ≠ 0 then below.kernel (keyboardPush c) else pure ())
        below.taskPage
        pure (.result 0)

def interruptCallbacks (c : Int) (key : Option Byte) (interrupt : Nat) : Option (Prog σ Stop CommandEnd) :=
  if interrupt < 0x20 then some below.idtHandleExecption
  else if interrupt = 0x20 then some (below.idtClock c)
  else if interrupt = 0x21 then some (below.classicKeyboardInterruptHandler caller key)
  else none

/-- An interrupt without a callback saves nothing. -/
def interruptHandler (c : Int) (key : Option Byte) (interrupt : Nat) (frame : InterruptFrame) :
    Prog σ Stop CommandEnd :=
  match below.interruptCallbacks caller c key interrupt with
  | some callback => below.enter caller frame callback
  | none => do
      below.kernelPage caller
      below.taskPage
      pure (.result 0)

end Below

end PeachOS
