import PeachOS.Process
import PeachOS.Strings

/-! Tasks and processes over what lies below them. The heap, the address spaces and the
loader are a parameter, so that the same code runs on the kernel's own heap and on an
abstract one. -/

namespace PeachOS
open Program ByteMemory

/-- What a process owns on the heap. An address space is one part. -/
inductive Part where
  | task
  | space
  | stack
  | elfFile
  | image
  | data
  deriving DecidableEq

/-- What a block of the heap was allocated for. -/
inductive BlockUse where
  | kernel
  | process
  | owned (part : Part) (process : Addr)
  | shell
  | videoMem (shell : Addr)
  | terminal (shell : Addr)
  deriving DecidableEq

/-- The calls that task.c, process.c and shell.c make on the layers below; `kernel` runs
what touches the kernel's records only. -/
structure Below (σ : Type) where
  kernel : {α : Type} → KernelProg α → Prog σ Stop α
  kzalloc : BlockUse → Word → Prog σ Stop Addr
  kfree : Addr → Prog σ Stop Unit
  pagingNew4gb : (process : Addr) → (flags : BitVec 8) → Prog σ Stop Addr
  pagingFree4gb : Addr → Prog σ Stop Unit
  pagingMapTo : (directory virt phys physEnd : Addr) → (flags : Word) → Prog σ Stop Int
  processLoadData : List Byte → (process : Addr) → Prog σ Stop Int
  processMapMemory : (process : Addr) → Prog σ Stop Int

/-- The kernel's own calls, with the loader as a parameter. -/
def kernelBelow (processLoadData : List Byte → Addr → KernelProg Int) : Below Kernel where
  kernel := id
  kzalloc := fun _ => Kernel.kzalloc
  kfree := Kernel.kfree
  pagingNew4gb := fun _ => Kernel.pagingNew4gb
  pagingFree4gb := Kernel.pagingFree4gb
  pagingMapTo := fun directory virt phys physEnd flags =>
    Kernel.onBytes (fun bytes => PeachOS.pagingMapTo bytes directory virt phys physEnd flags)
  processLoadData := processLoadData
  processMapMemory := PeachOS.processMapMemory

abbrev sizeofProcess : Word := 9368

namespace Below
variable {σ : Type} (below : Below σ)

def taskFree (task : Addr) : Prog σ Stop Int := do
  if task = 0 then fault
  else
    let record ← below.kernel (read (fun kernel => kernel.tasks task))
    below.pagingFree4gb record.pageDirectory
    below.kernel (taskListRemove task)
    below.kfree task
    pure 0

def taskInit (task process : Addr) : Prog σ Stop Int := do
  below.kernel (update (fun kernel => kernel.setTask task (fun _ => Task.zero)))
  let chunk ← below.pagingNew4gb process
    (BitVec.ofNat 8 (pagingIsPresent ||| pagingAccessFromAll).toNat)
  below.kernel (update (fun kernel => kernel.setTask task ({ · with pageDirectory := chunk })))
  if chunk = 0 then pure (- EIO)
  else
    let kernel ← below.kernel (read id)
    let record := kernel.processRecords process
    let entry :=
      if record.filetype = processFiletypeElf then
        elfEntry kernel.memory.bytes (kernel.elfFiles record.ptr).elfMemory
      else peachosProgramVirtualAddress
    below.kernel (update (fun kernel => kernel.setTask task (fun record =>
      { record with
        registers := { record.registers with
          ip := entry
          ss := userDataSegment
          cs := userCodeSegment
          esp := peachosProgramVirtualStackAddressStart }
        process := process })))
    pure 0

def taskNew (process : Addr) : Prog σ Stop Addr := do
  let task ← below.kzalloc (.owned .task process) sizeofTask
  let res ← (if task = 0 then pure (-ENOMEM) else below.taskInit task process)
  if res ≠ 0 then
    let _ ← below.taskFree task
    pure (BitVec.ofInt 32 res)
  else
    below.kernel (taskListAppend task)
    pure task

def processMalloc (process : Addr) (size : Word) : Prog σ Stop Addr := do
  let ptr ← below.kzalloc (.owned .data process) size
  if ptr = 0 then pure 0
  else
    let record ← below.kernel (read (fun kernel => kernel.processRecords process))
    let index := processFindFreeAllocationIndex record
    if index < 0 then do
      below.kfree ptr
      pure 0
    else
      let directory ← below.kernel (processPageDirectory process)
      let res ← below.pagingMapTo directory ptr ptr (pagingAlignAddress (ptr + size))
        (pagingIsWriteable ||| pagingAccessFromAll ||| pagingIsPresent)
      if res < 0 then do
        below.kfree ptr
        pure 0
      else
        below.kernel (update (fun kernel => kernel.setProcess process (fun record =>
          { record with
            allocations := Function.update record.allocations index.toNat ⟨ptr, size⟩ })))
        pure ptr

def processFree (process ptr : Addr) : Prog σ Stop Unit := do
  let record ← below.kernel (read (fun kernel => kernel.processRecords process))
  match processGetAllocationByAddr record ptr with
  | none => pure ()
  | some index =>
      let allocation := record.allocations index
      let directory ← below.kernel (processPageDirectory process)
      let res ← below.pagingMapTo directory allocation.ptr allocation.ptr
        (pagingAlignAddress (allocation.ptr + allocation.size)) 0x00
      if res < 0 then pure ()
      else
        below.kernel (update (fun kernel => kernel.setProcess process (processAllocationUnjoin ptr)))
        below.kfree ptr

def processTerminateAllocationsLoop (process : Addr) : (remaining i : Nat) → Prog σ Stop Unit
  | 0, _ => pure ()
  | remaining + 1, i => do
      let ptr ← below.kernel (read (fun kernel => ((kernel.processRecords process).allocations i).ptr))
      below.processFree process ptr
      processTerminateAllocationsLoop process remaining (i + 1)

def processTerminateAllocations (process : Addr) : Prog σ Stop Int := do
  below.processTerminateAllocationsLoop process peachosMaxProgramAllocations 0
  pure 0

def elfClose (file : Addr) : Prog σ Stop Unit :=
  if file = 0 then pure ()
  else do
    let record ← below.kernel (read (fun kernel => kernel.elfFiles file))
    below.kfree record.elfMemory
    below.kfree file

def processFreeProgramData (process : Addr) : Prog σ Stop Int := do
  let record ← below.kernel (read (fun kernel => kernel.processRecords process))
  if record.filetype = processFiletypeBinary then do
    below.kfree record.ptr
    pure 0
  else if record.filetype = processFiletypeElf then do
    below.elfClose record.ptr
    pure 0
  else pure (-EINVARG)

def processTerminate (process : Addr) : Prog σ Stop Int := do
  let res ← below.processTerminateAllocations process
  if res < 0 then pure res
  else
    let res ← below.processFreeProgramData process
    if res < 0 then pure res
    else
      let record ← below.kernel (read (fun kernel => kernel.processRecords process))
      below.kfree record.stack
      let _ ← below.taskFree record.task
      below.kernel (processUnlink process)
      pure res

/-- The part of `process_load_for_slot` after the program's data is loaded: the stack, the
task and the mappings. The result, and the process that goes out, null when none does. A
task whose `ERROR_I` is zero is a null pointer. -/
def processLoadRest (filename : List Byte) (process : Addr) (processSlot : Int) :
    Prog σ Stop (Int × Addr) := do
  let programStackPtr ← below.kzalloc (.owned .stack process)
    (BitVec.ofNat 32 peachosUserProgramStackSize)
  if programStackPtr = 0 then pure (-ENOMEM, 0)
  else
    below.kernel (update (fun kernel => kernel.setProcess process (fun record =>
      { record with
        filename := strncpy filename peachosMaxPath
        stack := programStackPtr
        id := BitVec.ofInt 16 processSlot })))
    let task ← below.taskNew process
    if task = 0 then pure (0, 0)
    else
      below.kernel (update (fun kernel => kernel.setProcess process ({ · with task := task })))
      let res ← below.processMapMemory process
      if res < 0 then pure (res, 0)
      else
        below.kernel (update (fun kernel => { kernel with
          processes := Function.update kernel.processes processSlot.toNat process }))
        pure (res, process)

/-- The end of `process_load_for_slot`: the task of a process that failed is freed. -/
def processLoadOut (process : Addr) (res : Int) : Prog σ Stop Unit := do
  let record ← below.kernel (read (fun kernel => kernel.processRecords process))
  if res < 0 ∧ record.task ≠ 0 then do
    let _ ← below.taskFree record.task
    pure ()
  else pure ()

def processLoadForSlot (filename : List Byte) (processSlot : Int) : Prog σ Stop (Int × Addr) := do
  let taken ← below.kernel (read (processGet · processSlot))
  if taken ≠ 0 then pure (-EISTKN, 0)
  else
    let process ← below.kzalloc .process sizeofProcess
    if process = 0 then pure (-ENOMEM, 0)
    else
      below.kernel (update (fun kernel => kernel.setProcess process (fun _ => Process.zero)))
      let loaded ← below.processLoadData filename process
      let (res, out) ← (if loaded < 0 then pure (loaded, 0)
        else below.processLoadRest filename process processSlot)
      below.processLoadOut process res
      pure (res, out)

def processLoad (filename : List Byte) : Prog σ Stop (Int × Addr) := do
  let processSlot ← below.kernel (read processGetFreeSlot)
  if processSlot < 0 then pure (-EISTKN, 0)
  else below.processLoadForSlot filename processSlot

def processLoadSwitch (filename : List Byte) : Prog σ Stop (Int × Addr) := do
  let (res, process) ← below.processLoad filename
  if res = 0 then do
    below.kernel (processSwitch process)
    pure (res, process)
  else pure (res, process)

/-- The loop of `process_inject_arguments` from argument `i` on. -/
def processInjectLoop (process argv : Addr) : (i : Nat) → List (List Byte) → Prog σ Stop Int
  | _, [] => pure 0
  | i, argument :: rest => do
      let argumentStr ← below.processMalloc process 512
      if argumentStr = 0 then pure (-ENOMEM)
      else
        below.kernel (update (fun kernel => kernel.setMemory { kernel.memory with
          bytes := store32 (storeBytes kernel.memory.bytes argumentStr (strncpy argument 512))
            (argv + BitVec.ofNat 32 (4 * i)) argumentStr }))
        processInjectLoop process argv (i + 1) rest

/-- The linked list of arguments is the list of its strings. -/
def processInjectArguments (process : Addr) (arguments : List (List Byte)) : Prog σ Stop Int := do
  if arguments.length = 0 then pure (- EIO)
  else
    let argv ← below.processMalloc process (BitVec.ofNat 32 (4 * arguments.length))
    if argv = 0 then pure (-ENOMEM)
    else
      let res ← below.processInjectLoop process argv 0 arguments
      if res < 0 then pure res
      else
        below.kernel (update (fun kernel => kernel.setProcess process (fun record =>
          { record with arguments := ⟨BitVec.ofNat 32 arguments.length, argv⟩ })))
        pure res

end Below

section Same
variable (processLoadData : List Byte → Addr → KernelProg Int)

/-- On the kernel's own heap the code is that of `task.c` and `process.c` as it stands. -/
theorem taskNew_below : (kernelBelow processLoadData).taskNew = taskNew := rfl

theorem taskFree_below : (kernelBelow processLoadData).taskFree = taskFree := rfl

theorem processMalloc_below : (kernelBelow processLoadData).processMalloc = processMalloc := rfl

theorem processFree_below : (kernelBelow processLoadData).processFree = processFree := by
  funext process ptr kernel
  unfold Below.processFree processFree
  show (read _ >>= _) kernel = (read _ >>= _) kernel
  rw [read_bind, read_bind]
  cases processGetAllocationByAddr (kernel.processRecords process) ptr <;> rfl

theorem processTerminateAllocationsLoop_below (process : Addr) (remaining i : Nat) :
    (kernelBelow processLoadData).processTerminateAllocationsLoop process remaining i =
      processTerminateAllocationsLoop process remaining i := by
  induction remaining generalizing i with
  | zero => rfl
  | succ remaining ih =>
    unfold Below.processTerminateAllocationsLoop processTerminateAllocationsLoop
    rw [processFree_below]
    simp only [ih]
    rfl

theorem processTerminate_below :
    (kernelBelow processLoadData).processTerminate = processTerminate := by
  funext process
  unfold Below.processTerminate processTerminate Below.processTerminateAllocations
    processTerminateAllocations
  rw [processTerminateAllocationsLoop_below]
  rfl

end Same

end PeachOS
