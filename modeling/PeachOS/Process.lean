import PeachOS.Lib.Interval
import PeachOS.Task

/-! Processes once they are loaded, from `task/process.c`: their heap blocks, their
mappings and their end. -/

namespace PeachOS
open Program ByteMemory Search

def processCurrent : KernelProg Addr := read Kernel.currentProcess

def processGet (kernel : Kernel) (processId : Int) : Addr :=
  if processId < 0 ∨ (peachosMaxProcesses : Int) ≤ processId then 0
  else kernel.processes processId.toNat

def processSwitch (process : Addr) : KernelProg Unit :=
  update (fun kernel => { kernel with currentProcess := process })

def processFindFreeAllocationIndex (record : Process) : Int :=
  match firstIndex peachosMaxProgramAllocations (fun i => (record.allocations i).ptr == 0) with
  | some i => i
  | none => -ENOMEM

/-- `process->task->page_directory`. -/
def processPageDirectory (process : Addr) : KernelProg Addr := do
  let record ← read (fun kernel => kernel.processRecords process)
  if record.task = 0 then fault
  else read (fun kernel => (kernel.tasks record.task).pageDirectory)

def processMalloc (process : Addr) (size : Word) : KernelProg Addr := do
  let ptr ← Kernel.kzalloc size
  if ptr = 0 then pure 0
  else
    let record ← read (fun kernel => kernel.processRecords process)
    let index := processFindFreeAllocationIndex record
    if index < 0 then do
      Kernel.kfree ptr
      pure 0
    else
      let directory ← processPageDirectory process
      let res ← Kernel.onBytes (fun bytes => pagingMapTo bytes directory ptr ptr
        (pagingAlignAddress (ptr + size)) (pagingIsWriteable ||| pagingAccessFromAll ||| pagingIsPresent))
      if res < 0 then do
        Kernel.kfree ptr
        pure 0
      else
        update (fun kernel => kernel.setProcess process (fun record =>
          { record with allocations := Function.update record.allocations index.toNat ⟨ptr, size⟩ }))
        pure ptr

def processGetAllocationByAddr (record : Process) (addr : Addr) : Option Nat :=
  firstIndex peachosMaxProgramAllocations (fun i => (record.allocations i).ptr == addr)

def processAllocationUnjoin (ptr : Addr) (record : Process) : Process :=
  { record with allocations := fun i =>
      if i < peachosMaxProgramAllocations ∧ (record.allocations i).ptr = ptr then ⟨0, 0⟩
      else record.allocations i }

def processFree (process ptr : Addr) : KernelProg Unit := do
  let record ← read (fun kernel => kernel.processRecords process)
  match processGetAllocationByAddr record ptr with
  | none => pure ()
  | some index =>
      let allocation := record.allocations index
      let directory ← processPageDirectory process
      let res ← Kernel.onBytes (fun bytes => pagingMapTo bytes directory allocation.ptr allocation.ptr
        (pagingAlignAddress (allocation.ptr + allocation.size)) 0x00)
      if res < 0 then pure ()
      else
        update (fun kernel => kernel.setProcess process (processAllocationUnjoin ptr))
        Kernel.kfree ptr

def processTerminateAllocationsLoop (process : Addr) : (remaining i : Nat) → KernelProg Unit
  | 0, _ => pure ()
  | remaining + 1, i => do
      let ptr ← read (fun kernel => ((kernel.processRecords process).allocations i).ptr)
      processFree process ptr
      processTerminateAllocationsLoop process remaining (i + 1)

def processTerminateAllocations (process : Addr) : KernelProg Int := do
  processTerminateAllocationsLoop process peachosMaxProgramAllocations 0
  pure 0

def processFreeProgramData (process : Addr) : KernelProg Int := do
  let record ← read (fun kernel => kernel.processRecords process)
  if record.filetype = processFiletypeBinary then do
    Kernel.kfree record.ptr
    pure 0
  else if record.filetype = processFiletypeElf then do
    elfClose record.ptr
    pure 0
  else pure (-EINVARG)

def processSwitchToAny : KernelProg Unit := do
  let processes ← read Kernel.processes
  match firstIndex peachosMaxProcesses (fun i => processes i != 0) with
  | some i => processSwitch (processes i)
  | none => panic "No processes to switch to!\n"

def processUnlink (process : Addr) : KernelProg Unit := do
  update (fun kernel => { kernel with
    processes := Function.update kernel.processes (kernel.processRecords process).id.toNat 0 })
  let current ← read Kernel.currentProcess
  if current = process then processSwitchToAny else pure ()

def processTerminate (process : Addr) : KernelProg Int := do
  let res ← processTerminateAllocations process
  if res < 0 then pure res
  else
    let res ← processFreeProgramData process
    if res < 0 then pure res
    else
      let record ← read (fun kernel => kernel.processRecords process)
      Kernel.kfree record.stack
      let _ ← taskFree record.task
      processUnlink process
      pure res

def processMapBinary (process : Addr) : KernelProg Int := do
  let record ← read (fun kernel => kernel.processRecords process)
  let directory ← processPageDirectory process
  Kernel.onBytes (fun bytes => pagingMapTo bytes directory peachosProgramVirtualAddress record.ptr
    (pagingAlignAddress (record.ptr + record.size))
    (pagingIsPresent ||| pagingIsWriteable ||| pagingAccessFromAll))

/-- The `paging_map_to` call for one program header. -/
def elfMapPhdr (bytes : Bytes) (directory : Addr) (file : ElfFile) (phdr : Addr) : Int × Bytes :=
  let phdrPhysAddress := elfPhdrPhysAddress bytes file phdr
  let flags := pagingIsPresent ||| pagingAccessFromAll
  let flags := if phdrFlags bytes phdr &&& pfW ≠ 0 then flags ||| pagingIsWriteable else flags
  pagingMapTo bytes directory (pagingAlignToLowerPage (phdrVaddr bytes phdr))
    (pagingAlignToLowerPage phdrPhysAddress)
    (pagingAlignAddress (phdrPhysAddress + phdrMemsz bytes phdr)) flags

/-- The loop from header `i` on. `e_phnum` is read before each round, and is at most
65535. -/
def processMapElfLoop (process : Addr) (file : ElfFile) (phdrs : Addr) :
    (fuel i : Nat) → (res : Int) → KernelProg Int
  | 0, _, res => pure res
  | fuel + 1, i, res => do
      let bytes ← read (fun kernel => kernel.memory.bytes)
      if i < (elfPhnum bytes file.elfMemory).toNat then
        let directory ← processPageDirectory process
        let res ← Kernel.onBytes (elfMapPhdr · directory file (phdrs + BitVec.ofNat 32 (32 * i)))
        if res < 0 then pure res
        else processMapElfLoop process file phdrs fuel (i + 1) res
      else pure res

def processMapElf (process : Addr) : KernelProg Int := do
  let record ← read (fun kernel => kernel.processRecords process)
  if record.ptr = 0 then fault
  else
    let file ← read (fun kernel => kernel.elfFiles record.ptr)
    let bytes ← read (fun kernel => kernel.memory.bytes)
    processMapElfLoop process file (elfPheader bytes file.elfMemory) (2 ^ 16) 0 0

/-- The result of mapping the stack is not looked at. -/
def processMapMemory (process : Addr) : KernelProg Int := do
  let record ← read (fun kernel => kernel.processRecords process)
  let res ← (if record.filetype = processFiletypeBinary then processMapBinary process
    else if record.filetype = processFiletypeElf then processMapElf process
    else panic "\n Invalid filetype")
  if res < 0 then pure res
  else
    let directory ← processPageDirectory process
    let _ ← Kernel.onBytes (fun bytes => pagingMapTo bytes directory
      peachosProgramVirtualStackAddressEnd record.stack
      (pagingAlignAddress (record.stack + BitVec.ofNat 32 peachosUserProgramStackSize))
      (pagingIsPresent ||| pagingIsWriteable ||| pagingAccessFromAll))
    pure res

def processGetFreeSlot (kernel : Kernel) : Int :=
  match firstIndex peachosMaxProcesses (fun i => kernel.processes i == 0) with
  | some i => i
  | none => -EISTKN

end PeachOS
