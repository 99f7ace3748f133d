import PeachOS.Elf

/-! The list and the lifetime of tasks, from `task/task.c`. -/

namespace PeachOS
open Program ByteMemory

abbrev sizeofTask : Word := 64

def taskGetNext : KernelProg Addr := do
  let current ← read Kernel.currentTask
  if current = 0 then fault
  else
    let next ← read (fun kernel => (kernel.tasks current).next)
    if next = 0 then read Kernel.taskHead else pure next

def taskListRemove (task : Addr) : KernelProg Unit := do
  let record ← read (fun kernel => kernel.tasks task)
  updateWhen (fun _ => record.prev ≠ 0)
    (fun kernel => kernel.setTask record.prev ({ · with next := record.next }))
  update (fun kernel => { kernel with
    taskHead := if task = kernel.taskHead then (kernel.tasks task).next else kernel.taskHead })
  update (fun kernel => { kernel with
    taskTail := if task = kernel.taskTail then (kernel.tasks task).prev else kernel.taskTail })
  let current ← read Kernel.currentTask
  if task = current then
    let next ← taskGetNext
    update (fun kernel => { kernel with currentTask := next })
  else pure ()

def taskFree (task : Addr) : KernelProg Int := do
  if task = 0 then fault
  else
    let record ← read (fun kernel => kernel.tasks task)
    Kernel.pagingFree4gb record.pageDirectory
    taskListRemove task
    Kernel.kfree task
    pure 0

/-- Fills in a task's record and gives it an address space of its own. -/
def taskInit (task process : Addr) : KernelProg Int := do
  update (fun kernel => kernel.setTask task (fun _ => Task.zero))
  let chunk ← Kernel.pagingNew4gb (BitVec.ofNat 8 (pagingIsPresent ||| pagingAccessFromAll).toNat)
  update (fun kernel => kernel.setTask task ({ · with pageDirectory := chunk }))
  if chunk = 0 then pure (- EIO)
  else
    let kernel ← read id
    let record := kernel.processRecords process
    let entry :=
      if record.filetype = processFiletypeElf then
        elfEntry kernel.memory.bytes (kernel.elfFiles record.ptr).elfMemory
      else peachosProgramVirtualAddress
    update (fun kernel => kernel.setTask task (fun record =>
      { record with
        registers := { record.registers with
          ip := entry
          ss := userDataSegment
          cs := userCodeSegment
          esp := peachosProgramVirtualStackAddressStart }
        process := process }))
    pure 0

/-- Puts a task at the tail of the list; the first one also becomes current. -/
def taskListAppend (task : Addr) : KernelProg Unit := do
  let kernel ← read id
  if kernel.taskHead = 0 then
    update (fun kernel => { kernel with taskHead := task, taskTail := task, currentTask := task })
  else
    update (fun kernel => kernel.setTask kernel.taskTail ({ · with next := task }))
    update (fun kernel => kernel.setTask task ({ · with prev := kernel.taskTail }))
    update (fun kernel => { kernel with taskTail := task })

def taskNew (process : Addr) : KernelProg Addr := do
  let task ← Kernel.kzalloc sizeofTask
  let res ← (if task = 0 then pure (-ENOMEM) else taskInit task process)
  if res ≠ 0 then
    let _ ← taskFree task
    pure (BitVec.ofInt 32 res)
  else
    taskListAppend task
    pure task

def taskSwitch (task : Addr) : KernelProg Unit := do
  if task = 0 then fault
  else
    update (fun kernel => { kernel with currentTask := task })
    let record ← read (fun kernel => kernel.tasks task)
    Kernel.pagingSwitch record.pageDirectory

/-- The kernel after a switch to a task. -/
def Kernel.switched (kernel : Kernel) (task : Addr) : Kernel :=
  { kernel with
    currentTask := task
    pageDirectory := directoryEntry kernel.memory.bytes (kernel.tasks task).pageDirectory }

section Switch
variable {kernel : Kernel}

theorem Kernel.pagingSwitch_run {chunk : Addr} (nonnull : chunk ≠ 0) :
    Kernel.pagingSwitch chunk kernel =
      (.ok (), { kernel with pageDirectory := directoryEntry kernel.memory.bytes chunk }) := by
  unfold Kernel.pagingSwitch
  rw [if_neg nonnull]
  rfl

theorem taskSwitch_run {task : Addr} (nonnull : task ≠ 0)
    (space : (kernel.tasks task).pageDirectory ≠ 0) :
    taskSwitch task kernel = (.ok (), kernel.switched task) := by
  unfold taskSwitch
  rw [if_neg nonnull, update_bind, read_bind]
  exact Kernel.pagingSwitch_run space

end Switch

end PeachOS
