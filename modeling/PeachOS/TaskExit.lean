import PeachOS.ProcessReturns
import PeachOS.ProcessRuns
import PeachOS.ShellRuns
import PeachOS.TaskRounds

/-! The end of the running task: `task_list_remove` makes its successor the current task, and
`task_next` goes on to the task after the current one. -/

namespace PeachOS
open Program ByteMemory LinkedList Transition Search

/-- What `process_load` leaves for the process of a task. -/
structure HasProcess (kernel : Kernel) (task : Addr) : Prop where
  own : (kernel.processRecords (kernel.tasks task).process).task = task
  program : (kernel.processRecords (kernel.tasks task).process).filetype = processFiletypeBinary ∨
    (kernel.processRecords (kernel.tasks task).process).filetype = processFiletypeElf
  bound : (kernel.processRecords (kernel.tasks task).process).id.toNat < peachosMaxProcesses
  slot : kernel.processes (kernel.processRecords (kernel.tasks task).process).id.toNat = (kernel.tasks task).process
  nonnull : (kernel.tasks task).process ≠ 0
  space : (kernel.tasks task).pageDirectory ≠ 0

theorem Consistent.hasProcess {system : System} (consistent : Consistent ∅ system) {task : Addr}
    (live : task ∈ system.liveTasks) : HasProcess system.kernel task := by
  obtain ⟨process, own⟩ := live
  obtain ⟨i, bound, here, points⟩ := (consistent.tasks task process own).resolve_left id
  have nonnull : process ≠ 0 := by
    rintro rfl
    have record := consistent.owners task .task 0 own
    rw [consistent.null] at record
    cases record
  have loaded := consistent.entries i bound (here ▸ nonnull) (Set.notMem_empty _)
  rw [here] at loaded
  have back : (system.kernel.tasks task).process = process := points ▸ loaded.back
  have number : (system.kernel.processRecords process).id.toNat = i := by
    change (system.tables.processRecords process).id.toNat = i
    rw [loaded.id, BitVec.toNat_ofNat]
    unfold peachosMaxProcesses at bound
    omega
  have image : (system.kernel.processRecords process).filetype = processFiletypeBinary ∨
      (system.kernel.processRecords process).filetype = processFiletypeElf :=
    loaded.image.imp And.left And.left
  constructor
  · rw [back]
    exact points
  · rw [back]
    exact image
  · rw [back, number]
    exact bound
  · rw [back, number]
    exact here
  · rw [back]
    exact nonnull
  · have space := loaded.space_nonnull consistent.null
    rwa [points] at space

/-- `after` comes from `before` by changes of memory, and of the allocations of a process. -/
def HeapOnly (process : Addr) (before after : Kernel) : Prop :=
  ∃ memory allocations, after = (before.setProcess process ({ · with allocations := allocations })).setMemory memory

section Terminate
variable {kernel middle after : Kernel} {process ptr task : Addr}

theorem HeapOnly.refl (process : Addr) (kernel : Kernel) : HeapOnly process kernel kernel := by
  refine ⟨kernel.memory, (kernel.processRecords process).allocations, ?_⟩
  unfold Kernel.setProcess
  rw [Function.update_eq_self]
  rfl

theorem HeapOnly.trans (left : HeapOnly process kernel middle) (right : HeapOnly process middle after) :
    HeapOnly process kernel after := by
  obtain ⟨_, _, rfl⟩ := left
  obtain ⟨memory, allocations, rfl⟩ := right
  refine ⟨memory, allocations, ?_⟩
  simp only [Kernel.setProcess, Kernel.setMemory, Function.update_self, Function.update_idem]

theorem HeapOnly.memory (memory : Memory) (heapOnly : HeapOnly process kernel middle) :
    HeapOnly process kernel (middle.setMemory memory) := by
  obtain ⟨_, allocations, rfl⟩ := heapOnly
  exact ⟨memory, allocations, rfl⟩

theorem HeapOnly.tasks (heapOnly : HeapOnly process kernel after) : after.tasks = kernel.tasks := by
  obtain ⟨_, _, rfl⟩ := heapOnly
  rfl

theorem HeapOnly.record (heapOnly : HeapOnly process kernel after) :
    (after.processRecords process).task = (kernel.processRecords process).task ∧
      (after.processRecords process).filetype = (kernel.processRecords process).filetype ∧
      (after.processRecords process).id = (kernel.processRecords process).id := by
  obtain ⟨_, _, rfl⟩ := heapOnly
  simp only [Kernel.setMemory, Kernel.setProcess, Function.update_self, and_self]

theorem processFree_returns (ptr : Addr) (hasTask : (kernel.processRecords process).task ≠ 0) :
    ∃ after, processFree process ptr kernel = (.ok (), after) ∧ HeapOnly process kernel after := by
  unfold processFree
  rw [read_bind]
  cases processGetAllocationByAddr (kernel.processRecords process) ptr with
  | none => exact ⟨kernel, rfl, .refl process kernel⟩
  | some index =>
    have directory : processPageDirectory process kernel =
        (.ok (kernel.tasks (kernel.processRecords process).task).pageDirectory, kernel) := by
      unfold processPageDirectory
      rw [read_bind]
      exact congrFun (if_neg hasTask) _
    dsimp only
    rw [bind_ok directory]
    generalize (kernel.tasks (kernel.processRecords process).task).pageDirectory = chunk
    obtain ⟨ptr', size⟩ := (kernel.processRecords process).allocations index
    have mapped : ∀ (call : Bytes → Int × Bytes) (next : Int → KernelProg Unit), (Kernel.onBytes call >>= next) kernel =
        next (call kernel.memory.bytes).1 (kernel.setMemory ⟨kernel.memory.heap, (call kernel.memory.bytes).2⟩) :=
      fun _ _ => rfl
    rw [mapped]
    split
    · exact ⟨_, rfl, (HeapOnly.refl process kernel).memory _⟩
    · rw [update_bind]
      refine ⟨_, rfl, HeapOnly.memory _ ?_⟩
      exact ⟨_, (processAllocationUnjoin ptr (kernel.processRecords process)).allocations, rfl⟩

theorem processTerminateAllocationsLoop_returns (remaining i : Nat)
    (hasTask : (kernel.processRecords process).task ≠ 0) :
    ∃ after, processTerminateAllocationsLoop process remaining i kernel = (.ok (), after) ∧
      HeapOnly process kernel after := by
  induction remaining generalizing kernel i with
  | zero => exact ⟨kernel, rfl, .refl process kernel⟩
  | succ remaining ih =>
    obtain ⟨middle, freed, first⟩ := processFree_returns ((kernel.processRecords process).allocations i).ptr hasTask
    have still : (middle.processRecords process).task ≠ 0 := by
      rw [first.record.1]
      exact hasTask
    obtain ⟨after, run, rest⟩ := ih (i + 1) still
    refine ⟨after, ?_, first.trans rest⟩
    unfold processTerminateAllocationsLoop
    rw [read_bind, bind_ok freed]
    exact run

theorem processFreeProgramData_returns
    (program : (kernel.processRecords process).filetype = processFiletypeBinary ∨
      (kernel.processRecords process).filetype = processFiletypeElf) :
    ∃ memory, processFreeProgramData process kernel = (.ok 0, kernel.setMemory memory) := by
  unfold processFreeProgramData
  rw [read_bind]
  rcases program with binary | elf
  · rw [if_pos binary]
    exact ⟨_, rfl⟩
  · rw [if_neg (by rw [elf]; decide), if_pos elf]
    unfold elfClose
    split
    · exact ⟨kernel.memory, rfl⟩
    · exact ⟨_, rfl⟩

/-- The kernel when `process_terminate` comes to `process_unlink`. -/
structure Unlinking (kernel : Kernel) (task : Addr) (middle : Kernel) : Prop where
  tasks : middle.tasks = (kernel.removed task).tasks
  head : middle.taskHead = (kernel.removed task).taskHead
  current : middle.currentTask = (kernel.removed task).currentTask
  processes : middle.processes = kernel.processes
  currentProcess : middle.currentProcess = kernel.currentProcess
  id : (middle.processRecords (kernel.tasks task).process).id = (kernel.processRecords (kernel.tasks task).process).id

theorem Kernel.removed_records (kernel : Kernel) (task : Addr) :
    (kernel.removed task).processes = kernel.processes ∧
      (kernel.removed task).currentProcess = kernel.currentProcess ∧
      (kernel.removed task).processRecords = kernel.processRecords := by
  unfold Kernel.removed
  dsimp only
  split
  · exact ⟨rfl, rfl, rfl⟩
  · exact ⟨rfl, rfl, rfl⟩

theorem HeapOnly.removed (heapOnly : HeapOnly process kernel middle) (task : Addr) :
    HeapOnly process (kernel.removed task) (middle.removed task) := by
  obtain ⟨memory, allocations, rfl⟩ := heapOnly
  refine ⟨memory, allocations, ?_⟩
  unfold Kernel.removed Kernel.prevTask Kernel.nextTask Kernel.setMemory Kernel.setProcess
  dsimp only
  split <;> rfl

theorem HeapOnly.unlinking (heapOnly : HeapOnly (kernel.tasks task).process (kernel.removed task) middle) :
    Unlinking kernel task middle := by
  obtain ⟨processes, currentProcess, records⟩ := kernel.removed_records task
  have id := heapOnly.record.2.2
  rw [records] at id
  obtain ⟨_, _, rfl⟩ := heapOnly
  exact ⟨rfl, rfl, rfl, processes, currentProcess, id⟩

theorem processTerminate_unlinks (has : HasProcess kernel task) (nonnull : task ≠ 0)
    (proper : kernel.prevTask task ≠ task) : ∃ middle, Unlinking kernel task middle ∧
      processTerminate (kernel.tasks task).process kernel =
        (processUnlink (kernel.tasks task).process >>= fun _ => pure 0) middle := by
  have hasTask : (kernel.processRecords (kernel.tasks task).process).task ≠ 0 := by
    rw [has.own]
    exact nonnull
  obtain ⟨emptied, loop, first⟩ := processTerminateAllocationsLoop_returns peachosMaxProgramAllocations 0 hasTask
  have allocations : processTerminateAllocations (kernel.tasks task).process kernel = (.ok 0, emptied) := by
    unfold processTerminateAllocations
    rw [bind_ok loop]
    rfl
  obtain ⟨shrunk, data⟩ := processFreeProgramData_returns
    (by rw [first.record.2.1]; exact has.program :
      (emptied.processRecords (kernel.tasks task).process).filetype = processFiletypeBinary ∨ _)
  have stack : ∃ memory, ∀ next : Unit → KernelProg Int,
      (Kernel.kfree ((emptied.setMemory shrunk).processRecords (kernel.tasks task).process).stack >>= next)
        (emptied.setMemory shrunk) = next () (emptied.setMemory memory) := ⟨_, fun _ => rfl⟩
  obtain ⟨memory, stack⟩ := stack
  have cleared := first.memory memory
  have own : ((emptied.setMemory shrunk).processRecords (kernel.tasks task).process).task = task :=
    first.record.1.trans has.own
  have links : (emptied.setMemory memory).tasks = kernel.tasks := cleared.tasks
  have freed : ∃ last, taskFree task (emptied.setMemory memory) =
      (.ok 0, ((emptied.setMemory memory).removed task).setMemory last) :=
    ⟨_, taskFree_run nonnull (by rw [links]; exact has.space) (by unfold Kernel.prevTask; rw [links]; exact proper)⟩
  obtain ⟨last, freed⟩ := freed
  refine ⟨_, ((cleared.removed task).memory last).unlinking, ?_⟩
  unfold processTerminate
  rw [bind_ok allocations, if_neg (by decide), bind_ok data, if_neg (by decide), read_bind, stack, own]
  exact bind_ok freed

/-- The links of the kernel, which `process_unlink` does not touch. -/
def Links (tasks : Addr → Task) (head current : Addr) (kernel : Kernel) : Prop :=
  kernel.tasks = tasks ∧ kernel.taskHead = head ∧ kernel.currentTask = current

theorem processUnlink_links (tasks : Addr → Task) (head current : Addr) (process : Addr) :
    Keeps (Links tasks head current) (processUnlink process) := by
  unfold processUnlink processSwitchToAny
  apply Keeps.bind
  · exact Keeps.update (fun _ held => held)
  · intro _
    apply Keeps.bind
    · exact Keeps.read _
    · intro running
      apply Keeps.ite
      · apply Keeps.bind
        · exact Keeps.read _
        · intro processes
          cases firstIndex peachosMaxProcesses (fun i => processes i != 0) with
          | none => exact Keeps.stop _
          | some i => exact Keeps.update (fun _ held => held)
      · exact Keeps.pure _

end Terminate

section Ring
variable {kernel : Kernel} {task : Addr} {front back : List Addr}

/-- What is left is a ring along the `next` links, though the task after the removed one still
has its old `prev`. -/
theorem TaskList.removed_ring (list : TaskList kernel (front ++ task :: back)) :
    ∃ prev, LinkedList.Segment (kernel.removed task).nextTask prev 0 (front ++ back) 0 := by
  have apart := (List.nodup_append.mp list.distinct).2.2
  have frontNonnull : ∀ node ∈ front, node ≠ 0 := fun node member => list.nonnull node (List.mem_append_left _ member)
  have backDistinct := (List.nodup_cons.mp (List.nodup_append.mp list.distinct).2.1).2
  obtain ⟨_, prevTask, _, backLinks⟩ := list.around
  have next : ∀ node ∈ back, (kernel.removed task).nextTask node = kernel.nextTask node := by
    intro node member
    rw [Kernel.removed_next, if_neg]
    rintro ⟨nonempty, same⟩
    rw [prevTask] at nonempty same
    have last := List.mem_of_getLast? (getLastD_mem nonempty)
    exact apart _ last node (List.mem_cons_of_mem _ member) same.symm
  refine ⟨fun node => if node = back.headD 0 then front.getLastD 0 else kernel.prevTask node, ?_⟩
  rw [Segment.append]
  constructor
  · refine list.removed_front.congr (fun _ _ => rfl) (fun node member => ?_)
    rw [Kernel.removed_prev, if_neg]
    intro same
    cases back with
    | nil => exact frontNonnull node member same
    | cons successor rest =>
      exact apart node member successor (List.mem_cons_of_mem _ List.mem_cons_self) same
  · cases back with
    | nil => trivial
    | cons successor rest =>
      obtain ⟨_, forward, following⟩ := backLinks
      refine ⟨if_pos rfl, (next successor List.mem_cons_self).trans forward, ?_⟩
      refine following.congr (fun node member => next node (List.mem_cons_of_mem _ member)) (fun node member => ?_)
      refine if_neg (fun same => ?_)
      have same : node = successor := same
      exact (List.nodup_cons.mp backDistinct).1 (same ▸ member)

theorem TaskList.removed_current (list : TaskList kernel (front ++ task :: back)) (running : kernel.currentTask = task) :
    (kernel.removed task).taskHead = (front ++ back).headD 0 ∧
      (kernel.removed task).currentTask = ringTask (front ++ back) front.length := by
  have next := list.around.2.2.1
  have head : (kernel.removed task).taskHead = (front ++ back).headD 0 := by
    show (if task = kernel.taskHead then kernel.nextTask task else kernel.taskHead) = _
    rw [list.head]
    cases front with
    | nil => exact (if_pos rfl).trans next
    | cons first rest =>
      refine if_neg ?_
      rintro rfl
      exact (List.nodup_append.mp list.distinct).2.2 task List.mem_cons_self task List.mem_cons_self rfl
  have rotated : ringTask (front ++ back) front.length = ringTask (back ++ front) 0 := by
    have shift := ringNode_rotate (front ++ back) 0 front.length 0
    rw [List.rotate_append_length_eq, Nat.zero_add] at shift
    exact shift.symm
  refine ⟨head, ?_⟩
  show (if task = kernel.currentTask then
      (if kernel.nextTask task = 0 then (kernel.removed task).taskHead else kernel.nextTask task)
    else kernel.currentTask) = _
  rw [if_pos running.symm, head, next, rotated]
  cases back with
  | nil => cases front <;> rfl
  | cons successor rest =>
    refine (if_neg (list.nonnull successor (by simp))).trans ?_
    unfold ringTask ringNode
    rw [Nat.zero_mod]
    rfl

theorem HasProcess.saved (has : HasProcess kernel task) (other directory : Addr) (registers : Registers) :
    HasProcess (({ kernel with pageDirectory := directory } : Kernel).setTask other
      ({ · with registers := registers })) task := by
  obtain ⟨space, process, _⟩ := kernel.saved_task other directory registers task
  constructor
  · rw [process]
    exact has.own
  · rw [process]
    exact has.program
  · rw [process]
    exact has.bound
  · rw [process]
    exact has.slot
  · rw [process]
    exact has.nonnull
  · rw [space]
    exact has.space

theorem HasProcess.slots_differ {other : Addr} (has : HasProcess kernel task) (hasOther : HasProcess kernel other)
    (different : other ≠ task) : (kernel.processRecords (kernel.tasks other).process).id.toNat ≠
      (kernel.processRecords (kernel.tasks task).process).id.toNat := by
  intro same
  have slot := hasOther.slot
  rw [same, has.slot] at slot
  have own := hasOther.own
  rw [← slot, has.own] at own
  exact different own.symm

end Ring

/-- The two ways in which the running task comes to its end. -/
inductive TaskEnd where
  | exit
  | exception (interrupt : Fin 0x20) (c : Int) (key : Option Byte)

def TaskEnd.run (load : List Byte → Addr → KernelProg Int) (caller : Caller) (frame : InterruptFrame) :
    TaskEnd → KernelProg CommandEnd
  | exit => (kernelBelow load).isr80hHandler caller 9 frame
  | exception interrupt c key => (kernelBelow load).interruptHandler caller c key interrupt frame

def Kernel.entered (kernel : Kernel) (caller : Caller) (frame : InterruptFrame) : Kernel :=
  ({ kernel with pageDirectory := directoryEntry kernel.memory.bytes caller.kernelChunk } : Kernel).setTask
    kernel.currentTask ({ · with registers := frame.saved })

section Exit
variable {load : List Byte → Addr → KernelProg Int} {caller : Caller} {frame : InterruptFrame}
  {kernel after : Kernel} {task : Addr} {front back live : List Addr}

theorem TaskEnd.run_eq (ends : TaskEnd) :
    ends.run load caller frame = (kernelBelow load).enter caller frame (kernelBelow load).isr80hCommand9Exit := by
  cases ends with
  | exit => rfl
  | exception interrupt c key =>
    have callback : (kernelBelow load).interruptCallbacks caller c key interrupt =
        some (kernelBelow load).isr80hCommand9Exit := if_pos interrupt.isLt
    show (kernelBelow load).interruptHandler caller c key interrupt frame = _
    unfold Below.interruptHandler
    rw [callback]

theorem enter_run (work : KernelProg CommandEnd) (paged : caller.kernelChunk ≠ 0) (running : kernel.currentTask ≠ 0)
    (registers : Addr) :
    (∃ after, (kernelBelow load).enter caller frame work kernel = (.ok (.taskReturn registers), after)) ↔
      ∃ after, work (kernel.entered caller frame) = (.ok (.taskReturn registers), after) := by
  have page : (kernelBelow load).kernelPage caller kernel = _ := Kernel.pagingSwitch_run paged
  have save : (kernelBelow load).kernel (taskCurrentSaveState frame)
      { kernel with pageDirectory := directoryEntry kernel.memory.bytes caller.kernelChunk } =
      (.ok (), kernel.entered caller frame) := taskCurrentSaveState_run frame running
  unfold Below.enter
  rw [bind_ok page, bind_ok save]
  constructor
  · rintro ⟨after, run⟩
    obtain ⟨ended, middle, worked, left⟩ := bind_eq_ok run
    cases ended with
    | result value =>
      obtain ⟨_, _, _, returned⟩ := bind_eq_ok left
      cases returned
    | taskReturn other =>
      cases left
      exact ⟨after, worked⟩
  · rintro ⟨after, worked⟩
    rw [bind_ok worked]
    exact ⟨after, rfl⟩

variable (load) in
theorem exit_unlinks (list : TaskList kernel (front ++ task :: back)) (has : HasProcess kernel task)
    (running : kernel.currentTask = task) : ∃ middle, Unlinking kernel task middle ∧
      (kernelBelow load).isr80hCommand9Exit kernel =
        (processUnlink (kernel.tasks task).process >>= fun _ => (kernelBelow load).taskNext) middle := by
  obtain ⟨nonnull, proper⟩ := list.proper
  obtain ⟨middle, unlinking, terminate⟩ := processTerminate_unlinks has nonnull proper
  refine ⟨middle, unlinking, ?_⟩
  have process : taskCurrentProcess kernel = (.ok (kernel.tasks task).process, kernel) := by
    unfold taskCurrentProcess
    rw [read_bind, running, if_neg nonnull]
    rfl
  unfold Below.isr80hCommand9Exit
  rw [bind_ok (show (kernelBelow load).kernel taskCurrentProcess kernel = _ from process), processTerminate_below,
    bind_run, terminate, bind_run, bind_run]
  rcases processUnlink (kernel.tasks task).process middle with ⟨_ | _, _⟩ <;> rfl

variable (load) in
theorem exit_runs (list : TaskList kernel (front ++ task :: back)) (running : kernel.currentTask = task)
    (has : ∀ other ∈ front ++ task :: back, HasProcess kernel other) (nonempty : front ++ back ≠ []) :
    ∃ after, (kernelBelow load).isr80hCommand9Exit kernel =
      (.ok (.taskReturn (taskRegisters (ringTask (front ++ back) (front.length + 1)))), after) := by
  have left : ∀ other ∈ front ++ back, other ∈ front ++ task :: back ∧ other ≠ task := by
    intro other member
    have apart := List.nodup_append.mp list.distinct
    rcases List.mem_append.mp member with inFront | inBack
    · exact ⟨List.mem_append_left _ inFront, apart.2.2 other inFront task List.mem_cons_self⟩
    · refine ⟨List.mem_append_right _ (List.mem_cons_of_mem _ inBack), ?_⟩
      rintro rfl
      exact (List.nodup_cons.mp apart.2.1).1 inBack
  obtain ⟨middle, unlinking, work⟩ := exit_unlinks load list (has task (by simp)) running
  -- some other process is left to switch to
  have someIn := ringTask_mem nonempty 0
  obtain ⟨member, different⟩ := left _ someIn
  have other := has _ member
  have slot : middle.processes (kernel.processRecords (kernel.tasks (ringTask (front ++ back) 0)).process).id.toNat ≠ 0 := by
    rw [unlinking.processes, other.slot]
    exact other.nonnull
  obtain ⟨last, unlink⟩ := processUnlink_returns other.bound slot
    (by rw [unlinking.id]; exact (has task (by simp)).slots_differ other different)
  have links := processUnlink_links _ _ _ (kernel.tasks task).process middle
    ⟨unlinking.tasks, unlinking.head, unlinking.current⟩
  rw [unlink] at links
  obtain ⟨tasks, head, current⟩ := links
  -- the successor is the current task, and its `next` is followed
  obtain ⟨headIs, currentIs⟩ := list.removed_current running
  obtain ⟨prev, ring⟩ := list.removed_ring
  have proper : ∀ node ∈ front ++ back, node ≠ 0 := fun node inside => list.nonnull node (left node inside).1
  have step := ring.ring_next proper nonempty front.length
  have get := taskGetNext_run (current.trans currentIs) (proper _ (ringTask_mem nonempty _))
  have next : last.nextTask = (kernel.removed task).nextTask := by
    unfold Kernel.nextTask
    rw [tasks]
  rw [next, head, headIs, step] at get
  have following := ringTask_mem nonempty (front.length + 1)
  have space : (last.tasks (ringTask (front ++ back) (front.length + 1))).pageDirectory ≠ 0 := by
    rw [tasks, Kernel.removed_pageDirectory]
    exact (has _ (left _ following).1).space
  refine ⟨last.switched (ringTask (front ++ back) (front.length + 1)), ?_⟩
  rw [work, bind_ok unlink]
  unfold Below.taskNext
  rw [bind_ok (show (kernelBelow load).kernel taskGetNext last = _ from get), if_neg (proper _ following),
    bind_ok (show (kernelBelow load).kernel (taskSwitch _) last = _ from taskSwitch_run (proper _ following) space)]
  rfl

theorem exit_alone (list : TaskList kernel [task]) (running : kernel.currentTask = task) (has : HasProcess kernel task)
    (ended : CommandEnd) : (kernelBelow load).isr80hCommand9Exit kernel ≠ (.ok ended, after) := by
  intro run
  obtain ⟨middle, unlinking, work⟩ := exit_unlinks load (show TaskList kernel ([] ++ [task]) from list) has running
  rw [work] at run
  obtain ⟨_, last, unlink, next⟩ := bind_eq_ok run
  have links := processUnlink_links _ _ _ (kernel.tasks task).process middle
    ⟨unlinking.tasks, unlinking.head, unlinking.current⟩
  rw [unlink] at links
  have none : last.currentTask = 0 := links.2.2.trans (TaskList.removed_current (show TaskList kernel ([] ++ [task]) from list) running).2
  unfold Below.taskNext at next
  obtain ⟨_, _, get, _⟩ := bind_eq_ok next
  have get : taskGetNext last = _ := get
  unfold taskGetNext at get
  rw [read_bind, if_pos none] at get
  cases get

/-- Calls one after the other that each end in a `task_return`, with the registers they return to. -/
def dispatched : List (KernelProg CommandEnd) → Kernel → Option (List Addr)
  | [], _ => some []
  | call :: rest, kernel =>
      match call kernel with
      | (.ok (.taskReturn registers), after) => (dispatched rest after).map (registers :: ·)
      | _ => none

/-- The end of the running task, and then the scheduler, run the tasks that are left, each once and in
the order of the list from the successor of the ended task on. -/
def RoundFollows (load : List Byte → Addr → KernelProg Int) (caller : Caller) (frame : InterruptFrame)
    (ends : TaskEnd) (live : List Addr) (position : Nat) (kernel : Kernel) : Prop :=
  dispatched (ends.run load caller frame :: List.replicate (live.length - 2) (kernelBelow load).taskNext) kernel =
    some ((live.rotate (position + 1)).dropLast.map taskRegisters)

theorem taskRegisters_inj {left right : Addr} (same : taskRegisters left = taskRegisters right) : left = right := by
  unfold taskRegisters at same
  exact (BitVec.add_left_inj 4).mp same

/-- The successor is passed over if there is another task to go to. -/
theorem exit_round (paged : caller.kernelChunk ≠ 0) (list : TaskList kernel (front ++ task :: back))
    (has : ∀ other ∈ front ++ task :: back, HasProcess kernel other) (running : kernel.currentTask = task)
    (nonempty : front ++ back ≠ []) (ends : TaskEnd) :
    RoundFollows load caller frame ends (front ++ task :: back) front.length kernel ↔
      (front ++ task :: back).length = 2 := by
  have entered := list.saved kernel.currentTask (directoryEntry kernel.memory.bytes caller.kernelChunk) frame.saved
  have hasEntered := fun other member => (has other member).saved kernel.currentTask
    (directoryEntry kernel.memory.bytes caller.kernelChunk) frame.saved
  have positive := List.length_pos_iff.mpr nonempty
  have distinct : (back ++ front).Nodup := by
    have apart := list.distinct
    rw [List.nodup_middle] at apart
    exact List.nodup_append_comm.mp (List.nodup_cons.mp apart).2
  have order : ((front ++ task :: back).rotate (front.length + 1)).dropLast = back ++ front := by
    have parts : front ++ task :: back = (front ++ [task]) ++ back := by simp
    have count : front.length + 1 = (front ++ [task]).length := by simp
    rw [parts, count, List.rotate_append_length_eq, ← List.append_assoc, List.dropLast_concat]
  have turned : ringTask (front ++ back) (front.length + 1) = ringTask (back ++ front) 1 := by
    have shift := ringNode_rotate (front ++ back) 0 front.length 1
    rw [List.rotate_append_length_eq, Nat.add_comm] at shift
    exact shift.symm
  obtain ⟨_, work⟩ := exit_runs load entered running hasEntered nonempty
  rw [turned] at work
  obtain ⟨after, run⟩ := (enter_run _ paged (by rw [running]; exact list.proper.1) _).mpr ⟨_, work⟩
  unfold RoundFollows dispatched
  rw [order, ends.run_eq, run]
  dsimp only
  rcases left : back ++ front with _ | ⟨successor, _ | ⟨second, rest⟩⟩
  · have count := congrArg List.length left
    simp only [List.length_append, List.length_nil] at count positive
    omega
  · have count := congrArg List.length left
    simp only [List.length_append, List.length_cons, List.length_nil] at count
    have two : (front ++ task :: back).length = 2 := by
      simp only [List.length_append, List.length_cons]
      omega
    simp [two, dispatched, ringNode]
  · have count := congrArg List.length left
    simp only [List.length_append, List.length_cons] at count
    refine ⟨fun follows => ?_, fun two => ?_⟩
    · obtain ⟨later, _, same⟩ := Option.map_eq_some_iff.mp follows
      have first := taskRegisters_inj (List.cons.inj same).1
      rw [left] at distinct
      have again : (1 : Nat) = 0 := ringNode_inj distinct (by simp) (by simp) first
      omega
    · simp only [List.length_append, List.length_cons] at two
      omega

theorem not_roundFollows_alone (paged : caller.kernelChunk ≠ 0) (list : TaskList kernel [task])
    (has : HasProcess kernel task) (running : kernel.currentTask = task) (ends : TaskEnd) :
    ¬RoundFollows load caller frame ends [task] 0 kernel := by
  intro follows
  have entered := list.saved kernel.currentTask (directoryEntry kernel.memory.bytes caller.kernelChunk) frame.saved
  unfold RoundFollows dispatched at follows
  rw [ends.run_eq] at follows
  split at follows
  next registers after run =>
    obtain ⟨last, work⟩ := (enter_run _ paged (by rw [running]; exact list.nonnull task (by simp)) registers).mp
      ⟨after, run⟩
    exact absurd work (exit_alone entered running (has.saved _ _ _) _)
  next => cases follows

/-- Whichever task ends, the round that follows is the one of the list if and only if one other task
is left: with more of them the successor is passed over. -/
theorem exit_round_iff (paged : caller.kernelChunk ≠ 0) {position : Nat} (list : TaskList kernel live)
    (has : ∀ task ∈ live, HasProcess kernel task) (bound : position < live.length)
    (running : kernel.currentTask = live[position]) (ends : TaskEnd) :
    RoundFollows load caller frame ends live position kernel ↔ live.length = 2 := by
  obtain ⟨front, back, split, length⟩ : ∃ front back, live = front ++ live[position] :: back ∧
      front.length = position :=
    ⟨live.take position, live.drop (position + 1), by rw [← List.drop_eq_getElem_cons, List.take_append_drop],
      List.length_take_of_le (by omega)⟩
  generalize live[position] = task at split running
  subst split length
  by_cases nonempty : front ++ back = []
  · obtain ⟨rfl, rfl⟩ := List.append_eq_nil_iff.mp nonempty
    have alone : ¬RoundFollows load caller frame ends [task] 0 kernel :=
      not_roundFollows_alone paged list (has task (by simp)) running ends
    exact ⟨fun follows => absurd follows alone, fun two => by simp at two⟩
  · exact exit_round paged list has running nonempty ends

end Exit

def loadedSystem : Nat → System
  | 0 => bootSystem
  | count + 1 => (pages.below.processLoad [] (loadedSystem count)).2

theorem loadedSystem_hasProcess {count : Nat} (consistent : Consistent ∅ (loadedSystem count)) {live : List Addr}
    (tasks : ∀ task ∈ live, ∃ process, (loadedSystem count).blocks task = some (.owned .task process)) :
    ∀ task ∈ live, HasProcess (loadedSystem count).kernel task :=
  fun task member => consistent.hasProcess (tasks task member)

theorem loadedSystem_three : Consistent ∅ (loadedSystem 2) ∧ Consistent ∅ (loadedSystem 3) := by
  have first : TableStep (loadedSystem 0) (loadedSystem 1) := .load pages [] 0 0x1000000 (Prod.ext rfl rfl)
  have second : TableStep (loadedSystem 1) (loadedSystem 2) := .load pages [] 0 0x1005000 (Prod.ext rfl rfl)
  have third : TableStep (loadedSystem 2) (loadedSystem 3) := .load pages [] 0 0x100a000 (Prod.ext rfl rfl)
  have two := ((bootSystem_noProcesses.consistent.step first).step second)
  exact ⟨two, two.step third⟩

/-- Two programs are loaded, and the first exits. -/
theorem exit_round_two : RoundFollows (fun _ _ => pure 0) asksForA noFrame .exit [0x1003000, 0x1008000] 0
    (loadedSystem 2).kernel := by
  have list : TaskList (loadedSystem 2).kernel [0x1003000, 0x1008000] :=
    ⟨by decide, by simp, by decide +kernel, by decide +kernel,
      ⟨by decide +kernel, by decide +kernel, by decide +kernel, by decide +kernel, trivial⟩, fun _ => by decide +kernel⟩
  have has : ∀ task ∈ [0x1003000, 0x1008000], HasProcess (loadedSystem 2).kernel task := by
    refine loadedSystem_hasProcess loadedSystem_three.1 fun task member => ?_
    simp only [List.mem_cons, List.not_mem_nil, or_false] at member
    rcases member with rfl | rfl
    · exact ⟨0x1000000, by decide +kernel⟩
    · exact ⟨0x1005000, by decide +kernel⟩
  exact (exit_round_iff (by decide) list has (by decide) (by decide +kernel) .exit).mpr rfl

/-- Three programs are loaded, and the first exits: the third task runs. -/
theorem exit_passes_over : ¬∀ kernel live position, TaskList kernel live → (∀ task ∈ live, HasProcess kernel task) →
    (bound : position < live.length) → kernel.currentTask = live[position] →
      RoundFollows (fun _ _ => pure 0) asksForA noFrame .exit live position kernel := by
  intro always
  have list : TaskList (loadedSystem 3).kernel [0x1003000, 0x1008000, 0x100d000] :=
    ⟨by decide, by simp, by decide +kernel, by decide +kernel,
      ⟨by decide +kernel, by decide +kernel, by decide +kernel, by decide +kernel, by decide +kernel,
        by decide +kernel, trivial⟩, fun _ => by decide +kernel⟩
  have has : ∀ task ∈ [0x1003000, 0x1008000, 0x100d000], HasProcess (loadedSystem 3).kernel task := by
    refine loadedSystem_hasProcess loadedSystem_three.2 fun task member => ?_
    simp only [List.mem_cons, List.not_mem_nil, or_false] at member
    rcases member with rfl | rfl | rfl
    · exact ⟨0x1000000, by decide +kernel⟩
    · exact ⟨0x1005000, by decide +kernel⟩
    · exact ⟨0x100a000, by decide +kernel⟩
  have running : (loadedSystem 3).kernel.currentTask = 0x1003000 := by decide +kernel
  have follows := always _ _ 0 list has (by decide) running
  have two := (exit_round (by decide) (show TaskList _ ([] ++ 0x1003000 :: [0x1008000, 0x100d000]) from list) has running
    (by simp) .exit).mp follows
  exact absurd two (by decide)

end PeachOS
