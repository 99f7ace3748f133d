import PeachOS.ProcessEnd

/-! `process_terminate` over the abstract heap returns, as long as another process is left
to switch to. -/

namespace PeachOS
open Program Search

section Returns
variable {oracle : Oracle} {system before : System} {process task ptr : Addr} {i j : Nat}

theorem Loaded.task_nonnull (loaded : Loaded system i process) (null : system.blocks 0 = none) :
    (system.tables.processRecords process).task ≠ 0 := by
  intro zero
  have own := loaded.task
  rw [zero, null] at own
  cases own

theorem Loaded.space_nonnull (loaded : Loaded system i process) (null : system.blocks 0 = none) :
    system.tables.taskSpace (system.tables.processRecords process).task ≠ 0 := by
  intro zero
  have own := loaded.space
  rw [zero, null] at own
  cases own

theorem processFree_below_returns (oracle : Oracle) (hasTask : (system.tables.processRecords process).task ≠ 0) :
    ∃ after, oracle.below.processFree process ptr system = (.ok (), after) := by
  unfold Below.processFree
  rw [below_read_bind]
  cases processGetAllocationByAddr (system.kernel.processRecords process) ptr with
  | none => exact ⟨system, rfl⟩
  | some j =>
    have directory : processPageDirectory process system.kernel =
        (.ok (system.kernel.tasks (system.kernel.processRecords process).task).pageDirectory,
          system.kernel) := by
      unfold processPageDirectory
      rw [read_bind]
      exact congrFun (if_neg hasTask) _
    dsimp only
    rw [bind_ok (below_kernel_run directory)]
    by_cases failed : oracle.mapTo system < 0
    · exact ⟨_, congrFun (if_pos failed) _⟩
    · exact ⟨_, congrFun (if_neg failed) _⟩

theorem processFree_below_task
    (run : oracle.below.processFree process ptr before = (.ok (), system)) :
    (system.tables.processRecords process).task = (before.tables.processRecords process).task := by
  rcases processFree_below_ok run with rfl | ⟨_, _, _, _, tables⟩
  · rfl
  · rw [tables, Tables.setRecord_self]
    rfl

theorem processTerminateAllocationsLoop_below_returns (oracle : Oracle) (remaining j : Nat)
    (hasTask : (system.tables.processRecords process).task ≠ 0) :
    ∃ after, oracle.below.processTerminateAllocationsLoop process remaining j system =
      (.ok (), after) := by
  induction remaining generalizing system j with
  | zero => exact ⟨system, rfl⟩
  | succ remaining ih =>
    unfold Below.processTerminateAllocationsLoop
    rw [below_read_bind]
    have free : ∃ after, oracle.below.processFree process
        ((system.kernel.processRecords process).allocations j).ptr system = (.ok (), after) :=
      processFree_below_returns oracle hasTask
    obtain ⟨middle, freed⟩ := free
    rw [bind_ok freed]
    rw [← processFree_below_task freed] at hasTask
    exact ih (j + 1) hasTask

theorem processFreeProgramData_below_returns (oracle : Oracle) (loaded : Loaded system i process) :
    ∃ after, oracle.below.processFreeProgramData process system = (.ok 0, after) := by
  unfold Below.processFreeProgramData
  rw [below_read_bind]
  rcases loaded.image with ⟨binary, image⟩ | ⟨elf, file, image⟩
  · have isBinary : (system.kernel.processRecords process).filetype = processFiletypeBinary := binary
    rw [if_pos isBinary]
    exact ⟨_, rfl⟩
  · have isElf : (system.kernel.processRecords process).filetype = processFiletypeElf := elf
    rw [if_neg (by rw [isElf]; decide), if_pos isElf]
    unfold Below.elfClose
    split
    · exact ⟨_, rfl⟩
    · exact ⟨_, rfl⟩

theorem taskGetNext_returns {kernel : Kernel} (running : kernel.currentTask ≠ 0) :
    ∃ next, taskGetNext kernel = (.ok next, kernel) := by
  unfold taskGetNext
  rw [read_bind, if_neg running, read_bind]
  by_cases last : (kernel.tasks kernel.currentTask).next = 0
  · exact ⟨_, congrFun (if_pos last) _⟩
  · exact ⟨_, congrFun (if_neg last) _⟩

theorem taskListRemove_returns {kernel : Kernel} (nonnull : task ≠ 0) :
    ∃ after, taskListRemove task kernel = (.ok (), after) := by
  have replace : ∀ unlinked : Kernel, ∃ after, (do
      let current ← read Kernel.currentTask
      if task = current then
        let next ← taskGetNext
        update (fun kernel => { kernel with currentTask := next })
      else pure () : KernelProg Unit) unlinked = (.ok (), after) := by
    intro unlinked
    rw [read_bind]
    by_cases current : task = unlinked.currentTask
    · obtain ⟨next, found⟩ := taskGetNext_returns (current ▸ nonnull : unlinked.currentTask ≠ 0)
      rw [if_pos current, bind_ok found]
      exact ⟨_, rfl⟩
    · rw [if_neg current]
      exact ⟨_, rfl⟩
  unfold taskListRemove
  rw [read_bind, updateWhen_bind, update_bind, update_bind]
  exact replace _

theorem taskFree_below_returns (oracle : Oracle) (nonnull : task ≠ 0) (space : system.tables.taskSpace task ≠ 0) :
    ∃ after, oracle.below.taskFree task system = (.ok 0, after) := by
  unfold Below.taskFree
  rw [if_neg nonnull, below_read_bind]
  have freed : oracle.below.pagingFree4gb (system.kernel.tasks task).pageDirectory system =
      (.ok (), system.release (system.kernel.tasks task).pageDirectory) := congrFun (if_neg space) _
  have remove : ∃ kernel, taskListRemove task (system.release
      (system.kernel.tasks task).pageDirectory).kernel = (.ok (), kernel) :=
    taskListRemove_returns nonnull
  obtain ⟨kernel, removed⟩ := remove
  rw [bind_ok freed, bind_ok (below_kernel_run removed), below_kfree_bind]
  exact ⟨_, rfl⟩

theorem processUnlink_returns {kernel : Kernel} (other : j < peachosMaxProcesses)
    (taken : kernel.processes j ≠ 0) (different : j ≠ (kernel.processRecords process).id.toNat) :
    ∃ after, processUnlink process kernel = (.ok (), after) := by
  unfold processUnlink
  rw [update_bind, read_bind]
  split
  · unfold processSwitchToAny
    rw [read_bind]
    have left : Function.update kernel.processes (kernel.processRecords process).id.toNat 0 j ≠ 0 := by
      rw [Function.update_of_ne different]
      exact taken
    cases found : firstIndex peachosMaxProcesses (fun i => Function.update kernel.processes
        (kernel.processRecords process).id.toNat 0 i != 0) with
    | none => exact absurd (firstIndex_none found other) (by simpa using left)
    | some i =>
      exact ⟨_, rfl⟩
  · exact ⟨_, rfl⟩

theorem processTerminate_below_returns (oracle : Oracle) (consistent : Consistent ∅ system)
    (bound : i < peachosMaxProcesses) (listed : system.tables.processes i = process)
    (nonnull : process ≠ 0) (other : j < peachosMaxProcesses) (taken : system.tables.processes j ≠ 0)
    (different : j ≠ i) : ∃ after, oracle.below.processTerminate process system = (.ok 0, after) := by
  have loaded := consistent.entries i bound (listed ▸ nonnull) (Set.notMem_empty _)
  rw [listed] at loaded
  obtain ⟨emptied, loop⟩ := processTerminateAllocationsLoop_below_returns oracle
    peachosMaxProgramAllocations 0 (loaded.task_nonnull consistent.null)
  obtain ⟨kept, freed⟩ := processTerminateAllocationsLoop_below_ok peachosMaxProgramAllocations 0
    consistent bound listed nonnull loop
  obtain ⟨_, tables⟩ := freed.record
  have slots : emptied.tables.processes = system.tables.processes := by
    rw [tables]
    rfl
  rw [← slots] at listed taken
  have ready := kept.entries i bound (listed ▸ nonnull) (Set.notMem_empty _)
  rw [listed] at ready
  obtain ⟨cleared, data⟩ := processFreeProgramData_below_returns oracle ready
  have same := (processFreeProgramData_below_ok ready data).2.tables
  have record : cleared.kernel.processRecords process = emptied.tables.processRecords process :=
    congrArg (fun tables => tables.processRecords process) same
  have free : ∃ released, oracle.below.taskFree (emptied.tables.processRecords process).task
      (cleared.release (emptied.tables.processRecords process).stack) = (.ok 0, released) := by
    apply taskFree_below_returns oracle (ready.task_nonnull kept.null)
    rw [System.release_tables, same]
    exact ready.space_nonnull kept.null
  obtain ⟨released, taskFreed⟩ := free
  have left : released.tables = emptied.tables := by
    rw [(taskFree_below_ok taskFreed).2.2.2.2, System.release_tables, same]
  have unlink : ∃ kernel, processUnlink process released.kernel = (.ok (), kernel) := by
    apply processUnlink_returns other
    · show released.tables.processes j ≠ 0
      rw [left]
      exact taken
    · show j ≠ (released.tables.processRecords process).id.toNat
      rw [left, ready.id, BitVec.toNat_ofNat]
      unfold peachosMaxProcesses at bound
      omega
  obtain ⟨kernel, unlinked⟩ := unlink
  have allocations : oracle.below.processTerminateAllocations process system = (.ok 0, emptied) := by
    unfold Below.processTerminateAllocations
    rw [bind_ok loop]
    rfl
  unfold Below.processTerminate
  rw [bind_ok allocations, if_neg (by decide), bind_ok data, if_neg (by decide), below_read_bind,
    below_kfree_bind, record, bind_ok taskFreed, bind_ok (below_kernel_run unlinked)]
  exact ⟨_, rfl⟩

end Returns

end PeachOS
