import PeachOS.TaskExit

/-! The registers that a task waits with: a system call or an interrupt of another task does not
touch them as long as the task's block is in use. -/

namespace PeachOS
open Program

/-- The registers that are saved for the task. -/
def Kernel.SavedAs (task : Addr) (registers : Registers) (kernel : Kernel) : Prop :=
  (kernel.tasks task).registers = registers

def System.SavedAs (task : Addr) (registers : Registers) (system : System) : Prop :=
  system.kernel.SavedAs task registers

/-- The registers that are saved for the task, and its block is nobody else's. -/
def System.Waiting (task : Addr) (registers : Registers) (system : System) : Prop :=
  system.blocks task ≠ none ∧ system.SavedAs task registers

section Kernel
variable {α : Type} {task : Addr} {registers : Registers} {kernel : Kernel}

theorem Kernel.SavedAs.setTask {other : Addr} {change : Task → Task} (held : kernel.SavedAs task registers)
    (same : ∀ record, (change record).registers = record.registers) :
    (kernel.setTask other change).SavedAs task registers := by
  unfold Kernel.SavedAs
  rw [Kernel.setTask_tasks]
  split
  next here =>
    rw [same, ← here]
    exact held
  next => exact held

theorem Kernel.SavedAs.setOther {other : Addr} {change : Task → Task} (held : kernel.SavedAs task registers)
    (different : task ≠ other) : (kernel.setTask other change).SavedAs task registers := by
  unfold Kernel.SavedAs
  rw [Kernel.setTask_tasks, if_neg different]
  exact held

theorem savedAs_sameRunning {call : KernelProg α} (same : ∀ base : Kernel, Preserves base.SameRunning call) :
    Preserves (Kernel.SavedAs task registers) call := by
  intro kernel result after held run
  have tasks := (same kernel kernel result after ⟨rfl, rfl, rfl⟩ run).2.1
  unfold Kernel.SavedAs
  rw [tasks]
  exact held

theorem savedAs_pagingSwitch (chunk : Addr) : Preserves (Kernel.SavedAs task registers) (Kernel.pagingSwitch chunk) := by
  unfold Kernel.pagingSwitch
  exact Preserves.ite (Preserves.stop _) (Preserves.update (fun _ held => held))

theorem savedAs_taskSwitch (other : Addr) : Preserves (Kernel.SavedAs task registers) (taskSwitch other) := by
  unfold taskSwitch
  refine Preserves.ite (Preserves.stop _) ?_
  refine Preserves.bind (Preserves.update (fun _ held => held)) ?_
  intro _
  refine Preserves.bind (Preserves.read _) ?_
  intro record
  exact savedAs_pagingSwitch _

theorem savedAs_taskGetNext : Preserves (Kernel.SavedAs task registers) taskGetNext := by
  intro kernel next after held run
  rw [taskGetNext_same run]
  exact held

theorem savedAs_taskListRemove (other : Addr) :
    Preserves (Kernel.SavedAs task registers) (taskListRemove other) := by
  unfold taskListRemove
  refine Preserves.bind (Preserves.read _) ?_
  intro record
  refine Preserves.bind (Preserves.update ?_) ?_
  · intro kernel held
    split
    · exact held.setTask (fun _ => rfl)
    · exact held
  intro _
  refine Preserves.bind (Preserves.update (fun _ held => held)) ?_
  intro _
  refine Preserves.bind (Preserves.update (fun _ held => held)) ?_
  intro _
  refine Preserves.bind (Preserves.read _) ?_
  intro current
  refine Preserves.ite ?_ (Preserves.pure _)
  apply Preserves.bind savedAs_taskGetNext
  intro next
  exact Preserves.update (fun _ held => held)

theorem savedAs_taskListAppend (other : Addr) :
    Preserves (Kernel.SavedAs task registers) (taskListAppend other) := by
  unfold taskListAppend
  refine Preserves.bind (Preserves.read _) ?_
  intro kernel
  refine Preserves.ite (Preserves.update (fun _ held => held)) ?_
  refine Preserves.bind (Preserves.update (fun _ held => held.setTask (fun _ => rfl))) ?_
  intro _
  refine Preserves.bind (Preserves.update (fun _ held => held.setTask (fun _ => rfl))) ?_
  intro _
  exact Preserves.update (fun _ held => held)

theorem savedAs_processPageDirectory (process : Addr) :
    Preserves (Kernel.SavedAs task registers) (processPageDirectory process) := by
  unfold processPageDirectory
  refine Preserves.bind (Preserves.read _) ?_
  intro record
  exact Preserves.ite (Preserves.stop _) (Preserves.read _)

theorem savedAs_processUnlink (process : Addr) :
    Preserves (Kernel.SavedAs task registers) (processUnlink process) := by
  unfold processUnlink
  refine Preserves.bind (Preserves.update (fun _ held => held)) ?_
  intro _
  refine Preserves.bind (Preserves.read _) ?_
  intro current
  refine Preserves.ite ?_ (Preserves.pure _)
  unfold processSwitchToAny
  refine Preserves.bind (Preserves.read _) ?_
  intro processes
  split
  · exact Preserves.update (fun _ held => held)
  · exact Preserves.stop _

theorem savedAs_taskCurrentProcess : Preserves (Kernel.SavedAs task registers) taskCurrentProcess := by
  unfold taskCurrentProcess
  refine Preserves.bind (Preserves.read _) ?_
  intro current
  exact Preserves.ite (Preserves.stop _) (Preserves.read _)

theorem savedAs_keyboardPop : Preserves (Kernel.SavedAs task registers) keyboardPop := by
  unfold keyboardPop
  refine Preserves.bind (Preserves.read _) ?_
  intro current
  refine Preserves.ite (Preserves.pure _) ?_
  refine Preserves.bind (Preserves.read _) ?_
  intro process
  refine Preserves.ite (Preserves.stop _) ?_
  refine Preserves.bind (Preserves.read _) ?_
  intro keyboard
  refine Preserves.ite (Preserves.pure _) ?_
  refine Preserves.bind (Preserves.update (fun _ held => held)) ?_
  intro _
  refine Preserves.bind (Preserves.update (fun _ held => held)) ?_
  intro _
  exact Preserves.pure _

theorem savedAs_keyboardPush (c : Byte) : Preserves (Kernel.SavedAs task registers) (keyboardPush c) := by
  unfold keyboardPush
  refine Preserves.bind (Preserves.read _) ?_
  intro process
  refine Preserves.ite (Preserves.pure _) ?_
  refine Preserves.ite (Preserves.pure _) ?_
  refine Preserves.bind (Preserves.read _) ?_
  intro realIndex
  refine Preserves.bind (Preserves.update (fun _ held => held)) ?_
  intro _
  exact Preserves.update (fun _ held => held)

theorem savedAs_terminalWritechar (c colour : Byte) :
    Preserves (Kernel.SavedAs task registers) (terminalWritechar c colour) :=
  savedAs_sameRunning fun _ => sameRunning_writechar
    (sameRunning_backspace (fun _ _ => sameRunning_writechar (Preserves.stop _)))

theorem savedAs_print (text : List Byte) : Preserves (Kernel.SavedAs task registers) (print text) := by
  induction text with
  | nil => exact Preserves.pure _
  | cons c rest ih => exact Preserves.bind (savedAs_terminalWritechar _ _) (fun _ => ih)

theorem savedAs_shellSwitchToNext : Preserves (Kernel.SavedAs task registers) shellSwitchToNext := by
  unfold shellSwitchToNext getCurrentShell
  refine Preserves.bind (Preserves.read _) ?_
  intro current
  refine Preserves.ite (Preserves.stop _) ?_
  refine Preserves.bind (Preserves.read _) ?_
  intro id
  refine Preserves.bind ?_ (fun _ => Preserves.pure _)
  unfold shellSwitch
  refine Preserves.bind (Preserves.read _) ?_
  intro shell
  refine Preserves.ite (Preserves.pure _) ?_
  refine Preserves.bind (Preserves.update (fun _ held => held)) ?_
  intro _
  refine Preserves.bind (Preserves.read _) ?_
  intro record
  refine Preserves.bind (Preserves.update (fun _ held => held)) ?_
  intro _
  refine Preserves.ite (Preserves.stop _) ?_
  exact Preserves.bind (Preserves.update (fun _ held => held)) (fun _ => Preserves.pure _)

end Kernel

section Calls
variable {α : Type} {oracle : Oracle} {caller : Caller} {task : Addr} {registers : Registers} {process : Addr}

theorem savedAs_below {call : KernelProg α} (kept : Preserves (Kernel.SavedAs task registers) call) :
    Preserves (System.SavedAs task registers) (oracle.below.kernel call) := by
  intro system result after held run
  obtain ⟨kernel, called, rfl⟩ := below_kernel_ok run
  exact kept system.kernel result kernel held called

theorem savedAs_update {change : Kernel → Kernel} (same : ∀ kernel, (change kernel).tasks = kernel.tasks) :
    Preserves (System.SavedAs task registers) (oracle.below.kernel (update change)) := by
  refine savedAs_below (Preserves.update fun kernel held => ?_)
  unfold Kernel.SavedAs
  rw [same]
  exact held

theorem savedAs_kzalloc (use : BlockUse) (size : Word) :
    Preserves (System.SavedAs task registers) (oracle.below.kzalloc use size) := by
  intro system ptr after held run
  rcases below_kzalloc_served run with ⟨_, rfl⟩ | ⟨_, _, rfl⟩ <;> exact held

theorem savedAs_kfree (ptr : Addr) : Preserves (System.SavedAs task registers) (oracle.below.kfree ptr) :=
  Preserves.update (fun _ held => held)

theorem savedAs_pagingFree4gb (chunk : Addr) :
    Preserves (System.SavedAs task registers) (oracle.below.pagingFree4gb chunk) :=
  Preserves.ite (Preserves.stop _) (Preserves.update (fun _ held => held))

theorem savedAs_pagingMapTo (directory virt phys physEnd : Addr) (flags : Word) :
    Preserves (System.SavedAs task registers) (oracle.below.pagingMapTo directory virt phys physEnd flags) :=
  Preserves.read _

theorem savedAs_free : BytesFree (System.SavedAs task registers) := fun _ _ _ held => held

theorem savedAs_taskPage : Preserves (System.SavedAs task registers) oracle.below.taskPage := by
  unfold Below.taskPage
  refine Preserves.bind (preserves_read _) ?_
  intro current
  exact savedAs_below (savedAs_taskSwitch _)

theorem savedAs_copyStringFromTask (current virtual : Addr) (max : Nat) :
    Preserves (System.SavedAs task registers) (oracle.below.copyStringFromTask caller current virtual max) := by
  unfold Below.copyStringFromTask
  refine Preserves.ite (Preserves.pure _) ?_
  apply Preserves.bind (savedAs_kzalloc _ _)
  intro tmp
  refine Preserves.ite (Preserves.pure _) ?_
  apply Preserves.bind (savedAs_free.copyThrough _ _ _ _)
  intro res
  apply Preserves.bind (savedAs_kfree _)
  intro _
  exact Preserves.ite (Preserves.pure _) (Preserves.pure _)

theorem savedAs_processMalloc (size : Word) :
    Preserves (System.SavedAs task registers) (oracle.below.processMalloc process size) := by
  unfold Below.processMalloc
  apply Preserves.bind (savedAs_kzalloc _ _)
  intro ptr
  refine Preserves.ite (Preserves.pure _) ?_
  refine Preserves.bind (preserves_read _) ?_
  intro record
  refine Preserves.ite (Preserves.bind (savedAs_kfree _) (fun _ => Preserves.pure _)) ?_
  apply Preserves.bind (savedAs_below (savedAs_processPageDirectory _))
  intro directory
  apply Preserves.bind (savedAs_pagingMapTo _ _ _ _ _)
  intro res
  refine Preserves.ite (Preserves.bind (savedAs_kfree _) (fun _ => Preserves.pure _)) ?_
  exact Preserves.bind (savedAs_update (fun _ => rfl)) (fun _ => Preserves.pure _)

theorem savedAs_processFree (ptr : Addr) :
    Preserves (System.SavedAs task registers) (oracle.below.processFree process ptr) := by
  unfold Below.processFree
  refine Preserves.bind (preserves_read _) ?_
  intro record
  split
  · exact Preserves.pure _
  · apply Preserves.bind (savedAs_below (savedAs_processPageDirectory _))
    intro directory
    apply Preserves.bind (savedAs_pagingMapTo _ _ _ _ _)
    intro res
    refine Preserves.ite (Preserves.pure _) ?_
    exact Preserves.bind (savedAs_update (fun _ => rfl)) (fun _ => savedAs_kfree _)

theorem savedAs_taskFree (other : Addr) : Preserves (System.SavedAs task registers) (oracle.below.taskFree other) := by
  unfold Below.taskFree
  refine Preserves.ite (Preserves.stop _) ?_
  refine Preserves.bind (preserves_read _) ?_
  intro record
  apply Preserves.bind (savedAs_pagingFree4gb _)
  intro _
  apply Preserves.bind (savedAs_below (savedAs_taskListRemove _))
  intro _
  exact Preserves.bind (savedAs_kfree _) (fun _ => Preserves.pure _)

theorem savedAs_processTerminateAllocationsLoop (remaining i : Nat) : Preserves (System.SavedAs task registers)
    (oracle.below.processTerminateAllocationsLoop process remaining i) := by
  induction remaining generalizing i with
  | zero => exact Preserves.pure _
  | succ remaining ih =>
    unfold Below.processTerminateAllocationsLoop
    refine Preserves.bind (preserves_read _) ?_
    intro ptr
    exact Preserves.bind (savedAs_processFree _) (fun _ => ih _)

theorem savedAs_processFreeProgramData :
    Preserves (System.SavedAs task registers) (oracle.below.processFreeProgramData process) := by
  unfold Below.processFreeProgramData
  refine Preserves.bind (preserves_read _) ?_
  intro record
  refine Preserves.ite (Preserves.bind (savedAs_kfree _) (fun _ => Preserves.pure _)) ?_
  refine Preserves.ite (Preserves.bind ?_ (fun _ => Preserves.pure _)) (Preserves.pure _)
  unfold Below.elfClose
  refine Preserves.ite (Preserves.pure _) ?_
  exact Preserves.bind (preserves_read _) (fun _ => Preserves.bind (savedAs_kfree _) (fun _ => savedAs_kfree _))

theorem savedAs_processTerminate :
    Preserves (System.SavedAs task registers) (oracle.below.processTerminate process) := by
  unfold Below.processTerminate
  apply Preserves.bind (Preserves.bind (savedAs_processTerminateAllocationsLoop _ _) (fun _ => Preserves.pure _))
  intro res
  refine Preserves.ite (Preserves.pure _) ?_
  apply Preserves.bind savedAs_processFreeProgramData
  intro res
  refine Preserves.ite (Preserves.pure _) ?_
  refine Preserves.bind (preserves_read _) ?_
  intro record
  apply Preserves.bind (savedAs_kfree _)
  intro _
  apply Preserves.bind (savedAs_taskFree _)
  intro _
  exact Preserves.bind (savedAs_below (savedAs_processUnlink _)) (fun _ => Preserves.pure _)

theorem savedAs_processInjectLoop (argv : Addr) (i : Nat) (arguments : List (List Byte)) :
    Preserves (System.SavedAs task registers) (oracle.below.processInjectLoop process argv i arguments) := by
  induction arguments generalizing i with
  | nil => exact Preserves.pure _
  | cons argument rest ih =>
    unfold Below.processInjectLoop
    apply Preserves.bind (savedAs_processMalloc _)
    intro argumentStr
    refine Preserves.ite (Preserves.pure _) ?_
    exact Preserves.bind (savedAs_update (fun _ => rfl)) (fun _ => ih _)

theorem savedAs_processInjectArguments (arguments : List (List Byte)) :
    Preserves (System.SavedAs task registers) (oracle.below.processInjectArguments process arguments) := by
  unfold Below.processInjectArguments
  refine Preserves.ite (Preserves.pure _) ?_
  apply Preserves.bind (savedAs_processMalloc _)
  intro argv
  refine Preserves.ite (Preserves.pure _) ?_
  apply Preserves.bind (savedAs_processInjectLoop _ _ _)
  intro res
  refine Preserves.ite (Preserves.pure _) ?_
  exact Preserves.bind (savedAs_update (fun _ => rfl)) (fun _ => Preserves.pure _)

theorem savedAs_startTask : Preserves (System.SavedAs task registers) (oracle.below.startTask process) := by
  unfold Below.startTask
  refine Preserves.ite preserves_fault ?_
  refine Preserves.bind (preserves_read _) ?_
  intro other
  exact Preserves.bind (savedAs_below (savedAs_taskSwitch _)) (fun _ => Preserves.pure _)

theorem savedAs_taskNext : Preserves (System.SavedAs task registers) oracle.below.taskNext := by
  unfold Below.taskNext
  apply Preserves.bind (savedAs_below savedAs_taskGetNext)
  intro next
  refine Preserves.ite (savedAs_below (Preserves.stop _)) ?_
  exact Preserves.bind (savedAs_below (savedAs_taskSwitch _)) (fun _ => Preserves.pure _)

theorem savedAs_exit : Preserves (System.SavedAs task registers) oracle.below.isr80hCommand9Exit := by
  unfold Below.isr80hCommand9Exit
  apply Preserves.bind (savedAs_below savedAs_taskCurrentProcess)
  intro process
  exact Preserves.bind savedAs_processTerminate (fun _ => savedAs_taskNext)

end Calls

section Loads
variable {oracle : Oracle} {task other process out : Addr} {registers : Registers}
  {before after : System} {filename : List Byte}

theorem waiting_update {change : Kernel → Kernel} (same : ∀ kernel, (change kernel).tasks = kernel.tasks) :
    Preserves (System.Waiting task registers) (Oracle.onKernel (update change)) := by
  rintro system result after ⟨used, held⟩ run
  cases run
  refine ⟨used, ?_⟩
  show ((change system.kernel).tasks task).registers = registers
  rw [same]
  exact held

theorem System.SavedAs.setProcess (held : before.SavedAs task registers) (process : Addr) (change : Process → Process) :
    (before.setKernel (before.kernel.setProcess process change)).SavedAs task registers := held

theorem System.Waiting.setProcess (waiting : before.Waiting task registers) (process : Addr) (change : Process → Process) :
    (before.setKernel (before.kernel.setProcess process change)).Waiting task registers := waiting

theorem System.Waiting.serve (waiting : before.Waiting task registers) {ptr : Addr} (empty : before.blocks ptr = none)
    (use : BlockUse) (size : Word) : (before.serve ptr use size).Waiting task registers :=
  ⟨(System.Grows.serve empty rfl).used waiting.1, waiting.2⟩

theorem waiting_kzalloc (use : BlockUse) (size : Word) :
    Preserves (System.Waiting task registers) (oracle.below.kzalloc use size) := by
  intro system ptr after waiting run
  rcases below_kzalloc_served run with ⟨_, rfl⟩ | ⟨_, empty, rfl⟩
  · exact waiting
  · exact waiting.serve empty _ _

theorem waiting_take (use : BlockUse) (size : Word) :
    Preserves (System.Waiting task registers) (oracle.take use size) := by
  intro system ptr after waiting run
  obtain ⟨_, empty, rfl⟩ := Oracle.take_served run
  exact waiting.serve empty _ _

theorem waiting_spill (count : Nat) : Preserves (System.Waiting task registers) (oracle.spill count) := by
  induction count with
  | zero => exact Preserves.pure _
  | succ count ih => exact Preserves.bind (waiting_kzalloc _ _) (fun _ => ih)

theorem waiting_processLoadData : Preserves (System.Waiting task registers)
    (oracle.below.processLoadData filename process) := by
  show Preserves _ (oracle.processLoadData filename process)
  unfold Oracle.processLoadData
  refine Preserves.bind (Preserves.read _) ?_
  intro found
  refine Preserves.bind (Preserves.read _) ?_
  intro count
  refine Preserves.bind (waiting_spill count) ?_
  intro _
  split
  · exact Preserves.pure _
  next size =>
    apply Preserves.bind (waiting_kzalloc _ size)
    intro ptr
    refine Preserves.ite (Preserves.pure _) ?_
    exact Preserves.bind (waiting_update (fun _ => rfl)) (fun _ => Preserves.pure _)
  · apply Preserves.bind (waiting_take _ _)
    intro file
    apply Preserves.bind (waiting_take _ _)
    intro memory
    refine Preserves.bind (waiting_update (fun _ => rfl)) ?_
    intro _
    exact Preserves.bind (waiting_update (fun _ => rfl)) (fun _ => Preserves.pure _)

theorem savedAs_taskInit (different : task ≠ other) :
    Preserves (System.SavedAs task registers) (oracle.below.taskInit other process) := by
  unfold Below.taskInit
  apply Preserves.bind (savedAs_below (Preserves.update (fun _ held => held.setOther different)))
  intro _
  apply Preserves.bind
  · intro system chunk after held run
    rw [(Oracle.take_served run).2.2]
    exact held
  intro chunk
  apply Preserves.bind (savedAs_below (Preserves.update (fun _ held => held.setOther different)))
  intro _
  refine Preserves.ite (Preserves.pure _) ?_
  refine Preserves.bind (preserves_read _) ?_
  intro kernel
  apply Preserves.bind (savedAs_below (Preserves.update (fun _ held => held.setOther different)))
  intro _
  exact Preserves.pure _

theorem taskNew_savedAs (waiting : before.Waiting task registers)
    (run : oracle.below.taskNew process before = (.ok other, after)) : after.SavedAs task registers := by
  unfold Below.taskNew at run
  obtain ⟨ptr, taken, alloc, run⟩ := bind_eq_ok run
  have different : ptr = 0 ∨ task ≠ ptr := by
    rcases below_kzalloc_served alloc with ⟨null, _⟩ | ⟨_, empty, _⟩
    · exact Or.inl null
    · exact Or.inr (fun same => waiting.1 (same ▸ empty))
  obtain ⟨res, made, init, run⟩ := bind_eq_ok run
  have held := savedAs_kzalloc _ _ _ _ _ waiting.2 alloc
  have kept : made.SavedAs task registers := by
    split at init
    · cases init
      exact held
    next nonnull => exact savedAs_taskInit (different.resolve_left nonnull) _ _ _ held init
  split at run
  · exact Preserves.bind (savedAs_taskFree _) (fun _ => Preserves.pure _) _ _ _ kept run
  · exact Preserves.bind (savedAs_below (savedAs_taskListAppend _)) (fun _ => Preserves.pure _) _ _ _ kept run

theorem processLoadRest_savedAs {slot : Int} {result : Int × Addr} (waiting : before.Waiting task registers)
    (run : oracle.below.processLoadRest filename process slot before = (.ok result, after)) :
    after.SavedAs task registers := by
  unfold Below.processLoadRest at run
  obtain ⟨stack, taken, alloc, run⟩ := bind_eq_ok run
  have first := waiting_kzalloc _ _ _ _ _ waiting alloc
  split at run
  · cases run
    exact first.2
  · rw [below_update_bind] at run
    obtain ⟨made, named, new, run⟩ := bind_eq_ok run
    have held := taskNew_savedAs (first.setProcess _ _) new
    split at run
    · cases run
      exact held
    · rw [below_update_bind] at run
      refine Preserves.bind (Preserves.read _) (fun res => ?_) _ _ _ (held.setProcess _ _) run
      refine Preserves.ite (Preserves.pure _) ?_
      exact Preserves.bind (savedAs_update (fun _ => rfl)) (fun _ => Preserves.pure _)

theorem savedAs_processLoadOut (res : Int) :
    Preserves (System.SavedAs task registers) (oracle.below.processLoadOut process res) := by
  unfold Below.processLoadOut
  refine Preserves.bind (preserves_read _) ?_
  intro record
  exact Preserves.ite (Preserves.bind (savedAs_taskFree _) (fun _ => Preserves.pure _)) (Preserves.pure _)

theorem processLoadForSlot_savedAs {slot : Int} {result : Int × Addr} (waiting : before.Waiting task registers)
    (run : oracle.below.processLoadForSlot filename slot before = (.ok result, after)) :
    after.SavedAs task registers := by
  unfold Below.processLoadForSlot at run
  rw [below_read_bind] at run
  split at run
  · cases run
    exact waiting.2
  · obtain ⟨process, taken, alloc, run⟩ := bind_eq_ok run
    have first := waiting_kzalloc _ _ _ _ _ waiting alloc
    split at run
    · cases run
      exact first.2
    · rw [below_update_bind] at run
      obtain ⟨loaded, filled, load, run⟩ := bind_eq_ok run
      have second := waiting_processLoadData _ _ _ (first.setProcess _ _) load
      obtain ⟨⟨res, out⟩, built, rest, run⟩ := bind_eq_ok run
      have held : built.SavedAs task registers := by
        split at rest
        · cases rest
          exact second.2
        · exact processLoadRest_savedAs second rest
      exact Preserves.bind (savedAs_processLoadOut _) (fun _ => Preserves.pure _) _ _ _ held run

theorem processLoadSwitch_savedAs {result : Int × Addr} (waiting : before.Waiting task registers)
    (run : oracle.below.processLoadSwitch filename before = (.ok result, after)) :
    after.SavedAs task registers := by
  unfold Below.processLoadSwitch at run
  obtain ⟨⟨res, out⟩, loaded, load, run⟩ := bind_eq_ok run
  have held : loaded.SavedAs task registers := by
    unfold Below.processLoad at load
    rw [below_read_bind] at load
    split at load
    · cases load
      exact waiting.2
    · exact processLoadForSlot_savedAs waiting load
  refine Preserves.ite ?_ (Preserves.pure _) _ _ _ held run
  exact Preserves.bind (savedAs_update (fun _ => rfl)) (fun _ => Preserves.pure _)

end Loads

def System.entered (system : System) (caller : Caller) (frame : InterruptFrame) : System :=
  system.setKernel (system.kernel.entered caller frame)

section Commands
variable {oracle : Oracle} {caller : Caller} {frame : InterruptFrame} {task : Addr} {registers : Registers}
  {before after : System} {ended : CommandEnd}

theorem System.Waiting.quiet (waiting : before.Waiting task registers) (quiet : before.Quiet after)
    (held : after.SavedAs task registers) : after.Waiting task registers :=
  ⟨quiet.blocks ▸ waiting.1, held⟩

theorem taskGetStackItem_waiting {current : Addr} {index : Nat} {item : Word}
    (waiting : before.Waiting task registers)
    (run : oracle.below.taskGetStackItem caller current index before = (.ok item, after)) :
    after.Waiting task registers :=
  waiting.quiet (taskGetStackItem_quiet run) (savedAs_free.taskGetStackItem _ _ _ _ _ waiting.2 run)

theorem copyStringFromTask_waiting {current virtual : Addr} {max : Nat} {result : Int × List Byte}
    (waiting : before.Waiting task registers)
    (run : oracle.below.copyStringFromTask caller current virtual max before = (.ok result, after)) :
    after.Waiting task registers :=
  waiting.quiet (copyStringFromTask_quiet run) (savedAs_copyStringFromTask _ _ _ _ _ _ waiting.2 run)

theorem isr80hCommand6ProcessLoadStart_savedAs (waiting : before.Waiting task registers)
    (run : oracle.below.isr80hCommand6ProcessLoadStart caller before = (.ok ended, after)) :
    after.SavedAs task registers := by
  unfold Below.isr80hCommand6ProcessLoadStart at run
  rw [below_read_bind] at run
  obtain ⟨item, looked, asked, run⟩ := bind_eq_ok run
  obtain ⟨⟨res, filename⟩, copied, copy, run⟩ := bind_eq_ok run
  have ready := copyStringFromTask_waiting (taskGetStackItem_waiting waiting asked) copy
  dsimp only at run
  split at run
  · cases run
    exact ready.2
  · split at run
    · cases run
    · obtain ⟨⟨res, process⟩, loaded, load, run⟩ := bind_eq_ok run
      have held := processLoadSwitch_savedAs ready load
      exact Preserves.ite (Preserves.pure _) savedAs_startTask _ _ _ held run

theorem isr80hCommand7InvokeSystemCommand_savedAs (waiting : before.Waiting task registers)
    (run : oracle.below.isr80hCommand7InvokeSystemCommand caller before = (.ok ended, after)) :
    after.SavedAs task registers := by
  unfold Below.isr80hCommand7InvokeSystemCommand at run
  rw [below_read_bind] at run
  obtain ⟨item, looked, asked, run⟩ := bind_eq_ok run
  have ready := taskGetStackItem_waiting waiting asked
  generalize caller.arguments (caller.physical item) = arguments at run
  cases arguments with
  | nil =>
    cases run
    exact ready.2
  | cons programName others =>
    dsimp only at run
    split at run
    · cases run
      exact ready.2
    · split at run
      · cases run
      · obtain ⟨⟨res, process⟩, loaded, load, run⟩ := bind_eq_ok run
        have held := processLoadSwitch_savedAs ready load
        refine Preserves.ite (Preserves.pure _) ?_ _ _ _ held run
        apply Preserves.bind (savedAs_processInjectArguments _)
        intro res
        exact Preserves.ite (Preserves.pure _) savedAs_startTask

theorem isr80hHandleCommand_savedAs {command : Int} (waiting : before.Waiting task registers)
    (run : oracle.below.isr80hHandleCommand caller command before = (.ok ended, after)) :
    after.SavedAs task registers := by
  unfold Below.isr80hHandleCommand at run
  split at run
  · cases run
    exact waiting.2
  · cases found : oracle.below.isr80hCommands caller command with
    | none =>
      rw [found] at run
      cases run
    | some commandFunc =>
      rw [found] at run
      unfold Below.isr80hCommands at found
      split at found <;> cases found
      · refine Preserves.bind (preserves_read _) (fun current => ?_) _ _ _ waiting.2 run
        refine Preserves.bind (savedAs_free.taskGetStackItem _ _) (fun v2 => ?_)
        exact Preserves.bind (savedAs_free.taskGetStackItem _ _) (fun _ => Preserves.pure _)
      · refine Preserves.bind (preserves_read _) (fun current => ?_) _ _ _ waiting.2 run
        refine Preserves.bind (savedAs_free.taskGetStackItem _ _) (fun buffer => ?_)
        refine Preserves.bind (savedAs_copyStringFromTask _ _ _) (fun copied => ?_)
        exact Preserves.bind (savedAs_below (savedAs_print _)) (fun _ => Preserves.pure _)
      · exact Preserves.bind (savedAs_below savedAs_keyboardPop) (fun _ => Preserves.pure _) _ _ _ waiting.2 run
      · refine Preserves.bind (preserves_read _) (fun current => ?_) _ _ _ waiting.2 run
        refine Preserves.bind (savedAs_free.taskGetStackItem _ _) (fun item => ?_)
        exact Preserves.bind (savedAs_below (savedAs_terminalWritechar _ _)) (fun _ => Preserves.pure _)
      · refine Preserves.bind (preserves_read _) (fun current => ?_) _ _ _ waiting.2 run
        refine Preserves.bind (savedAs_free.taskGetStackItem _ _) (fun size => ?_)
        refine Preserves.bind (savedAs_below savedAs_taskCurrentProcess) (fun process => ?_)
        exact Preserves.bind (savedAs_processMalloc _) (fun _ => Preserves.pure _)
      · refine Preserves.bind (preserves_read _) (fun current => ?_) _ _ _ waiting.2 run
        refine Preserves.bind (savedAs_free.taskGetStackItem _ _) (fun ptr => ?_)
        refine Preserves.bind (savedAs_below savedAs_taskCurrentProcess) (fun process => ?_)
        exact Preserves.bind (savedAs_processFree _) (fun _ => Preserves.pure _)
      · exact isr80hCommand6ProcessLoadStart_savedAs waiting run
      · exact isr80hCommand7InvokeSystemCommand_savedAs waiting run
      · refine Preserves.bind (savedAs_below savedAs_taskCurrentProcess) (fun process => ?_) _ _ _ waiting.2 run
        refine Preserves.bind (preserves_read _) (fun current => ?_)
        refine Preserves.bind (savedAs_free.taskGetStackItem _ _) (fun item => ?_)
        refine Preserves.ite preserves_fault ?_
        refine Preserves.bind (preserves_read _) (fun record => ?_)
        exact Preserves.bind (savedAs_update (fun _ => rfl)) (fun _ => Preserves.pure _)
      · exact savedAs_exit _ _ _ waiting.2 run

theorem savedAs_interruptCallbacks {c : Int} {key : Option Byte} {interrupt : Nat} {callback : SystemProg CommandEnd}
    (found : oracle.below.interruptCallbacks caller c key interrupt = some callback) :
    Preserves (System.SavedAs task registers) callback := by
  unfold Below.interruptCallbacks at found
  split at found
  · cases found
    exact savedAs_exit
  · split at found
    · cases found
      exact Preserves.ite (Preserves.pure _) savedAs_taskNext
    · split at found
      · cases found
        unfold Below.classicKeyboardInterruptHandler
        apply Preserves.bind savedAs_free.kernelPage
        intro _
        cases key with
        | none => exact Preserves.pure _
        | some c =>
          dsimp only
          refine Preserves.ite ?_ ?_
          · exact Preserves.bind (savedAs_below savedAs_shellSwitchToNext) (fun _ => Preserves.pure _)
          · apply Preserves.bind (Preserves.ite (savedAs_below (savedAs_keyboardPush _)) (Preserves.pure _))
            intro _
            exact Preserves.bind savedAs_taskPage (fun _ => Preserves.pure _)
      · cases found

/-- The work of a call starts from the saved frame; what follows it touches neither blocks nor registers. -/
theorem enter_work {work : SystemProg CommandEnd}
    (run : oracle.below.enter caller frame work before = (.ok ended, after)) :
    ∃ done, work (before.entered caller frame) = (.ok ended, done) ∧ after.blocks = done.blocks ∧
      ∀ task registers, done.SavedAs task registers → after.SavedAs task registers := by
  unfold Below.enter at run
  obtain ⟨_, paged, page, run⟩ := bind_eq_ok run
  obtain ⟨_, saved, save, run⟩ := bind_eq_ok run
  obtain ⟨ended, done, work, run⟩ := bind_eq_ok run
  have same : saved = before.entered caller frame := by
    obtain ⟨_, switched, rfl⟩ := below_kernel_ok page
    obtain ⟨_, kept, rfl⟩ := below_kernel_ok save
    unfold Kernel.pagingSwitch at switched
    split at switched
    · cases switched
    · cases switched
      unfold taskCurrentSaveState at kept
      rw [read_bind] at kept
      split at kept
      · cases kept
      · cases kept
        rfl
  rw [same] at work
  cases ended with
  | taskReturn registers =>
    cases run
    exact ⟨_, work, rfl, fun _ _ held => held⟩
  | result value =>
    obtain ⟨_, back, page, rest⟩ := bind_eq_ok run
    cases rest
    refine ⟨_, work, ?_, fun _ _ held => savedAs_taskPage _ _ _ held page⟩
    unfold Below.taskPage at page
    rw [below_read_bind] at page
    obtain ⟨_, _, rfl⟩ := below_kernel_ok page
    rfl

end Commands

end PeachOS
