import PeachOS.Interrupt
import PeachOS.TaskRuns

/-! The scheduler goes round the task list: `task_get_next` wraps from the tail to the head,
so the list of creation is a ring. -/

namespace PeachOS
open Program ByteMemory LinkedList Transition

/-- Calls one after the other, each of which ends in a `task_return`. Each is listed with the
registers it returns to and the address space it leaves loaded. -/
def returns : List (InterruptProg Unit) → Interrupts → Option (List (Addr × Addr) × Interrupts)
  | [], interrupts => some ([], interrupts)
  | call :: rest, interrupts =>
      match call interrupts with
      | (.error (.taskReturn registers), after) =>
          (returns rest after).map
            (fun last => ((registers, after.kernel.pageDirectory) :: last.1, last.2))
      | _ => none

/-- Where a task runs: its registers in the record, and its address space. -/
def taskContext (kernel : Kernel) (task : Addr) : Addr × Addr :=
  (taskRegisters task, directoryEntry kernel.memory.bytes (kernel.tasks task).pageDirectory)

/-- The task list of `live`, with the address spaces that the tasks have in `first`. -/
structure Scheduling (first : Kernel) (live : List Addr) (kernel : Kernel) : Prop where
  list : TaskList kernel live
  memory : kernel.memory = first.memory
  directories : ∀ task, (kernel.tasks task).pageDirectory = (first.tasks task).pageDirectory
  spaces : ∀ task ∈ live, (first.tasks task).pageDirectory ≠ 0

/-- The task at a position of the list, taken as a ring. -/
abbrev ringTask (live : List Addr) (i : Nat) : Addr := ringNode live 0 i

section Calls
variable {kernel after : Kernel}

theorem Interrupts.onKernel_ok {α : Type} {call : KernelProg α} {result : α} (chunk : Addr) (c : Int)
    (run : call kernel = (.ok result, after)) :
    Interrupts.onKernel call ⟨kernel, chunk, c⟩ = (.ok result, ⟨after, chunk, c⟩) := by
  unfold Interrupts.onKernel
  rw [run]
  rfl

theorem taskCurrentSaveState_run (frame : InterruptFrame) (nonnull : kernel.currentTask ≠ 0) :
    taskCurrentSaveState frame kernel =
      (.ok (), kernel.setTask kernel.currentTask ({ · with registers := frame.saved })) := by
  unfold taskCurrentSaveState
  rw [read_bind, if_neg nonnull]
  rfl

end Calls

section Next
variable {first kernel : Kernel} {live : List Addr} {i : Nat}

theorem ringTask_mem (nonempty : live ≠ []) (i : Nat) : ringTask live i ∈ live :=
  List.mem_of_getElem? (ringNode_mem 0 nonempty i)

theorem Scheduling.getNext (scheduling : Scheduling first live kernel) (nonempty : live ≠ [])
    (current : kernel.currentTask = ringTask live i) :
    taskGetNext kernel = (.ok (ringTask live (i + 1)), kernel) := by
  have list := scheduling.list
  have next := list.links.ring_next list.nonnull nonempty i
  rw [taskGetNext_run current (list.nonnull _ (ringTask_mem nonempty i)), list.head]
  exact congrArg (fun task => (Except.ok task, kernel)) next

theorem Scheduling.switched (scheduling : Scheduling first live kernel) {task : Addr}
    (member : task ∈ live) : Scheduling first live (kernel.switched task) where
  list := ⟨scheduling.list.distinct, scheduling.list.nonnull, scheduling.list.head,
    scheduling.list.tail, scheduling.list.links, fun _ => member⟩
  memory := scheduling.memory
  directories := scheduling.directories
  spaces := scheduling.spaces

theorem Scheduling.taskNext (scheduling : Scheduling first live kernel) (nonempty : live ≠ [])
    (current : kernel.currentTask = ringTask live i) (chunk : Addr) (c : Int) :
    taskNext ⟨kernel, chunk, c⟩ = (.error (.taskReturn (taskRegisters (ringTask live (i + 1)))),
      ⟨kernel.switched (ringTask live (i + 1)), chunk, c⟩) := by
  have member := ringTask_mem nonempty (i + 1)
  have nonnull := scheduling.list.nonnull _ member
  have space := scheduling.spaces _ member
  rw [← scheduling.directories] at space
  have get := Interrupts.onKernel_ok chunk c (scheduling.getNext nonempty current)
  have switch := Interrupts.onKernel_ok chunk c (taskSwitch_run nonnull space)
  unfold PeachOS.taskNext
  rw [bind_ok get, if_neg nonnull, bind_ok switch]
  rfl

end Next

/-- From any state where `ready` holds the call returns to the task after the current one. -/
def Schedules (ready : Interrupts → Prop) (first : Kernel) (live : List Addr)
    (call : InterruptProg Unit) : Prop :=
  ∀ (interrupts : Interrupts) (i : Nat), Scheduling first live interrupts.kernel →
    ready interrupts → interrupts.kernel.currentTask = ringTask live i →
      ∃ after, call interrupts = (.error (.taskReturn (taskRegisters (ringTask live (i + 1)))), after) ∧
        Scheduling first live after.kernel ∧ ready after ∧
        after.kernel.currentTask = ringTask live (i + 1) ∧
        after.kernel.pageDirectory = (taskContext first (ringTask live (i + 1))).2

section Rounds
variable {ready : Interrupts → Prop} {first : Kernel} {live : List Addr}
  {calls : List (InterruptProg Unit)}

/-- However many calls there are, they go round the list. -/
theorem returns_ring (each : ∀ call ∈ calls, Schedules ready first live call)
    (interrupts : Interrupts) (i : Nat) (scheduling : Scheduling first live interrupts.kernel)
    (start : ready interrupts) (current : interrupts.kernel.currentTask = ringTask live i) :
    ∃ after, returns calls interrupts =
        some ((List.range calls.length).map (fun k => taskContext first (ringTask live (i + 1 + k))),
          after) ∧
      after.kernel.currentTask = ringTask live (i + calls.length) := by
  induction calls generalizing interrupts i with
  | nil => exact ⟨interrupts, rfl, current⟩
  | cons call rest ih =>
    obtain ⟨middle, run, kept, still, switched, space⟩ :=
      each call List.mem_cons_self interrupts i scheduling start current
    obtain ⟨after, others, last⟩ := ih (fun other member => each other (List.mem_cons_of_mem _ member))
      middle (i + 1) kept still switched
    refine ⟨after, ?_, ?_⟩
    · have tail : (List.range rest.length).map
          (fun k => taskContext first (ringTask live (i + 1 + 1 + k))) =
          (List.range rest.length).map
            ((fun k => taskContext first (ringTask live (i + 1 + k))) ∘ Nat.succ) := by
        apply List.map_congr_left
        intro k _
        rw [Function.comp_apply, Nat.add_right_comm (i + 1) 1 k]
        rfl
      rw [returns, run]
      dsimp only
      rw [others, Option.map_some, List.length_cons, List.range_succ_eq_map, List.map_cons,
        List.map_map, ← tail, space]
      rfl
    · rw [last, List.length_cons]
      congr 1
      omega

/-- As many calls as there are tasks: one round, from the task after the current one to the
current one itself. -/
theorem returns_round (each : ∀ call ∈ calls, Schedules ready first live call)
    (interrupts : Interrupts) {position : Nat} (bound : position < live.length)
    (count : calls.length = live.length) (scheduling : Scheduling first live interrupts.kernel)
    (start : ready interrupts) (current : interrupts.kernel.currentTask = live[position]) :
    ∃ after, returns calls interrupts =
        some ((live.rotate (position + 1)).map (taskContext first), after) ∧
      after.kernel.currentTask = live[position] := by
  have here : ringTask live position = live[position] := by
    unfold ringTask ringNode
    rw [Nat.mod_eq_of_lt bound, List.getD_eq_getElem?_getD, List.getElem?_eq_getElem bound,
      Option.getD_some]
  obtain ⟨after, run, last⟩ := returns_ring each interrupts position scheduling start
    (current.trans here.symm)
  refine ⟨after, ?_, ?_⟩
  · rw [run, count, ← ringNode_round live 0 (position + 1), List.map_map]
    rfl
  · rw [last, count, ← here]
    unfold ringTask ringNode
    rw [Nat.add_mod_right]

theorem taskNext_schedules (nonempty : live ≠ []) :
    Schedules (fun _ => True) first live taskNext := by
  intro interrupts i scheduling _ current
  have member := ringTask_mem nonempty (i + 1)
  refine ⟨_, scheduling.taskNext nonempty current interrupts.kernelChunk interrupts.c,
    scheduling.switched member, trivial, rfl, ?_⟩
  unfold taskContext
  rw [← scheduling.memory, ← scheduling.directories]
  rfl

theorem Kernel.saved_task (kernel : Kernel) (task directory : Addr) (registers : Registers) (other : Addr) :
    let saved := (({ kernel with pageDirectory := directory } : Kernel).setTask task
      ({ · with registers := registers })).tasks other
    saved.pageDirectory = (kernel.tasks other).pageDirectory ∧ saved.process = (kernel.tasks other).process ∧
      saved.next = (kernel.tasks other).next ∧ saved.prev = (kernel.tasks other).prev := by
  dsimp only
  rw [Kernel.setTask_tasks]
  split
  next here => exact ⟨by rw [here], by rw [here], by rw [here], by rw [here]⟩
  next => exact ⟨rfl, rfl, rfl, rfl⟩

theorem TaskList.saved {kernel : Kernel} (list : TaskList kernel live) (task directory : Addr)
    (registers : Registers) :
    TaskList (({ kernel with pageDirectory := directory } : Kernel).setTask task
      ({ · with registers := registers })) live := by
  have same := kernel.saved_task task directory registers
  refine ⟨list.distinct, list.nonnull, list.head, list.tail, ?_, list.current⟩
  exact list.links.congr (fun node _ => (same node).2.2.1) (fun node _ => (same node).2.2.2)

theorem Scheduling.saved {kernel : Kernel} (scheduling : Scheduling first live kernel)
    (task directory : Addr) (registers : Registers) :
    Scheduling first live
      (({ kernel with pageDirectory := directory } : Kernel).setTask task
        ({ · with registers := registers })) where
  list := scheduling.list.saved task directory registers
  memory := scheduling.memory
  directories := fun other =>
    (kernel.saved_task task directory registers other).1.trans (scheduling.directories other)
  spaces := scheduling.spaces

theorem clock_schedules (others : Word → Option (InterruptProg Unit)) (frame : InterruptFrame)
    (nonempty : live ≠ []) :
    Schedules (fun interrupts => interrupts.kernelChunk ≠ 0 ∧ 10 ≤ interrupts.c) first live
      (interruptHandler (interruptCallbacks others) 0x20 frame) := by
  intro interrupts i scheduling ready current
  obtain ⟨kernel, chunk, c⟩ := interrupts
  obtain ⟨loaded, ticks⟩ := ready
  dsimp only at scheduling loaded ticks current
  have nonnull := scheduling.list.nonnull _ (ringTask_mem nonempty i)
  rw [← current] at nonnull
  have saved := scheduling.saved kernel.currentTask (directoryEntry kernel.memory.bytes chunk) frame.saved
  have member := ringTask_mem nonempty (i + 1)
  have next := saved.taskNext nonempty current chunk c
  have page : kernelPage ⟨kernel, chunk, c⟩ = _ :=
    Interrupts.onKernel_ok chunk c (Kernel.pagingSwitch_run loaded)
  have save : Interrupts.onKernel (taskCurrentSaveState frame) ⟨{ kernel with
      pageDirectory := directoryEntry kernel.memory.bytes chunk }, chunk, c⟩ = _ :=
    Interrupts.onKernel_ok chunk c (taskCurrentSaveState_run frame nonnull)
  refine ⟨⟨_, chunk, c⟩, ?_, saved.switched member, ⟨loaded, ticks⟩, rfl, ?_⟩
  · unfold interruptHandler
    rw [bind_ok page]
    simp only [interruptCallbacks, if_true]
    rw [bind_ok save]
    refine bind_error ?_
    unfold idtClock
    rw [read_bind, if_neg (not_lt.mpr ticks)]
    exact next
  · unfold taskContext
    rw [← saved.memory, ← saved.directories]

end Rounds

theorem TaskSpaces.scheduling {kernel : Kernel} {live : List Addr} (spaces : TaskSpaces kernel live)
    {current : Addr} (member : current ∈ live) :
    Scheduling kernel live { kernel with currentTask := current } where
  list := ⟨spaces.list.distinct, spaces.list.nonnull, spaces.list.head, spaces.list.tail,
    spaces.list.links, fun _ => member⟩
  memory := rfl
  directories := fun _ => rfl
  spaces := by
    intro task listed
    obtain ⟨own, owned, _⟩ := spaces.owned
    obtain ⟨_, _, _, _, _, _, ⟨chunk, directory, tables, same, address, _⟩, single⟩ := owned task listed
    rw [address]
    exact spaces.heap.nonnull (single chunk (same ▸ Set.mem_insert _ _)).1

/-- `n` calls of `task_next`, whichever of the `n` tasks is the current one, return to each of
them once, in the order of creation from the one after it, and end on it. -/
theorem taskNext_round {first kernel : Kernel} {live : List Addr} {position : Nat}
    (none : NoTasks first) (made : Run (TaskStep FreesTail) (first, []) (kernel, live))
    (bound : position < live.length) (interrupts : Interrupts)
    (started : interrupts.kernel = { kernel with currentTask := live[position] }) :
    ∃ ran after, returns (List.replicate live.length taskNext) interrupts =
        some (ran.map (taskContext kernel), after) ∧
      ran = live.rotate (position + 1) ∧ ran.Nodup ∧ ran.Perm live ∧
      ran.getLast? = some live[position] ∧ after.kernel.currentTask = live[position] := by
  have nonempty : live ≠ [] := List.ne_nil_of_length_pos (by omega)
  have scheduling := (none.spaces.run made).scheduling (List.getElem_mem bound)
  rw [← started] at scheduling
  have each : ∀ call ∈ List.replicate live.length taskNext,
      Schedules (fun _ => True) kernel live call := by
    intro call member
    rw [List.eq_of_mem_replicate member]
    exact taskNext_schedules nonempty
  obtain ⟨after, run, last⟩ := returns_round each interrupts bound List.length_replicate scheduling
    trivial (by rw [started])
  refine ⟨_, after, run, rfl, List.nodup_rotate.mpr scheduling.list.distinct,
    List.rotate_perm live _, ?_, last⟩
  rw [List.getLast?_eq_getElem?, List.length_rotate, List.getElem?_rotate (by omega)]
  have wrap : (live.length - 1 + (position + 1)) % live.length = position := by
    rw [show live.length - 1 + (position + 1) = position + live.length by omega, Nat.add_mod_right,
      Nat.mod_eq_of_lt bound]
  rw [wrap, List.getElem?_eq_getElem bound]

theorem taskNext_round_two : ∃ kernel first second after,
    returns [taskNext, taskNext] ⟨{ kernel with currentTask := first }, 0, 0⟩ =
        some ([second, first].map (taskContext kernel), after) ∧
      after.kernel.currentTask = first ∧ first ≠ second := by
  obtain ⟨kernel, first, second, made, spaces⟩ := bootKernel_twoTasks FreesTail
  obtain ⟨ran, after, run, round, _, _, _, last⟩ := taskNext_round bootKernel_noTasks made
    (Nat.zero_lt_two : 0 < [first, second].length) ⟨{ kernel with currentTask := first }, 0, 0⟩ rfl
  refine ⟨kernel, first, second, after, by rw [round] at run; exact run, last, ?_⟩
  have distinct := spaces.list.distinct
  simpa using distinct

/-- The same round by clock interrupts, each of which first saves the registers of the task it
interrupts. -/
theorem clock_round {first kernel : Kernel} {live : List Addr} {position : Nat}
    (none : NoTasks first) (made : Run (TaskStep FreesTail) (first, []) (kernel, live))
    (bound : position < live.length) (interrupts : Interrupts)
    (started : interrupts.kernel = { kernel with currentTask := live[position] })
    (loaded : interrupts.kernelChunk ≠ 0) (ticks : 10 ≤ interrupts.c)
    (others : Word → Option (InterruptProg Unit)) (frames : List InterruptFrame)
    (count : frames.length = live.length) :
    ∃ after, returns (frames.map (interruptHandler (interruptCallbacks others) 0x20)) interrupts =
        some ((live.rotate (position + 1)).map (taskContext kernel), after) ∧
      after.kernel.currentTask = live[position] := by
  have nonempty : live ≠ [] := List.ne_nil_of_length_pos (by omega)
  have scheduling := (none.spaces.run made).scheduling (List.getElem_mem bound)
  rw [← started] at scheduling
  have each : ∀ call ∈ frames.map (interruptHandler (interruptCallbacks others) 0x20),
      Schedules (fun interrupts => interrupts.kernelChunk ≠ 0 ∧ 10 ≤ interrupts.c) kernel live call := by
    intro call member
    obtain ⟨frame, _, same⟩ := List.mem_map.mp member
    rw [← same]
    exact clock_schedules others frame nonempty
  exact returns_round each interrupts bound (by rw [List.length_map, count]) scheduling
    ⟨loaded, ticks⟩ (by rw [started])

end PeachOS
