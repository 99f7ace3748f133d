import Mathlib.Data.Set.BooleanAlgebra
import Mathlib.Order.CompletePartialOrder
import PeachOS.TaskList

/-! `task_new` and `task_free` on the heap: a live task owns its record's block and the
blocks of its address space, and runs of the two calls keep the task list. -/

namespace PeachOS
open Program ByteMemory BlockPool LinkedList Transition

theorem pagingNew4gb_nonnull {flags : BitVec 8} {memory after : Memory} {chunk : Addr}
    (built : pagingNew4gb flags memory = some (chunk, after)) : chunk ≠ 0 := by
  simp only [pagingNew4gb] at built
  split at built
  · cases built
  · obtain ⟨middle, _, rest⟩ := Option.bind_eq_some_iff.mp built
    split at rest
    · cases rest
    next nonnull =>
      rw [← (Prod.mk.inj (Option.some.inj rest)).1]
      exact nonnull

section Calls
variable {kernel after : Kernel} {task process : Addr}

theorem Kernel.pagingNew4gb_ok {flags : BitVec 8} {chunk : Addr}
    (run : Kernel.pagingNew4gb flags kernel = (.ok chunk, after)) :
    ∃ memory, PeachOS.pagingNew4gb flags kernel.memory = some (chunk, memory) ∧
      after = kernel.setMemory memory := by
  unfold Kernel.pagingNew4gb at run
  split at run
  · cases run
  next built memory same =>
    obtain ⟨chunkEq, afterEq⟩ := Prod.mk.inj run
    exact ⟨memory, Except.ok.inj chunkEq ▸ same, afterEq.symm⟩

def Kernel.withTask (kernel : Kernel) (task process chunk : Addr) (memory : Memory) : Kernel :=
  { kernel with
    memory := memory
    tasks := Function.update kernel.tasks task {
      pageDirectory := chunk
      registers := { Registers.zero with
        ip :=
          if (kernel.processRecords process).filetype = processFiletypeElf then
            elfEntry memory.bytes (kernel.elfFiles (kernel.processRecords process).ptr).elfMemory
          else peachosProgramVirtualAddress
        ss := userDataSegment
        cs := userCodeSegment
        esp := peachosProgramVirtualStackAddressStart }
      process := process
      next := 0
      prev := 0 } }

@[simp] theorem Kernel.withTask_self (kernel : Kernel) (task process chunk : Addr) (memory : Memory) :
    ((kernel.withTask task process chunk memory).tasks task).pageDirectory = chunk ∧
      (kernel.withTask task process chunk memory).nextTask task = 0 ∧
      (kernel.withTask task process chunk memory).prevTask task = 0 := by
  simp [Kernel.withTask, Kernel.nextTask, Kernel.prevTask]

theorem taskInit_run (task process : Addr) {chunk : Addr} {memory : Memory}
    (built : pagingNew4gb 0x05 kernel.memory = some (chunk, memory)) :
    taskInit task process kernel = (.ok 0, kernel.withTask task process chunk memory) := by
  have call : Kernel.pagingNew4gb 0x05 (kernel.setTask task (fun _ => Task.zero)) =
      (.ok chunk, (kernel.setTask task (fun _ => Task.zero)).setMemory memory) := by
    unfold Kernel.pagingNew4gb
    rw [Kernel.setTask_memory, built]
  unfold taskInit
  rw [update_bind]
  refine (bind_ok call).trans ?_
  rw [update_bind, if_neg (pagingNew4gb_nonnull built), read_bind, update_bind]
  simp only [Kernel.setTask, Kernel.setMemory, Kernel.withTask, Function.update_self,
    Function.update_idem, id_eq, pure_run]
  rfl

theorem taskInit_ok {res : Int} (run : taskInit task process kernel = (.ok res, after)) :
    res = 0 ∧ ∃ chunk memory, pagingNew4gb 0x05 kernel.memory = some (chunk, memory) ∧
      after = kernel.withTask task process chunk memory := by
  have first := run
  unfold taskInit at first
  rw [update_bind] at first
  obtain ⟨chunk, middle, built, _⟩ := bind_eq_ok first
  obtain ⟨memory, same, _⟩ := Kernel.pagingNew4gb_ok built
  have done : taskInit task process kernel = _ := taskInit_run task process same
  rw [run] at done
  obtain ⟨resEq, afterEq⟩ := Prod.mk.inj done
  exact ⟨Except.ok.inj resEq, chunk, memory, same, afterEq⟩

theorem taskNew_ok (run : taskNew process kernel = (.ok task, after)) :
    ∃ middle : Kernel, (kzalloc sizeofTask kernel.memory).1 = task ∧ task ≠ 0 ∧
      taskInit task process (kernel.setMemory (kzalloc sizeofTask kernel.memory).2) = (.ok 0, middle) ∧
      taskListAppend task middle = (.ok (), after) := by
  unfold taskNew at run
  obtain ⟨ptr, allocated, alloc, rest⟩ := bind_eq_ok run
  have parts : ptr = (kzalloc sizeofTask kernel.memory).1 ∧
      allocated = kernel.setMemory (kzalloc sizeofTask kernel.memory).2 := by
    simp only [Kernel.kzalloc] at alloc
    split at alloc
    · cases alloc
    · obtain ⟨ptrEq, afterEq⟩ := Prod.mk.inj alloc
      exact ⟨(Except.ok.inj ptrEq).symm, afterEq.symm⟩
  obtain ⟨res, middle, init, last⟩ := bind_eq_ok rest
  by_cases null : ptr = 0
  · rw [if_pos null] at init
    obtain ⟨resEq, _⟩ := Prod.mk.inj init
    have resEq := Except.ok.inj resEq
    rw [← resEq, if_pos (by decide), null] at last
    obtain ⟨_, _, freed, _⟩ := bind_eq_ok last
    unfold taskFree at freed
    rw [if_pos rfl] at freed
    cases freed
  · rw [if_neg null, parts.2] at init
    obtain ⟨rfl, _⟩ := taskInit_ok init
    rw [if_neg (by decide)] at last
    obtain ⟨_, appended, append, returned⟩ := bind_eq_ok last
    obtain ⟨taskEq, rfl⟩ := Prod.mk.inj returned
    have taskEq := Except.ok.inj taskEq
    subst taskEq
    exact ⟨middle, parts.1.symm, null, init, append⟩

theorem taskFree_run (nonnull : task ≠ 0) (space : (kernel.tasks task).pageDirectory ≠ 0)
    (proper : kernel.prevTask task ≠ task) :
    taskFree task kernel = (.ok 0, (kernel.removed task).setMemory
      (kfree task (pagingFree4gb (kernel.tasks task).pageDirectory kernel.memory))) := by
  have commutes : ∀ memory, (kernel.setMemory memory).removed task =
      (kernel.removed task).setMemory memory := by
    intro memory
    unfold Kernel.removed Kernel.prevTask Kernel.nextTask Kernel.setMemory
    dsimp only
    split <;> rfl
  have remove : ∀ memory, taskListRemove task (kernel.setMemory memory) =
      (.ok (), (kernel.removed task).setMemory memory) := by
    intro memory
    rw [← commutes]
    exact taskListRemove_run nonnull proper
  unfold taskFree Kernel.pagingFree4gb
  rw [if_neg nonnull, read_bind, if_neg space, update_bind, bind_ok (remove _)]
  rfl

end Calls

/-- The record of a task and its address space are single blocks, all different. -/
def OwnsTask (memory : Memory) (task space : Addr) (blocks : Set Nat) : Prop :=
  ∃ (block : Nat) (spaceBlocks : Set Nat), blocks = insert block spaceBlocks ∧
    block ∉ spaceBlocks ∧ task = heapBlockToAddress memory.heap block ∧
    Single memory.heap block ∧ SpaceBlocks memory space spaceBlocks

section Owns
variable {memory after : Memory} {task space : Addr} {blocks other : Set Nat}

theorem OwnsTask.single (owns : OwnsTask memory task space blocks) {block : Nat}
    (member : block ∈ blocks) : Single memory.heap block := by
  obtain ⟨record, spaceBlocks, rfl, _, _, single, layout⟩ := owns
  rcases member with rfl | inSpace
  · exact single
  · exact layout.single block inSpace

theorem OwnsTask.takes (owns : OwnsTask memory task space blocks) (pool : Pool memory.heap)
    (takes : Takes memory after other) : OwnsTask after task space blocks := by
  obtain ⟨record, spaceBlocks, rfl, fresh, address, single, layout⟩ := owns
  refine ⟨record, spaceBlocks, rfl, fresh, by rw [takes.address]; exact address, ?_,
    layout.takes pool takes⟩
  refine ⟨by rw [takes.total]; exact single.1, ?_⟩
  rw [takes.kept record, single.2]
  intro taken takenIn same
  have equal : record = taken := by exact_mod_cast same
  exact single.not_free (equal ▸ (takes.free taken takenIn).2)

theorem OwnsTask.releases (owns : OwnsTask memory task space blocks)
    (releases : Releases memory after other) (apart : Disjoint blocks other) :
    OwnsTask after task space blocks := by
  obtain ⟨record, spaceBlocks, rfl, fresh, address, single, layout⟩ := owns
  refine ⟨record, spaceBlocks, rfl, fresh, by rw [releases.address]; exact address, ?_, ?_⟩
  · exact releases.single single (Set.disjoint_left.mp apart (Set.mem_insert _ _))
  · exact layout.releases releases
      (fun block member => Set.disjoint_left.mp apart (Set.mem_insert_of_mem _ member))

theorem OwnsTask.free (owns : OwnsTask memory task space blocks) (pool : Pool memory.heap) :
    Releases memory (kfree task (pagingFree4gb space memory)) blocks := by
  obtain ⟨record, spaceBlocks, rfl, fresh, rfl, single, layout⟩ := owns
  have first := layout.free pool
  have second := kfree_single (first.pool pool) (first.single single fresh)
  rw [first.address] at second
  rw [← Set.union_singleton]
  exact first.trans second

end Owns

/-- The list of live tasks, and what each of them owns on the heap. -/
structure TaskSpaces (kernel : Kernel) (live : List Addr) : Prop where
  heap : KernelHeap kernel.memory.heap
  list : TaskList kernel live
  owned : ∃ own : Addr → Set Nat,
    (∀ task ∈ live, OwnsTask kernel.memory task (kernel.tasks task).pageDirectory (own task)) ∧
    ∀ left ∈ live, ∀ right ∈ live, left ≠ right → Disjoint (own left) (own right)

section Spaces
variable {kernel after : Kernel} {live : List Addr} {task process : Addr}

theorem taskNew_takes (kernelHeap : KernelHeap kernel.memory.heap)
    (run : taskNew process kernel = (.ok task, after)) :
    ∃ middle blocks space, Takes kernel.memory middle.memory blocks ∧
      OwnsTask middle.memory task space blocks ∧ (middle.tasks task).pageDirectory = space ∧
      middle.nextTask task = 0 ∧ middle.prevTask task = 0 ∧
      (∀ other, other ≠ task → middle.tasks other = kernel.tasks other) ∧
      middle.taskHead = kernel.taskHead ∧ middle.taskTail = kernel.taskTail ∧
      middle.currentTask = kernel.currentTask ∧ task ≠ 0 ∧
      taskListAppend task middle = (.ok (), after) := by
  obtain ⟨middle, ptr, nonnull, init, append⟩ := taskNew_ok run
  obtain ⟨block, address, first⟩ := kzalloc_page kernelHeap.pool sizeofTask (by decide) (by decide)
    (by rw [ptr]; exact nonnull)
  obtain ⟨_, space, memory, built, middleEq⟩ := taskInit_ok init
  obtain ⟨chunk, directoryBlock, tables, spaceEq, new⟩ :=
    pagingNew4gb_new (first.pool kernelHeap.pool) built
  have takes := first.trans new.takes
  rw [Set.singleton_union] at takes
  have memoryEq : middle.memory = memory := by
    rw [middleEq]
    rfl
  have owns : OwnsTask memory task space
      (insert block (insert chunk (builtBlocks directoryBlock tables 1024))) := by
    refine ⟨block, _, rfl, ?_, ?_, ?_, spaceEq ▸ new.space⟩
    · intro member
      exact first.separate new.takes member rfl
    · rw [new.takes.address]
      exact (ptr.symm.trans address).trans (congrFun first.address.symm block)
    · exact ⟨by rw [takes.total]; exact (takes.free block (Set.mem_insert _ _)).1,
        takes.taken block (Set.mem_insert _ _)⟩
  rw [← memoryEq] at takes owns
  refine ⟨middle, _, _, takes, owns, ?_, ?_, ?_, ?_, ?_, ?_, ?_, nonnull, append⟩
  all_goals rw [middleEq]
  · exact (Kernel.withTask_self _ _ _ _ _).1
  · exact (Kernel.withTask_self _ _ _ _ _).2.1
  · exact (Kernel.withTask_self _ _ _ _ _).2.2
  · intro other different
    exact Function.update_of_ne different _ _
  all_goals rfl

theorem TaskSpaces.new (spaces : TaskSpaces kernel live)
    (run : taskNew process kernel = (.ok task, after)) : TaskSpaces after (live ++ [task]) := by
  obtain ⟨own, owned, apart⟩ := spaces.owned
  have pool := spaces.heap.pool
  obtain ⟨middle, blocks, space, takes, fresh, directory, next, prev, others, head, tail, current,
    nonnull, append⟩ := taskNew_takes spaces.heap run
  -- the blocks of live tasks are not free, so none of them was taken
  have separate : ∀ other ∈ live, Disjoint (own other) blocks := by
    intro other member
    rw [Set.disjoint_left]
    intro block ownBlock taken
    exact ((owned other member).single ownBlock).not_free (takes.free block taken).2
  have notLive : task ∉ live := by
    intro member
    obtain ⟨record, spaceBlocks, same, _, address, _, _⟩ := fresh
    obtain ⟨oldRecord, oldBlocks, oldSame, _, oldAddress, oldSingle, _⟩ := owned task member
    have inBlocks : record ∈ blocks := same ▸ Set.mem_insert _ _
    rw [takes.address] at address
    have equal := heapBlockToAddress_inj pool oldSingle.1 (takes.free record inBlocks).1
      (oldAddress.symm.trans address)
    have oldIn : oldRecord ∈ own task := oldSame ▸ Set.mem_insert _ _
    exact Set.disjoint_left.mp (separate task member) oldIn (equal ▸ inBlocks)
  have kept : ∀ other ∈ live, middle.tasks other = kernel.tasks other :=
    fun other member => others other (fun same => notLive (same ▸ member))
  have list : TaskList middle live := by
    refine ⟨spaces.list.distinct, spaces.list.nonnull, head.trans spaces.list.head,
      tail.trans spaces.list.tail, spaces.list.links.congr ?_ ?_,
      fun nonempty => by rw [current]; exact spaces.list.current nonempty⟩
    · exact fun node member => congrArg Task.next (kept node member)
    · exact fun node member => congrArg Task.prev (kept node member)
  obtain ⟨result, appended, newList, sameMemory, sameSpace⟩ := list.append notLive nonnull next prev
  obtain rfl : after = result := by
    rw [append] at appended
    exact (Prod.mk.inj appended).2
  have fate : ∀ other ∈ live, other ≠ task := fun other member same => notLive (same ▸ member)
  refine ⟨by rw [sameMemory]; exact takes.kernel spaces.heap, newList,
    Function.update own task blocks, ?_, ?_⟩
  · intro other member
    rw [sameMemory, sameSpace]
    rcases List.mem_append.mp member with old | last
    · rw [Function.update_of_ne (fate other old), kept other old]
      exact (owned other old).takes pool takes
    · rw [List.mem_singleton.mp last, Function.update_self, directory]
      exact fresh
  · intro left leftIn right rightIn different
    rcases List.mem_append.mp leftIn with leftOld | leftLast <;>
      rcases List.mem_append.mp rightIn with rightOld | rightLast
    · rw [Function.update_of_ne (fate left leftOld), Function.update_of_ne (fate right rightOld)]
      exact apart left leftOld right rightOld different
    · rw [Function.update_of_ne (fate left leftOld), List.mem_singleton.mp rightLast,
        Function.update_self]
      exact separate left leftOld
    · rw [Function.update_of_ne (fate right rightOld), List.mem_singleton.mp leftLast,
        Function.update_self]
      exact (separate right rightOld).symm
    · exact absurd ((List.mem_singleton.mp leftLast).trans (List.mem_singleton.mp rightLast).symm)
        different

theorem TaskSpaces.free_run (spaces : TaskSpaces kernel live) (member : task ∈ live) :
    ∃ memory blocks, OwnsTask kernel.memory task (kernel.tasks task).pageDirectory blocks ∧
      taskFree task kernel = (.ok 0, (kernel.removed task).setMemory memory) ∧
      Releases kernel.memory memory blocks ∧
      memory = kfree task (pagingFree4gb (kernel.tasks task).pageDirectory kernel.memory) := by
  obtain ⟨own, owned, _⟩ := spaces.owned
  obtain ⟨front, back, rfl⟩ := List.append_of_mem member
  have proper := spaces.list.proper
  have mine := owned task member
  have space : (kernel.tasks task).pageDirectory ≠ 0 := by
    obtain ⟨_, _, _, _, _, _, ⟨chunk, directory, tables, same, address, _⟩, single⟩ := mine
    rw [address]
    exact spaces.heap.nonnull (single chunk (same ▸ Set.mem_insert _ _)).1
  exact ⟨_, own task, mine, taskFree_run proper.1 space proper.2, mine.free spaces.heap.pool, rfl⟩

theorem TaskSpaces.free_tail (front : List Addr) (spaces : TaskSpaces kernel (front ++ [task])) :
    ∃ memory, taskFree task kernel = (.ok 0, (kernel.removed task).setMemory memory) ∧
      TaskSpaces ((kernel.removed task).setMemory memory) front := by
  obtain ⟨own, owned, apart⟩ := spaces.owned
  have member : task ∈ front ++ [task] := by simp
  obtain ⟨memory, _, _, run, _, memoryEq⟩ := spaces.free_run member
  have releases := (owned task member).free spaces.heap.pool
  rw [← memoryEq] at releases
  have list := spaces.list.remove_tail
  have different : ∀ other ∈ front, other ≠ task := fun other old same =>
    (List.nodup_append.mp spaces.list.distinct).2.2 other old task (List.mem_singleton_self task) same
  refine ⟨memory, run, spaces.heap.congr releases.saddr releases.total,
    ⟨list.distinct, list.nonnull, list.head, list.tail, list.links, list.current⟩, own, ?_, ?_⟩
  · intro other old
    have otherIn := List.mem_append_left [task] old
    show OwnsTask memory other ((kernel.removed task).tasks other).pageDirectory (own other)
    rw [Kernel.removed_pageDirectory]
    exact (owned other otherIn).releases releases (apart other otherIn task member (different other old))
  · exact fun left leftIn right rightIn =>
      apart left (List.mem_append_left _ leftIn) right (List.mem_append_left _ rightIn)

end Spaces

/-- A successful `task_new`, or a `task_free` of a live task that `allowed` admits. -/
inductive TaskStep (allowed : List Addr → Addr → Prop) :
    Kernel × List Addr → Kernel × List Addr → Prop where
  | new {kernel after : Kernel} {live : List Addr} (process task : Addr)
      (run : taskNew process kernel = (.ok task, after)) (success : isErr task = false) :
      TaskStep allowed (kernel, live) (after, live ++ [task])
  | free {kernel after : Kernel} {live : List Addr} (task : Addr) (res : Int) (member : task ∈ live)
      (condition : allowed live task) (run : taskFree task kernel = (.ok res, after)) :
      TaskStep allowed (kernel, live) (after, live.erase task)

/-- Only the newest task is freed. -/
def FreesTail (live : List Addr) (task : Addr) : Prop := live.getLast? = some task

theorem TaskSpaces.step {before after : Kernel × List Addr} (spaces : TaskSpaces before.1 before.2)
    (step : TaskStep FreesTail before after) : TaskSpaces after.1 after.2 := by
  cases step with
  | new process task run success => exact spaces.new run
  | @free kernel after live task res member condition run =>
    rcases List.eq_nil_or_concat live with rfl | ⟨front, last, rfl⟩
    · cases member
    · rw [List.concat_eq_append] at *
      unfold FreesTail at condition
      obtain rfl : last = task := by simpa using condition
      obtain ⟨memory, freed, tail⟩ := TaskSpaces.free_tail front spaces
      obtain rfl : (kernel.removed last).setMemory memory = after := by
        rw [freed] at run
        exact (Prod.mk.inj run).2
      have fresh : last ∉ front := fun old =>
        (List.nodup_append.mp spaces.list.distinct).2.2 last old last (List.mem_singleton_self last) rfl
      have erased : (front ++ [last]).erase last = front := by
        rw [List.erase_append_right _ fresh]
        simp
      rw [erased]
      exact tail

theorem TaskSpaces.run {first kernel : Kernel} {live made : List Addr} (spaces : TaskSpaces first live)
    (run : Run (TaskStep FreesTail) (first, live) (kernel, made)) : TaskSpaces kernel made :=
  run.invariant (fun state => TaskSpaces state.1 state.2) (fun _ _ held step => held.step step) spaces

/-- A kernel before its first task. -/
structure NoTasks (kernel : Kernel) : Prop where
  heap : KernelHeap kernel.memory.heap
  head : kernel.taskHead = 0
  tail : kernel.taskTail = 0

theorem NoTasks.spaces {kernel : Kernel} (none : NoTasks kernel) : TaskSpaces kernel [] :=
  ⟨none.heap, ⟨List.nodup_nil, by simp, none.head, none.tail, trivial, fun empty => absurd rfl empty⟩,
    fun _ => ∅, by simp, by simp⟩

/-- As long as every task that is freed is the last of the list, the list stays a
well-formed doubly linked list of the live tasks in creation order. -/
theorem task_runs_linked {kernel after : Kernel} {live : List Addr} (start : NoTasks kernel)
    (run : Run (TaskStep FreesTail) (kernel, []) (after, live)) :
    TaskList after live ∧ walk after.nextTask live.length after.taskHead = live := by
  have list := (start.spaces.run run).list
  exact ⟨list, by rw [list.head]; exact list.links.walk⟩

theorem taskListAppend_memory (task : Addr) (kernel : Kernel) :
    ∃ after, taskListAppend task kernel = (.ok (), after) ∧ after.memory = kernel.memory := by
  unfold taskListAppend
  rw [read_bind]
  split
  · exact ⟨_, rfl, rfl⟩
  · exact ⟨_, rfl, rfl⟩

theorem taskNew_succeeds {kernel : Kernel} (process : Addr)
    (heap : KernelHeap kernel.memory.heap) (room : 1027 ≤ (freeBlocks kernel.memory.heap).card) :
    ∃ task after, taskNew process kernel = (.ok task, after) ∧ isErr task = false ∧
      KernelHeap after.memory.heap ∧
      (freeBlocks after.memory.heap).card + 1027 = (freeBlocks kernel.memory.heap).card := by
  have success := kzalloc_succeeds heap sizeofTask (by decide) (by decide) (by omega)
  obtain ⟨block, address, takes⟩ := kzalloc_page heap.pool sizeofTask (by decide) (by decide) success
  have count := takes.freeBlocks_one
  have bound := (takes.free block (Set.mem_singleton block)).1
  have position := heap.address_toNat bound
  rw [heap.blocks] at bound
  rw [← address] at position
  have allocated : Kernel.kzalloc sizeofTask kernel =
      (.ok (kzalloc sizeofTask kernel.memory).1, kernel.setMemory (kzalloc sizeofTask kernel.memory).2) := by
    have width : sizeofTask.toNat = 64 := rfl
    simp only [Kernel.kzalloc]
    rw [if_neg (by omega)]
  generalize (kzalloc sizeofTask kernel.memory).1 = task at *
  generalize (kzalloc sizeofTask kernel.memory).2 = memory at *
  obtain ⟨chunk, built, same, builtHeap, builtCount⟩ := pagingNew4gb_succeeds 0x05
    (takes.kernel heap) (by omega)
  have init : taskInit task process (kernel.setMemory memory) = _ := taskInit_run task process same
  obtain ⟨after, append, sameMemory⟩ :=
    taskListAppend_memory task ((kernel.setMemory memory).withTask task process chunk built)
  refine ⟨task, after, ?_, ?_, by rw [sameMemory]; exact builtHeap, ?_⟩
  · unfold taskNew
    rw [bind_ok allocated, if_neg success, bind_ok init, if_neg (by decide), bind_ok append]
    rfl
  · have low : ¬task.toInt < 0 := by
      rw [BitVec.toInt_eq_toNat_of_lt (by omega)]
      omega
    exact decide_eq_false low
  · rw [sameMemory]
    show (freeBlocks built.heap).card + 1027 = _
    omega

theorem bootKernel_noTasks : NoTasks bootKernel := ⟨bootMemory_kernel.1, rfl, rfl⟩

theorem bootKernel_twoTasks (allowed : List Addr → Addr → Prop) :
    ∃ after first second, Run (TaskStep allowed) (bootKernel, []) (after, [first, second]) ∧
      TaskSpaces after [first, second] := by
  have room : (freeBlocks bootKernel.memory.heap).card = 25600 := bootMemory_kernel.2
  obtain ⟨first, middle, firstRun, firstOk, heap, count⟩ :=
    taskNew_succeeds 0x900000 bootKernel_noTasks.heap (by omega)
  obtain ⟨second, after, secondRun, secondOk, _⟩ := taskNew_succeeds 0x900000 heap (by omega)
  refine ⟨after, first, second, (Relation.ReflTransGen.single (.new _ first firstRun firstOk)).tail
    (.new _ second secondRun secondOk), ?_⟩
  exact (bootKernel_noTasks.spaces.new firstRun).new secondRun

/-- Two tasks are made and the second is freed again. -/
theorem task_runs_linked_boot : ∃ after first,
    Run (TaskStep FreesTail) (bootKernel, []) (after, [first]) ∧
      TaskList after [first] ∧ walk after.nextTask 1 after.taskHead = [first] := by
  obtain ⟨middle, first, second, run, spaces⟩ := bootKernel_twoTasks FreesTail
  have different : first ≠ second := by
    have distinct := spaces.list.distinct
    simpa using distinct
  obtain ⟨memory, freed, _⟩ := TaskSpaces.free_tail [first] spaces
  have step : TaskStep FreesTail (middle, [first, second]) _ := .free second 0 (by simp) rfl freed
  rw [show [first, second].erase second = [first] by simp [different]] at step
  exact ⟨_, first, run.tail step, task_runs_linked bootKernel_noTasks (run.tail step)⟩

/-- `task_list_remove` does not set `next->prev`: freeing the older of two tasks leaves
the younger one with a link to the freed record. -/
theorem task_runs_unlinked : ¬∀ after live,
    Run (TaskStep (fun _ _ => True)) (bootKernel, []) (after, live) → TaskList after live := by
  intro linked
  obtain ⟨middle, first, second, run, spaces⟩ := bootKernel_twoTasks (fun _ _ => True)
  obtain ⟨memory, _, _, freed, _⟩ := spaces.free_run (List.mem_cons_self : first ∈ _)
  have list := linked _ _ (run.tail (.free first 0 (by simp) trivial freed))
  rw [List.erase_cons_head] at list
  have removed : TaskList (middle.removed first) [second] :=
    ⟨list.distinct, list.nonnull, list.head, list.tail, list.links, list.current⟩
  have empty : [second] = [] := (TaskList.remove_iff [] spaces.list).mp removed
  cases empty

end PeachOS
