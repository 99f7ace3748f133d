import PeachOS.AddressSpace
import PeachOS.TaskRuns
import PeachOS.FileSession

/-! A new task beside what is in memory: its record, its page tables and its place at the tail of the list. -/

namespace PeachOS
open Program ByteMemory

/-- Where a process is to start. -/
def programEntry (kernel : Kernel) (process : Addr) : Addr :=
  if (kernel.processRecords process).filetype = processFiletypeElf then
    elfEntry kernel.memory.bytes (kernel.elfFiles (kernel.processRecords process).ptr).elfMemory
  else peachosProgramVirtualAddress

/-- A task that was made for a process, with page tables that no chain of `kernel` had. -/
structure MadeTask (kernel after : Kernel) (process task directory : Addr) (pages : Nat → Addr) : Prop where
  nonnull : task ≠ 0
  new : ¬Owned kernel.memory.heap task
  owned : Owned after.memory.heap task
  space : OwnSpace after (after.tasks task).pageDirectory directory pages (· ||| 0x05)
  beside : ∀ address, Owned kernel.memory.heap address →
    ¬SpaceByte (after.tasks task).pageDirectory directory pages address
  apart : Apart kernel after
  entry : (after.tasks task).registers.ip = programEntry after process
  others : ∀ other ≠ task, (after.tasks other).pageDirectory = (kernel.tasks other).pageDirectory ∧
    (after.tasks other).registers = (kernel.tasks other).registers
  rest : after = { kernel with
    memory := after.memory
    tasks := after.tasks
    taskHead := after.taskHead
    taskTail := after.taskTail
    currentTask := after.currentTask }

theorem MadeTask.besidePages {kernel after : Kernel} {process task directory : Addr} {pages : Nat → Addr}
    (made : MadeTask kernel after process task directory pages) {address : Addr} (owned : Owned kernel.memory.heap address) :
    ∀ i < 1024, frameOf address ≠ pages i :=
  fun i bound same => made.beside address owned (Or.inr (Or.inr ⟨i, bound, same⟩))

section Task
variable {kernel : Kernel} {tables : Set (Nat → Addr)} {room : Nat}

theorem taskListAppend_run (task : Addr) (kernel : Kernel) : ∃ after, taskListAppend task kernel = (.ok (), after) ∧
    after = { kernel with
      tasks := after.tasks
      taskHead := after.taskHead
      taskTail := after.taskTail
      currentTask := after.currentTask } ∧
    ∀ other, (after.tasks other).pageDirectory = (kernel.tasks other).pageDirectory ∧
      (after.tasks other).registers = (kernel.tasks other).registers := by
  have linked : ∀ (kernel : Kernel) (ptr : Addr) (change : Task → Task),
      (∀ record, (change record).pageDirectory = record.pageDirectory ∧ (change record).registers = record.registers) →
      ∀ other, ((kernel.setTask ptr change).tasks other).pageDirectory = (kernel.tasks other).pageDirectory ∧
        ((kernel.setTask ptr change).tasks other).registers = (kernel.tasks other).registers := by
    intro kernel ptr change same other
    unfold Kernel.setTask
    dsimp only
    by_cases here : other = ptr
    · rw [here, Function.update_self]
      exact same _
    · rw [Function.update_of_ne here]
      exact ⟨rfl, rfl⟩
  unfold taskListAppend
  rw [read_bind]
  split
  · exact ⟨_, rfl, rfl, fun _ => ⟨rfl, rfl⟩⟩
  · refine ⟨_, rfl, rfl, fun other => ?_⟩
    have first := linked kernel kernel.taskTail ({ · with next := task }) (fun _ => ⟨rfl, rfl⟩) other
    have second := linked (kernel.setTask kernel.taskTail ({ · with next := task })) task
      ({ · with prev := kernel.taskTail }) (fun _ => ⟨rfl, rfl⟩) other
    exact ⟨second.1.trans first.1, second.2.trans first.2⟩

theorem MadeBlock.owner {before after : Kernel} {size : Word} {ptr : Addr} (made : MadeBlock before after size ptr)
    (positive : 0 < size.toNat) : ¬Owned before.memory.heap ptr ∧ Owned after.memory.heap ptr := by
  have first : ptr + BitVec.ofNat 32 0 = ptr := BitVec.add_zero ptr
  exact ⟨first ▸ made.bytes 0 positive, first ▸ (made.owned 0 positive).owned⟩

theorem MadeBlock.nonnull {before after : Kernel} {size : Word} {ptr : Addr} (made : MadeBlock before after size ptr) :
    ptr ≠ 0 := by
  rintro rfl
  exact absurd made.low (by decide)

theorem Tidy.taskNew (process : Addr) (tidy : Tidy tables (room + 1027) kernel) : ∃ task directory pages after,
    taskNew process kernel = (.ok task, after) ∧ Tidy tables room after ∧
      MadeTask kernel after process task directory pages := by
  have single : blocksFor sizeofTask = 1 := by decide
  obtain ⟨task, allocated, allocRun, allocTidy, made⟩ := (tidy.less (by omega) :
    Tidy tables (room + 1026 + blocksFor sizeofTask) kernel).kzalloc (by decide)
  obtain ⟨chunk, directory, pages, memory, built, spaceTidy, spaceApart, space, beside⟩ := allocTidy.pagingNew4gb 0x05
  have init : taskInit task process allocated = (.ok 0, allocated.withTask task process chunk memory) :=
    taskInit_run task process built
  obtain ⟨after, append, rest, others⟩ := taskListAppend_run task (allocated.withTask task process chunk memory)
  have memorySame : after.memory = memory := by
    rw [rest]
    rfl
  have filesSame : after.files = allocated.files := by
    rw [rest]
    rfl
  have tableSame : after.fileDescriptors = allocated.fileDescriptors := by
    rw [rest]
    rfl
  have allocSame := made.same
  have atTask := others task
  have still : Apart (allocated.setMemory memory) after := (Apart.refl spaceTidy.sound).congr memorySame filesSame
  obtain ⟨new, owned⟩ := made.owner (by decide)
  refine ⟨task, directory, pages, after, ?_, spaceTidy.congr (congrArg Memory.heap memorySame) filesSame tableSame,
    ⟨made.nonnull, new, (spaceApart.trans still).owned owned, ?_, ?_, made.apart.trans (spaceApart.trans still), ?_, ?_,
    ?_⟩⟩
  · unfold PeachOS.taskNew
    rw [bind_ok allocRun, if_neg made.nonnull, bind_ok init, if_neg (by decide), bind_ok append]
    rfl
  · rw [atTask.1, (Kernel.withTask_self _ _ _ _ _).1]
    exact space.unharmed still.unharmed
  · rw [atTask.1, (Kernel.withTask_self _ _ _ _ _).1]
    exact fun address inside => beside address (made.apart.owned inside)
  · rw [atTask.2]
    have records : after.processRecords = allocated.processRecords := by
      rw [rest]
      rfl
    have images : after.elfFiles = allocated.elfFiles := by
      rw [rest]
      rfl
    unfold programEntry Kernel.withTask
    rw [memorySame, records, images]
    dsimp only
    rw [Function.update_self]
  · intro other different
    have inRecord : (allocated.withTask task process chunk memory).tasks other = kernel.tasks other := by
      unfold Kernel.withTask
      dsimp only
      rw [Function.update_of_ne different, allocSame]
      rfl
    rw [← inRecord]
    exact others other
  · rw [rest, allocSame]
    rfl

end Task

end PeachOS
