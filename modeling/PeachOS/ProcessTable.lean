import Mathlib.Data.Set.Basic
import PeachOS.AbstractHeap

/-! The table of processes over the abstract heap: what the table and the blocks of its
processes have to do with each other, and what work on one process leaves alone. -/

namespace PeachOS
open Program

/-- The kernel's records without the order of the tasks. -/
structure Tables where
  processes : Nat → Addr
  currentProcess : Addr
  processRecords : Addr → Process
  elfFiles : Addr → ElfFile
  taskProcess : Addr → Addr
  taskSpace : Addr → Addr
  screen : Screen

def Kernel.tables (kernel : Kernel) : Tables where
  processes := kernel.processes
  currentProcess := kernel.currentProcess
  processRecords := kernel.processRecords
  elfFiles := kernel.elfFiles
  taskProcess := fun task => (kernel.tasks task).process
  taskSpace := fun task => (kernel.tasks task).pageDirectory
  screen := kernel.screen

def System.tables (system : System) : Tables := system.kernel.tables

def Tables.setRecord (tables : Tables) (process : Addr) (change : Process → Process) : Tables :=
  { tables with
    processRecords :=
      Function.update tables.processRecords process (change (tables.processRecords process)) }

def Tables.setElfFile (tables : Tables) (ptr : Addr) (file : ElfFile) : Tables :=
  { tables with elfFiles := Function.update tables.elfFiles ptr file }

def Tables.setTask (tables : Tables) (task process space : Addr) : Tables :=
  { tables with
    taskProcess := Function.update tables.taskProcess task process
    taskSpace := Function.update tables.taskSpace task space }

def Tables.setSlot (tables : Tables) (i : Nat) (process : Addr) : Tables :=
  { tables with processes := Function.update tables.processes i process }

section Setters
variable {system : System}

@[simp] theorem System.mark_blocks (ptr other : Addr) (use : BlockUse) :
    (system.mark ptr use).blocks other = if other = ptr then some use else system.blocks other :=
  Function.update_apply _ _ _ _

theorem System.serve_some {ptr target : Addr} {use other : BlockUse} {size : Word}
    (own : (system.serve ptr use size).blocks target = some other) :
    target = ptr ∧ other = use ∨ system.blocks target = some other := by
  by_cases roundable : Roundable size
  · rw [System.serve_mark roundable, System.mark_blocks] at own
    split at own
    next same => exact Or.inl ⟨same, (Option.some.inj own).symm⟩
    · exact Or.inr own
  · rw [System.serve_nothing roundable] at own
    exact Or.inr own

@[simp] theorem System.release_blocks (ptr other : Addr) :
    (system.release ptr).blocks other = if other = ptr then none else system.blocks other :=
  Function.update_apply _ _ _ _

@[simp] theorem System.mark_tables (ptr : Addr) (use : BlockUse) :
    (system.mark ptr use).tables = system.tables := rfl

@[simp] theorem System.release_tables (ptr : Addr) : (system.release ptr).tables = system.tables := rfl

@[simp] theorem System.setKernel_blocks (kernel : Kernel) :
    (system.setKernel kernel).blocks = system.blocks := rfl

theorem System.setProcess_tables (system : System) (process : Addr) (change : Process → Process) :
    (system.setKernel (system.kernel.setProcess process change)).tables =
      system.tables.setRecord process change := rfl

theorem Tables.setRecord_other {tables : Tables} {process other : Addr} {change : Process → Process}
    (different : other ≠ process) :
    (tables.setRecord process change).processRecords other = tables.processRecords other :=
  Function.update_of_ne different _ _

@[simp] theorem Tables.setRecord_self (tables : Tables) (process : Addr) (change : Process → Process) :
    (tables.setRecord process change).processRecords process = change (tables.processRecords process) :=
  Function.update_self _ _ _

theorem Tables.setElfFile_other {tables : Tables} {ptr other : Addr} {file : ElfFile}
    (different : other ≠ ptr) : (tables.setElfFile ptr file).elfFiles other = tables.elfFiles other :=
  Function.update_of_ne different _ _

@[simp] theorem Tables.setElfFile_self (tables : Tables) (ptr : Addr) (file : ElfFile) :
    (tables.setElfFile ptr file).elfFiles ptr = file := Function.update_self _ _ _

theorem Tables.setTask_other {tables : Tables} {task process space other : Addr}
    (different : other ≠ task) :
    (tables.setTask task process space).taskProcess other = tables.taskProcess other ∧
      (tables.setTask task process space).taskSpace other = tables.taskSpace other :=
  ⟨Function.update_of_ne different _ _, Function.update_of_ne different _ _⟩

theorem Tables.setTask_self (tables : Tables) (task process space : Addr) :
    (tables.setTask task process space).taskProcess task = process ∧
      (tables.setTask task process space).taskSpace task = space :=
  ⟨Function.update_self _ _ _, Function.update_self _ _ _⟩

end Setters

section Links
variable {kernel : Kernel} {tables : Tables} {task : Addr}

theorem Kernel.tables_setTask (kernel : Kernel) (ptr : Addr) (change : Task → Task) :
    (kernel.setTask ptr change).tables = kernel.tables.setTask ptr
      (change (kernel.tasks ptr)).process (change (kernel.tasks ptr)).pageDirectory := by
  have field : ∀ part : Task → Addr, (fun task => part ((kernel.setTask ptr change).tasks task)) =
      Function.update (fun task => part (kernel.tasks task)) ptr (part (change (kernel.tasks ptr))) := by
    intro part
    funext task
    rw [Kernel.setTask_tasks, Function.update_apply]
    split <;> rfl
  unfold Kernel.tables Tables.setTask
  rw [field Task.process, field Task.pageDirectory]
  rfl

theorem Kernel.tables_setTask_links {ptr : Addr} {change : Task → Task}
    (process : (change (kernel.tasks ptr)).process = (kernel.tasks ptr).process)
    (space : (change (kernel.tasks ptr)).pageDirectory = (kernel.tasks ptr).pageDirectory) :
    (kernel.setTask ptr change).tables = kernel.tables := by
  rw [Kernel.tables_setTask, process, space]
  change kernel.tables.setTask ptr (kernel.tables.taskProcess ptr) (kernel.tables.taskSpace ptr) = _
  unfold Tables.setTask
  rw [Function.update_eq_self, Function.update_eq_self]

theorem taskListAppend_tables (task : Addr) :
    Keeps (fun kernel => kernel.tables = tables) (taskListAppend task) := by
  unfold taskListAppend
  apply Keeps.bind
  · exact Keeps.read _
  · intro kernel
    apply Keeps.ite
    · exact Keeps.update (fun _ same => same)
    · apply Keeps.bind
      · apply Keeps.update
        intro kernel same
        rw [← same]
        exact Kernel.tables_setTask_links rfl rfl
      · intro _
        apply Keeps.bind
        · apply Keeps.update
          intro kernel same
          rw [← same]
          exact Kernel.tables_setTask_links rfl rfl
        · intro _
          exact Keeps.update (fun _ same => same)

theorem taskGetNext_tables : Keeps (fun kernel => kernel.tables = tables) taskGetNext := by
  unfold taskGetNext
  apply Keeps.bind
  · exact Keeps.read _
  · intro current
    apply Keeps.ite
    · exact Keeps.stop _
    · apply Keeps.bind
      · exact Keeps.read _
      · intro next
        apply Keeps.ite
        · exact Keeps.read _
        · exact Keeps.pure _

theorem taskListRemove_tables (task : Addr) :
    Keeps (fun kernel => kernel.tables = tables) (taskListRemove task) := by
  unfold taskListRemove
  apply Keeps.bind
  · exact Keeps.read _
  · intro record
    apply Keeps.bind
    · apply Keeps.update
      intro kernel same
      rw [← same]
      split
      · exact Kernel.tables_setTask_links rfl rfl
      · rfl
    · intro _
      apply Keeps.bind
      · exact Keeps.update (fun _ same => same)
      · intro _
        apply Keeps.bind
        · exact Keeps.update (fun _ same => same)
        · intro _
          apply Keeps.bind
          · exact Keeps.read _
          · intro current
            apply Keeps.ite
            · apply Keeps.bind
              · exact taskGetNext_tables
              · intro next
                exact Keeps.update (fun _ same => same)
            · exact Keeps.pure _

end Links

section Calls
variable {oracle : Oracle} {system after : System} {task process : Addr} {filename : List Byte}

theorem taskInit_below_ok {res : Int}
    (run : oracle.below.taskInit task process system = (.ok res, after)) :
    res = 0 ∧ ∃ space, space ≠ 0 ∧ system.blocks space = none ∧
      after.blocks = (system.mark space (.owned .space process)).blocks ∧
      after.tables = system.tables.setTask task process space := by
  unfold Below.taskInit at run
  rw [below_update_bind] at run
  obtain ⟨space, middle, allocated, rest⟩ := bind_eq_ok run
  change oracle.take (.owned .space process) 4 _ = _ at allocated
  obtain ⟨nonnull, empty, rfl⟩ := Oracle.take_ok (by decide) allocated
  rw [below_update_bind, if_neg nonnull, below_read_bind, below_update_bind] at rest
  cases rest
  refine ⟨rfl, space, nonnull, empty, rfl, ?_⟩
  simp only [System.tables, System.setKernel, System.mark, Kernel.tables_setTask, Tables.setTask,
    Kernel.setTask_tasks, if_true, Function.update_idem]

theorem taskFree_below_ok {res : Int} (run : oracle.below.taskFree task system = (.ok res, after)) :
    task ≠ 0 ∧ system.tables.taskSpace task ≠ 0 ∧ res = 0 ∧
      after.blocks = ((system.release (system.tables.taskSpace task)).release task).blocks ∧
      after.tables = system.tables := by
  unfold Below.taskFree at run
  split at run
  · cases run
  next nonnull =>
    rw [below_read_bind] at run
    obtain ⟨_, released, free, rest⟩ := bind_eq_ok run
    change (if system.tables.taskSpace task = 0 then fault else Oracle.kfree _ : SystemProg Unit) system =
      _ at free
    split at free
    · cases free
    next spaceNonnull =>
      cases free
      obtain ⟨_, unlinked, remove, last⟩ := bind_eq_ok rest
      obtain ⟨kernel, removed, rfl⟩ := below_kernel_ok remove
      rw [below_kfree_bind] at last
      cases last
      have same : kernel.tables = system.tables := by
        have kept : (taskListRemove task system.kernel).2.tables = system.tables :=
          taskListRemove_tables task system.kernel rfl
        have run : taskListRemove task system.kernel = (.ok (), kernel) := removed
        rwa [run] at kept
      exact ⟨nonnull, spaceNonnull, rfl, rfl, same⟩

theorem taskNew_below_ok (run : oracle.below.taskNew process system = (.ok task, after)) :
    ∃ space, task ≠ 0 ∧ system.blocks task = none ∧ space ≠ 0 ∧
      (system.mark task (.owned .task process)).blocks space = none ∧
      after.blocks = ((system.mark task (.owned .task process)).mark space
        (.owned .space process)).blocks ∧
      after.tables = system.tables.setTask task process space := by
  unfold Below.taskNew at run
  obtain ⟨ptr, allocated, alloc, rest⟩ := bind_eq_ok run
  obtain ⟨res, middle, init, last⟩ := bind_eq_ok rest
  -- without a task to free, the failure path has no behaviour
  have nonnull : ptr ≠ 0 := by
    intro null
    rw [if_pos null] at init
    cases init
    rw [if_pos (by decide)] at last
    obtain ⟨_, _, free, _⟩ := bind_eq_ok last
    exact (taskFree_below_ok free).1 null
  obtain ⟨_, empty, rfl⟩ := (below_kzalloc_ok (by decide) alloc).resolve_left (fun short => nonnull short.1)
  rw [if_neg nonnull] at init
  obtain ⟨rfl, space, spaceNonnull, spaceEmpty, blocks, tables⟩ := taskInit_below_ok init
  rw [if_neg (by decide)] at last
  obtain ⟨_, appended, append, returned⟩ := bind_eq_ok last
  cases returned
  obtain ⟨kernel, listed, rfl⟩ := below_kernel_ok append
  have same : kernel.tables = middle.tables := by
    have kept : (taskListAppend task middle.kernel).2.tables = middle.tables :=
      taskListAppend_tables task middle.kernel rfl
    rwa [listed] at kept
  exact ⟨space, nonnull, empty, spaceNonnull, spaceEmpty, blocks, same.trans tables⟩

end Calls

/-- The program of a process is a block of its own, or an ELF file's record and memory. -/
def System.HasImage (system : System) (process : Addr) : Prop :=
  let record := system.tables.processRecords process
  (record.filetype = processFiletypeBinary ∧
    system.blocks record.ptr = some (.owned .image process)) ∨
  (record.filetype = processFiletypeElf ∧
    system.blocks record.ptr = some (.owned .elfFile process) ∧
    system.blocks (system.tables.elfFiles record.ptr).elfMemory = some (.owned .image process))

/-- The process in slot `i` carries its number, and all that its record points at was
allocated for it. -/
structure Loaded (system : System) (i : Nat) (process : Addr) : Prop where
  record : system.blocks process = some .process
  id : (system.tables.processRecords process).id = BitVec.ofNat 16 i
  task : system.blocks (system.tables.processRecords process).task = some (.owned .task process)
  back : system.tables.taskProcess (system.tables.processRecords process).task = process
  space : system.blocks (system.tables.taskSpace (system.tables.processRecords process).task) =
    some (.owned .space process)
  stack : system.blocks (system.tables.processRecords process).stack = some (.owned .stack process)
  image : system.HasImage process
  data : ∀ j < peachosMaxProgramAllocations,
    ((system.tables.processRecords process).allocations j).ptr = 0 ∨
      system.blocks ((system.tables.processRecords process).allocations j).ptr =
        some (.owned .data process)

/-- The table and the heap agree on every process but those of `between`, which are being
built or taken down. -/
structure Consistent (between : Set Addr) (system : System) : Prop where
  null : system.blocks 0 = none
  owners : ∀ ptr part process, system.blocks ptr = some (.owned part process) →
    system.blocks process = some .process
  entries : ∀ i < peachosMaxProcesses, system.tables.processes i ≠ 0 →
    system.tables.processes i ∉ between → Loaded system i (system.tables.processes i)
  tasks : ∀ task process, system.blocks task = some (.owned .task process) → process ∈ between ∨
    ∃ i < peachosMaxProcesses, system.tables.processes i = process ∧
      (system.tables.processRecords process).task = task

/-- `system` comes from `start` by work on the process `process` alone, in blocks that were
not in use; some of them are the kernel's own. -/
structure Beside (start : System) (process : Addr) (system : System) : Prop where
  fresh : start.blocks process = none
  null : system.blocks 0 = none
  own : system.blocks process = some .process
  kept : ∀ ptr, start.blocks ptr ≠ none → system.blocks ptr = start.blocks ptr
  new : ∀ ptr use, system.blocks ptr = some use → start.blocks ptr = some use ∨
    (ptr = process ∧ use = .process) ∨ (∃ part, use = .owned part process) ∨ use = .kernel
  processes : system.tables.processes = start.tables.processes
  current : system.tables.currentProcess = start.tables.currentProcess
  screen : system.tables.screen = start.tables.screen
  records : ∀ other, other ≠ process →
    system.tables.processRecords other = start.tables.processRecords other
  elfFiles : ∀ ptr, start.blocks ptr ≠ none → system.tables.elfFiles ptr = start.tables.elfFiles ptr
  taskProcess : ∀ ptr, start.blocks ptr ≠ none →
    system.tables.taskProcess ptr = start.tables.taskProcess ptr
  taskSpace : ∀ ptr, start.blocks ptr ≠ none →
    system.tables.taskSpace ptr = start.tables.taskSpace ptr

section Beside
variable {start system after : System} {process ptr : Addr}

theorem Beside.begin {kernel : Kernel} (null : start.blocks 0 = none) (nonnull : process ≠ 0)
    (fresh : start.blocks process = none)
    (tables : kernel.tables = start.tables.setRecord process (fun _ => Process.zero)) :
    Beside start process ((start.mark process .process).setKernel kernel) := by
  have same : ((start.mark process .process).setKernel kernel).tables = _ := tables
  constructor
  · exact fresh
  · rw [System.setKernel_blocks, System.mark_blocks, if_neg nonnull.symm, null]
  · simp
  · intro ptr used
    have different : ptr ≠ process := fun same => used (same ▸ fresh)
    simp [different]
  · intro ptr use here
    by_cases isRecord : ptr = process
    · simp [isRecord] at here
      exact Or.inr (Or.inl ⟨isRecord, here.symm⟩)
    · simp [isRecord] at here
      exact Or.inl here
  all_goals rw [same]
  iterate 3 rfl
  · intro other different
    exact Tables.setRecord_other different
  all_goals
    intro ptr used
    rfl

theorem Beside.unused (beside : Beside start process system) (empty : system.blocks ptr = none) :
    start.blocks ptr = none ∧ ptr ≠ process := by
  constructor
  · by_contra used
    exact used ((beside.kept ptr used).symm.trans empty)
  · rintro rfl
    rw [beside.own] at empty
    cases empty

theorem Beside.take (beside : Beside start process system) (nonnull : ptr ≠ 0)
    (empty : system.blocks ptr = none) {use : BlockUse}
    (fits : (∃ part, use = .owned part process) ∨ use = .kernel) :
    Beside start process (system.mark ptr use) := by
  obtain ⟨unused, other⟩ := beside.unused empty
  refine { beside with null := ?_, own := ?_, kept := ?_, new := ?_ }
  · rw [System.mark_blocks, if_neg nonnull.symm, beside.null]
  · simp [other.symm, beside.own]
  · intro target used
    have different : target ≠ ptr := fun same => used (same ▸ unused)
    simp [different, beside.kept target used]
  · intro target other here
    by_cases same : target = ptr
    · simp [same] at here
      exact Or.inr (Or.inr (here ▸ fits))
    · simp [same] at here
      exact beside.new target other here

theorem Beside.mark (beside : Beside start process system) (nonnull : ptr ≠ 0)
    (empty : system.blocks ptr = none) (part : Part) : Beside start process (system.mark ptr (.owned part process)) :=
  beside.take nonnull empty (Or.inl ⟨part, rfl⟩)

theorem Beside.release (beside : Beside start process system) (unused : start.blocks ptr = none)
    (other : ptr ≠ process) : Beside start process (system.release ptr) := by
  refine { beside with null := ?_, own := ?_, kept := ?_, new := ?_ }
  · rw [System.release_blocks, beside.null, ite_self]
  · simp [other.symm, beside.own]
  · intro target used
    have different : target ≠ ptr := fun same => used (same ▸ unused)
    simp [different, beside.kept target used]
  · intro target use here
    by_cases same : target = ptr
    · simp [same] at here
    · simp [same] at here
      exact beside.new target use here

theorem Beside.retable (beside : Beside start process system) (blocks : after.blocks = system.blocks)
    (processes : after.tables.processes = system.tables.processes)
    (current : after.tables.currentProcess = system.tables.currentProcess)
    (screen : after.tables.screen = system.tables.screen)
    (records : ∀ other, other ≠ process →
      after.tables.processRecords other = system.tables.processRecords other)
    (files : ∀ ptr, start.blocks ptr ≠ none →
      after.tables.elfFiles ptr = system.tables.elfFiles ptr ∧
      after.tables.taskProcess ptr = system.tables.taskProcess ptr ∧
      after.tables.taskSpace ptr = system.tables.taskSpace ptr) : Beside start process after where
  fresh := beside.fresh
  null := blocks ▸ beside.null
  own := blocks ▸ beside.own
  kept := blocks ▸ beside.kept
  new := blocks ▸ beside.new
  processes := processes.trans beside.processes
  current := current.trans beside.current
  screen := screen.trans beside.screen
  records := fun other different => (records other different).trans (beside.records other different)
  elfFiles := fun ptr used => (files ptr used).1.trans (beside.elfFiles ptr used)
  taskProcess := fun ptr used => (files ptr used).2.1.trans (beside.taskProcess ptr used)
  taskSpace := fun ptr used => (files ptr used).2.2.trans (beside.taskSpace ptr used)

theorem Beside.record (beside : Beside start process system) {change : Process → Process}
    (blocks : after.blocks = system.blocks)
    (tables : after.tables = system.tables.setRecord process change) : Beside start process after := by
  apply beside.retable blocks <;> rw [tables]
  iterate 3 rfl
  · exact fun other different => Tables.setRecord_other different
  · exact fun ptr used => ⟨rfl, rfl, rfl⟩

theorem Beside.elfFile (beside : Beside start process system) {file : ElfFile}
    (unused : start.blocks ptr = none) (blocks : after.blocks = system.blocks)
    (tables : after.tables = system.tables.setElfFile ptr file) : Beside start process after := by
  apply beside.retable blocks <;> rw [tables]
  iterate 3 rfl
  · exact fun other different => rfl
  · intro other used
    exact ⟨Tables.setElfFile_other (fun same => used (same ▸ unused)), rfl, rfl⟩

end Beside

end PeachOS
