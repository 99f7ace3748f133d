import PeachOS.ProcessTable

/-! `process_load` over the abstract heap: how a load ends, and that every end keeps the
table of processes in step with the heap. -/

namespace PeachOS
open Program Search

/-- The blocks of `before` that are in use are so in `after`, for the same purpose. -/
def System.Grows (before after : System) : Prop :=
  ∀ ptr use, before.blocks ptr = some use → after.blocks ptr = some use

def System.NoTask (system : System) (process : Addr) : Prop :=
  ∀ task, system.blocks task ≠ some (.owned .task process)

def System.OnlyTask (system : System) (process task : Addr) : Prop :=
  ∀ other, system.blocks other = some (.owned .task process) → other = task

section Grows
variable {before after last : System} {process ptr : Addr} {use : BlockUse}

theorem System.Grows.trans (first : before.Grows after) (second : after.Grows last) :
    before.Grows last := fun ptr use here => second ptr use (first ptr use here)

theorem System.Grows.mark (empty : before.blocks ptr = none)
    (blocks : after.blocks = (before.mark ptr use).blocks) : before.Grows after := by
  intro other found here
  have different : other ≠ ptr := by
    rintro rfl
    rw [empty] at here
    cases here
  rw [blocks, System.mark_blocks, if_neg different, here]

theorem System.Grows.serve {size : Word} (empty : before.blocks ptr = none)
    (blocks : after.blocks = (before.serve ptr use size).blocks) : before.Grows after := by
  by_cases roundable : Roundable size
  · rw [System.serve_mark roundable] at blocks
    exact System.Grows.mark empty blocks
  · rw [System.serve_nothing roundable] at blocks
    intro other found here
    rw [blocks, here]

theorem System.Grows.used (grows : before.Grows after) (used : before.blocks ptr ≠ none) :
    after.blocks ptr ≠ none := by
  obtain ⟨use, here⟩ := Option.ne_none_iff_exists'.mp used
  rw [grows ptr use here]
  exact Option.some_ne_none _

theorem System.Grows.congr (blocks : after.blocks = before.blocks) : before.Grows after := by
  intro ptr use here
  rw [blocks, here]

theorem System.HasImage.grows (image : before.HasImage process) (grows : before.Grows after)
    (filetype : (after.tables.processRecords process).filetype =
      (before.tables.processRecords process).filetype)
    (place : (after.tables.processRecords process).ptr = (before.tables.processRecords process).ptr)
    (file : after.tables.elfFiles (before.tables.processRecords process).ptr =
      before.tables.elfFiles (before.tables.processRecords process).ptr) : after.HasImage process := by
  unfold System.HasImage
  dsimp only
  rw [filetype, place, file]
  rcases image with ⟨binary, image⟩ | ⟨elf, record, image⟩
  · exact Or.inl ⟨binary, grows _ _ image⟩
  · exact Or.inr ⟨elf, grows _ _ record, grows _ _ image⟩

theorem System.NoTask.mark (none : before.NoTask process) (other : use ≠ .owned .task process)
    (blocks : after.blocks = (before.mark ptr use).blocks) : after.NoTask process := by
  intro task here
  rw [blocks, System.mark_blocks] at here
  split at here
  · exact other (Option.some.inj here)
  · exact none task here

end Grows

section Load
variable {oracle : Oracle} {start system after : System} {process : Addr} {filename : List Byte}
  {res : Int}

def Process.withBinary (ptr : Addr) (size : Word) (record : Process) : Process :=
  { record with size := size, ptr := ptr, filetype := processFiletypeBinary }

def Process.withElf (file : Addr) (record : Process) : Process :=
  { record with filetype := processFiletypeElf, ptr := file }

/-- Blocks of the kernel's own, taken one after the other. -/
inductive System.Spills (before : System) : System → Prop where
  | done : before.Spills before
  | block {after : System} {ptr : Addr} (spills : before.Spills after) (nonnull : ptr ≠ 0)
      (empty : after.blocks ptr = none) : before.Spills (after.mark ptr .kernel)

theorem System.Spills.kernel (spills : system.Spills after) : after.kernel = system.kernel := by
  induction spills with
  | done => rfl
  | block _ _ _ ih => exact ih

theorem System.Spills.tables (spills : system.Spills after) : after.tables = system.tables :=
  congrArg Kernel.tables spills.kernel

theorem System.Spills.noTask (spills : system.Spills after) (none : system.NoTask process) :
    after.NoTask process := by
  induction spills with
  | done => exact none
  | block _ _ _ ih => exact ih.mark (by simp) rfl

theorem Beside.spills (beside : Beside start process system) (spills : system.Spills after) :
    Beside start process after := by
  induction spills with
  | done => exact beside
  | block _ nonnull empty ih => exact ih.take nonnull empty (Or.inr rfl)

theorem Oracle.spill_ok {before : System} {count : Nat} (spills : before.Spills system)
    (run : oracle.spill count system = (.ok (), after)) : before.Spills after := by
  induction count generalizing system with
  | zero =>
    cases run
    exact spills
  | succ count ih =>
    obtain ⟨ptr, taken, allocated, rest⟩ := bind_eq_ok run
    rcases Oracle.kzalloc_ok (by decide) allocated with ⟨_, rfl⟩ | ⟨nonnull, empty, rfl⟩
    · exact ih spills rest
    · exact ih (spills.block nonnull empty) rest

theorem processLoadData_below_ok
    (run : oracle.below.processLoadData filename process system = (.ok res, after)) :
    ∃ spilled, system.Spills spilled ∧ ((res < 0 ∧ after = spilled) ∨ (res = 0 ∧
      ((∃ ptr size, ptr ≠ 0 ∧ spilled.blocks ptr = none ∧
        after.blocks = (spilled.mark ptr (.owned .image process)).blocks ∧
        after.tables = spilled.tables.setRecord process (Process.withBinary ptr size)) ∨
      ∃ file memory, file ≠ 0 ∧ memory ≠ 0 ∧ spilled.blocks file = none ∧
        (spilled.mark file (.owned .elfFile process)).blocks memory = none ∧
        after.blocks = ((spilled.mark file (.owned .elfFile process)).mark memory
          (.owned .image process)).blocks ∧
        after.tables = (spilled.tables.setElfFile file ⟨memory, 0, 0, 0, 0⟩).setRecord process
          (Process.withElf file)))) := by
  change oracle.processLoadData filename process system = _ at run
  unfold Oracle.processLoadData at run
  rw [read_bind, read_bind] at run
  obtain ⟨_, spilled, spill, run⟩ := bind_eq_ok run
  refine ⟨spilled, Oracle.spill_ok .done spill, ?_⟩
  cases found : oracle.loads system filename with
  | error code =>
    rw [found] at run
    cases run
    exact Or.inl ⟨code.property, rfl⟩
  | ok file =>
    rw [found] at run
    cases file with
    | binary size =>
      obtain ⟨ptr, marked, allocated, rest⟩ := bind_eq_ok run
      rcases Oracle.kzalloc_ok size.property allocated with ⟨null, rfl⟩ | ⟨nonnull, empty, rfl⟩
      · rw [if_pos null] at rest
        cases rest
        exact Or.inl ⟨by decide, rfl⟩
      · rw [if_neg nonnull] at rest
        cases rest
        exact Or.inr ⟨rfl, Or.inl ⟨ptr, size, nonnull, empty, rfl, rfl⟩⟩
    | elf size =>
      obtain ⟨file, marked, allocated, rest⟩ := bind_eq_ok run
      obtain ⟨nonnull, empty, rfl⟩ := Oracle.take_ok (by decide) allocated
      obtain ⟨memory, both, allocated, rest⟩ := bind_eq_ok rest
      obtain ⟨memoryNonnull, memoryEmpty, rfl⟩ := Oracle.take_ok size.property allocated
      cases rest
      exact Or.inr ⟨rfl, Or.inr ⟨file, memory, nonnull, memoryNonnull, empty, memoryEmpty, rfl, rfl⟩⟩

/-- What a successful load of the data leaves in the record. -/
structure DataLoaded (process : Addr) (before after : System) : Prop where
  image : after.HasImage process
  task : (after.tables.processRecords process).task = (before.tables.processRecords process).task
  allocations : (after.tables.processRecords process).allocations =
    (before.tables.processRecords process).allocations
  shell : (after.tables.processRecords process).shell = (before.tables.processRecords process).shell
  noTask : before.NoTask process → after.NoTask process

theorem Beside.loadData (beside : Beside start process system)
    (run : oracle.below.processLoadData filename process system = (.ok res, after)) :
    (res < 0 ∧ system.Spills after) ∨
      (res = 0 ∧ Beside start process after ∧ DataLoaded process system after) := by
  obtain ⟨spilled, spills, ends⟩ := processLoadData_below_ok run
  replace beside := beside.spills spills
  have noTask : system.NoTask process → spilled.NoTask process := spills.noTask
  have same : spilled.tables = system.tables := spills.tables
  rcases ends with
    ⟨negative, rfl⟩ | ⟨zero, ⟨ptr, size, nonnull, empty, blocks, tables⟩ |
      ⟨file, memory, nonnull, memoryNonnull, empty, memoryEmpty, blocks, tables⟩⟩
  · exact Or.inl ⟨negative, spills⟩
  · right
    have image : after.blocks ptr = some (.owned .image process) := by
      rw [blocks]
      simp
    have kept := (beside.mark nonnull empty .image).record blocks tables
    refine ⟨zero, kept, Or.inl ?_, ?_, ?_, ?_, fun none => (noTask none).mark (by simp) blocks⟩
    all_goals rw [tables, Tables.setRecord_self]
    · exact ⟨rfl, image⟩
    all_goals rw [same]; rfl
  · right
    have different : file ≠ memory := by
      rintro rfl
      simp at memoryEmpty
    have record : after.blocks file = some (.owned .elfFile process) := by
      rw [blocks]
      simp [different]
    have image : after.blocks memory = some (.owned .image process) := by
      rw [blocks]
      simp
    have unused := (beside.unused empty).1
    have marked := (beside.mark nonnull empty .elfFile).mark memoryNonnull memoryEmpty .image
    let written : System := (System.setKernel ((spilled.mark file (.owned .elfFile process)).mark memory
      (.owned .image process)) { spilled.kernel with
        elfFiles := Function.update spilled.kernel.elfFiles file ⟨memory, 0, 0, 0, 0⟩ })
    have filed : Beside start process written := marked.elfFile unused rfl rfl
    have kept := filed.record blocks tables
    refine ⟨zero, kept, Or.inr ?_, ?_, ?_, ?_, ?_⟩
    · rw [tables, Tables.setRecord_self]
      refine ⟨rfl, record, ?_⟩
      show after.blocks ((spilled.tables.setElfFile file _).elfFiles file).elfMemory = _
      rw [Tables.setElfFile_self]
      exact image
    · rw [tables, Tables.setRecord_self, ← same]
      rfl
    · rw [tables, Tables.setRecord_self, ← same]
      rfl
    · rw [tables, Tables.setRecord_self, ← same]
      rfl
    · intro none
      have first : (spilled.mark file (.owned .elfFile process)).NoTask process :=
        (noTask none).mark (by simp) rfl
      exact first.mark (by simp) blocks

/-- A process that is complete but not in the table. -/
structure Made (start : System) (process : Addr) (i : Nat) (system : System) : Prop where
  beside : Beside start process system
  loaded : Loaded system i process
  only : system.OnlyTask process (system.tables.processRecords process).task
  shell : (system.tables.processRecords process).shell = 0

/-- What is in the record before the stack and the task are made. -/
structure Prepared (start : System) (process : Addr) (system : System) : Prop where
  beside : Beside start process system
  image : system.HasImage process
  noTask : system.NoTask process
  task : (system.tables.processRecords process).task = 0
  allocations : ∀ j, ((system.tables.processRecords process).allocations j).ptr = 0
  shell : (system.tables.processRecords process).shell = 0

def Process.withStack (filename : List Byte) (stack : Addr) (slot : Int) (record : Process) : Process :=
  { record with
    filename := strncpy filename peachosMaxPath
    stack := stack
    id := BitVec.ofInt 16 slot }

def Process.withTask (task : Addr) (record : Process) : Process := { record with task := task }

theorem Prepared.made {i : Nat} {stack task space : Addr} {changed : System}
    (prepared : Prepared start process system) (stackNonnull : stack ≠ 0) (taskNonnull : task ≠ 0)
    (spaceNonnull : space ≠ 0) (stackEmpty : system.blocks stack = none)
    (taskEmpty : (system.mark stack (.owned .stack process)).blocks task = none)
    (spaceEmpty : ((system.mark stack (.owned .stack process)).mark task
      (.owned .task process)).blocks space = none)
    (blocks : changed.blocks = (((system.mark stack (.owned .stack process)).mark task
      (.owned .task process)).mark space (.owned .space process)).blocks)
    (tables : changed.tables = ((system.tables.setRecord process
      (Process.withStack filename stack i)).setTask task process space).setRecord process
        (Process.withTask task)) : Made start process i changed := by
  have stacked := prepared.beside.mark stackNonnull stackEmpty .stack
  have tasked := stacked.mark taskNonnull taskEmpty .task
  have unused := (stacked.unused taskEmpty).1
  have record : changed.tables.processRecords process = Process.withTask task
      (Process.withStack filename stack i (system.tables.processRecords process)) := by
    rw [tables, Tables.setRecord_self]
    exact congrArg _ (Tables.setRecord_self _ _ _)
  have stackGrows : system.Grows (system.mark stack (.owned .stack process)) :=
    System.Grows.mark stackEmpty rfl
  have taskGrows : System.Grows _ ((system.mark stack (.owned .stack process)).mark task
      (.owned .task process)) := System.Grows.mark taskEmpty rfl
  have spaceGrows : System.Grows _ changed := System.Grows.mark spaceEmpty blocks
  have grows := (stackGrows.trans taskGrows).trans spaceGrows
  have taskBlock : changed.blocks task = some (.owned .task process) :=
    spaceGrows _ _ (by simp)
  have process_of_task : changed.tables.taskProcess task = process ∧
      changed.tables.taskSpace task = space := by
    rw [tables]
    exact Tables.setTask_self _ _ _ _
  constructor
  · apply (tasked.mark spaceNonnull spaceEmpty .space).retable blocks <;> rw [tables]
    iterate 3 rfl
    · intro other different
      rw [Tables.setRecord_other different]
      exact Tables.setRecord_other different
    · intro ptr used
      exact ⟨rfl, Tables.setTask_other (fun same => used (same ▸ unused))⟩
  · constructor
    · exact grows _ _ prepared.beside.own
    · rw [record]
      exact BitVec.ofInt_natCast 16 i
    · rw [record]
      exact taskBlock
    · rw [record]
      exact process_of_task.1
    · rw [record]
      show changed.blocks (changed.tables.taskSpace task) = _
      rw [process_of_task.2, blocks]
      simp
    · rw [record]
      exact (taskGrows.trans spaceGrows) _ _ (by simp [Process.withTask, Process.withStack])
    · apply prepared.image.grows grows
      · rw [record]
        rfl
      · rw [record]
        rfl
      · rw [tables]
        rfl
    · intro j _
      rw [record]
      exact Or.inl (prepared.allocations j)
  · intro other here
    rw [record]
    show other = task
    by_contra different
    rw [blocks] at here
    simp only [System.mark_blocks, if_neg different] at here
    split at here
    · cases here
    · split at here
      · cases here
      · exact prepared.noTask other here
  · rw [record]
    exact prepared.shell

/-- The rest of a load makes the process complete, and enters it unless the mapping fails. -/
theorem Prepared.rest {i : Nat} {out : Addr} (prepared : Prepared start process system)
    (run : oracle.below.processLoadRest filename process i system = (.ok (res, out), after)) :
    (res < 0 ∧ out = 0 ∧ after = system) ∨
    ∃ made, Made start process i made ∧ ((res < 0 ∧ out = 0 ∧ after = made) ∨
      (0 ≤ res ∧ out = process ∧ after.blocks = made.blocks ∧
        after.tables = made.tables.setSlot i process)) := by
  unfold Below.processLoadRest at run
  obtain ⟨stack, stacked, allocated, rest⟩ := bind_eq_ok run
  rcases below_kzalloc_ok (by decide) allocated with ⟨null, rfl⟩ | ⟨stackNonnull, stackEmpty, rfl⟩
  · rw [if_pos null] at rest
    cases rest
    exact Or.inl ⟨by decide, rfl, rfl⟩
  right
  rw [if_neg stackNonnull, below_update_bind] at rest
  obtain ⟨task, tasked, created, rest⟩ := bind_eq_ok rest
  obtain ⟨space, taskNonnull, taskEmpty, spaceNonnull, spaceEmpty, blocks, tables⟩ :=
    taskNew_below_ok created
  rw [if_neg taskNonnull, below_update_bind] at rest
  obtain ⟨mapped, made, mapping, rest⟩ := bind_eq_ok rest
  cases mapping
  have madeTables : (tasked.setKernel (tasked.kernel.setProcess process (Process.withTask task))).tables =
      ((system.tables.setRecord process (Process.withStack filename stack i)).setTask task process
        space).setRecord process (Process.withTask task) := by
    rw [System.setProcess_tables, tables]
    rfl
  have complete : Made start process i
      (tasked.setKernel (tasked.kernel.setProcess process (Process.withTask task))) :=
    prepared.made stackNonnull taskNonnull spaceNonnull stackEmpty taskEmpty spaceEmpty blocks madeTables
  refine ⟨_, complete, ?_⟩
  split at rest
  next failed =>
    cases rest
    exact Or.inl ⟨failed, rfl, rfl⟩
  next succeeded =>
    rw [below_update_bind] at rest
    cases rest
    exact Or.inr ⟨by omega, rfl, rfl, rfl⟩

theorem Beside.unused_own (beside : Beside start process system) (consistent : Consistent ∅ start)
    {ptr : Addr} {part : Part} (own : system.blocks ptr = some (.owned part process)) :
    start.blocks ptr = none ∧ ptr ≠ process := by
  constructor
  · by_contra used
    have same := beside.kept ptr used
    rw [own] at same
    have owner := consistent.owners ptr part process same.symm
    rw [beside.fresh] at owner
    cases owner
  · rintro rfl
    rw [beside.own] at own
    cases own

/-- A load that failed after the process record was made. -/
structure Abandoned (start : System) (process : Addr) (system : System) : Prop where
  beside : Beside start process system
  noTask : system.NoTask process
  shell : (system.tables.processRecords process).shell = 0

theorem Abandoned.congr {last : System} (abandoned : Abandoned start process system)
    (blocks : last.blocks = system.blocks) (tables : last.tables = system.tables) :
    Abandoned start process last where
  beside := by
    apply abandoned.beside.retable blocks <;> rw [tables]
    · exact fun _ _ => rfl
    · exact fun _ _ => ⟨rfl, rfl, rfl⟩
  noTask := by
    unfold System.NoTask
    rw [blocks]
    exact abandoned.noTask
  shell := by
    rw [tables]
    exact abandoned.shell

theorem Made.abandoned {i : Nat} (made : Made start process i system)
    (consistent : Consistent ∅ start)
    (run : oracle.below.taskFree (system.tables.processRecords process).task system = (.ok res, after)) :
    Abandoned start process after := by
  obtain ⟨_, _, _, blocks, tables⟩ := taskFree_below_ok run
  have space := made.beside.unused_own consistent made.loaded.space
  have task := made.beside.unused_own consistent made.loaded.task
  have released := (made.beside.release space.1 space.2).release task.1 task.2
  have abandoned : Abandoned start process ((system.release (system.tables.taskSpace
      (system.tables.processRecords process).task)).release
        (system.tables.processRecords process).task) := by
    refine ⟨released, ?_, made.shell⟩
    intro other here
    simp only [System.release_blocks] at here
    split at here
    · cases here
    next different =>
      split at here
      · cases here
      · exact different (made.only other here)
  exact abandoned.congr blocks tables

/-- How a load ends: with the table full, without a block for the record, with an abandoned process, or with a complete
process in the first free slot. -/
inductive LoadOutcome (start : System) : Int → Addr → System → Prop where
  | full (taken : ∀ i < peachosMaxProcesses, start.tables.processes i ≠ 0) :
      LoadOutcome start (-EISTKN) 0 start
  | short : LoadOutcome start (-ENOMEM) 0 start
  | failed (res : Int) (process : Addr) (after : System) (negative : res < 0)
      (abandoned : Abandoned start process after) : LoadOutcome start res 0 after
  | loaded (res : Int) (process : Addr) (i : Nat) (made after : System) (proper : 0 ≤ res)
      (bound : i < peachosMaxProcesses) (free : start.tables.processes i = 0)
      (lowest : ∀ j < i, start.tables.processes j ≠ 0) (complete : Made start process i made)
      (blocks : after.blocks = made.blocks)
      (tables : after.tables = made.tables.setSlot i process) : LoadOutcome start res process after

theorem processGetFreeSlot_spec (kernel : Kernel) :
    (processGetFreeSlot kernel = -EISTKN ∧ ∀ i < peachosMaxProcesses, kernel.processes i ≠ 0) ∨
      ∃ i < peachosMaxProcesses, processGetFreeSlot kernel = i ∧ kernel.processes i = 0 ∧
        ∀ j < i, kernel.processes j ≠ 0 := by
  unfold processGetFreeSlot
  split
  next i first =>
    obtain ⟨bound, here, before⟩ := firstIndex_some first
    exact Or.inr ⟨i, bound, rfl, eq_of_beq here, fun j earlier => by simpa using before j earlier⟩
  next none =>
    exact Or.inl ⟨rfl, fun i bound => by simpa using firstIndex_none none bound⟩

theorem processLoadOut_below_ok
    (run : oracle.below.processLoadOut process res system = (.ok (), after)) :
    (¬(res < 0 ∧ (system.tables.processRecords process).task ≠ 0) ∧ after = system) ∨
      (res < 0 ∧ ∃ code, oracle.below.taskFree (system.tables.processRecords process).task system =
        (.ok code, after)) := by
  unfold Below.processLoadOut at run
  rw [below_read_bind] at run
  split at run
  next failed =>
    obtain ⟨code, freed, free, returned⟩ := bind_eq_ok run
    cases returned
    exact Or.inr ⟨failed.1, code, free⟩
  next kept =>
    cases run
    exact Or.inl ⟨kept, rfl⟩

/-- A load that got a block for the record never gives it back. -/
theorem processLoadForSlot_ends {i : Nat} {out : Addr} (consistent : Consistent ∅ start)
    (bound : i < peachosMaxProcesses) (free : start.tables.processes i = 0)
    (lowest : ∀ j < i, start.tables.processes j ≠ 0)
    (run : oracle.below.processLoadForSlot filename i start = (.ok (res, out), after)) :
    LoadOutcome start res out after ∧ (oracle.pick start sizeofProcess = 0 ∨ after.blocks ≠ start.blocks) := by
  have empty : processGet start.kernel i = 0 := by
    unfold processGet
    rw [if_neg (by omega)]
    exact free
  unfold Below.processLoadForSlot at run
  rw [below_read_bind, empty, if_neg (by simp)] at run
  obtain ⟨process, marked, allocated, rest⟩ := bind_eq_ok run
  rcases below_kzalloc_ok (by decide) allocated with ⟨null, rfl⟩ | ⟨nonnull, fresh, rfl⟩
  · rw [if_pos null] at rest
    cases rest
    exact ⟨.short, Or.inl ((below_kzalloc_pick allocated).symm.trans null)⟩
  suffices ends : LoadOutcome start res out after ∧ after.blocks process = some .process by
    refine ⟨ends.1, Or.inr (fun same => ?_)⟩
    have record := ends.2
    rw [same, fresh] at record
    cases record
  rw [if_neg nonnull, below_update_bind] at rest
  obtain ⟨loaded, filled, loading, rest⟩ := bind_eq_ok rest
  obtain ⟨⟨mapped, made⟩, ready, building, rest⟩ := bind_eq_ok rest
  obtain ⟨_, last, ending, returned⟩ := bind_eq_ok rest
  cases returned
  have zeroed : Beside start process ((start.mark process .process).setKernel
      (start.kernel.setProcess process (fun _ => Process.zero))) :=
    Beside.begin consistent.null nonnull fresh rfl
  have noTask : ((start.mark process .process).setKernel
      (start.kernel.setProcess process (fun _ => Process.zero))).NoTask process := by
    intro task here
    have unused := zeroed.unused_own consistent here
    simp [unused.1, unused.2] at here
  have record : ((start.mark process .process).setKernel (start.kernel.setProcess process
      (fun _ => Process.zero))).tables.processRecords process = Process.zero :=
    Tables.setRecord_self start.tables process (fun _ => Process.zero)
  rcases zeroed.loadData loading with ⟨negative, spills⟩ | ⟨rfl, beside, data⟩
  · rw [if_pos negative] at building
    cases building
    have kept := zeroed.spills spills
    rw [← spills.tables] at record
    rcases processLoadOut_below_ok ending with ⟨_, rfl⟩ | ⟨failed, code, free⟩
    · refine ⟨.failed res process _ negative ?_, kept.own⟩
      exact ⟨kept, spills.noTask noTask, by rw [record]; rfl⟩
    · rw [record] at free
      exact absurd rfl (taskFree_below_ok free).1
  · rw [if_neg (by decide)] at building
    have prepared : Prepared start process filled := by
      refine ⟨beside, data.image, data.noTask noTask, ?_, ?_, ?_⟩
      · rw [data.task, record]
        rfl
      · intro j
        rw [data.allocations, record]
        rfl
      · rw [data.shell, record]
        rfl
    rcases prepared.rest building with ⟨negative, rfl, rfl⟩ |
      ⟨complete, isMade, ⟨negative, rfl, rfl⟩ | ⟨proper, rfl, blocks, tables⟩⟩
    · rcases processLoadOut_below_ok ending with ⟨_, rfl⟩ | ⟨_, code, free⟩
      · refine ⟨.failed res process _ negative ?_, prepared.beside.own⟩
        exact ⟨prepared.beside, prepared.noTask, prepared.shell⟩
      · exact absurd prepared.task (taskFree_below_ok free).1
    · rcases processLoadOut_below_ok ending with ⟨kept, rfl⟩ | ⟨_, code, free⟩
      · have null : (after.tables.processRecords process).task = 0 := by
          by_contra nonnull
          exact kept ⟨negative, nonnull⟩
        have task := isMade.loaded.task
        rw [null, isMade.beside.null] at task
        cases task
      · have abandoned := isMade.abandoned consistent free
        exact ⟨.failed res process _ negative abandoned, abandoned.beside.own⟩
    · rcases processLoadOut_below_ok ending with ⟨_, rfl⟩ | ⟨failed, code, free⟩
      · refine ⟨.loaded res out i complete _ proper bound free lowest isMade blocks tables, ?_⟩
        rw [blocks]
        exact isMade.beside.own
      · omega

theorem processLoad_ends {out : Addr} (consistent : Consistent ∅ start)
    (run : oracle.below.processLoad filename start = (.ok (res, out), after)) :
    LoadOutcome start res out after ∧ ((∀ i < peachosMaxProcesses, start.tables.processes i ≠ 0) ∨
      oracle.pick start sizeofProcess = 0 ∨ after.blocks ≠ start.blocks) := by
  unfold Below.processLoad at run
  rw [below_read_bind] at run
  rcases processGetFreeSlot_spec start.kernel with ⟨full, taken⟩ | ⟨i, bound, slot, free, lowest⟩
  · rw [full, if_pos (by decide)] at run
    cases run
    exact ⟨.full taken, Or.inl taken⟩
  · rw [slot, if_neg (by omega)] at run
    have ends := processLoadForSlot_ends consistent bound free lowest run
    exact ⟨ends.1, Or.inr ends.2⟩

theorem processLoad_outcome {out : Addr} (consistent : Consistent ∅ start)
    (run : oracle.below.processLoad filename start = (.ok (res, out), after)) :
    LoadOutcome start res out after :=
  (processLoad_ends consistent run).1

theorem processLoad_full (taken : ∀ i < peachosMaxProcesses, start.tables.processes i ≠ 0) :
    oracle.below.processLoad filename start = (.ok (-EISTKN, 0), start) := by
  unfold Below.processLoad
  rw [below_read_bind]
  rcases processGetFreeSlot_spec start.kernel with ⟨full, _⟩ | ⟨i, bound, _, free, _⟩
  · rw [full, if_pos (by decide)]
    rfl
  · exact absurd free (taken i bound)

theorem processLoad_short {i : Nat} (bound : i < peachosMaxProcesses) (free : start.tables.processes i = 0)
    (none : oracle.pick start sizeofProcess = 0) : oracle.below.processLoad filename start = (.ok (-ENOMEM, 0), start) := by
  unfold Below.processLoad
  rw [below_read_bind]
  rcases processGetFreeSlot_spec start.kernel with ⟨_, taken⟩ | ⟨j, inside, slot, empty, _⟩
  · exact absurd free (taken i bound)
  · have unused : processGet start.kernel j = 0 := by
      unfold processGet
      rw [if_neg (by omega)]
      exact empty
    have allocated : oracle.below.kzalloc .process sizeofProcess start = (.ok 0, start) := if_pos none
    rw [slot, if_neg (by omega)]
    unfold Below.processLoadForSlot
    rw [below_read_bind, unused, if_neg (by simp), bind_ok allocated, if_pos rfl]
    rfl

end Load

section Keep
variable {start system after : System} {process other : Addr} {i : Nat} {res : Int}

/-- The fields of a record that name what the process has, but for its data. -/
structure Process.SameHoldings (left right : Process) : Prop where
  id : left.id = right.id
  task : left.task = right.task
  stack : left.stack = right.stack
  filetype : left.filetype = right.filetype
  ptr : left.ptr = right.ptr

theorem Process.SameHoldings.of_eq {left right : Process} (same : left = right) :
    left.SameHoldings right := by
  rw [same]
  exact ⟨rfl, rfl, rfl, rfl, rfl⟩

theorem Loaded.rebuild (loaded : Loaded system i other)
    (blocks : ∀ ptr use, system.blocks ptr = some use → use ≠ .owned .data other →
      (use = .process ∨ ∃ part, use = .owned part other) → after.blocks ptr = some use)
    (record : (after.tables.processRecords other).SameHoldings (system.tables.processRecords other))
    (files : ∀ ptr part, system.blocks ptr = some (.owned part other) →
      after.tables.elfFiles ptr = system.tables.elfFiles ptr ∧
      after.tables.taskProcess ptr = system.tables.taskProcess ptr ∧
      after.tables.taskSpace ptr = system.tables.taskSpace ptr)
    (data : ∀ j < peachosMaxProgramAllocations,
      ((after.tables.processRecords other).allocations j).ptr = 0 ∨
        after.blocks ((after.tables.processRecords other).allocations j).ptr =
          some (.owned .data other)) : Loaded after i other := by
  have own : ∀ {ptr part}, system.blocks ptr = some (.owned part other) → part ≠ .data →
      after.blocks ptr = some (.owned part other) :=
    fun here proper => blocks _ _ here (by simpa using proper) (Or.inr ⟨_, rfl⟩)
  obtain ⟨_, back, space⟩ := files _ _ loaded.task
  constructor
  · exact blocks _ _ loaded.record (by simp) (Or.inl rfl)
  · rw [record.id]
    exact loaded.id
  · rw [record.task]
    exact own loaded.task (by decide)
  · rw [record.task, back]
    exact loaded.back
  · rw [record.task, space]
    exact own loaded.space (by decide)
  · rw [record.stack]
    exact own loaded.stack (by decide)
  · unfold System.HasImage
    dsimp only
    rw [record.filetype, record.ptr]
    rcases loaded.image with ⟨binary, image⟩ | ⟨elf, file, image⟩
    · exact Or.inl ⟨binary, own image (by decide)⟩
    · refine Or.inr ⟨elf, own file (by decide), ?_⟩
      rw [(files _ _ file).1]
      exact own image (by decide)
  · exact data

theorem Loaded.keep (loaded : Loaded system i other)
    (blocks : ∀ ptr, system.blocks ptr = some .process ∨
      (∃ part, system.blocks ptr = some (.owned part other)) → after.blocks ptr = system.blocks ptr)
    (record : (after.tables.processRecords other).SameHoldings (system.tables.processRecords other))
    (allocations : (after.tables.processRecords other).allocations =
      (system.tables.processRecords other).allocations)
    (files : ∀ ptr part, system.blocks ptr = some (.owned part other) →
      after.tables.elfFiles ptr = system.tables.elfFiles ptr ∧
      after.tables.taskProcess ptr = system.tables.taskProcess ptr ∧
      after.tables.taskSpace ptr = system.tables.taskSpace ptr) : Loaded after i other := by
  apply loaded.rebuild _ record files
  · intro j within
    rw [allocations]
    exact (loaded.data j within).imp_right (fun own => (blocks _ (Or.inr ⟨_, own⟩)).trans own)
  · rintro ptr use here _ (rfl | ⟨part, rfl⟩)
    · exact (blocks ptr (Or.inl here)).trans here
    · exact (blocks ptr (Or.inr ⟨part, here⟩)).trans here

theorem Beside.loaded (beside : Beside start process system) (loaded : Loaded start i other) :
    Loaded system i other := by
  have different : other ≠ process := by
    rintro rfl
    have record := loaded.record
    rw [beside.fresh] at record
    cases record
  have used : ∀ {ptr part}, start.blocks ptr = some (.owned part other) → start.blocks ptr ≠ none := by
    intro ptr part here
    rw [here]
    simp
  apply loaded.keep
  · rintro ptr (here | ⟨part, here⟩)
    · apply beside.kept
      rw [here]
      simp
    · exact beside.kept ptr (used here)
  · exact .of_eq (beside.records other different)
  · rw [beside.records other different]
  · intro ptr part here
    exact ⟨beside.elfFiles ptr (used here), beside.taskProcess ptr (used here),
      beside.taskSpace ptr (used here)⟩

theorem Beside.owners (beside : Beside start process system) (consistent : Consistent ∅ start)
    {ptr owner : Addr} {part : Part} (own : system.blocks ptr = some (.owned part owner)) :
    system.blocks owner = some .process := by
  rcases beside.new ptr _ own with old | ⟨_, isRecord⟩ | ⟨kind, isOwn⟩ | isKernel
  · have owner := consistent.owners ptr part owner old
    rw [beside.kept _ (by rw [owner]; simp), owner]
  · cases isRecord
  · cases isOwn
    exact beside.own
  · cases isKernel

theorem Beside.listed (beside : Beside start process system) (consistent : Consistent ∅ start)
    {task owner : Addr} (own : system.blocks task = some (.owned .task owner)) :
    owner = process ∨ ∃ i < peachosMaxProcesses, system.tables.processes i = owner ∧
      (system.tables.processRecords owner).task = task := by
  rcases beside.new task _ own with old | ⟨_, isRecord⟩ | ⟨kind, isOwn⟩ | isKernel
  · by_cases isNew : owner = process
    · exact Or.inl isNew
    · rcases consistent.tasks task owner old with between | ⟨i, bound, here, points⟩
      · exact between.elim
      · refine Or.inr ⟨i, bound, ?_, ?_⟩
        · rw [beside.processes]
          exact here
        · rw [beside.records owner isNew]
          exact points
  · cases isRecord
  · cases isOwn
    exact Or.inl rfl
  · cases isKernel

theorem Consistent.abandoned (consistent : Consistent ∅ start)
    (abandoned : Abandoned start process system) : Consistent ∅ system where
  null := abandoned.beside.null
  owners := fun _ _ _ own => abandoned.beside.owners consistent own
  entries := by
    intro i bound taken apart
    rw [abandoned.beside.processes] at taken ⊢
    exact abandoned.beside.loaded (consistent.entries i bound taken (Set.notMem_empty _))
  tasks := by
    intro task owner own
    rcases abandoned.beside.listed consistent own with rfl | listed
    · exact absurd own (abandoned.noTask task)
    · exact Or.inr listed

theorem Consistent.entered (consistent : Consistent ∅ start) (made : Made start process i system)
    (bound : i < peachosMaxProcesses) (free : start.tables.processes i = 0)
    (blocks : after.blocks = system.blocks)
    (tables : after.tables = system.tables.setSlot i process) : Consistent ∅ after := by
  have slot : ∀ j, after.tables.processes j =
      if j = i then process else start.tables.processes j := by
    intro j
    rw [tables, ← made.beside.processes]
    exact Function.update_apply _ _ _ _
  have carry : ∀ {j owner}, Loaded system j owner → Loaded after j owner := by
    intro j owner loaded
    apply loaded.keep
    · exact fun ptr _ => congrFun blocks ptr
    · rw [tables]
      exact .of_eq rfl
    · rw [tables]
      rfl
    · intro ptr part here
      rw [tables]
      exact ⟨rfl, rfl, rfl⟩
  constructor
  · rw [blocks]
    exact made.beside.null
  · intro ptr part owner own
    rw [blocks] at own ⊢
    exact made.beside.owners consistent own
  · intro j within taken _
    rw [slot] at taken ⊢
    by_cases here : j = i
    · rw [if_pos here, here]
      exact carry made.loaded
    · rw [if_neg here] at taken ⊢
      exact carry (made.beside.loaded (consistent.entries j within taken (Set.notMem_empty _)))
  · intro task owner own
    rw [blocks] at own
    right
    by_cases isNew : owner = process
    · subst isNew
      refine ⟨i, bound, ?_, ?_⟩
      · rw [slot, if_pos rfl]
      · rw [tables]
        exact (made.only task own).symm
    · obtain ⟨j, within, here, points⟩ :=
        (made.beside.listed consistent own).resolve_left isNew
      rw [made.beside.processes] at here
      refine ⟨j, within, ?_, ?_⟩
      · rw [slot, if_neg, here]
        rintro rfl
        have record := made.beside.owners consistent own
        rw [← here, free, made.beside.null] at record
        cases record
      · rw [tables]
        exact points

theorem Consistent.load {out : Addr} (consistent : Consistent ∅ start)
    (outcome : LoadOutcome start res out after) : Consistent ∅ after := by
  cases outcome with
  | full taken => exact consistent
  | short => exact consistent
  | failed res process after negative abandoned => exact consistent.abandoned abandoned
  | loaded res process i made after proper bound free lowest complete blocks tables =>
    exact consistent.entered complete bound free blocks tables

end Keep

end PeachOS
