import PeachOS.ShellRuns

/-! What the processes in the table own: exactly the blocks that their records name, over any order of
system calls, interrupts and new shells. -/

namespace PeachOS
open Program Transition

/-- The blocks that the record of a process names. -/
inductive Tables.Names (tables : Tables) (process : Addr) : Part → Addr → Prop where
  | task : tables.Names process .task (tables.processRecords process).task
  | space : tables.Names process .space (tables.taskSpace (tables.processRecords process).task)
  | stack : tables.Names process .stack (tables.processRecords process).stack
  | binary (filetype : (tables.processRecords process).filetype = processFiletypeBinary) :
      tables.Names process .image (tables.processRecords process).ptr
  | elfFile (filetype : (tables.processRecords process).filetype = processFiletypeElf) :
      tables.Names process .elfFile (tables.processRecords process).ptr
  | elfMemory (filetype : (tables.processRecords process).filetype = processFiletypeElf) :
      tables.Names process .image (tables.elfFiles (tables.processRecords process).ptr).elfMemory
  | data {j : Nat} (bound : j < peachosMaxProgramAllocations) :
      tables.Names process .data ((tables.processRecords process).allocations j).ptr

/-- Whatever is in use for the process is named by its record. -/
def System.Named (system : System) (process : Addr) : Prop :=
  ∀ part ptr, system.blocks ptr = some (.owned part process) → system.tables.Names process part ptr

/-- No process in the table has lost a block. -/
structure System.Booked (system : System) : Prop where
  null : system.blocks 0 = none
  named : ∀ process, system.tables.Lists process → system.Named process

section Names
variable {few many : Tables} {process ptr : Addr} {part : Part}

theorem Tables.Names.carry (names : few.Names process part ptr)
    (record : (many.processRecords process).SameHoldings (few.processRecords process))
    (data : ∀ j < peachosMaxProgramAllocations, ((few.processRecords process).allocations j).ptr = ptr →
      ((many.processRecords process).allocations j).ptr = ptr)
    (file : many.elfFiles (few.processRecords process).ptr = few.elfFiles (few.processRecords process).ptr)
    (space : many.taskSpace (few.processRecords process).task =
      few.taskSpace (few.processRecords process).task) : many.Names process part ptr := by
  cases names with
  | task =>
    rw [← record.task]
    exact .task
  | space =>
    rw [← space, ← record.task]
    exact .space
  | stack =>
    rw [← record.stack]
    exact .stack
  | binary filetype =>
    rw [← record.ptr]
    exact .binary (record.filetype.trans filetype)
  | elfFile filetype =>
    rw [← record.ptr]
    exact .elfFile (record.filetype.trans filetype)
  | elfMemory filetype =>
    rw [← file, ← record.ptr]
    exact .elfMemory (record.filetype.trans filetype)
  | @data j bound =>
    rw [← data j bound rfl]
    exact .data bound

theorem Tables.Names.congr (names : few.Names process part ptr)
    (record : (many.processRecords process).SameHoldings (few.processRecords process))
    (allocations : (many.processRecords process).allocations = (few.processRecords process).allocations)
    (file : many.elfFiles (few.processRecords process).ptr = few.elfFiles (few.processRecords process).ptr)
    (space : many.taskSpace (few.processRecords process).task =
      few.taskSpace (few.processRecords process).task) : many.Names process part ptr := by
  apply names.carry record _ file space
  intro j _ here
  rw [allocations, here]

theorem Tables.Names.setRecord {tables : Tables} {owner : Addr} {change : Process → Process}
    (names : tables.Names owner part ptr) (holdings : ∀ record, (change record).SameHoldings record)
    (data : ∀ j < peachosMaxProgramAllocations, owner = process →
      ((tables.processRecords process).allocations j).ptr = ptr →
      ((change (tables.processRecords process)).allocations j).ptr = ptr) :
    (tables.setRecord process change).Names owner part ptr := by
  by_cases same : owner = process
  · subst same
    apply names.carry
    · rw [Tables.setRecord_self]
      exact holdings _
    · rw [Tables.setRecord_self]
      exact fun j bound here => data j bound rfl here
    · rfl
    · rfl
  · apply names.congr
    · exact .of_eq (Tables.setRecord_other same)
    · exact congrArg Process.allocations (Tables.setRecord_other same)
    · rfl
    · rfl

end Names

section Booked
variable {before after : System} {process ptr : Addr} {use : BlockUse}

/-- Blocks go at most, the table loses processes at most, and the records name what they named. -/
theorem System.Booked.mono (booked : before.Booked) (null : after.blocks 0 = none)
    (blocks : ∀ ptr part process, after.blocks ptr = some (.owned part process) →
      before.blocks ptr = some (.owned part process))
    (lists : ∀ process, after.tables.Lists process → before.tables.Lists process)
    (names : ∀ process part ptr, after.blocks ptr = some (.owned part process) →
      before.tables.Names process part ptr → after.tables.Names process part ptr) : after.Booked where
  null := null
  named := fun process listed part ptr own =>
    names process part ptr own (booked.named process (lists process listed) part ptr (blocks ptr part process own))

theorem System.Booked.retabled (booked : before.Booked) (blocks : after.blocks = before.blocks)
    (lists : ∀ process, after.tables.Lists process → before.tables.Lists process)
    (records : ∀ process,
      (after.tables.processRecords process).SameHoldings (before.tables.processRecords process) ∧
      (after.tables.processRecords process).allocations =
        (before.tables.processRecords process).allocations)
    (elfFiles : after.tables.elfFiles = before.tables.elfFiles)
    (taskSpace : after.tables.taskSpace = before.tables.taskSpace) : after.Booked := by
  apply booked.mono (blocks ▸ booked.null) (fun ptr part process own => blocks ▸ own) lists
  intro process part ptr _ names
  apply names.congr (records process).1 (records process).2
  · rw [elfFiles]
  · rw [taskSpace]

theorem System.Booked.congr (booked : before.Booked) (blocks : after.blocks = before.blocks)
    (tables : after.tables = before.tables) : after.Booked := by
  apply booked.retabled blocks <;> rw [tables]
  · exact fun _ listed => listed
  · exact fun _ => ⟨.of_eq rfl, rfl⟩

theorem System.Quiet.booked (quiet : before.Quiet after) (booked : before.Booked) : after.Booked :=
  booked.congr quiet.blocks quiet.tables

theorem System.Booked.mark (booked : before.Booked) (nonnull : ptr ≠ 0)
    (unowned : ∀ part process, use ≠ .owned part process) : (before.mark ptr use).Booked := by
  apply booked.mono
  · rw [System.mark_blocks, if_neg nonnull.symm, booked.null]
  · intro other part process own
    rw [System.mark_blocks] at own
    split at own
    · exact absurd (Option.some.inj own) (unowned part process)
    · exact own
  · exact fun _ listed => listed
  · exact fun _ _ _ _ names => names

theorem System.Booked.release (booked : before.Booked) (ptr : Addr) : (before.release ptr).Booked := by
  apply booked.mono
  · rw [System.release_blocks, booked.null, ite_self]
  · intro other part process own
    rw [System.release_blocks] at own
    split at own
    · cases own
    · exact own
  · exact fun _ listed => listed
  · exact fun _ _ _ _ names => names

theorem System.Booked.setProcess {change : Process → Process} (booked : before.Booked) (process : Addr)
    (holdings : ∀ record, (change record).SameHoldings record)
    (allocations : ∀ record, (change record).allocations = record.allocations) :
    (before.setKernel (before.kernel.setProcess process change)).Booked := by
  refine ⟨booked.null, ?_⟩
  intro owner listed part ptr own
  rw [System.setProcess_tables]
  apply (booked.named owner listed part ptr own).setRecord holdings
  intro j _ _ here
  rw [allocations, here]

theorem System.Booked.setScreen (booked : before.Booked) (screen : Screen) : (before.setScreen screen).Booked :=
  booked.retabled rfl (fun _ listed => listed) (fun _ => ⟨.of_eq rfl, rfl⟩) rfl rfl

end Booked

section Records
variable {ptr : Addr} {size : Word} {index : Nat}

theorem Process.join_holdings (record : Process) : (record.join index ptr size).SameHoldings record :=
  ⟨rfl, rfl, rfl, rfl, rfl⟩

theorem Process.join_allocations (record : Process) (j : Nat) :
    (record.join index ptr size).allocations j = if j = index then ⟨ptr, size⟩ else record.allocations j :=
  Function.update_apply _ _ _ _

theorem processAllocationUnjoin_holdings (record : Process) :
    (processAllocationUnjoin ptr record).SameHoldings record := ⟨rfl, rfl, rfl, rfl, rfl⟩

theorem processAllocationUnjoin_keeps {record : Process} {j : Nat} (other : (record.allocations j).ptr ≠ ptr) :
    (processAllocationUnjoin ptr record).allocations j = record.allocations j :=
  if_neg (fun same => other same.2)

end Records

section Serve
variable {oracle : Oracle} {before after : System} {process ptr : Addr} {size : Word} {res : Int}

theorem booked_free : BytesFree System.Booked := fun _ _ _ booked => booked.congr rfl rfl

theorem booked_kfree (ptr : Addr) : Preserves System.Booked (oracle.below.kfree ptr) :=
  Preserves.update (fun _ booked => booked.release ptr)

theorem booked_processMalloc (size : Word) : Preserves System.Booked (oracle.below.processMalloc process size) := by
  intro before ptr after booked run
  rcases processMalloc_below_ends run with ⟨_, rfl⟩ | ⟨nonnull, _, empty, index, bound, free, rfl⟩
  · exact booked
  have tables : ((before.serve ptr (.owned .data process) size).setKernel
      (before.kernel.recordAllocation process index ptr size)).tables =
        before.tables.setRecord process (Process.join index ptr size) := rfl
  refine ⟨?_, ?_⟩
  · cases here : (before.serve ptr (.owned .data process) size).blocks 0 with
    | none => exact here
    | some use =>
      rcases System.serve_some here with ⟨same, _⟩ | own
      · exact absurd same.symm nonnull
      · rw [booked.null] at own
        cases own
  intro owner listed part target taken
  rw [tables]
  rcases System.serve_some taken with ⟨new, use⟩ | own
  · cases use
    have names : (before.tables.setRecord process (Process.join index ptr size)).Names process .data _ :=
      .data bound
    rw [Tables.setRecord_self, Process.join_allocations, if_pos rfl] at names
    rwa [new]
  · clear taken
    apply (booked.named owner listed part target own).setRecord Process.join_holdings
    rintro j _ rfl here
    -- the place was empty
    have different : j ≠ index := by
      rintro rfl
      have null : target = 0 := here.symm.trans free
      rw [null, booked.null] at own
      cases own
    rw [Process.join_allocations, if_neg different, here]

theorem booked_processFree : Preserves System.Booked (oracle.below.processFree process ptr) := by
  intro before _ after booked run
  rcases processFree_below_ok run with rfl | ⟨j, within, found, blocks, tables⟩
  · exact booked
  refine ⟨?_, ?_⟩
  · rw [blocks, System.release_blocks, booked.null, ite_self]
  intro owner listed part target own
  rw [blocks, System.release_blocks] at own
  split at own
  · cases own
  next other =>
    rw [tables] at listed ⊢
    apply (booked.named owner listed part target own).setRecord processAllocationUnjoin_holdings
    rintro k _ rfl here
    rw [processAllocationUnjoin_keeps (fun same => other (here.symm.trans same)), here]

theorem booked_taskFree (task : Addr) : Preserves System.Booked (oracle.below.taskFree task) := by
  intro before res after booked run
  obtain ⟨_, _, _, blocks, tables⟩ := taskFree_below_ok run
  exact ((booked.release _).release _).congr blocks tables

theorem booked_processTerminateAllocationsLoop (remaining i : Nat) :
    Preserves System.Booked (oracle.below.processTerminateAllocationsLoop process remaining i) := by
  induction remaining generalizing i with
  | zero => exact Preserves.pure _
  | succ remaining ih =>
    unfold Below.processTerminateAllocationsLoop
    refine Preserves.bind (preserves_read _) ?_
    intro ptr
    exact Preserves.bind booked_processFree (fun _ => ih _)

theorem booked_elfClose (file : Addr) : Preserves System.Booked (oracle.below.elfClose file) := by
  unfold Below.elfClose
  refine Preserves.ite (Preserves.pure _) ?_
  refine Preserves.bind (preserves_read _) ?_
  intro record
  exact Preserves.bind (booked_kfree _) (fun _ => booked_kfree _)

theorem booked_processFreeProgramData : Preserves System.Booked (oracle.below.processFreeProgramData process) := by
  unfold Below.processFreeProgramData
  refine Preserves.bind (preserves_read _) ?_
  intro record
  refine Preserves.ite (Preserves.bind (booked_kfree _) (fun _ => Preserves.pure _)) ?_
  exact Preserves.ite (Preserves.bind (booked_elfClose _) (fun _ => Preserves.pure _)) (Preserves.pure _)

theorem booked_processUnlink : Preserves System.Booked (oracle.below.kernel (processUnlink process)) := by
  intro before _ after booked run
  obtain ⟨current, blocks, tables, _, _⟩ := processUnlink_below_ok run
  apply booked.retabled blocks <;> rw [tables]
  · rintro other ⟨nonnull, i, bound, here⟩
    refine ⟨nonnull, i, bound, ?_⟩
    change Function.update before.tables.processes _ 0 i = other at here
    rw [Function.update_apply] at here
    split at here
    · exact absurd here.symm nonnull
    · exact here
  · exact fun _ => ⟨.of_eq rfl, rfl⟩
  · rfl
  · rfl

theorem booked_processTerminate : Preserves System.Booked (oracle.below.processTerminate process) := by
  unfold Below.processTerminate Below.processTerminateAllocations
  apply Preserves.bind (Preserves.bind (booked_processTerminateAllocationsLoop _ _) (fun _ => Preserves.pure _))
  intro res
  refine Preserves.ite (Preserves.pure _) ?_
  apply Preserves.bind booked_processFreeProgramData
  intro res
  refine Preserves.ite (Preserves.pure _) ?_
  refine Preserves.bind (preserves_read _) ?_
  intro record
  apply Preserves.bind (booked_kfree _)
  intro _
  apply Preserves.bind (booked_taskFree _)
  intro _
  exact Preserves.bind booked_processUnlink (fun _ => Preserves.pure _)

theorem booked_processInjectLoop (argv : Addr) (i : Nat) (arguments : List (List Byte)) :
    Preserves System.Booked (oracle.below.processInjectLoop process argv i arguments) := by
  induction arguments generalizing i with
  | nil => exact Preserves.pure _
  | cons argument rest ih =>
    unfold Below.processInjectLoop
    apply Preserves.bind (booked_processMalloc _)
    intro argumentStr
    refine Preserves.ite (Preserves.pure _) ?_
    refine Preserves.bind ?_ (fun _ => ih _)
    exact Preserves.update (fun system booked => booked_free system _ system.kernel.pageDirectory booked)

theorem booked_processInjectArguments (arguments : List (List Byte)) :
    Preserves System.Booked (oracle.below.processInjectArguments process arguments) := by
  unfold Below.processInjectArguments
  refine Preserves.ite (Preserves.pure _) ?_
  apply Preserves.bind (booked_processMalloc _)
  intro argv
  refine Preserves.ite (Preserves.pure _) ?_
  apply Preserves.bind (booked_processInjectLoop _ _ _)
  intro res
  refine Preserves.ite (Preserves.pure _) ?_
  refine Preserves.bind (Preserves.update ?_) (fun _ => Preserves.pure _)
  intro system booked
  change (system.setKernel (system.kernel.setProcess process (fun record =>
    { record with arguments := ⟨BitVec.ofNat 32 arguments.length, argv⟩ }))).Booked
  exact booked.setProcess process (fun _ => ⟨rfl, rfl, rfl, rfl, rfl⟩) (fun _ => rfl)

end Serve

/-- Nothing is in use for the process. -/
def System.Bare (system : System) (process : Addr) : Prop :=
  ∀ part ptr, system.blocks ptr ≠ some (.owned part process)

/-- The program of the process is all that is in use for it. -/
def System.OnlyImage (system : System) (process : Addr) : Prop :=
  ∀ part ptr, system.blocks ptr = some (.owned part process) →
    (part = .image ∨ part = .elfFile) ∧ system.tables.Names process part ptr

/-- A program takes one new block, or two if it is an ELF file. -/
inductive ProgramTaken (process : Addr) (before : Addr → Option BlockUse) : (Addr → Option BlockUse) → Prop where
  | binary (ptr : Addr) (nonnull : ptr ≠ 0) (empty : before ptr = none) :
      ProgramTaken process before (Function.update before ptr (some (.owned .image process)))
  | elf (file memory : Addr) (nonnull : file ≠ 0) (empty : before file = none) (memoryNonnull : memory ≠ 0)
      (memoryEmpty : before memory = none) (different : memory ≠ file) :
      ProgramTaken process before (Function.update (Function.update before file (some (.owned .elfFile process)))
        memory (some (.owned .image process)))

/-- Blocks of the kernel's own besides those before. -/
inductive Spilled (before : Addr → Option BlockUse) : (Addr → Option BlockUse) → Prop where
  | done : Spilled before before
  | block {after : Addr → Option BlockUse} (ptr : Addr) (spilled : Spilled before after) (nonnull : ptr ≠ 0)
      (empty : after ptr = none) : Spilled before (Function.update after ptr (some .kernel))

/-- What a load that fails leaves in use besides what was: the record, what opening the file spilled, and the
program and the stack where it came so far. -/
inductive LeftInUse (process : Addr) (before : Addr → Option BlockUse) : (Addr → Option BlockUse) → Prop where
  | record {spilled : Addr → Option BlockUse}
      (spills : Spilled (Function.update before process (some .process)) spilled) :
      LeftInUse process before spilled
  | program {spilled after : Addr → Option BlockUse}
      (spills : Spilled (Function.update before process (some .process)) spilled)
      (taken : ProgramTaken process spilled after) : LeftInUse process before after
  | stack {spilled middle : Addr → Option BlockUse} (stack : Addr) (nonnull : stack ≠ 0)
      (spills : Spilled (Function.update before process (some .process)) spilled)
      (taken : ProgramTaken process spilled middle) (empty : middle stack = none) :
      LeftInUse process before (Function.update middle stack (some (.owned .stack process)))

section Load
variable {oracle : Oracle} {start system after made : System} {process out : Addr} {filename : List Byte}
  {res : Int} {i : Nat}

theorem Beside.named (beside : Beside start process system) (consistent : Consistent ∅ start)
    (booked : start.Booked) {other : Addr} (listed : start.tables.Lists other) : system.Named other := by
  intro part ptr own
  have record := consistent.record listed
  have different : other ≠ process := by
    rintro rfl
    rw [beside.fresh] at record
    cases record
  have old : start.blocks ptr = some (.owned part other) := by
    rcases beside.new ptr _ own with old | ⟨_, isRecord⟩ | ⟨kind, isOwn⟩ | isKernel
    · exact old
    · cases isRecord
    · cases isOwn
      exact absurd rfl different
    · cases isKernel
  obtain ⟨nonnull, i, bound, here⟩ := listed
  have loaded := consistent.entries i bound (here ▸ nonnull) (Set.notMem_empty _)
  rw [here] at loaded
  apply (booked.named other ⟨nonnull, i, bound, here⟩ part ptr old).congr
  · exact .of_eq (beside.records other different)
  · exact congrArg Process.allocations (beside.records other different)
  · apply beside.elfFiles
    rcases loaded.image with ⟨_, image⟩ | ⟨_, file, _⟩
    · rw [image]
      simp
    · rw [file]
      simp
  · apply beside.taskSpace
    rw [loaded.task]
    simp

theorem System.Spills.blocks (spills : system.Spills after) : Spilled system.blocks after.blocks := by
  induction spills with
  | done => exact .done
  | block _ nonnull empty ih => exact .block _ ih nonnull empty

theorem System.Bare.spills (bare : system.Bare process) (spills : system.Spills after) : after.Bare process := by
  induction spills with
  | done => exact bare
  | block _ _ _ ih =>
    intro part ptr own
    rw [System.mark_blocks] at own
    split at own
    · cases own
    · exact ih part ptr own

theorem System.Bare.loadData (bare : system.Bare process)
    (run : oracle.below.processLoadData filename process system = (.ok res, after)) :
    ∃ spilled, Spilled system.blocks spilled ∧ ((res < 0 ∧ after.blocks = spilled ∧ after.tables = system.tables) ∨
      (res = 0 ∧ ProgramTaken process spilled after.blocks ∧ after.OnlyImage process ∧
        (after.tables.processRecords process).task = (system.tables.processRecords process).task)) := by
  obtain ⟨spilled, spills, ends⟩ := processLoadData_below_ok run
  replace bare := bare.spills spills
  refine ⟨spilled.blocks, spills.blocks, ?_⟩
  rw [← spills.tables]
  rcases ends with
    ⟨negative, rfl⟩ | ⟨zero, ⟨ptr, size, nonnull, empty, blocks, tables⟩ |
      ⟨file, memory, nonnull, memoryNonnull, empty, memoryEmpty, blocks, tables⟩⟩
  · exact Or.inl ⟨negative, rfl, rfl⟩
  · have record : after.tables.processRecords process =
        (spilled.tables.processRecords process).withBinary ptr size := by
      rw [tables, Tables.setRecord_self]
    refine Or.inr ⟨zero, ?_, ?_, by rw [record]; rfl⟩
    · rw [blocks]
      exact .binary ptr nonnull empty
    · intro part target own
      rw [blocks, System.mark_blocks] at own
      split at own
      next new =>
        cases own
        have names := Tables.Names.binary (congrArg Process.filetype record)
        rw [record] at names
        exact ⟨Or.inl rfl, new ▸ names⟩
      next old => exact absurd own (bare part target)
  · have record : after.tables.processRecords process =
        (spilled.tables.processRecords process).withElf file := by
      rw [tables, Tables.setRecord_self]
      rfl
    refine Or.inr ⟨zero, ?_, ?_, by rw [record]; rfl⟩
    · rw [blocks]
      rw [System.mark_blocks] at memoryEmpty
      split at memoryEmpty
      · cases memoryEmpty
      next different => exact .elf file memory nonnull empty memoryNonnull memoryEmpty different
    · intro part target own
      have elf : (after.tables.processRecords process).filetype = processFiletypeElf :=
        congrArg Process.filetype record
      have place : (after.tables.processRecords process).ptr = file := congrArg Process.ptr record
      rw [blocks, System.mark_blocks] at own
      split at own
      next new =>
        cases own
        have names := Tables.Names.elfMemory elf
        have entry : after.tables.elfFiles file = ⟨memory, 0, 0, 0, 0⟩ := by
          rw [tables]
          exact Tables.setElfFile_self _ _ _
        rw [place, entry] at names
        exact ⟨Or.inl rfl, new ▸ names⟩
      next =>
        rw [System.mark_blocks] at own
        split at own
        next new =>
          cases own
          have names := Tables.Names.elfFile elf
          rw [place] at names
          exact ⟨Or.inr rfl, new ▸ names⟩
        next old => exact absurd own (bare part target)

/-- The tables once the stack and the task of a process are made. -/
def Tables.furnished (tables : Tables) (process : Addr) (filename : List Byte) (i : Nat) (stack task space : Addr) :
    Tables :=
  ((tables.setRecord process (Process.withStack filename stack i)).setTask task process space).setRecord
    process (Process.withTask task)

theorem Tables.furnished_record (tables : Tables) (process : Addr) (filename : List Byte) (i : Nat)
    (stack task space : Addr) :
    (tables.furnished process filename i stack task space).processRecords process = Process.withTask task
      (Process.withStack filename stack i (tables.processRecords process)) := by
  rw [Tables.furnished, Tables.setRecord_self]
  exact congrArg _ (Tables.setRecord_self _ _ _)

/-- The rest of a load block by block: no stack, or a stack, a task and its address space. -/
theorem processLoadRest_below_ok
    (run : oracle.below.processLoadRest filename process i system = (.ok (res, out), after)) :
    (res < 0 ∧ after = system) ∨ ∃ stack task space, stack ≠ 0 ∧ task ≠ 0 ∧ system.blocks stack = none ∧
      (system.mark stack (.owned .stack process)).blocks task = none ∧
      ((system.mark stack (.owned .stack process)).mark task (.owned .task process)).blocks space = none ∧
      after.blocks = (((system.mark stack (.owned .stack process)).mark task
        (.owned .task process)).mark space (.owned .space process)).blocks ∧
      ((res < 0 ∧ after.tables = system.tables.furnished process filename i stack task space) ∨
        (0 ≤ res ∧ out = process ∧
          after.tables = (system.tables.furnished process filename i stack task space).setSlot i process)) := by
  unfold Below.processLoadRest at run
  obtain ⟨stack, stacked, allocated, rest⟩ := bind_eq_ok run
  rcases below_kzalloc_ok (by decide) allocated with ⟨null, rfl⟩ | ⟨stackNonnull, stackEmpty, rfl⟩
  · rw [if_pos null] at rest
    cases rest
    exact Or.inl ⟨by decide, rfl⟩
  right
  rw [if_neg stackNonnull, below_update_bind] at rest
  obtain ⟨task, tasked, created, rest⟩ := bind_eq_ok rest
  obtain ⟨space, taskNonnull, taskEmpty, _, spaceEmpty, blocks, tables⟩ := taskNew_below_ok created
  rw [if_neg taskNonnull, below_update_bind] at rest
  obtain ⟨mapped, made, mapping, rest⟩ := bind_eq_ok rest
  cases mapping
  have furnished : (tasked.setKernel (tasked.kernel.setProcess process (Process.withTask task))).tables =
      system.tables.furnished process filename i stack task space := by
    rw [System.setProcess_tables, tables]
    rfl
  refine ⟨stack, task, space, stackNonnull, taskNonnull, stackEmpty, taskEmpty, spaceEmpty, ?_⟩
  split at rest
  next failed =>
    cases rest
    exact ⟨blocks, Or.inl ⟨failed, furnished⟩⟩
  next succeeded =>
    rw [below_update_bind] at rest
    cases rest
    exact ⟨blocks, Or.inr ⟨by omega, rfl, congrArg (·.setSlot i process) furnished⟩⟩

theorem System.OnlyImage.furnish {stack task space : Addr} (only : system.OnlyImage process)
    (blocks : after.blocks = (((system.mark stack (.owned .stack process)).mark task
      (.owned .task process)).mark space (.owned .space process)).blocks)
    (record : after.tables.processRecords process = Process.withTask task
      (Process.withStack filename stack i (system.tables.processRecords process)))
    (elfFiles : after.tables.elfFiles = system.tables.elfFiles)
    (taskSpace : after.tables.taskSpace task = space) : after.Named process := by
  intro part ptr own
  have isTask : (after.tables.processRecords process).task = task := congrArg Process.task record
  rw [blocks, System.mark_blocks] at own
  split at own
  next new =>
    cases own
    rw [new, ← taskSpace, ← isTask]
    exact .space
  next =>
    rw [System.mark_blocks] at own
    split at own
    next new =>
      cases own
      rw [new, ← isTask]
      exact .task
    next =>
      rw [System.mark_blocks] at own
      split at own
      next new =>
        cases own
        rw [new, ← show (after.tables.processRecords process).stack = stack from congrArg Process.stack record]
        exact .stack
      next =>
        obtain ⟨isImage, names⟩ := only part ptr own
        have place : (after.tables.processRecords process).ptr = (system.tables.processRecords process).ptr := by
          rw [record]
          rfl
        have kind : (after.tables.processRecords process).filetype =
            (system.tables.processRecords process).filetype := by
          rw [record]
          rfl
        cases names with
        | binary filetype =>
          rw [← place]
          exact .binary (kind.trans filetype)
        | elfFile filetype =>
          rw [← place]
          exact .elfFile (kind.trans filetype)
        | elfMemory filetype =>
          rw [← elfFiles, ← place]
          exact .elfMemory (kind.trans filetype)
        | task | space | stack | data => simp at isImage

end Load

section Ends
variable {oracle : Oracle} {start system after : System} {process out : Addr} {filename : List Byte} {res : Int}
  {i : Nat}

theorem taskFree_furnished {stack task space : Addr} {code : Int}
    (taskEmpty : (system.mark stack (.owned .stack process)).blocks task = none)
    (spaceEmpty : ((system.mark stack (.owned .stack process)).mark task (.owned .task process)).blocks space = none)
    (blocks : start.blocks = (((system.mark stack (.owned .stack process)).mark task
      (.owned .task process)).mark space (.owned .space process)).blocks)
    (tables : start.tables = system.tables.furnished process filename i stack task space)
    (run : oracle.below.taskFree (start.tables.processRecords process).task start = (.ok code, after)) :
    after.blocks = (system.mark stack (.owned .stack process)).blocks := by
  obtain ⟨_, _, _, freed, _⟩ := taskFree_below_ok run
  have isTask : (start.tables.processRecords process).task = task := by
    rw [tables, Tables.furnished_record]
    rfl
  have isSpace : start.tables.taskSpace task = space := by
    rw [tables]
    exact (Tables.setTask_self _ task process space).2
  rw [isTask, isSpace] at freed
  rw [freed]
  have first : (start.release space).blocks = ((system.mark stack (.owned .stack process)).mark task
      (.owned .task process)).blocks := by
    rw [← System.mark_release spaceEmpty (.owned .space process)]
    unfold System.release
    rw [blocks]
  have second := congrArg System.blocks (System.mark_release taskEmpty (.owned .task process))
  rw [← second]
  unfold System.release at first ⊢
  rw [first]

theorem processLoadOut_taskless (taskless : (system.tables.processRecords process).task = 0)
    (run : oracle.below.processLoadOut process res system = (.ok (), after)) : after = system := by
  rcases processLoadOut_below_ok run with ⟨_, same⟩ | ⟨_, code, free⟩
  · exact same
  · exact absurd taskless (taskFree_below_ok free).1

theorem System.mark_bare (consistent : Consistent ∅ start)
    (fresh : start.blocks process = none) (kernel : Kernel) :
    ((start.mark process .process).setKernel kernel).Bare process := by
  intro part ptr own
  rw [System.setKernel_blocks, System.mark_blocks] at own
  split at own
  · cases own
  · have record := consistent.owners ptr part process own
    rw [fresh] at record
    cases record

/-- Block by block: a load that fails leaves what it had by then but for the task; one that succeeds makes
a process that names all that it has. -/
theorem processLoadForSlot_books (consistent : Consistent ∅ start) (bound : i < peachosMaxProcesses)
    (free : start.tables.processes i = 0)
    (run : oracle.below.processLoadForSlot filename i start = (.ok (res, out), after)) :
    (res < 0 ∧ (after.blocks = start.blocks ∨
        ∃ process, start.blocks process = none ∧ LeftInUse process start.blocks after.blocks)) ∨
      (0 ≤ res ∧ after.Named out) := by
  have empty : processGet start.kernel i = 0 := by
    unfold processGet
    rw [if_neg (by omega)]
    exact free
  unfold Below.processLoadForSlot at run
  rw [below_read_bind, empty, if_neg (by simp)] at run
  obtain ⟨process, marked, allocated, rest⟩ := bind_eq_ok run
  rcases below_kzalloc_ok (by decide) allocated with ⟨null, rfl⟩ | ⟨nonnull, fresh, rfl⟩
  · rw [if_pos null] at rest
    cases rest
    exact Or.inl ⟨by decide, Or.inl rfl⟩
  rw [if_neg nonnull, below_update_bind] at rest
  obtain ⟨loaded, filled, loading, rest⟩ := bind_eq_ok rest
  obtain ⟨⟨mapped, made⟩, ready, building, rest⟩ := bind_eq_ok rest
  obtain ⟨_, last, ending, returned⟩ := bind_eq_ok rest
  cases returned
  have bare := System.mark_bare consistent fresh (start.kernel.setProcess process (fun _ => Process.zero))
  have zero : (((start.mark process .process).setKernel (start.kernel.setProcess process
      (fun _ => Process.zero))).tables.processRecords process).task = 0 :=
    congrArg Process.task (Tables.setRecord_self start.tables process (fun _ => Process.zero))
  obtain ⟨spilled, spills, ⟨negative, blocks, tables⟩ | ⟨rfl, taken, only, taskless⟩⟩ := bare.loadData loading
  · rw [if_pos negative] at building
    cases building
    rw [← tables] at zero
    rw [processLoadOut_taskless zero ending, blocks]
    exact Or.inl ⟨negative, Or.inr ⟨process, fresh, .record spills⟩⟩
  rw [if_neg (by decide)] at building
  rcases processLoadRest_below_ok building with ⟨negative, rfl⟩ |
    ⟨stack, task, space, stackNonnull, taskNonnull, stackEmpty, taskEmpty, spaceEmpty, blocks,
      ⟨negative, tables⟩ | ⟨proper, rfl, tables⟩⟩
  · rw [processLoadOut_taskless (taskless.trans zero) ending]
    exact Or.inl ⟨negative, Or.inr ⟨process, fresh, .program spills taken⟩⟩
  · refine Or.inl ⟨negative, Or.inr ⟨process, fresh, ?_⟩⟩
    rcases processLoadOut_below_ok ending with ⟨kept, rfl⟩ | ⟨_, code, free⟩
    · refine absurd ⟨negative, ?_⟩ kept
      rw [tables, Tables.furnished_record]
      exact taskNonnull
    · rw [taskFree_furnished taskEmpty spaceEmpty blocks tables free]
      exact .stack stack stackNonnull spills taken stackEmpty
  · refine Or.inr ⟨proper, ?_⟩
    rcases processLoadOut_below_ok ending with ⟨_, rfl⟩ | ⟨failed, _⟩
    · apply only.furnish blocks
      · rw [tables]
        exact Tables.furnished_record _ _ _ _ _ _ _
      · rw [tables]
        rfl
      · rw [tables]
        exact (Tables.setTask_self _ task out space).2
    · omega

theorem processLoad_books (consistent : Consistent ∅ start)
    (run : oracle.below.processLoad filename start = (.ok (res, out), after)) :
    (res < 0 ∧ (after.blocks = start.blocks ∨
        ∃ process, start.blocks process = none ∧ LeftInUse process start.blocks after.blocks)) ∨
      (0 ≤ res ∧ after.Named out) := by
  unfold Below.processLoad at run
  rw [below_read_bind] at run
  rcases processGetFreeSlot_spec start.kernel with ⟨full, _⟩ | ⟨i, bound, slot, free, _⟩
  · rw [full, if_pos (by decide)] at run
    cases run
    exact Or.inl ⟨by decide, Or.inl rfl⟩
  · rw [slot, if_neg (by omega)] at run
    exact processLoadForSlot_books consistent bound free run

theorem processLoad_booked (consistent : Consistent ∅ start) (booked : start.Booked)
    (run : oracle.below.processLoad filename start = (.ok (res, out), after)) : after.Booked := by
  have books := processLoad_books consistent run
  cases processLoad_outcome consistent run with
  | full taken => exact booked
  | short => exact booked
  | failed res process after negative abandoned =>
    refine ⟨abandoned.beside.null, ?_⟩
    intro other listed
    unfold Tables.Lists at listed
    rw [abandoned.beside.processes] at listed
    exact abandoned.beside.named consistent booked listed
  | loaded res process i made after proper bound free lowest complete blocks tables =>
    refine ⟨by rw [blocks]; exact complete.beside.null, ?_⟩
    intro other listed
    have slots : after.tables.processes = Function.update start.tables.processes i out := by
      rw [tables, ← complete.beside.processes]
      rfl
    rcases Tables.Lists.entered listed slots with rfl | old
    · exact (books.resolve_left (fun failed => absurd failed.1 (by omega))).2
    · intro part ptr own
      rw [blocks] at own
      have names := complete.beside.named consistent booked old part ptr own
      rw [tables]
      exact names.congr (.of_eq rfl) rfl rfl rfl

theorem processLoadSwitch_booked (consistent : Consistent ∅ start) (booked : start.Booked)
    (run : oracle.below.processLoadSwitch filename start = (.ok (res, out), after)) : after.Booked := by
  unfold Below.processLoadSwitch at run
  obtain ⟨⟨result, process⟩, middle, load, rest⟩ := bind_eq_ok run
  have loaded := processLoad_booked consistent booked load
  dsimp only at rest
  split at rest
  · cases rest
    exact loaded.retabled rfl (fun _ listed => listed) (fun _ => ⟨.of_eq rfl, rfl⟩) rfl rfl
  · cases rest
    exact loaded

end Ends

end PeachOS
