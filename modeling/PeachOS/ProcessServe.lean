import PeachOS.ProcessEnd

/-! Calls on a process that is in the table, over the abstract heap: `process_malloc`, the
injection of arguments, and the switch of the current process. -/

namespace PeachOS
open Program Search

theorem Tables.setRecord_part {α : Type} (part : Process → α) (tables : Tables) {process : Addr}
    {change : Process → Process}
    (same : part (change (tables.processRecords process)) = part (tables.processRecords process))
    (other : Addr) : part ((tables.setRecord process change).processRecords other) =
      part (tables.processRecords other) := by
  unfold Tables.setRecord
  dsimp only
  rw [Function.update_apply]
  split
  next here => rw [here, same]
  · rfl

def Process.join (index : Nat) (ptr : Addr) (size : Word) (record : Process) : Process :=
  { record with allocations := Function.update record.allocations index ⟨ptr, size⟩ }

section Keep
variable {before after system : System} {process ptr : Addr} {use : BlockUse} {i : Nat}

theorem Consistent.marked (consistent : Consistent ∅ before) (nonnull : ptr ≠ 0)
    (empty : before.blocks ptr = none)
    (owner : ∀ part process, use = .owned part process →
      part ≠ .task ∧ before.blocks process = some .process)
    (blocks : after.blocks = (before.mark ptr use).blocks) (tables : after.tables = before.tables) :
    Consistent ∅ after := by
  have grows : before.Grows after := System.Grows.mark empty blocks
  have old : ∀ target found, after.blocks target = some found → target ≠ ptr →
      before.blocks target = some found := by
    intro target found here other
    rw [blocks, System.mark_blocks, if_neg other] at here
    exact here
  have new : ∀ found, after.blocks ptr = some found → found = use := by
    intro found here
    rw [blocks, System.mark_blocks, if_pos rfl] at here
    exact (Option.some.inj here).symm
  constructor
  · rw [blocks, System.mark_blocks, if_neg nonnull.symm, consistent.null]
  · intro target part process own
    by_cases isNew : target = ptr
    · subst isNew
      exact grows _ _ (owner part process (new _ own).symm).2
    · exact grows _ _ (consistent.owners target part process (old _ _ own isNew))
  · intro j bound taken apart
    rw [tables] at taken ⊢
    apply (consistent.entries j bound taken (Set.notMem_empty _)).keep
    · rintro target (here | ⟨part, here⟩)
      · rw [here, grows _ _ here]
      · rw [here, grows _ _ here]
    · exact .of_eq (by rw [tables])
    · rw [tables]
    · intro target part here
      rw [tables]
      exact ⟨rfl, rfl, rfl⟩
  · intro task process own
    rw [tables]
    by_cases isNew : task = ptr
    · subst isNew
      exact absurd rfl (owner .task process (new _ own).symm).1
    · exact consistent.tasks task process (old _ _ own isNew)

theorem Consistent.retabled (consistent : Consistent ∅ before) (blocks : after.blocks = before.blocks)
    (processes : after.tables.processes = before.tables.processes)
    (records : ∀ process,
      (after.tables.processRecords process).SameHoldings (before.tables.processRecords process) ∧
      (after.tables.processRecords process).allocations =
        (before.tables.processRecords process).allocations)
    (elfFiles : after.tables.elfFiles = before.tables.elfFiles)
    (taskProcess : after.tables.taskProcess = before.tables.taskProcess)
    (taskSpace : after.tables.taskSpace = before.tables.taskSpace) : Consistent ∅ after where
  null := blocks ▸ consistent.null
  owners := blocks ▸ consistent.owners
  entries := by
    intro j bound taken apart
    rw [processes] at taken ⊢
    apply (consistent.entries j bound taken (Set.notMem_empty _)).keep
    · exact fun target _ => congrFun blocks target
    · exact (records _).1
    · exact (records _).2
    · intro target part here
      rw [elfFiles, taskProcess, taskSpace]
      exact ⟨rfl, rfl, rfl⟩
  tasks := by
    intro task process own
    rw [blocks] at own
    rw [processes, (records process).1.task]
    exact consistent.tasks task process own

theorem Consistent.joined (consistent : Consistent ∅ before) {size : Word} {index : Nat}
    (own : before.blocks ptr = some (.owned .data process)) (blocks : after.blocks = before.blocks)
    (tables : after.tables = before.tables.setRecord process (Process.join index ptr size)) :
    Consistent ∅ after := by
  have slots : after.tables.processes = before.tables.processes := by
    rw [tables]
    rfl
  constructor
  · rw [blocks]
    exact consistent.null
  · rw [blocks]
    exact consistent.owners
  · intro j bound taken apart
    rw [slots] at taken ⊢
    have loaded := consistent.entries j bound taken (Set.notMem_empty _)
    by_cases same : before.tables.processes j = process
    · rw [same] at loaded ⊢
      have record : after.tables.processRecords process = _ :=
        (congrArg (fun tables => tables.processRecords process) tables).trans
          (Tables.setRecord_self _ _ _)
      apply loaded.rebuild
      · intro target use here _ _
        rw [blocks, here]
      · rw [record]
        exact ⟨rfl, rfl, rfl, rfl, rfl⟩
      · intro target part here
        rw [tables]
        exact ⟨rfl, rfl, rfl⟩
      · intro k within
        rw [record, blocks]
        unfold Process.join
        dsimp only
        by_cases here : k = index
        · rw [here, Function.update_self]
          exact Or.inr own
        · rw [Function.update_of_ne here]
          exact loaded.data k within
    · have other : (before.tables.setRecord process (Process.join index ptr size)).processRecords
          (before.tables.processes j) = before.tables.processRecords (before.tables.processes j) :=
        Tables.setRecord_other same
      apply loaded.keep
      · exact fun target _ => congrFun blocks target
      · rw [tables]
        exact .of_eq other
      · rw [tables]
        exact congrArg Process.allocations other
      · intro target part here
        rw [tables]
        exact ⟨rfl, rfl, rfl⟩
  · intro task owner own
    rw [blocks] at own
    have points : (after.tables.processRecords owner).task =
        (before.tables.processRecords owner).task := by
      rw [tables]
      exact Tables.setRecord_part Process.task _ rfl owner
    rw [slots, points]
    exact consistent.tasks task owner own

end Keep

/-- Work on a listed process that takes blocks of data and changes its record at most. -/
structure Served (process : Addr) (before after : System) : Prop where
  consistent : Consistent ∅ after
  grows : before.Grows after
  processes : after.tables.processes = before.tables.processes
  current : after.tables.currentProcess = before.tables.currentProcess
  screen : after.tables.screen = before.tables.screen
  shell : ∀ other,
    (after.tables.processRecords other).shell = (before.tables.processRecords other).shell

section Serve
variable {oracle : Oracle} {before middle after system : System} {process ptr : Addr} {size : Word}

theorem Served.refl (process : Addr) (consistent : Consistent ∅ system) :
    Served process system system :=
  ⟨consistent, fun _ _ here => here, rfl, rfl, rfl, fun _ => rfl⟩

theorem Served.trans (first : Served process before middle) (second : Served process middle after) :
    Served process before after where
  consistent := second.consistent
  grows := first.grows.trans second.grows
  processes := second.processes.trans first.processes
  current := second.current.trans first.current
  screen := second.screen.trans first.screen
  shell := fun other => (second.shell other).trans (first.shell other)

theorem System.mark_release (empty : system.blocks ptr = none) (use : BlockUse) :
    (system.mark ptr use).release ptr = system := by
  unfold System.release System.mark
  dsimp only
  rw [Function.update_idem, ← empty, Function.update_eq_self]

theorem System.serve_release (empty : system.blocks ptr = none) (use : BlockUse) (size : Word) :
    (system.serve ptr use size).release ptr = system := by
  by_cases roundable : Roundable size
  · rw [System.serve_mark roundable, System.mark_release empty]
  · unfold System.release
    rw [System.serve_nothing roundable, ← empty, Function.update_eq_self]

theorem processMalloc_below_ends
    (run : oracle.below.processMalloc process size before = (.ok ptr, after)) :
    (ptr = 0 ∧ after = before) ∨
      (ptr ≠ 0 ∧ ptr = oracle.pick before size ∧ before.blocks ptr = none ∧
        ∃ index < peachosMaxProgramAllocations,
          ((before.kernel.processRecords process).allocations index).ptr = 0 ∧
          after = (before.serve ptr (.owned .data process) size).setKernel
            (before.kernel.recordAllocation process index ptr size)) := by
  unfold Below.processMalloc at run
  obtain ⟨block, taken, allocated, rest⟩ := bind_eq_ok run
  have picked := below_kzalloc_pick allocated
  rcases below_kzalloc_served allocated with ⟨null, rfl⟩ | ⟨nonnull, empty, rfl⟩
  · rw [if_pos null] at rest
    cases rest
    exact Or.inl ⟨rfl, rfl⟩
  rw [if_neg nonnull, below_read_bind] at rest
  split at rest
  · cases rest
    exact Or.inl ⟨rfl, System.serve_release empty _ _⟩
  next found =>
    obtain ⟨directory, paged, page, rest⟩ := bind_eq_ok rest
    obtain ⟨kernel, looked, rfl⟩ := below_kernel_ok page
    obtain ⟨_, rfl⟩ := processPageDirectory_ok looked
    obtain ⟨res, mapped, mapping, rest⟩ := bind_eq_ok rest
    cases mapping
    split at rest
    · cases rest
      exact Or.inl ⟨rfl, System.serve_release empty _ _⟩
    · cases rest
      refine Or.inr ⟨nonnull, picked, empty, ?_⟩
      rcases processFindFreeAllocationIndex_spec (before.kernel.processRecords process) with
        none | ⟨index, bound, same, free⟩
      · exact absurd none (fun none => found (none ▸ by decide))
      · refine ⟨index, bound, free, ?_⟩
        have slot : (processFindFreeAllocationIndex (before.kernel.processRecords process)).toNat = index := by
          rw [same]
          rfl
        rw [← slot]
        rfl

theorem processMalloc_below_ok (roundable : Roundable size)
    (run : oracle.below.processMalloc process size before = (.ok ptr, after)) :
    (after.blocks = before.blocks ∧ after.tables = before.tables) ∨
      (ptr ≠ 0 ∧ before.blocks ptr = none ∧
        after.blocks = (before.mark ptr (.owned .data process)).blocks ∧
        ∃ index, after.tables = before.tables.setRecord process (Process.join index ptr size)) := by
  rcases processMalloc_below_ends run with ⟨_, rfl⟩ | ⟨nonnull, _, empty, index, _, _, rfl⟩
  · exact Or.inl ⟨rfl, rfl⟩
  · rw [System.serve_mark roundable]
    exact Or.inr ⟨nonnull, empty, rfl, index, rfl⟩

theorem processMalloc_served (consistent : Consistent ∅ before)
    (record : before.blocks process = some .process) (roundable : Roundable size)
    (run : oracle.below.processMalloc process size before = (.ok ptr, after)) :
    Served process before after := by
  rcases processMalloc_below_ok roundable run with ⟨blocks, tables⟩ | ⟨nonnull, empty, blocks, index, tables⟩
  · refine ⟨consistent.congr blocks tables, System.Grows.congr blocks, ?_, ?_, ?_, ?_⟩ <;> rw [tables]
    exact fun _ => rfl
  · have marked : Consistent ∅ (before.mark ptr (.owned .data process)) := by
      apply consistent.marked nonnull empty _ rfl rfl
      intro part owner same
      cases same
      exact ⟨by decide, record⟩
    have own : (before.mark ptr (.owned .data process)).blocks ptr =
        some (.owned .data process) := by simp
    refine ⟨marked.joined own blocks tables, System.Grows.mark empty blocks, ?_, ?_, ?_, ?_⟩ <;>
      rw [tables]
    iterate 3 rfl
    exact Tables.setRecord_part Process.shell _ rfl

theorem Served.setKernel {kernel : Kernel} (consistent : Consistent ∅ before)
    (tables : kernel.tables = before.tables) : Served process before (before.setKernel kernel) := by
  have same : (before.setKernel kernel).tables = before.tables := tables
  refine ⟨consistent.congr rfl same, fun _ _ here => here, ?_, ?_, ?_, ?_⟩ <;> rw [same]
  exact fun _ => rfl

theorem System.setProcess_part {α : Type} (part : Process → α) (system : System) (process other : Addr)
    {change : Process → Process} (same : ∀ record, part (change record) = part record) :
    part ((system.setKernel (system.kernel.setProcess process change)).tables.processRecords other) =
      part (system.tables.processRecords other) := by
  rw [System.setProcess_tables]
  exact Tables.setRecord_part part _ (same _) other

theorem Consistent.setProcess {change : Process → Process} (consistent : Consistent ∅ before)
    (holdings : ∀ record, (change record).SameHoldings record)
    (allocations : ∀ record, (change record).allocations = record.allocations) :
    Consistent ∅ (before.setKernel (before.kernel.setProcess process change)) := by
  apply consistent.retabled
  · rfl
  · rfl
  · intro other
    constructor
    · constructor
      · exact before.setProcess_part Process.id process other (fun record => (holdings record).id)
      · exact before.setProcess_part Process.task process other (fun record => (holdings record).task)
      · exact before.setProcess_part Process.stack process other (fun record => (holdings record).stack)
      · exact before.setProcess_part Process.filetype process other
          (fun record => (holdings record).filetype)
      · exact before.setProcess_part Process.ptr process other (fun record => (holdings record).ptr)
    · exact before.setProcess_part Process.allocations process other allocations
  · rfl
  · rfl
  · rfl

theorem Served.setRecord {change : Process → Process} (consistent : Consistent ∅ before)
    (holdings : ∀ record, (change record).SameHoldings record)
    (allocations : ∀ record, (change record).allocations = record.allocations)
    (shell : ∀ record, (change record).shell = record.shell) :
    Served process before (before.setKernel (before.kernel.setProcess process change)) where
  consistent := consistent.setProcess holdings allocations
  grows := fun _ _ here => here
  processes := rfl
  current := rfl
  screen := rfl
  shell := fun other => before.setProcess_part Process.shell process other shell

theorem processInjectLoop_served {argv : Addr} {res : Int} (i : Nat) (arguments : List (List Byte))
    (consistent : Consistent ∅ before) (record : before.blocks process = some .process)
    (run : oracle.below.processInjectLoop process argv i arguments before = (.ok res, after)) :
    Served process before after := by
  induction arguments generalizing i before with
  | nil =>
    cases run
    exact Served.refl process consistent
  | cons argument rest ih =>
    unfold Below.processInjectLoop at run
    obtain ⟨argumentStr, allocated, malloc, run⟩ := bind_eq_ok run
    have served := processMalloc_served consistent record (by decide) malloc
    split at run
    · cases run
      exact served
    · rw [below_update_bind] at run
      have stored : Served process allocated (allocated.setKernel (allocated.kernel.setMemory
          { allocated.kernel.memory with
            bytes := ByteMemory.store32 (ByteMemory.storeBytes allocated.kernel.memory.bytes argumentStr
              (strncpy argument 512)) (argv + BitVec.ofNat 32 (4 * i)) argumentStr })) :=
        Served.setKernel served.consistent rfl
      have both := served.trans stored
      exact both.trans (ih (i + 1) both.consistent (both.grows _ _ record) run)

theorem roundable_argv {count : Nat} (some : count ≠ 0) (bounded : 4 * count ≤ 0xFFFFF000) :
    Roundable (BitVec.ofNat 32 (4 * count)) := by
  unfold Roundable
  rw [BitVec.toNat_ofNat, Nat.mod_eq_of_lt (by omega)]
  omega

theorem processInjectArguments_served {res : Int} (arguments : List (List Byte))
    (consistent : Consistent ∅ before) (record : before.blocks process = some .process)
    (bounded : 4 * arguments.length ≤ 0xFFFFF000)
    (run : oracle.below.processInjectArguments process arguments before = (.ok res, after)) :
    Served process before after := by
  unfold Below.processInjectArguments at run
  split at run
  · cases run
    exact Served.refl process consistent
  next some =>
    obtain ⟨argv, allocated, malloc, run⟩ := bind_eq_ok run
    have served := processMalloc_served consistent record (roundable_argv some bounded) malloc
    split at run
    · cases run
      exact served
    · obtain ⟨injected, filled, loop, run⟩ := bind_eq_ok run
      have both := served.trans
        (processInjectLoop_served 0 arguments served.consistent (served.grows _ _ record) loop)
      split at run
      · cases run
        exact both
      · rw [below_update_bind] at run
        cases run
        exact both.trans (Served.setRecord both.consistent (fun _ => ⟨rfl, rfl, rfl, rfl, rfl⟩)
          (fun _ => rfl) (fun _ => rfl))

end Serve

/-- What a load does to the kernel around it, however it ends. -/
structure LoadEffect (before after : System) : Prop where
  consistent : Consistent ∅ after
  grows : before.Grows after
  current : after.tables.currentProcess = before.tables.currentProcess
  screen : after.tables.screen = before.tables.screen
  shell : ∀ process,
    (after.tables.processRecords process).shell = (before.tables.processRecords process).shell ∨
    before.blocks process = none ∧ (after.tables.processRecords process).shell = 0

section Load
variable {oracle : Oracle} {before after made : System} {process out : Addr} {res : Int}
  {filename : List Byte} {i : Nat}

theorem Beside.grows (beside : Beside before process after) : before.Grows after := by
  intro ptr use here
  rw [beside.kept ptr (by rw [here]; simp), here]

theorem Beside.shell (beside : Beside before process after)
    (zero : (after.tables.processRecords process).shell = 0) (other : Addr) :
    (after.tables.processRecords other).shell = (before.tables.processRecords other).shell ∨
      before.blocks other = none ∧ (after.tables.processRecords other).shell = 0 := by
  by_cases same : other = process
  · rw [same]
    exact Or.inr ⟨beside.fresh, zero⟩
  · exact Or.inl (congrArg Process.shell (beside.records other same))

theorem LoadOutcome.effect (consistent : Consistent ∅ before)
    (outcome : LoadOutcome before res out after) : LoadEffect before after := by
  have kept := consistent.load outcome
  cases outcome with
  | full taken => exact ⟨kept, fun _ _ here => here, rfl, rfl, fun _ => Or.inl rfl⟩
  | short => exact ⟨kept, fun _ _ here => here, rfl, rfl, fun _ => Or.inl rfl⟩
  | failed res process after negative abandoned =>
    have beside := abandoned.beside
    exact ⟨kept, beside.grows, beside.current, beside.screen, beside.shell abandoned.shell⟩
  | loaded res process i made after proper bound free lowest complete blocks tables =>
    have beside := complete.beside
    refine ⟨kept, beside.grows.trans (System.Grows.congr blocks), ?_, ?_, ?_⟩ <;> rw [tables]
    · exact beside.current
    · exact beside.screen
    · exact beside.shell complete.shell

theorem LoadOutcome.entered (proper : 0 ≤ res)
    (outcome : LoadOutcome before res out after) : out ≠ 0 ∧ after.blocks out = some .process ∧
      ∃ i < peachosMaxProcesses, before.tables.processes i = 0 ∧
        after.tables.processes = Function.update before.tables.processes i out := by
  cases outcome with
  | full taken => exact absurd proper (by decide)
  | short => exact absurd proper (by decide)
  | failed res process after negative abandoned => omega
  | loaded res process i made after _ bound free lowest complete blocks tables =>
    refine ⟨?_, ?_, i, bound, free, ?_⟩
    · rintro rfl
      have record := complete.beside.own
      rw [complete.beside.null] at record
      cases record
    · rw [blocks]
      exact complete.beside.own
    · rw [tables, ← complete.beside.processes]
      rfl

theorem LoadOutcome.fresh (proper : 0 ≤ res) (outcome : LoadOutcome before res out after) :
    before.blocks out = none := by
  cases outcome with
  | full taken => exact absurd proper (by decide)
  | short => exact absurd proper (by decide)
  | failed res process after negative abandoned => omega
  | loaded res process i made after _ bound free lowest complete blocks tables => exact complete.beside.fresh

theorem LoadOutcome.mute (proper : 0 ≤ res) (outcome : LoadOutcome before res out after) :
    (after.tables.processRecords out).shell = 0 := by
  cases outcome with
  | full taken => exact absurd proper (by decide)
  | short => exact absurd proper (by decide)
  | failed res process after negative abandoned => omega
  | loaded res process i made after _ bound free lowest complete blocks tables =>
    rw [tables]
    exact complete.shell

theorem LoadOutcome.refused (negative : res < 0) (outcome : LoadOutcome before res out after) :
    after.tables.processes = before.tables.processes := by
  cases outcome with
  | full taken => rfl
  | short => rfl
  | failed res process after _ abandoned => exact abandoned.beside.processes
  | loaded res process i made after proper bound free lowest complete blocks tables => omega

theorem processLoadSwitch_below_ok (consistent : Consistent ∅ before)
    (run : oracle.below.processLoadSwitch filename before = (.ok (res, out), after)) :
    ∃ middle, LoadOutcome before res out middle ∧ after.blocks = middle.blocks ∧
      after.tables = { middle.tables with
        currentProcess := if res = 0 then out else middle.tables.currentProcess } := by
  unfold Below.processLoadSwitch at run
  obtain ⟨⟨result, process⟩, middle, load, rest⟩ := bind_eq_ok run
  dsimp only at rest
  split at rest
  next zero =>
    cases rest
    refine ⟨middle, processLoad_outcome consistent load, rfl, ?_⟩
    rw [if_pos zero]
    rfl
  next nonzero =>
    cases rest
    refine ⟨_, processLoad_outcome consistent load, rfl, ?_⟩
    rw [if_neg nonzero]

end Load

end PeachOS
