import PeachOS.Process

/-! Everything that `process_malloc` and `process_free` can do, once for all the
invariants that follow. -/

namespace PeachOS
open Program ByteMemory Search

theorem processFindFreeAllocationIndex_spec (record : Process) :
    processFindFreeAllocationIndex record = -ENOMEM ∨
      ∃ i < peachosMaxProgramAllocations, processFindFreeAllocationIndex record = i ∧
        (record.allocations i).ptr = 0 := by
  unfold processFindFreeAllocationIndex
  split
  next i first =>
    obtain ⟨bound, here, _⟩ := firstIndex_some first
    exact Or.inr ⟨i, bound, rfl, eq_of_beq here⟩
  next => exact Or.inl rfl

theorem processFindFreeAllocationIndex_full {record : Process}
    (full : ∀ i < peachosMaxProgramAllocations, (record.allocations i).ptr ≠ 0) :
    processFindFreeAllocationIndex record < 0 := by
  rcases processFindFreeAllocationIndex_spec record with none | ⟨i, bound, _, empty⟩
  · rw [none]
    decide
  · exact absurd empty (full i bound)

theorem processFindFreeAllocationIndex_empty {record : Process} {i : Nat} (bound : i < peachosMaxProgramAllocations)
    (empty : (record.allocations i).ptr = 0) :
    ∃ index < peachosMaxProgramAllocations, processFindFreeAllocationIndex record = index ∧
      (record.allocations index).ptr = 0 := by
  unfold processFindFreeAllocationIndex
  split
  next index first =>
    obtain ⟨inside, here, _⟩ := firstIndex_some first
    exact ⟨index, inside, rfl, eq_of_beq here⟩
  next none =>
    have missing := firstIndex_none none bound
    rw [empty, beq_self_eq_true] at missing
    cases missing

theorem processFindFreeAllocationIndex_first {record : Process} (empty : (record.allocations 0).ptr = 0) :
    processFindFreeAllocationIndex record = (0 : Nat) := by
  unfold processFindFreeAllocationIndex
  have first : firstIndex peachosMaxProgramAllocations (fun i => (record.allocations i).ptr == 0) =
      some 0 :=
    firstIndex_eq (by decide) (beq_iff_eq.mpr empty) (fun j earlier => absurd earlier (Nat.not_lt_zero j))
  rw [first]

/-- `process->task->page_directory` as a value. -/
def Kernel.directoryOf (kernel : Kernel) (process : Addr) : Addr :=
  (kernel.tasks (kernel.processRecords process).task).pageDirectory

theorem processPageDirectory_ok {kernel after : Kernel} {process directory : Addr}
    (run : processPageDirectory process kernel = (.ok directory, after)) :
    directory = kernel.directoryOf process ∧ after = kernel := by
  unfold processPageDirectory at run
  rw [read_bind] at run
  split at run
  · cases run
  · obtain ⟨same, rfl⟩ := Prod.mk.inj run
    exact ⟨(Except.ok.inj same).symm, rfl⟩

theorem processPageDirectory_run {kernel : Kernel} {process : Addr}
    (task : (kernel.processRecords process).task ≠ 0) :
    processPageDirectory process kernel = (.ok (kernel.directoryOf process), kernel) := by
  unfold processPageDirectory
  rw [read_bind, if_neg task]
  rfl

/-- The identity mapping of `size` bytes from `ptr` into the process's pages. -/
def mapOwn (bytes : Bytes) (directory ptr : Addr) (size flags : Word) : Int × Bytes :=
  pagingMapTo bytes directory ptr ptr (pagingAlignAddress (ptr + size)) flags

abbrev ownFlags : Word := pagingIsWriteable ||| pagingAccessFromAll ||| pagingIsPresent

def Kernel.recordAllocation (kernel : Kernel) (process : Addr) (index : Nat) (ptr : Addr)
    (size : Word) : Kernel :=
  kernel.setProcess process (fun record =>
    { record with allocations := Function.update record.allocations index ⟨ptr, size⟩ })

/-- How a `process_malloc` that returns ends: the heap refuses, the block is given back
because the table of allocations or the mapping refuses it, or it is recorded. -/
inductive MallocOutcome (kernel : Kernel) (process : Addr) (size : Word) : Addr → Kernel → Prop where
  | refused (null : (kzalloc size kernel.memory).1 = 0) :
      MallocOutcome kernel process size 0 (kernel.setMemory (kzalloc size kernel.memory).2)
  | returned (bytes : Bytes) (nonnull : (kzalloc size kernel.memory).1 ≠ 0)
      (mapped : bytes = (kzalloc size kernel.memory).2.bytes ∨
        bytes = (mapOwn (kzalloc size kernel.memory).2.bytes (kernel.directoryOf process)
          (kzalloc size kernel.memory).1 size ownFlags).2) :
      MallocOutcome kernel process size 0 (kernel.setMemory
        (kfree (kzalloc size kernel.memory).1 { (kzalloc size kernel.memory).2 with bytes := bytes }))
  | recorded (index : Nat) (bound : index < peachosMaxProgramAllocations)
      (empty : ((kernel.processRecords process).allocations index).ptr = 0)
      (nonnull : (kzalloc size kernel.memory).1 ≠ 0) :
      MallocOutcome kernel process size (kzalloc size kernel.memory).1
        ((kernel.setMemory { (kzalloc size kernel.memory).2 with
          bytes := (mapOwn (kzalloc size kernel.memory).2.bytes (kernel.directoryOf process)
            (kzalloc size kernel.memory).1 size ownFlags).2 }).recordAllocation process index
          (kzalloc size kernel.memory).1 size)

/-- How a `process_free` that returns ends: the pointer is not recorded, its pages stay
mapped and nothing is freed, or it is unmapped, forgotten and freed. -/
inductive FreeOutcome (kernel : Kernel) (process ptr : Addr) : Kernel → Prop where
  | unknown (missing : ∀ i < peachosMaxProgramAllocations,
      ((kernel.processRecords process).allocations i).ptr ≠ ptr) : FreeOutcome kernel process ptr kernel
  | kept (index : Nat) (bound : index < peachosMaxProgramAllocations)
      (found : ((kernel.processRecords process).allocations index).ptr = ptr)
      (refused : (mapOwn kernel.memory.bytes (kernel.directoryOf process) ptr
        ((kernel.processRecords process).allocations index).size 0).1 < 0) :
      FreeOutcome kernel process ptr (kernel.setMemory { kernel.memory with
        bytes := (mapOwn kernel.memory.bytes (kernel.directoryOf process) ptr
          ((kernel.processRecords process).allocations index).size 0).2 })
  | freed (index : Nat) (bound : index < peachosMaxProgramAllocations)
      (found : ((kernel.processRecords process).allocations index).ptr = ptr) :
      FreeOutcome kernel process ptr
        ((kernel.setProcess process (processAllocationUnjoin ptr)).setMemory (kfree ptr
          { kernel.memory with
            bytes := (mapOwn kernel.memory.bytes (kernel.directoryOf process) ptr
              ((kernel.processRecords process).allocations index).size 0).2 }))

section Outcomes
variable {kernel after : Kernel} {process ptr : Addr} {size : Word}

theorem Kernel.kzalloc_ok {result : Addr} (run : Kernel.kzalloc size kernel = (.ok result, after)) :
    result = (PeachOS.kzalloc size kernel.memory).1 ∧
      after = kernel.setMemory (PeachOS.kzalloc size kernel.memory).2 ∧
      ¬((PeachOS.kzalloc size kernel.memory).1 ≠ 0 ∧
        2 ^ 32 < (PeachOS.kzalloc size kernel.memory).1.toNat + size.toNat) := by
  simp only [Kernel.kzalloc] at run
  split at run
  · cases run
  next room =>
    obtain ⟨same, rfl⟩ := Prod.mk.inj run
    exact ⟨(Except.ok.inj same).symm, rfl, room⟩

theorem processMalloc_outcome (run : processMalloc process size kernel = (.ok ptr, after)) :
    MallocOutcome kernel process size ptr after := by
  unfold processMalloc at run
  obtain ⟨block, allocated, alloc, rest⟩ := bind_eq_ok run
  obtain ⟨rfl, rfl, _⟩ := Kernel.kzalloc_ok alloc
  split at rest
  next null =>
    obtain ⟨ptrEq, rfl⟩ := Prod.mk.inj rest
    rw [← Except.ok.inj ptrEq]
    exact .refused null
  next nonnull =>
    rw [read_bind] at rest
    rcases processFindFreeAllocationIndex_spec (kernel.processRecords process) with
      full | ⟨index, bound, found, empty⟩
    · rw [if_pos (by
        show processFindFreeAllocationIndex (kernel.processRecords process) < 0
        rw [full]
        decide)] at rest
      obtain ⟨ptrEq, rfl⟩ := Prod.mk.inj rest
      rw [← Except.ok.inj ptrEq]
      exact .returned _ nonnull (Or.inl rfl)
    · have indexEq : processFindFreeAllocationIndex ((kernel.setMemory
          (kzalloc size kernel.memory).2).processRecords process) = index := found
      rw [indexEq, if_neg (by omega)] at rest
      obtain ⟨directory, middle, page, mapping⟩ := bind_eq_ok rest
      obtain ⟨rfl, rfl⟩ := processPageDirectory_ok page
      obtain ⟨res, mapped, call, last⟩ := bind_eq_ok mapping
      obtain ⟨resEq, rfl⟩ := Prod.mk.inj call
      split at last
      · obtain ⟨ptrEq, rfl⟩ := Prod.mk.inj last
        rw [← Except.ok.inj ptrEq]
        exact .returned _ nonnull (Or.inr rfl)
      · obtain ⟨ptrEq, rfl⟩ := Prod.mk.inj last
        rw [← Except.ok.inj ptrEq, Int.toNat_natCast]
        exact .recorded index bound empty nonnull

theorem processFree_outcome (run : processFree process ptr kernel = (.ok (), after)) :
    FreeOutcome kernel process ptr after := by
  unfold processFree at run
  rw [read_bind] at run
  cases scan : processGetAllocationByAddr (kernel.processRecords process) ptr with
  | none =>
    rw [scan] at run
    obtain ⟨_, rfl⟩ := Prod.mk.inj run
    refine .unknown (fun i bound same => ?_)
    have missing := firstIndex_none scan bound
    rw [same, beq_self_eq_true] at missing
    cases missing
  | some index =>
    rw [scan] at run
    obtain ⟨bound, here, _⟩ := firstIndex_some scan
    have same := eq_of_beq here
    obtain ⟨directory, middle, page, mapping⟩ := bind_eq_ok run
    obtain ⟨rfl, rfl⟩ := processPageDirectory_ok page
    obtain ⟨res, mapped, call, last⟩ := bind_eq_ok mapping
    obtain ⟨resEq, rfl⟩ := Prod.mk.inj call
    rw [same] at resEq last
    split at last
    next negative =>
      obtain ⟨_, rfl⟩ := Prod.mk.inj last
      rw [← Except.ok.inj resEq] at negative
      exact .kept index bound same negative
    · obtain ⟨_, rfl⟩ := Prod.mk.inj last
      exact .freed index bound same

theorem processMalloc_records {memory : Memory} {index : Nat}
    (alloc : kzalloc size kernel.memory = (ptr, memory)) (nonnull : ptr ≠ 0)
    (room : ptr.toNat + size.toNat ≤ 2 ^ 32) (task : (kernel.processRecords process).task ≠ 0)
    (empty : processFindFreeAllocationIndex (kernel.processRecords process) = index)
    (mapped : 0 ≤ (mapOwn memory.bytes (kernel.directoryOf process) ptr size ownFlags).1) :
    processMalloc process size kernel = (.ok ptr, (kernel.setMemory { memory with
      bytes := (mapOwn memory.bytes (kernel.directoryOf process) ptr size ownFlags).2
      }).recordAllocation process index ptr size) := by
  have allocated : Kernel.kzalloc size kernel = (.ok ptr, kernel.setMemory memory) := by
    simp only [Kernel.kzalloc, alloc]
    rw [if_neg (by omega)]
  have found : processFindFreeAllocationIndex ((kernel.setMemory memory).processRecords process) =
      index := empty
  have page : processPageDirectory process (kernel.setMemory memory) =
      (.ok (kernel.directoryOf process), kernel.setMemory memory) := processPageDirectory_run task
  unfold processMalloc
  rw [bind_ok allocated, if_neg nonnull, read_bind, found, if_neg (by omega), bind_ok page]
  have call : Kernel.onBytes (fun bytes => pagingMapTo bytes (kernel.directoryOf process) ptr ptr
      (pagingAlignAddress (ptr + size)) ownFlags) (kernel.setMemory memory) =
      (.ok (mapOwn memory.bytes (kernel.directoryOf process) ptr size ownFlags).1,
        kernel.setMemory { memory with
          bytes := (mapOwn memory.bytes (kernel.directoryOf process) ptr size ownFlags).2 }) := rfl
  rw [bind_ok call, if_neg (by omega), update_bind, Int.toNat_natCast]
  rfl

theorem processMalloc_full {memory : Memory} (alloc : kzalloc size kernel.memory = (ptr, memory)) (nonnull : ptr ≠ 0)
    (room : ptr.toNat + size.toNat ≤ 2 ^ 32)
    (full : processFindFreeAllocationIndex (kernel.processRecords process) < 0) :
    processMalloc process size kernel = (.ok 0, kernel.setMemory (kfree ptr memory)) := by
  have allocated : Kernel.kzalloc size kernel = (.ok ptr, kernel.setMemory memory) := by
    simp only [Kernel.kzalloc, alloc]
    rw [if_neg (by omega)]
  have found : processFindFreeAllocationIndex ((kernel.setMemory memory).processRecords process) < 0 := full
  unfold processMalloc
  rw [bind_ok allocated, if_neg nonnull, read_bind, if_pos found]
  rfl

theorem processMalloc_refused (null : (kzalloc size kernel.memory).1 = 0) :
    processMalloc process size kernel = (.ok 0, kernel.setMemory (kzalloc size kernel.memory).2) := by
  have allocated : Kernel.kzalloc size kernel = (.ok 0, kernel.setMemory (kzalloc size kernel.memory).2) := by
    simp only [Kernel.kzalloc, null]
    rw [if_neg (by simp)]
  unfold processMalloc
  rw [bind_ok allocated, if_pos rfl]
  rfl

theorem processFree_frees {index : Nat} (task : (kernel.processRecords process).task ≠ 0)
    (found : processGetAllocationByAddr (kernel.processRecords process) ptr = some index)
    (mapped : 0 ≤ (mapOwn kernel.memory.bytes (kernel.directoryOf process) ptr
      ((kernel.processRecords process).allocations index).size 0).1) :
    processFree process ptr kernel = (.ok (),
      (kernel.setProcess process (processAllocationUnjoin ptr)).setMemory (kfree ptr
        { kernel.memory with
          bytes := (mapOwn kernel.memory.bytes (kernel.directoryOf process) ptr
            ((kernel.processRecords process).allocations index).size 0).2 })) := by
  obtain ⟨_, here, _⟩ := firstIndex_some found
  have same := eq_of_beq here
  unfold processFree
  rw [read_bind, found]
  dsimp only
  rw [bind_ok (processPageDirectory_run task), same]
  have call : Kernel.onBytes (fun bytes => pagingMapTo bytes (kernel.directoryOf process) ptr ptr
      (pagingAlignAddress (ptr + ((kernel.processRecords process).allocations index).size)) 0x00) kernel =
      (.ok (mapOwn kernel.memory.bytes (kernel.directoryOf process) ptr
        ((kernel.processRecords process).allocations index).size 0).1,
        kernel.setMemory { kernel.memory with
          bytes := (mapOwn kernel.memory.bytes (kernel.directoryOf process) ptr
            ((kernel.processRecords process).allocations index).size 0).2 }) := rfl
  rw [bind_ok call, if_neg (by omega)]
  rfl

theorem processFree_missing
    (missing : ∀ i < peachosMaxProgramAllocations, ((kernel.processRecords process).allocations i).ptr ≠ ptr) :
    processFree process ptr kernel = (.ok (), kernel) := by
  have none : processGetAllocationByAddr (kernel.processRecords process) ptr = none := by
    cases scan : processGetAllocationByAddr (kernel.processRecords process) ptr with
    | none => rfl
    | some index =>
      obtain ⟨bound, here, _⟩ := firstIndex_some scan
      exact absurd (eq_of_beq here) (missing index bound)
  unfold processFree
  rw [read_bind, none]
  rfl

theorem processGetAllocationByAddr_found {record : Process} {i : Nat} (bound : i < peachosMaxProgramAllocations)
    (here : (record.allocations i).ptr = ptr) :
    ∃ index < peachosMaxProgramAllocations, processGetAllocationByAddr record ptr = some index ∧
      (record.allocations index).ptr = ptr := by
  cases scan : processGetAllocationByAddr record ptr with
  | none =>
    have missing := firstIndex_none scan bound
    rw [here, beq_self_eq_true] at missing
    cases missing
  | some index =>
    obtain ⟨inside, found, _⟩ := firstIndex_some scan
    exact ⟨index, inside, rfl, eq_of_beq found⟩

end Outcomes

end PeachOS
