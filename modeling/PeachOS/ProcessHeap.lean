import PeachOS.HeapRoom
import PeachOS.ProcessCalls
import PeachOS.Lib.Run

/-! The heap under any number of processes that allocate and free through their own
tables of allocations. -/

namespace PeachOS
open Program ByteMemory BlockPool Transition Search

def Kernel.allocation (kernel : Kernel) (process : Addr) (i : Nat) : ProcessAllocation :=
  (kernel.processRecords process).allocations i

/-- The heap chain that a slot of the table names. -/
def slotChain (heap : Heap) (allocation : ProcessAllocation) : Interval :=
  chainOf heap ⟨allocation.ptr, allocation.size⟩

/-- A request that the heap serves with a chain of its own or refuses. The scan hands out
the free end of the table for every other request. -/
def MallocGuarded (heap : Heap) (size : Word) : Prop :=
  (Roundable size ∧ ∃ start, FitsAt heap (blocksFor size) start) ∨
    ¬EntryFree heap.table.entries (heap.table.total - 1)

/-- The non-empty slots of all processes name disjoint chains that are marked taken. -/
structure SlotsDisjoint (kernel : Kernel) (processes : Set Addr) : Prop where
  within : ∀ process ∈ processes, ∀ i < peachosMaxProgramAllocations,
    (kernel.allocation process i).ptr ≠ 0 →
      (slotChain kernel.memory.heap (kernel.allocation process i)).Within kernel.memory.heap.table.total
  marked : ∀ process ∈ processes, ∀ i < peachosMaxProgramAllocations,
    (kernel.allocation process i).ptr ≠ 0 →
      ∀ offset : Nat, offset < (slotChain kernel.memory.heap (kernel.allocation process i)).length →
        kernel.memory.heap.table.entries
            (((slotChain kernel.memory.heap (kernel.allocation process i)).first + offset : Nat) : Int) =
          chainEntry (slotChain kernel.memory.heap (kernel.allocation process i)).length offset
  apart : ∀ left ∈ processes, ∀ i < peachosMaxProgramAllocations,
    ∀ right ∈ processes, ∀ j < peachosMaxProgramAllocations,
      (kernel.allocation left i).ptr ≠ 0 → (kernel.allocation right j).ptr ≠ 0 →
        (left ≠ right ∨ i ≠ j) → (slotChain kernel.memory.heap (kernel.allocation left i)).Apart
          (slotChain kernel.memory.heap (kernel.allocation right j))

/-- The heap holds the chains of `live`, and each non-empty slot names one of its own.
The walk of `kfree(0)`, which starts below the table, ends at the boot signature. -/
structure ProcessHeap (kernel : Kernel) (processes : Set Addr) (live : Set Interval) : Prop where
  heap : KernelHeap kernel.memory.heap
  table : Represents kernel.memory.heap.table.total kernel.memory.heap.table.entries live
  signature : ¬HasNext (kernel.memory.heap.table.entries (-2))
  slots : ∀ process ∈ processes, ∀ i < peachosMaxProgramAllocations,
    (kernel.allocation process i).ptr ≠ 0 →
      slotChain kernel.memory.heap (kernel.allocation process i) ∈ live ∧
      (kernel.allocation process i).ptr = heapBlockToAddress kernel.memory.heap
        (slotChain kernel.memory.heap (kernel.allocation process i)).first
  distinct : ∀ left ∈ processes, ∀ i < peachosMaxProgramAllocations,
    ∀ right ∈ processes, ∀ j < peachosMaxProgramAllocations,
      (kernel.allocation left i).ptr ≠ 0 → (kernel.allocation right j).ptr ≠ 0 →
        slotChain kernel.memory.heap (kernel.allocation left i) =
          slotChain kernel.memory.heap (kernel.allocation right j) → left = right ∧ i = j

section Slots
variable {kernel after : Kernel} {processes : Set Addr} {live : Set Interval} {process ptr : Addr}
  {size : Word}

theorem ProcessHeap.disjoint (held : ProcessHeap kernel processes live) :
    SlotsDisjoint kernel processes where
  within := fun process member i bound nonempty =>
    held.table.within _ (held.slots process member i bound nonempty).1
  marked := fun process member i bound nonempty =>
    held.table.marked _ (held.slots process member i bound nonempty).1
  apart := by
    intro left leftIn i iBound right rightIn j jBound leftFull rightFull different
    refine held.table.apart (held.slots left leftIn i iBound leftFull).1
      (held.slots right rightIn j jBound rightFull).1 (fun same => ?_)
    obtain ⟨sameProcess, sameIndex⟩ :=
      held.distinct left leftIn i iBound right rightIn j jBound leftFull rightFull same
    rcases different with differ | differ
    · exact differ sameProcess
    · exact differ sameIndex

theorem slotChain_congr {before after : Heap} (same : after.saddr = before.saddr) :
    slotChain after = slotChain before := by
  funext allocation
  unfold slotChain
  rw [chainOf_congr same]

theorem Kernel.recordAllocation_allocation (kernel : Kernel) (process other : Addr) (index i : Nat)
    (ptr : Addr) (size : Word) :
    (kernel.recordAllocation process index ptr size).allocation other i =
      if other = process ∧ i = index then ⟨ptr, size⟩ else kernel.allocation other i := by
  unfold Kernel.allocation Kernel.recordAllocation
  rw [Kernel.setProcess_records]
  by_cases same : other = process
  · subst same
    rw [if_pos rfl]
    simp only [Function.update_apply, true_and]
  · rw [if_neg same, if_neg (fun both => same both.1)]

@[simp] theorem Kernel.setMemory_allocation (kernel : Kernel) (memory : Memory) (process : Addr)
    (i : Nat) : (kernel.setMemory memory).allocation process i = kernel.allocation process i := rfl

theorem unjoin_allocation (kernel : Kernel) (process other ptr : Addr) (i : Nat) :
    (kernel.setProcess process (processAllocationUnjoin ptr)).allocation other i =
      if other = process ∧ i < peachosMaxProgramAllocations ∧ (kernel.allocation process i).ptr = ptr
      then ⟨0, 0⟩ else kernel.allocation other i := by
  unfold Kernel.allocation
  rw [Kernel.setProcess_records]
  by_cases same : other = process
  · subst same
    rw [if_pos rfl]
    simp only [processAllocationUnjoin, true_and]
  · rw [if_neg same, if_neg (fun both => same both.1)]

theorem ProcessHeap.shrink {others : Set Interval} (held : ProcessHeap kernel processes live)
    (saddr : after.memory.heap.saddr = kernel.memory.heap.saddr)
    (total : after.memory.heap.table.total = kernel.memory.heap.table.total)
    (table : Represents after.memory.heap.table.total after.memory.heap.table.entries others)
    (signature : ¬HasNext (after.memory.heap.table.entries (-2)))
    (slots : ∀ process ∈ processes, ∀ i < peachosMaxProgramAllocations,
      (after.allocation process i).ptr ≠ 0 → after.allocation process i = kernel.allocation process i ∧
        slotChain kernel.memory.heap (kernel.allocation process i) ∈ others) :
    ProcessHeap after processes others where
  heap := held.heap.congr saddr total
  table := table
  signature := signature
  slots := by
    intro process member i bound nonempty
    obtain ⟨same, kept⟩ := slots process member i bound nonempty
    rw [same] at nonempty
    have old := held.slots process member i bound nonempty
    rw [same, slotChain_congr saddr]
    refine ⟨kept, old.2.trans ?_⟩
    simp only [heapBlockToAddress, saddr]
  distinct := by
    intro left leftIn i iBound right rightIn j jBound leftFull rightFull same
    obtain ⟨leftSame, _⟩ := slots left leftIn i iBound leftFull
    obtain ⟨rightSame, _⟩ := slots right rightIn j jBound rightFull
    rw [leftSame] at leftFull
    rw [rightSame] at rightFull
    rw [leftSame, rightSame, slotChain_congr saddr] at same
    exact held.distinct left leftIn i iBound right rightIn j jBound leftFull rightFull same

theorem ProcessHeap.remember {memory : Memory} (held : ProcessHeap kernel processes live)
    (same : memory.heap = kernel.memory.heap) : ProcessHeap (kernel.setMemory memory) processes live := by
  refine held.shrink ?_ ?_ ?_ ?_ ?_
  · rw [Kernel.setMemory_memory, same]
  · rw [Kernel.setMemory_memory, same]
  · rw [Kernel.setMemory_memory, same]
    exact held.table
  · rw [Kernel.setMemory_memory, same]
    exact held.signature
  · exact fun process member i bound nonempty => ⟨rfl, (held.slots process member i bound nonempty).1⟩

end Slots

section Frees
variable {heap : Heap} {live : Set Interval}

theorem heapFree_chain (kernel : KernelHeap heap) {run : Interval}
    (within : run.Within heap.table.total) :
    heapFree heap (heapBlockToAddress heap run.first) = heapMarkBlocksFree heap run.first := by
  have total := kernel.blocks
  unfold Interval.Within at within
  unfold heapFree
  rw [heapAddressToBlock_block heap run.first (by omega)]

theorem heapFree_null_block (kernel : KernelHeap heap) : heapAddressToBlock heap 0 = -4096 := by
  unfold heapAddressToBlock
  rw [kernel.saddr]
  decide

theorem heapFree_null (kernel : KernelHeap heap) (signature : ¬HasNext (heap.table.entries (-2))) :
    (∀ i : Int, -2 < i → (heapFree heap 0).table.entries i = heap.table.entries i) ∧
      ¬HasNext ((heapFree heap 0).table.entries (-2)) := by
  unfold heapFree
  rw [heapFree_null_block kernel]
  constructor
  · intro i above
    apply heapMarkBlocksFree_missed
    rintro ⟨_, _, walk⟩
    exact signature (walk (-2) (by omega) above)
  · by_cases reached : FreeReaches heap.table.entries heap.table.total (-4096) (-2)
    · rw [heapMarkBlocksFree_reached reached]
      decide
    · rw [heapMarkBlocksFree_missed reached]
      exact signature

theorem Represents.congr {total : Nat} {before after : Int → Entry}
    (table : Represents total before live) (same : ∀ block : Nat, after block = before block) :
    Represents total after live where
  within := table.within
  apart := table.apart
  marked := fun run member offset bound => (same _).trans (table.marked run member offset bound)
  rest := fun block bound outside => (same _).trans (table.rest block bound outside)

end Frees

section Steps
variable {kernel after : Kernel} {processes : Set Addr} {live : Set Interval} {process ptr : Addr}
  {size : Word}

/-- A served request adds its chain to the table, and a guarded one that is not served
gets a null pointer and leaves the heap as it is. -/
theorem MallocGuarded.kzalloc (guarded : MallocGuarded kernel.memory.heap size) :
    ((PeachOS.kzalloc size kernel.memory).1 = 0 ∧
      (PeachOS.kzalloc size kernel.memory).2.heap = kernel.memory.heap) ∨
    ∃ start, Roundable size ∧
      LeastFreeRun (EntryFree kernel.memory.heap.table.entries) kernel.memory.heap.table.total
        (blocksFor size) start ∧
      (PeachOS.kzalloc size kernel.memory).1 = heapBlockToAddress kernel.memory.heap start ∧
      (PeachOS.kzalloc size kernel.memory).2.heap =
        heapMarkBlocksTaken kernel.memory.heap start (blocksFor size) := by
  rw [kzalloc_ptr, kzalloc_heap]
  by_cases served : Roundable size ∧ ∃ start, FitsAt kernel.memory.heap (blocksFor size) start
  · obtain ⟨start, least, result⟩ := heapMalloc_fits kernel.memory.heap size served.1 served.2
    exact Or.inr ⟨start, served.1, least, by rw [result], by rw [result]⟩
  · have refused := heapMalloc_refuses served (fun _ => guarded.resolve_left served)
    rw [refused]
    exact Or.inl ⟨rfl, rfl⟩

/-- The recorded block is a new chain under a slot that was empty. -/
theorem ProcessHeap.record {bytes : Bytes} {start index : Nat}
    (held : ProcessHeap kernel processes live) (roundable : Roundable size)
    (least : LeastFreeRun (EntryFree kernel.memory.heap.table.entries) kernel.memory.heap.table.total
      (blocksFor size) start) :
    ProcessHeap ((kernel.setMemory ⟨heapMarkBlocksTaken kernel.memory.heap start (blocksFor size),
        bytes⟩).recordAllocation process index (heapBlockToAddress kernel.memory.heap start) size)
      processes (insert ⟨start, blocksFor size⟩ live) := by
  have positive := blocksFor_pos roundable
  have bound : start < kernel.memory.heap.table.total := by have := least.1.1; omega
  have chain : slotChain kernel.memory.heap ⟨heapBlockToAddress kernel.memory.heap start, size⟩ =
      ⟨start, blocksFor size⟩ := chainOf_fresh (by have := held.heap.blocks; omega)
  have apart := fun {run} (member : run ∈ live) =>
    Interval.ne_of_apart positive (held.table.apart_of_free positive least.1 member)
  generalize afterEq : (kernel.setMemory ⟨heapMarkBlocksTaken kernel.memory.heap start (blocksFor size),
    bytes⟩).recordAllocation process index (heapBlockToAddress kernel.memory.heap start) size = after
  have heapEq : after.memory.heap = heapMarkBlocksTaken kernel.memory.heap start (blocksFor size) := by
    rw [← afterEq]
    rfl
  have saddr : after.memory.heap.saddr = kernel.memory.heap.saddr := by
    rw [heapEq, heapMarkBlocksTaken_saddr]
  have address : heapBlockToAddress after.memory.heap = heapBlockToAddress kernel.memory.heap := by
    funext block
    simp only [heapBlockToAddress, saddr]
  have allocation : ∀ other i, after.allocation other i = if other = process ∧ i = index then
      ⟨heapBlockToAddress kernel.memory.heap start, size⟩ else kernel.allocation other i := by
    intro other i
    rw [← afterEq, Kernel.recordAllocation_allocation]
    rfl
  refine ⟨held.heap.congr saddr (by rw [heapEq, heapMarkBlocksTaken_total]), ?_, ?_, ?_, ?_⟩
  · rw [heapEq]
    exact held.table.take positive least.1
  · rw [heapEq, heapMarkBlocksTaken_entry, if_neg (by omega)]
    exact held.signature
  · intro other member i iBound nonempty
    rw [slotChain_congr saddr, address]
    rw [allocation] at nonempty ⊢
    split
    next here =>
      rw [chain]
      exact ⟨Set.mem_insert _ _, rfl⟩
    next elsewhere =>
      rw [if_neg elsewhere] at nonempty
      have old := held.slots other member i iBound nonempty
      exact ⟨Set.mem_insert_of_mem _ old.1, old.2⟩
  · intro left leftIn i iBound right rightIn j jBound leftFull rightFull same
    rw [slotChain_congr saddr] at same
    rw [allocation] at leftFull rightFull
    rw [allocation, allocation] at same
    by_cases leftNew : left = process ∧ i = index <;> by_cases rightNew : right = process ∧ j = index
    · exact ⟨leftNew.1.trans rightNew.1.symm, leftNew.2.trans rightNew.2.symm⟩
    · rw [if_neg rightNew] at rightFull same
      rw [if_pos leftNew, chain] at same
      exact absurd same (apart (held.slots right rightIn j jBound rightFull).1)
    · rw [if_neg leftNew] at leftFull same
      rw [if_pos rightNew, chain] at same
      exact absurd same.symm (apart (held.slots left leftIn i iBound leftFull).1)
    · rw [if_neg leftNew] at leftFull same
      rw [if_neg rightNew] at rightFull same
      exact held.distinct left leftIn i iBound right rightIn j jBound leftFull rightFull same

theorem processMalloc_heap (held : ProcessHeap kernel processes live)
    (guarded : MallocGuarded kernel.memory.heap size)
    (run : processMalloc process size kernel = (.ok ptr, after)) :
    ∃ others, ProcessHeap after processes others := by
  have outcome := processMalloc_outcome run
  rcases guarded.kzalloc with ⟨null, same⟩ | ⟨start, roundable, least, address, heapEq⟩
  · cases outcome with
    | refused _ => exact ⟨live, held.remember same⟩
    | returned _ nonnull _ => exact absurd null nonnull
    | recorded _ _ _ nonnull => exact absurd null nonnull
  · have positive := blocksFor_pos roundable
    have bound : start < kernel.memory.heap.table.total := by have := least.1.1; omega
    have taken : Represents
        (heapMarkBlocksTaken kernel.memory.heap start (blocksFor size)).table.total
        (heapMarkBlocksTaken kernel.memory.heap start (blocksFor size)).table.entries
        (insert ⟨start, blocksFor size⟩ live) := held.table.take positive least.1
    have signature : ¬HasNext
        ((heapMarkBlocksTaken kernel.memory.heap start (blocksFor size)).table.entries (-2)) := by
      rw [heapMarkBlocksTaken_entry, if_neg (by omega)]
      exact held.signature
    have apart := fun {run} (member : run ∈ live) =>
      Interval.ne_of_apart positive (held.table.apart_of_free positive least.1 member)
    cases outcome with
    | refused null =>
      rw [address] at null
      exact absurd null (held.heap.nonnull bound)
    | returned bytes _ _ =>
      -- the block is given back, and every recorded chain is another one
      have within : (⟨start, blocksFor size⟩ : Interval).Within kernel.memory.heap.table.total :=
        ⟨positive, least.1.1⟩
      have freed : (kfree (PeachOS.kzalloc size kernel.memory).1
          { (PeachOS.kzalloc size kernel.memory).2 with bytes := bytes }).heap =
          heapMarkBlocksFree (heapMarkBlocksTaken kernel.memory.heap start (blocksFor size)) start := by
        show heapFree (PeachOS.kzalloc size kernel.memory).2.heap (PeachOS.kzalloc size kernel.memory).1 = _
        rw [heapEq, address]
        have block := heapFree_chain (held.heap.congr (heapMarkBlocksTaken_saddr _ start (blocksFor size))
          (heapMarkBlocksTaken_total _ start (blocksFor size))) within
        exact block
      refine ⟨insert ⟨start, blocksFor size⟩ live \ {⟨start, blocksFor size⟩},
        held.shrink ?_ ?_ ?_ ?_ ?_⟩
      · rw [Kernel.setMemory_memory, freed, heapMarkBlocksFree_saddr, heapMarkBlocksTaken_saddr]
      · rw [Kernel.setMemory_memory, freed, heapMarkBlocksFree_total, heapMarkBlocksTaken_total]
      · rw [Kernel.setMemory_memory, freed, heapMarkBlocksFree_total]
        have released := taken.release (Set.mem_insert (⟨start, blocksFor size⟩ : Interval) live)
        exact released
      · rw [Kernel.setMemory_memory, freed, taken.free_entry (Set.mem_insert _ _),
          if_neg (by simp only; omega)]
        exact signature
      · intro process member i iBound nonempty
        have old := (held.slots process member i iBound nonempty).1
        exact ⟨rfl, Set.mem_insert_of_mem _ old, fun same => apart old (Set.mem_singleton_iff.mp same).symm⟩
    | recorded index indexBound empty _ =>
      rw [address]
      generalize (mapOwn (PeachOS.kzalloc size kernel.memory).2.bytes _ _ _ _).2 = bytes
      show ∃ others, ProcessHeap ((kernel.setMemory ⟨(PeachOS.kzalloc size kernel.memory).2.heap,
        bytes⟩).recordAllocation process index _ size) processes others
      rw [heapEq]
      exact ⟨_, held.record roundable least⟩

theorem ProcessHeap.release {bytes : Bytes} {index : Nat} (held : ProcessHeap kernel processes live)
    (member : process ∈ processes) (bound : index < peachosMaxProgramAllocations)
    (found : (kernel.allocation process index).ptr = ptr) (nonnull : ptr ≠ 0) :
    ProcessHeap ((kernel.setProcess process (processAllocationUnjoin ptr)).setMemory
        (kfree ptr { kernel.memory with bytes := bytes })) processes
      (live \ {slotChain kernel.memory.heap (kernel.allocation process index)}) := by
  obtain ⟨inLive, address⟩ := held.slots process member index bound (found.symm ▸ nonnull)
  generalize chainEq : slotChain kernel.memory.heap (kernel.allocation process index) = chain at *
  rw [found] at address
  have freed : (kfree ptr { kernel.memory with bytes := bytes }).heap =
      heapMarkBlocksFree kernel.memory.heap chain.first := by
    show heapFree kernel.memory.heap ptr = _
    rw [address]
    exact heapFree_chain held.heap (held.table.within chain inLive)
  refine held.shrink ?_ ?_ ?_ ?_ ?_
  · rw [Kernel.setMemory_memory, freed, heapMarkBlocksFree_saddr]
  · rw [Kernel.setMemory_memory, freed, heapMarkBlocksFree_total]
  · rw [Kernel.setMemory_memory, freed, heapMarkBlocksFree_total]
    exact held.table.release inLive
  · rw [Kernel.setMemory_memory, freed, held.table.free_entry inLive, if_neg (by omega)]
    exact held.signature
  · intro other otherIn i iBound nonempty
    have allocation := unjoin_allocation kernel process other ptr i
    change (Kernel.allocation (kernel.setProcess process (processAllocationUnjoin ptr)) other i).ptr ≠ 0
      at nonempty
    by_cases cleared : other = process ∧ i < peachosMaxProgramAllocations ∧
        (kernel.allocation process i).ptr = ptr
    · rw [allocation, if_pos cleared] at nonempty
      exact absurd rfl nonempty
    · rw [if_neg cleared] at allocation
      rw [allocation] at nonempty
      refine ⟨allocation, (held.slots other otherIn i iBound nonempty).1, fun same => ?_⟩
      obtain ⟨sameProcess, sameIndex⟩ := held.distinct other otherIn i iBound process member index bound
        nonempty (found.symm ▸ nonnull) ((Set.mem_singleton_iff.mp same).trans chainEq.symm)
      exact cleared ⟨sameProcess, iBound, sameIndex ▸ found⟩

theorem ProcessHeap.free_null {bytes : Bytes} (held : ProcessHeap kernel processes live) :
    ProcessHeap ((kernel.setProcess process (processAllocationUnjoin 0)).setMemory
        (kfree 0 { kernel.memory with bytes := bytes })) processes live := by
  obtain ⟨above, signature⟩ := heapFree_null held.heap held.signature
  refine held.shrink (heapFree_saddr _ _) (heapFree_total _ _) ?_ signature ?_
  · exact held.table.congr (fun block => above block (by omega))
  · intro other otherIn i iBound nonempty
    have allocation := unjoin_allocation kernel process other 0 i
    change (Kernel.allocation (kernel.setProcess process (processAllocationUnjoin 0)) other i).ptr ≠ 0
      at nonempty
    have unchanged : Kernel.allocation (kernel.setProcess process (processAllocationUnjoin 0)) other i =
        kernel.allocation other i := by
      rw [allocation]
      split
      next cleared =>
        rw [allocation, if_pos cleared] at nonempty
        exact absurd rfl nonempty
      next => rfl
    rw [unchanged] at nonempty
    exact ⟨unchanged, (held.slots other otherIn i iBound nonempty).1⟩

theorem processFree_heap (held : ProcessHeap kernel processes live) (member : process ∈ processes)
    (run : processFree process ptr kernel = (.ok (), after)) :
    ∃ others, ProcessHeap after processes others := by
  cases processFree_outcome run with
  | unknown _ => exact ⟨live, held⟩
  | kept index bound found refused =>
    exact ⟨live, held.heap, held.table, held.signature, held.slots, held.distinct⟩
  | freed index bound found =>
    by_cases null : ptr = 0
    · rw [null]
      exact ⟨live, held.free_null⟩
    · exact ⟨_, held.release member bound found null⟩

/-- `process_free` leaves every block that another process has recorded as it is. -/
theorem processFree_others (held : ProcessHeap kernel processes live) (member : process ∈ processes)
    (run : processFree process ptr kernel = (.ok (), after)) {other : Addr} (otherIn : other ∈ processes)
    (different : other ≠ process) {i : Nat} (iBound : i < peachosMaxProgramAllocations)
    (nonempty : (kernel.allocation other i).ptr ≠ 0) {block : Nat}
    (inside : (slotChain kernel.memory.heap (kernel.allocation other i)).Holds block) :
    after.memory.heap.table.entries block = kernel.memory.heap.table.entries block := by
  cases processFree_outcome run with
  | unknown _ => rfl
  | kept index bound found refused => rfl
  | freed index bound found =>
    show (heapFree kernel.memory.heap ptr).table.entries block = _
    by_cases null : ptr = 0
    · rw [null]
      exact (heapFree_null held.heap held.signature).1 block (by omega)
    · have full : (kernel.allocation process index).ptr ≠ 0 := found.symm ▸ null
      obtain ⟨inLive, address⟩ := held.slots process member index bound full
      have apart := held.disjoint.apart other otherIn i iBound process member index bound nonempty full
        (Or.inl different)
      have outside := apart.not_both inside
      have freed : heapFree kernel.memory.heap ptr = heapMarkBlocksFree kernel.memory.heap
          (slotChain kernel.memory.heap (kernel.allocation process index)).first := by
        rw [← heapFree_chain held.heap (held.table.within _ inLive), ← address]
        exact congrArg _ found.symm
      rw [freed, held.table.free_entry inLive, if_neg]
      unfold Interval.Holds at outside
      omega

end Steps

/-- A `malloc` system call whose request `allowed` admits, or a `free` of any pointer. -/
inductive ProcessStep (processes : Set Addr) (allowed : Heap → Word → Prop) : Kernel → Kernel → Prop where
  | malloc {kernel after : Kernel} (process : Addr) (size : Word) (ptr : Addr)
      (member : process ∈ processes) (condition : allowed kernel.memory.heap size)
      (run : processMalloc process size kernel = (.ok ptr, after)) :
      ProcessStep processes allowed kernel after
  | free {kernel after : Kernel} (process ptr : Addr) (member : process ∈ processes)
      (run : processFree process ptr kernel = (.ok (), after)) :
      ProcessStep processes allowed kernel after

/-- Recorded blocks are disjoint, and no process frees a block that another has recorded. -/
def BlocksOwned (kernel : Kernel) (processes : Set Addr) : Prop :=
  SlotsDisjoint kernel processes ∧
  ∀ process ∈ processes, ∀ ptr final, processFree process ptr kernel = (.ok (), final) →
    ∀ other ∈ processes, other ≠ process → ∀ i < peachosMaxProgramAllocations,
      (kernel.allocation other i).ptr ≠ 0 →
        ∀ block, (slotChain kernel.memory.heap (kernel.allocation other i)).Holds block →
          final.memory.heap.table.entries (block : Nat) = kernel.memory.heap.table.entries (block : Nat)

/-- Processes that have allocated nothing yet, on a heap that holds any other chains,
above the last bytes of the boot sector. -/
structure FreshProcesses (kernel : Kernel) (processes : Set Addr) : Prop where
  heap : KernelHeap kernel.memory.heap
  table : ∃ live, Represents kernel.memory.heap.table.total kernel.memory.heap.table.entries live
  signature : kernel.memory.heap.table.entries (-2) = 0x55 ∧ kernel.memory.heap.table.entries (-1) = 0xAA
  empty : ∀ process ∈ processes, ∀ i < peachosMaxProgramAllocations,
    (kernel.allocation process i).ptr = 0

theorem FreshProcesses.held {kernel : Kernel} {processes : Set Addr}
    (fresh : FreshProcesses kernel processes) : ∃ live, ProcessHeap kernel processes live := by
  obtain ⟨live, table⟩ := fresh.table
  refine ⟨live, fresh.heap, table, ?_, ?_, ?_⟩
  · rw [fresh.signature.1]
    decide
  · exact fun process member i bound nonempty => absurd (fresh.empty process member i bound) nonempty
  · exact fun left leftIn i iBound _ _ _ _ leftFull => absurd (fresh.empty left leftIn i iBound) leftFull

/-- As long as every request is one that the heap serves with a chain of its own or
refuses, the recorded pointers of all processes stay theirs. -/
theorem process_runs_disjoint {kernel after : Kernel} {processes : Set Addr}
    (start : FreshProcesses kernel processes)
    (run : Run (ProcessStep processes MallocGuarded) kernel after) : BlocksOwned after processes := by
  obtain ⟨live, held⟩ := run.invariant (fun state => ∃ live, ProcessHeap state processes live)
    (by
      rintro before next ⟨live, held⟩ step
      cases step with
      | malloc process size ptr member condition call => exact processMalloc_heap held condition call
      | free process ptr member call => exact processFree_heap held member call)
    start.held
  refine ⟨held.disjoint, ?_⟩
  intro process member ptr final call other otherIn different i iBound nonempty block inside
  exact processFree_others held member call otherIn different iBound nonempty inside

/-- A kernel with two processes at `firstProcess` and `secondProcess`, on a free heap. -/
def twoProcesses : Kernel :=
  { bootKernel with
    processRecords := fun process => { Process.zero with task := process + 0x3000 }
    tasks := fun task => { Task.zero with pageDirectory := task + 0x1000 } }

abbrev firstProcess : Addr := 0x900000
abbrev secondProcess : Addr := 0xA00000

theorem twoProcesses_fresh : FreshProcesses twoProcesses {firstProcess, secondProcess} where
  heap := bootMemory_kernel.1
  table := ⟨_, bootMemory_exact.represents⟩
  signature := ⟨rfl, rfl⟩
  empty := fun _ _ _ _ => rfl

/-- The first process takes a block. -/
theorem process_runs_disjoint_block : ∃ after,
    Run (ProcessStep {firstProcess, secondProcess} MallocGuarded) twoProcesses after ∧
      (after.allocation firstProcess 0).ptr = 0x1000000 ∧
      BlocksOwned after {firstProcess, secondProcess} := by
  have block : kzalloc 100 twoProcesses.memory = _ := kzalloc_eq
    (heapMalloc_first bootMemory_kernel.1 (fun _ => bootMemory_free) 100 (by decide) (by decide)) (by decide)
  have call : processMalloc firstProcess 100 twoProcesses = _ := processMalloc_records block (by decide)
    (by decide) (by decide) (processFindFreeAllocationIndex_first rfl) (le_of_eq rfl)
  have fits : MallocGuarded twoProcesses.memory.heap 100 :=
    Or.inl ⟨by decide, 0, by decide, fun block _ high => bootMemory_free (by
      have : blocksFor 100 = 1 := by decide
      omega)⟩
  have step : ProcessStep {firstProcess, secondProcess} MallocGuarded twoProcesses _ :=
    .malloc firstProcess 100 _ (Set.mem_insert _ _) fits call
  exact ⟨_, .single step, rfl, process_runs_disjoint twoProcesses_fresh (.single step)⟩

/-- The first process asks for no bytes and is handed a block that stays free, so the
second process gets the same block. -/
theorem twoProcesses_share : ∃ after,
    Run (ProcessStep {firstProcess, secondProcess} (fun _ _ => True)) twoProcesses after ∧
      after.allocation firstProcess 0 = ⟨0x1000000, 0⟩ ∧
      after.allocation secondProcess 0 = ⟨0x1000000, 4096⟩ ∧
      (after.processRecords firstProcess).task ≠ 0 ∧
      KernelHeap after.memory.heap ∧ after.memory.heap.table.entries 0 = chainEntry 1 0 := by
  have heap := bootMemory_kernel.1
  have empty : kzalloc 0 twoProcesses.memory = _ :=
    kzalloc_eq (heapMalloc_zero heap (fun _ => bootMemory_free)) (by decide)
  have first : processMalloc firstProcess 0 twoProcesses = _ := processMalloc_records empty (by decide)
    (by decide) (by decide) (processFindFreeAllocationIndex_first rfl) (le_of_eq rfl)
  generalize middleEq : Kernel.recordAllocation _ firstProcess 0 0x1000000 0 = middle at first
  have middleHeap : middle.memory.heap = heapMarkBlocksTaken bootMemory.heap 0 0 := by
    rw [← middleEq]
    rfl
  have middleSlot : middle.allocation firstProcess 0 = ⟨0x1000000, 0⟩ := by
    rw [← middleEq, Kernel.recordAllocation_allocation, if_pos ⟨rfl, rfl⟩]
  have middleKernel : KernelHeap middle.memory.heap := middleHeap ▸ heap.congr rfl rfl
  have stillFree : ∀ block < 25600, EntryFree middle.memory.heap.table.entries block := by
    intro block bound
    unfold EntryFree
    rw [middleHeap, heapMarkBlocksTaken_entry, if_neg (by omega)]
    exact bootMemory_free bound
  have block : kzalloc 4096 middle.memory = _ :=
    kzalloc_eq (heapMalloc_first middleKernel stillFree 4096 (by decide) (by decide)) (by decide)
  have second : processMalloc secondProcess 4096 middle = _ := processMalloc_records block (by decide)
    (by decide) (by rw [← middleEq]; decide) (by
      rw [← middleEq]
      exact processFindFreeAllocationIndex_first rfl) (le_of_eq rfl)
  generalize afterEq : Kernel.recordAllocation _ secondProcess 0 0x1000000 4096 = after at second
  have afterHeap : after.memory.heap = heapMarkBlocksTaken middle.memory.heap 0 1 := by
    rw [← afterEq]
    rfl
  refine ⟨after, (Relation.ReflTransGen.single (.malloc firstProcess 0 _ (by simp) trivial first)).tail
    (.malloc secondProcess 4096 _ (by simp) trivial second), ?_, ?_, ?_, ?_, ?_⟩
  · rw [← afterEq, Kernel.recordAllocation_allocation, if_neg (by decide), Kernel.setMemory_allocation,
      middleSlot]
  · rw [← afterEq, Kernel.recordAllocation_allocation, if_pos ⟨rfl, rfl⟩]
  · rw [← afterEq, ← middleEq]
    decide
  · rw [afterHeap]
    exact middleKernel.congr rfl rfl
  · rw [afterHeap, heapMarkBlocksTaken_entry, if_pos (by decide)]
    rfl

/-- When the first process frees its pointer it frees the block of the second. -/
theorem process_runs_shared : ¬∀ after,
    Run (ProcessStep {firstProcess, secondProcess} (fun _ _ => True)) twoProcesses after →
      BlocksOwned after {firstProcess, secondProcess} := by
  intro owned
  obtain ⟨after, run, firstSlot, secondSlot, task, kernel, taken⟩ := twoProcesses_share
  have found : processGetAllocationByAddr (after.processRecords firstProcess) 0x1000000 = some 0 :=
    firstIndex_eq (by decide) (beq_iff_eq.mpr (congrArg ProcessAllocation.ptr firstSlot))
      (fun j earlier => absurd earlier (Nat.not_lt_zero j))
  have freed : processFree firstProcess 0x1000000 after = _ := processFree_frees task found (by
    change 0 ≤ (mapOwn _ _ _ (after.allocation firstProcess 0).size 0).1
    rw [firstSlot]
    exact le_of_eq rfl)
  have start : heapAddressToBlock after.memory.heap 0x1000000 = 0 := by
    unfold heapAddressToBlock
    rw [kernel.saddr]
    decide
  have chain : slotChain after.memory.heap (after.allocation secondProcess 0) = ⟨0, 1⟩ := by
    rw [secondSlot]
    unfold slotChain chainOf
    rw [start]
    rfl
  have kept := (owned after run).2 firstProcess (by simp) 0x1000000 _ freed secondProcess (by simp)
    (by decide) 0 (by decide) (by rw [secondSlot]; decide) 0 (by rw [chain]; decide)
  have cleared : (heapFree after.memory.heap 0x1000000).table.entries (0 : Nat) =
      heapBlockTableEntryFree := by
    unfold heapFree
    rw [start]
    exact heapMarkBlocksFree_reached ⟨le_rfl, by rw [kernel.blocks]; decide, by omega⟩
  have differ : chainEntry 1 0 ≠ heapBlockTableEntryFree := by decide
  exact differ (taken.symm.trans (kept.symm.trans cleared))

end PeachOS
