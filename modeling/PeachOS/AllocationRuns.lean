import PeachOS.ProcessSpaces

/-! One block of a process from its `process_malloc` to its `process_free`, whatever
other processes do in between. -/

namespace PeachOS
open Program ByteMemory BlockPool Transition WriteLog Search

/-- The first block of the chain that a pointer stands for. -/
def firstBlock (heap : Heap) (ptr : Addr) : Nat := (heapAddressToBlock heap ptr).toNat

/-- The slot, the chain and the pages that `process_malloc` gives to a process, and nothing else. -/
structure SlotTaken (kernel after : Kernel) (processes : Set Addr) (spaces : Addr → Space) (process ptr : Addr)
    (size : Word) (index : Nat) : Prop where
  bound : index < peachosMaxProgramAllocations
  empty : (kernel.allocation process index).ptr = 0
  nonnull : ptr ≠ 0
  aligned : PageAligned ptr
  slot : after = (kernel.setMemory after.memory).recordAllocation process index ptr size
  free : FitsAt kernel.memory.heap (blocksFor size) (firstBlock kernel.memory.heap ptr)
  chain : after.memory.heap =
    heapMarkBlocksTaken kernel.memory.heap (firstBlock kernel.memory.heap ptr) (blocksFor size)
  pages : Remaps kernel processes spaces after.memory.bytes process ptr size ownFlags
  bytes : ∀ address, (∀ i < 1024, frameOf address ≠ (spaces process).tables i) →
    after.memory.bytes address = fill kernel.memory.bytes ptr size.toNat 0 address

/-- Without an empty slot nothing is left but zeros in free blocks. -/
structure SlotsFull (kernel after : Kernel) (processes : Set Addr) (spaces : Addr → Space) (process ptr : Addr) :
    Prop where
  null : ptr = 0
  full : ∀ i < peachosMaxProgramAllocations, (kernel.allocation process i).ptr ≠ 0
  slots : after = kernel.setMemory after.memory
  heap : after.memory.heap = kernel.memory.heap
  paged : ∀ other ∈ processes, PageTables after.memory.bytes (kernel.directoryOf other)
    (spaces other).directory (spaces other).tables
  entries : ∀ other ∈ processes, ∀ page, PageAligned page →
    pagingGet after.memory.bytes (spaces other).directory page =
      pagingGet kernel.memory.bytes (spaces other).directory page

/-- The slot, the chain and the pages that `process_free` takes back, and nothing else. -/
structure SlotFreed (kernel after : Kernel) (processes : Set Addr) (spaces : Addr → Space) (process ptr : Addr)
    (size : Word) (index : Nat) : Prop where
  slot : after = (kernel.setMemory after.memory).recordAllocation process index 0 0
  saddr : after.memory.heap.saddr = kernel.memory.heap.saddr
  total : after.memory.heap.table.total = kernel.memory.heap.table.total
  chain : ∀ i : Int, after.memory.heap.table.entries i =
    if firstBlock kernel.memory.heap ptr ≤ i ∧ i < firstBlock kernel.memory.heap ptr + blocksFor size
    then heapBlockTableEntryFree else kernel.memory.heap.table.entries i
  pages : Remaps kernel processes spaces after.memory.bytes process ptr size 0
  bytes : ∀ address, (∀ i < 1024, frameOf address ≠ (spaces process).tables i) →
    after.memory.bytes address = kernel.memory.bytes address

section Calls
variable {kernel after : Kernel} {processes : Set Addr} {live : Set Interval} {spaces : Addr → Space}
  {process ptr : Addr} {size : Word} {start index : Nat}

theorem roundable_of_fits {heap : Heap} (kernel : KernelHeap heap) (positive : 0 < size.toNat)
    (fits : FitsAt heap (blocksFor size) start) : Roundable size := by
  have total := kernel.blocks
  have within := fits.1
  unfold blocksFor heapBlockSize at within
  exact ⟨positive, by omega⟩

theorem heap_restored {heap : Heap} {run : Set Interval} (table : Represents heap.table.total heap.table.entries run)
    (positive : 0 < blocksFor size) (free : FitsAt heap (blocksFor size) start) :
    heapMarkBlocksFree (heapMarkBlocksTaken heap start (blocksFor size)) start = heap := by
  have taken : Represents (heapMarkBlocksTaken heap start (blocksFor size)).table.total
      (heapMarkBlocksTaken heap start (blocksFor size)).table.entries (insert ⟨start, blocksFor size⟩ run) :=
    table.take positive free
  have entries : (heapMarkBlocksFree (heapMarkBlocksTaken heap start (blocksFor size)) start).table.entries =
      heap.table.entries := by
    funext i
    rw [taken.free_entry (Set.mem_insert _ _), heapMarkBlocksTaken_entry]
    split
    next inside =>
      have block : i = (i.toNat : Int) := by omega
      have bound : i.toNat < heap.table.total := by
        have := free.1
        simp only at inside
        omega
      rw [block]
      refine (table.rest i.toNat bound (fun other member holds => ?_)).symm
      have apart := table.apart_of_free positive free member
      exact apart.not_both (by unfold Interval.Holds; simp only at inside ⊢; omega) holds
    next => rfl
  exact congrArg heap.withEntries entries

/-- How the heap serves a request. -/
structure Supplied (kernel : Kernel) (size : Word) (start : Nat) (ptr : Addr) : Prop where
  heap : KernelHeap kernel.memory.heap
  roundable : Roundable size
  least : LeastFreeRun (EntryFree kernel.memory.heap.table.entries) kernel.memory.heap.table.total
    (blocksFor size) start
  address : ptr = heapBlockToAddress kernel.memory.heap start
  alloc : kzalloc size kernel.memory = (ptr, ⟨heapMarkBlocksTaken kernel.memory.heap start (blocksFor size),
    fill kernel.memory.bytes ptr size.toNat 0⟩)

theorem supplied_of_fits (heap : KernelHeap kernel.memory.heap) (positive : 0 < size.toNat)
    (fits : ∃ start, FitsAt kernel.memory.heap (blocksFor size) start) : ∃ start ptr, Supplied kernel size start ptr := by
  obtain ⟨_, some⟩ := fits
  have roundable := roundable_of_fits heap positive some
  have blocks := blocksFor_pos roundable
  obtain ⟨start, least, malloc⟩ := heapMalloc_fits kernel.memory.heap size roundable ⟨_, some⟩
  have bound : start < kernel.memory.heap.table.total := by have := least.1.1; omega
  exact ⟨start, _, heap, roundable, least, rfl, kzalloc_eq malloc (heap.nonnull bound)⟩

section Supplied
variable (supplied : Supplied kernel size start ptr)
include supplied

theorem Supplied.bound : start < kernel.memory.heap.table.total := by
  have positive := blocksFor_pos supplied.roundable
  have within := supplied.least.1.1
  omega

theorem Supplied.nonnull : ptr ≠ 0 := by
  rw [supplied.address]
  exact supplied.heap.nonnull supplied.bound

theorem Supplied.aligned : PageAligned ptr := by
  rw [supplied.address]
  exact heapBlockToAddress_aligned supplied.heap.pool start

theorem Supplied.place : ptr.toNat = 0x1000000 + start * 4096 := by
  rw [supplied.address]
  exact supplied.heap.address_toNat supplied.bound

theorem Supplied.room : ptr.toNat + blocksFor size * pagingPageSize < 2 ^ 32 := by
  have total := supplied.heap.blocks
  have within := supplied.least.1.1
  rw [supplied.place]
  unfold pagingPageSize
  omega

theorem Supplied.top : ptr.toNat + size.toNat ≤ 2 ^ 32 := by
  have room := supplied.room
  unfold blocksFor heapBlockSize pagingPageSize at room
  omega

theorem Supplied.small : start * 4096 < 2 ^ 31 := by
  have total := supplied.heap.blocks
  have bound := supplied.bound
  omega

theorem Supplied.first : firstBlock kernel.memory.heap ptr = start := by
  unfold firstBlock
  rw [supplied.address, heapAddressToBlock_block kernel.memory.heap start supplied.small, Int.toNat_natCast]

theorem Supplied.chain : slotChain kernel.memory.heap ⟨ptr, size⟩ = ⟨start, blocksFor size⟩ := by
  rw [supplied.address]
  exact chainOf_fresh supplied.small

theorem Supplied.within : (Interval.mk start (blocksFor size)).Within kernel.memory.heap.table.total :=
  ⟨blocksFor_pos supplied.roundable, supplied.least.1.1⟩

theorem Supplied.fresh (held : ProcessSpaces kernel processes live spaces) {other page : Addr}
    (member : other ∈ processes) (inside : (spaces other).Page (kernel.directoryOf other) page) :
    ¬OwnPage ptr size page := by
  obtain ⟨block, run, inLive, here, holds, _⟩ := held.kept other member page inside
  have apart := held.heap.table.apart_of_free (blocksFor_pos supplied.roundable) supplied.least.1 inLive
  exact supplied.heap.otherPage supplied.within supplied.address rfl apart (held.heap.table.within run inLive) holds here

theorem Supplied.unnamed (held : ProcessSpaces kernel processes live spaces) (member : process ∈ processes)
    (bound : index < peachosMaxProgramAllocations) (nonempty : (kernel.allocation process index).ptr ≠ 0)
    {page : Addr} (inside : OwnPage (kernel.allocation process index).ptr (kernel.allocation process index).size page) :
    ¬OwnPage ptr size page := by
  obtain ⟨inLive, address⟩ := held.heap.slots process member index bound nonempty
  have within := held.heap.table.within _ inLive
  obtain ⟨block, holds, here⟩ := (supplied.heap.ownPage_iff within address rfl).mp inside
  have apart := held.heap.table.apart_of_free (blocksFor_pos supplied.roundable) supplied.least.1 inLive
  exact supplied.heap.otherPage supplied.within supplied.address rfl apart within holds here

theorem Supplied.filled (held : ProcessSpaces kernel processes live spaces) :
    ∀ other ∈ processes, ∀ address, (spaces other).Page (kernel.directoryOf other) (frameOf address) →
      fill kernel.memory.bytes ptr size.toNat 0 address = kernel.memory.bytes address :=
  fun _ member _ inside => fill_otherPage _ _ (supplied.fresh held member inside)

theorem Supplied.records (held : ProcessSpaces kernel processes live spaces) (member : process ∈ processes)
    (bound : index < peachosMaxProgramAllocations) (empty : (kernel.allocation process index).ptr = 0)
    (found : processFindFreeAllocationIndex (kernel.processRecords process) = index) :
    ∃ after, processMalloc process size kernel = (.ok ptr, after) ∧
      (∃ others, ProcessSpaces after processes others spaces) ∧
      SlotTaken kernel after processes spaces process ptr size index := by
  have positive : 0 < ptr.toNat := by
    rw [supplied.place]
    omega
  obtain ⟨accepted, remaps⟩ := held.remap member (supplied.filled held) ownFlags supplied.aligned positive supplied.room
  have call := processMalloc_records supplied.alloc supplied.nonnull supplied.top (held.task process member) found accepted
  have heap := @ProcessHeap.record kernel processes live process size
    (mapOwn (fill kernel.memory.bytes ptr size.toNat 0) (kernel.directoryOf process) ptr size ownFlags).2
    start index held.heap supplied.roundable supplied.least
  rw [← supplied.address] at heap
  refine ⟨_, call, ⟨_, held.rewrite heap rfl remaps ?_ (fun _ => remaps.own) ?_ ?_⟩, ?_⟩
  · intro run inLive _
    refine ⟨Set.mem_insert_of_mem _ inLive, fun _ => ?_⟩
    rw [supplied.chain]
    exact Interval.ne_of_apart (blocksFor_pos supplied.roundable)
      (held.heap.table.apart_of_free (blocksFor_pos supplied.roundable) supplied.least.1 inLive)
  · exact fun i iBound _ nonempty page inside => supplied.unnamed held member iBound nonempty inside
  · exact fun null => absurd null supplied.nonnull
  · refine ⟨bound, empty, supplied.nonnull, supplied.aligned, rfl, ?_, ?_, remaps, ?_⟩
    · rw [supplied.first]
      exact supplied.least.1
    · rw [supplied.first]
      rfl
    · intro address outside
      exact mapOwn_outside (held.paged process member) (supplied.filled held process member) outside

theorem Supplied.full (held : ProcessSpaces kernel processes live spaces)
    (full : ∀ i < peachosMaxProgramAllocations, (kernel.allocation process i).ptr ≠ 0) :
    ∃ after, processMalloc process size kernel = (.ok 0, after) ∧
      ProcessSpaces after processes live spaces ∧ SlotsFull kernel after processes spaces process 0 := by
  have call := processMalloc_full supplied.alloc supplied.nonnull supplied.top (processFindFreeAllocationIndex_full full)
  have heap : (kfree ptr ⟨heapMarkBlocksTaken kernel.memory.heap start (blocksFor size),
      fill kernel.memory.bytes ptr size.toNat 0⟩).heap = kernel.memory.heap := by
    have restored := heap_restored held.heap.table (blocksFor_pos supplied.roundable) supplied.least.1
    have kept : KernelHeap (heapMarkBlocksTaken kernel.memory.heap start (blocksFor size)) :=
      supplied.heap.congr rfl rfl
    have freed := heapFree_chain kept supplied.within
    show heapFree (heapMarkBlocksTaken kernel.memory.heap start (blocksFor size)) ptr = _
    rw [supplied.address]
    exact freed.trans restored
  have tables := fun other otherIn => pageTables_kept (held.paged other otherIn) (supplied.filled held other otherIn)
  refine ⟨_, call, held.remember (held.heap.remember heap) (congrArg Heap.saddr heap) (supplied.filled held), ?_⟩
  exact ⟨rfl, full, rfl, heap, fun other otherIn => (tables other otherIn).1, fun other otherIn => (tables other otherIn).2⟩

end Supplied

theorem ProcessSpaces.malloc (held : ProcessSpaces kernel processes live spaces) (member : process ∈ processes)
    (positive : 0 < size.toNat) (fits : ∃ start, FitsAt kernel.memory.heap (blocksFor size) start) :
    ∃ ptr after, processMalloc process size kernel = (.ok ptr, after) ∧
      (∃ others, ProcessSpaces after processes others spaces) ∧
      ((∃ index, SlotTaken kernel after processes spaces process ptr size index) ∨
        SlotsFull kernel after processes spaces process ptr) := by
  obtain ⟨start, ptr, supplied⟩ := supplied_of_fits held.heap.heap positive fits
  by_cases room : ∃ i < peachosMaxProgramAllocations, (kernel.allocation process i).ptr = 0
  · obtain ⟨i, iBound, iEmpty⟩ := room
    obtain ⟨index, bound, found, empty⟩ := processFindFreeAllocationIndex_empty iBound iEmpty
    obtain ⟨after, call, next, recorded⟩ := supplied.records held member bound empty found
    exact ⟨ptr, after, call, next, Or.inl ⟨index, recorded⟩⟩
  · have full : ∀ i < peachosMaxProgramAllocations, (kernel.allocation process i).ptr ≠ 0 :=
      fun i bound empty => room ⟨i, bound, empty⟩
    obtain ⟨after, call, next, kept⟩ := supplied.full held full
    exact ⟨0, after, call, ⟨live, next⟩, Or.inr kept⟩

theorem ProcessSpaces.malloc_refused (guarded : MallocGuarded kernel.memory.heap size)
    (unserved : ¬(Roundable size ∧ ∃ start, FitsAt kernel.memory.heap (blocksFor size) start)) :
    processMalloc process size kernel = (.ok 0, kernel) := by
  have refused := heapMalloc_refuses unserved (fun _ => guarded.resolve_left unserved)
  have alloc : kzalloc size kernel.memory = (0, kernel.memory) := by
    unfold kzalloc kmalloc
    rw [refused]
    exact if_pos rfl
  rw [processMalloc_refused (congrArg Prod.fst alloc), alloc]
  rfl

theorem ProcessSpaces.free (held : ProcessSpaces kernel processes live spaces) (member : process ∈ processes)
    (bound : index < peachosMaxProgramAllocations) (nonempty : (kernel.allocation process index).ptr ≠ 0) :
    ∃ after, processFree process (kernel.allocation process index).ptr kernel = (.ok (), after) ∧
      (∃ others, ProcessSpaces after processes others spaces) ∧
      SlotFreed kernel after processes spaces process (kernel.allocation process index).ptr
        (kernel.allocation process index).size index := by
  obtain ⟨inLive, address⟩ := held.heap.slots process member index bound nonempty
  have within := held.heap.table.within _ inLive
  have aligned : PageAligned (kernel.allocation process index).ptr := by
    rw [address]
    exact heapBlockToAddress_aligned held.heap.heap.pool _
  have total := held.heap.heap.blocks
  have top := within.2
  have length : (slotChain kernel.memory.heap (kernel.allocation process index)).length =
    blocksFor (kernel.allocation process index).size := rfl
  have low : (slotChain kernel.memory.heap (kernel.allocation process index)).first < kernel.memory.heap.table.total := by
    have := within.1
    omega
  have place := held.heap.heap.address_toNat low
  rw [← address] at place
  have positive : 0 < (kernel.allocation process index).ptr.toNat := by omega
  have room : (kernel.allocation process index).ptr.toNat +
      blocksFor (kernel.allocation process index).size * pagingPageSize < 2 ^ 32 := by
    unfold pagingPageSize
    omega
  obtain ⟨accepted, remaps⟩ := held.remap member (fun _ _ _ _ => rfl) 0 aligned positive room
  have here : ((kernel.processRecords process).allocations index).ptr = (kernel.allocation process index).ptr := rfl
  obtain ⟨found, inside, scan, same⟩ := processGetAllocationByAddr_found bound here
  obtain ⟨_, rfl⟩ := held.heap.ptr_inj member member bound inside nonempty same
  have call := processFree_frees (held.task process member) scan accepted
  have heap := @ProcessHeap.release kernel processes live process _ (mapOwn kernel.memory.bytes
    (kernel.directoryOf process) (kernel.allocation process index).ptr (kernel.allocation process index).size 0).2
    index held.heap member bound rfl nonempty
  rw [held.heap.unjoin member bound nonempty] at heap call
  have freed := heapFree_chain held.heap.heap within
  rw [← address] at freed
  refine ⟨_, call, ⟨_, held.rewrite heap rfl remaps ?_ ?_ ?_ ?_⟩, rfl, rfl, rfl, ?_, remaps, ?_⟩
  · intro run runIn unnamed
    exact ⟨⟨runIn, fun same => unnamed process member index bound nonempty (Set.mem_singleton_iff.mp same).symm⟩,
      fun full => absurd rfl full⟩
  · exact fun full => absurd rfl full
  · intro i iBound other full page own
    obtain ⟨otherLive, otherAddress⟩ := held.heap.slots process member i iBound full
    have otherWithin := held.heap.table.within _ otherLive
    obtain ⟨block, holds, place⟩ := (held.heap.heap.ownPage_iff otherWithin otherAddress rfl).mp own
    have apart := held.heap.disjoint.apart process member index bound process member i iBound nonempty full
      (Or.inr (Ne.symm other))
    exact held.heap.heap.otherPage within address rfl apart otherWithin holds place
  · exact fun _ => rfl
  · intro i
    show (heapFree kernel.memory.heap (kernel.allocation process index).ptr).table.entries i = _
    rw [freed]
    exact held.heap.table.free_entry inLive i
  · exact fun address outside => mapOwn_outside (held.paged process member) (fun _ _ => rfl) outside

/-- `process_free(0)` of a process with an empty slot frees below the heap's table. -/
theorem ProcessSpaces.free_null (held : ProcessSpaces kernel processes live spaces) (member : process ∈ processes)
    (bound : index < peachosMaxProgramAllocations) (empty : (kernel.allocation process index).ptr = 0) :
    processFree process 0 kernel = (.ok (), kernel.setMemory (kfree 0 kernel.memory)) ∧
      ProcessSpaces (kernel.setMemory (kfree 0 kernel.memory)) processes live spaces := by
  obtain ⟨found, inside, scan, null⟩ := processGetAllocationByAddr_found bound empty
  have size : ((kernel.processRecords process).allocations found).size = 0 := held.empty process member found inside null
  have cleared : kernel.setProcess process (processAllocationUnjoin 0) = kernel := unjoin_null (held.empty process member)
  have none (bytes : Bytes) (directory : Addr) : mapOwn bytes directory 0 0 0 = (0, bytes) := mapOwn_zero (by decide)
  have call := processFree_frees (held.task process member) scan (by
    rw [size, none])
  rw [size, none, cleared] at call
  have heap := @ProcessHeap.free_null kernel processes live process kernel.memory.bytes held.heap
  rw [cleared] at heap
  exact ⟨call, held.remember heap rfl (fun _ _ _ _ => rfl)⟩

theorem ProcessStep.keeps (held : ProcessSpaces kernel processes live spaces)
    (step : ProcessStep processes MallocGuarded kernel after) : ∃ others, ProcessSpaces after processes others spaces := by
  cases step with
  | malloc process size ptr member guarded run =>
    by_cases served : Roundable size ∧ ∃ start, FitsAt kernel.memory.heap (blocksFor size) start
    · obtain ⟨_, _, call, next, _⟩ := held.malloc member served.1.1 served.2
      obtain ⟨_, rfl⟩ := Prod.mk.inj (call.symm.trans run)
      exact next
    · obtain ⟨_, rfl⟩ := Prod.mk.inj ((ProcessSpaces.malloc_refused guarded served).symm.trans run)
      exact ⟨live, held⟩
  | free process ptr member run =>
    by_cases known : ∃ i < peachosMaxProgramAllocations, (kernel.allocation process i).ptr = ptr
    · obtain ⟨i, bound, rfl⟩ := known
      by_cases null : (kernel.allocation process i).ptr = 0
      · obtain ⟨call, next⟩ := held.free_null member bound null
        rw [null] at run
        obtain ⟨_, rfl⟩ := Prod.mk.inj (call.symm.trans run)
        exact ⟨live, next⟩
      · obtain ⟨_, call, next, _⟩ := held.free member bound null
        obtain ⟨_, rfl⟩ := Prod.mk.inj (call.symm.trans run)
        exact next
    · have missing : ∀ i < peachosMaxProgramAllocations, ((kernel.processRecords process).allocations i).ptr ≠ ptr :=
        fun i bound same => known ⟨i, bound, same⟩
      obtain ⟨_, rfl⟩ := Prod.mk.inj ((processFree_missing missing).symm.trans run)
      exact ⟨live, held⟩

end Calls

/-- A step of any process that does not free the block `kept` of `owner`. -/
inductive OtherStep (processes : Set Addr) (owner kept : Addr) (allowed : Heap → Word → Prop) :
    Kernel → Kernel → Prop where
  | malloc {kernel after : Kernel} (process : Addr) (size : Word) (ptr : Addr)
      (member : process ∈ processes) (condition : allowed kernel.memory.heap size)
      (run : processMalloc process size kernel = (.ok ptr, after)) :
      OtherStep processes owner kept allowed kernel after
  | free {kernel after : Kernel} (process ptr : Addr) (member : process ∈ processes)
      (other : ¬(process = owner ∧ ptr = kept)) (run : processFree process ptr kernel = (.ok (), after)) :
      OtherStep processes owner kept allowed kernel after

section Kept
variable {kernel after : Kernel} {processes : Set Addr} {spaces : Addr → Space} {owner kept : Addr} {size : Word}
  {index : Nat} {allowed : Heap → Word → Prop}

theorem OtherStep.step (step : OtherStep processes owner kept allowed kernel after) :
    ProcessStep processes allowed kernel after := by
  cases step with
  | malloc process size ptr member condition run => exact .malloc process size ptr member condition run
  | free process ptr member other run => exact .free process ptr member run

theorem OtherStep.slot (step : OtherStep processes owner kept allowed kernel after) (nonnull : kept ≠ 0)
    (slot : kernel.allocation owner index = ⟨kept, size⟩) : after.allocation owner index = ⟨kept, size⟩ := by
  have full : (kernel.allocation owner index).ptr ≠ 0 := by
    rw [slot]
    exact nonnull
  cases step with
  | malloc process size ptr member condition run =>
    cases processMalloc_outcome run with
    | refused null => exact slot
    | returned bytes nonnull mapped => exact slot
    | recorded found bound empty nonnull =>
      rw [Kernel.recordAllocation_allocation, if_neg, Kernel.setMemory_allocation, slot]
      intro ⟨same, here⟩
      rw [same, here] at full
      exact full empty
  | free process ptr member other run =>
    cases processFree_outcome run with
    | unknown missing => exact slot
    | kept found bound here refused => exact slot
    | freed found bound here =>
      rw [Kernel.setMemory_allocation, unjoin_allocation, if_neg, slot]
      intro ⟨same, _, cleared⟩
      rw [← same, slot] at cleared
      exact other ⟨same.symm, cleared.symm⟩

end Kept

/-- What a `process_malloc` does for a request that the heap serves, and the `process_free` of its block
after any steps in between. -/
def MallocsExactly (processes : Set Addr) (spaces : Addr → Space) (allowed : Heap → Word → Prop)
    (kernel : Kernel) : Prop :=
  ∀ process ∈ processes, ∀ size : Word, 0 < size.toNat →
    (∃ start, FitsAt kernel.memory.heap (blocksFor size) start) →
      ∃ ptr after, processMalloc process size kernel = (.ok ptr, after) ∧
        ((∃ index, SlotTaken kernel after processes spaces process ptr size index ∧
          ∀ later, Run (OtherStep processes process ptr allowed) after later →
            ∃ final, processFree process ptr later = (.ok (), final) ∧
              SlotFreed later final processes spaces process ptr size index) ∨
          SlotsFull kernel after processes spaces process ptr)

/-- Processes that have allocated nothing yet, each with page tables of its own in blocks of the heap. -/
structure FreshSpaces (kernel : Kernel) (processes : Set Addr) (spaces : Addr → Space) : Prop where
  fresh : FreshProcesses kernel processes
  sizes : ∀ process ∈ processes, ∀ i < peachosMaxProgramAllocations, (kernel.allocation process i).size = 0
  task : ∀ process ∈ processes, (kernel.processRecords process).task ≠ 0
  paged : ∀ process ∈ processes, PageTables kernel.memory.bytes (kernel.directoryOf process)
    (spaces process).directory (spaces process).tables
  taken : ∀ process ∈ processes, ∀ page, (spaces process).Page (kernel.directoryOf process) page →
    ∃ block < kernel.memory.heap.table.total, page = heapBlockToAddress kernel.memory.heap (block : Nat) ∧
      ¬EntryFree kernel.memory.heap.table.entries block
  apart : ∀ left ∈ processes, ∀ right ∈ processes, left ≠ right → ∀ page,
    (spaces left).Page (kernel.directoryOf left) page → ¬(spaces right).Page (kernel.directoryOf right) page

section Runs
variable {kernel after : Kernel} {processes : Set Addr} {spaces : Addr → Space}

theorem FreshSpaces.held (start : FreshSpaces kernel processes spaces) :
    ∃ live, ProcessSpaces kernel processes live spaces := by
  obtain ⟨live, heap⟩ := start.fresh.held
  refine ⟨live, heap, start.task, start.paged, ?_, start.apart, ?_, ?_⟩
  · intro process member page inside
    obtain ⟨block, bound, here, taken⟩ := start.taken process member page inside
    have some : ∃ run ∈ live, run.Holds block := by
      by_contra none
      exact taken ((heap.table.free_iff bound).mpr (fun run inLive holds => none ⟨run, inLive, holds⟩))
    obtain ⟨run, inLive, holds⟩ := some
    exact ⟨block, run, inLive, here, holds, fun owner ownerIn i iBound nonempty =>
      absurd (start.fresh.empty owner ownerIn i iBound) nonempty⟩
  · exact fun process member i bound nonempty => absurd (start.fresh.empty process member i bound) nonempty
  · exact fun process member i bound _ => start.sizes process member i bound

theorem spaces_run {live : Set Interval} (held : ProcessSpaces kernel processes live spaces)
    (run : Run (ProcessStep processes MallocGuarded) kernel after) :
    ∃ others, ProcessSpaces after processes others spaces := by
  refine run.invariant (fun state => ∃ others, ProcessSpaces state processes others spaces) ?_ ⟨live, held⟩
  intro before next ⟨others, heldBefore⟩ step
  exact step.keeps heldBefore

/-- As long as every request is one that the heap serves with a chain of its own or refuses, a block is
recorded, mapped, unmapped and freed as one. -/
theorem processMalloc_runs_exact (start : FreshSpaces kernel processes spaces)
    (run : Run (ProcessStep processes MallocGuarded) kernel after) :
    MallocsExactly processes spaces MallocGuarded after := by
  obtain ⟨live, begun⟩ := start.held
  obtain ⟨_, held⟩ := spaces_run begun run
  intro process member size positive fits
  obtain ⟨ptr, next, call, ⟨others, nextHeld⟩, outcome⟩ := held.malloc member positive fits
  refine ⟨ptr, next, call, outcome.imp ?_ id⟩
  intro ⟨index, taken⟩
  refine ⟨index, taken, fun later steps => ?_⟩
  have recorded : next.allocation process index = ⟨ptr, size⟩ := by
    rw [taken.slot, Kernel.recordAllocation_allocation, if_pos ⟨rfl, rfl⟩]
  obtain ⟨⟨_, laterHeld⟩, slot⟩ := steps.invariant
    (fun state => (∃ others, ProcessSpaces state processes others spaces) ∧ state.allocation process index = ⟨ptr, size⟩)
    (fun _ _ before step => ⟨step.step.keeps before.1.choose_spec, step.slot taken.nonnull before.2⟩)
    ⟨⟨others, nextHeld⟩, recorded⟩
  have nonempty : (later.allocation process index).ptr ≠ 0 := by
    rw [slot]
    exact taken.nonnull
  obtain ⟨final, freed, _, exactly⟩ := laterHeld.free member taken.bound nonempty
  rw [slot] at freed exactly
  exact ⟨final, freed, exactly⟩

end Runs

theorem pagedHeap_represents {count : Nat} (bound : count ≤ 25600) :
    Represents 25600 (pagedHeap count).table.entries {run | run.first < count ∧ run.length = 1} := by
  induction count with
  | zero =>
    have boot := bootMemory_exact.represents
    rw [bootMemory_kernel.1.blocks, Set.image_empty] at boot
    have none : {run : Interval | run.first < 0 ∧ run.length = 1} = ∅ := by
      ext run
      simp
    rw [none]
    exact boot
  | succ count ih =>
    have paged := pagedHeap_paged (by omega : count ≤ 25600)
    have free : FitsAt (pagedHeap count) 1 count := by
      refine ⟨by rw [paged.sound.kernel.blocks]; omega, fun block low high => ?_⟩
      exact paged.free block (by omega) low
    rw [FitsAt, paged.sound.kernel.blocks] at free
    have taken := (ih (by omega)).take Nat.one_pos free
    have more : {run : Interval | run.first < count + 1 ∧ run.length = 1} =
        insert ⟨count, 1⟩ {run | run.first < count ∧ run.length = 1} := by
      ext run
      obtain ⟨first, length⟩ := run
      simp only [Set.mem_ofPred_eq, Set.mem_insert_iff, Interval.mk.injEq]
      omega
    rw [more]
    exact taken

theorem pagedHeap_below (count : Nat) {i : Int} (below : i < 0) :
    (pagedHeap count).table.entries i = bootMemory.heap.table.entries i := by
  induction count with
  | zero => rfl
  | succ count ih => rw [pagedHeap, heapMarkBlocksTaken_entry, if_neg (by omega), ih]

/-- A kernel with one process, whose page tables are in the first blocks of the heap; `below` is the byte
at which `kfree(0)` begins. -/
def spaceKernel (below : Entry) : Kernel :=
  { bootKernel with
    memory := ⟨(pagedHeap 1026).withEntries (Function.update (pagedHeap 1026).table.entries (-4096) below), spaceBytes⟩
    tasks := fun _ => { Task.zero with pageDirectory := heapPage 1025 }
    processRecords := fun _ => { Process.zero with task := 0x900000 } }

theorem spaceKernel_paged (below : Entry) : KernelHeap (spaceKernel below).memory.heap ∧
    (∀ i : Int, i ≠ -4096 → (spaceKernel below).memory.heap.table.entries i = (pagedHeap 1026).table.entries i) ∧
    (∀ block < 1026, ¬EntryFree (spaceKernel below).memory.heap.table.entries block) ∧
    (∀ block < 25600, 1026 ≤ block → EntryFree (spaceKernel below).memory.heap.table.entries block) := by
  have paged := pagedHeap_paged (by decide : 1026 ≤ 25600)
  have entries : ∀ i : Int, i ≠ -4096 →
      (spaceKernel below).memory.heap.table.entries i = (pagedHeap 1026).table.entries i :=
    fun i different => Function.update_of_ne different _ _
  refine ⟨paged.sound.kernel.congr (Heap.withEntries_saddr _ _) (Heap.withEntries_total _ _), entries, ?_, ?_⟩
  · intro block bound
    unfold EntryFree
    rw [entries block (by omega)]
    exact (paged.held block bound).taken
  · intro block bound low
    unfold EntryFree
    rw [entries block (by omega)]
    exact paged.free block bound low

theorem firstSpace_page {page : Addr} (inside : firstSpace.Page (heapPage 1025) page) :
    ∃ block < 1026, page = heapPage block := by
  rcases inside with chunk | directory | ⟨i, bound, table⟩
  · exact ⟨1025, by decide, chunk⟩
  · exact ⟨0, by decide, directory⟩
  · exact ⟨i + 1, by omega, table⟩

theorem spaceKernel_fresh (below : Entry) : FreshSpaces (spaceKernel below) {firstProcess} (fun _ => firstSpace) := by
  obtain ⟨kernel, entries, taken, _⟩ := spaceKernel_paged below
  have paged := pagedHeap_paged (by decide : 1026 ≤ 25600)
  have table : Represents (spaceKernel below).memory.heap.table.total (spaceKernel below).memory.heap.table.entries
      {run | run.first < 1026 ∧ run.length = 1} := by
    rw [kernel.blocks]
    exact (pagedHeap_represents (by decide)).congr (fun block => entries block (by omega))
  refine ⟨⟨kernel, ⟨_, table⟩, ⟨?_, ?_⟩, fun _ _ _ _ => rfl⟩, fun _ _ _ _ => rfl, fun _ _ => ?_, ?_, ?_, ?_⟩
  · rw [entries (-2) (by decide), pagedHeap_below 1026 (by decide)]
    rfl
  · rw [entries (-1) (by decide), pagedHeap_below 1026 (by decide)]
    rfl
  · show (0x900000 : Addr) ≠ 0
    decide
  · exact fun _ _ => spaceBytes_paged
  · intro process member page inside
    obtain ⟨block, bound, here⟩ := firstSpace_page inside
    refine ⟨block, by rw [kernel.blocks]; omega, ?_, taken block bound⟩
    rw [here, paged.address]
    exact (heapBlockToAddress_congr (Heap.withEntries_saddr _ _) _).symm
  · intro left leftIn right rightIn different
    rw [Set.mem_singleton_iff.mp leftIn, Set.mem_singleton_iff.mp rightIn] at different
    exact absurd rfl different

theorem spaceKernel_malloc : ∃ after, ProcessStep {firstProcess} MallocGuarded (spaceKernel 0) after ∧
    (after.allocation firstProcess 0).ptr ≠ 0 := by
  obtain ⟨kernel, _, taken, free⟩ := spaceKernel_paged 0
  have fits : FitsAt (spaceKernel 0).memory.heap (blocksFor 100) 1026 := by
    refine ⟨by rw [kernel.blocks]; decide, fun block low high => free block ?_ low⟩
    have : blocksFor 100 = 1 := by decide
    omega
  obtain ⟨live, held⟩ := (spaceKernel_fresh 0).held
  obtain ⟨start, ptr, supplied⟩ := @supplied_of_fits _ 100 held.heap.heap (by decide) ⟨1026, fits⟩
  obtain ⟨after, call, _, recorded⟩ := supplied.records held (Set.mem_singleton _) (by decide : 0 < 1024) rfl
    (processFindFreeAllocationIndex_first rfl)
  refine ⟨after, .malloc firstProcess 100 ptr (Set.mem_singleton _) (Or.inl ⟨supplied.roundable, 1026, fits⟩) call, ?_⟩
  rw [recorded.slot, Kernel.recordAllocation_allocation, if_pos ⟨rfl, rfl⟩]
  exact recorded.nonnull

/-- A block was taken, and everything that follows is exact. -/
theorem processMalloc_runs_exact_block : ∃ after,
    Run (ProcessStep {firstProcess} MallocGuarded) (spaceKernel 0) after ∧
      (after.allocation firstProcess 0).ptr ≠ 0 ∧
      MallocsExactly {firstProcess} (fun _ => firstSpace) MallocGuarded after := by
  obtain ⟨after, step, nonnull⟩ := spaceKernel_malloc
  exact ⟨after, .single step, nonnull, processMalloc_runs_exact (spaceKernel_fresh 0) (.single step)⟩

theorem SlotFreed.not_shared {kernel final : Kernel} {processes : Set Addr} {spaces : Addr → Space} {process ptr : Addr}
    {size : Word} {index other : Nat} (different : other ≠ index) (bound : other < peachosMaxProgramAllocations)
    (nonnull : ptr ≠ 0) (slot : (kernel.allocation process index).ptr = ptr)
    (shared : (kernel.allocation process other).ptr = ptr) (run : processFree process ptr kernel = (.ok (), final)) :
    ¬SlotFreed kernel final processes spaces process ptr size index := by
  intro freed
  have kept : (final.allocation process other).ptr = ptr := by
    rw [freed.slot, Kernel.recordAllocation_allocation, if_neg (fun both => different both.2)]
    exact shared
  have cleared : (final.allocation process index).ptr = 0 := by
    rw [freed.slot, Kernel.recordAllocation_allocation, if_pos ⟨rfl, rfl⟩]
  cases processFree_outcome run with
  | unknown missing => exact missing other bound shared
  | kept found inside here refused =>
    rw [Kernel.setMemory_allocation, slot] at cleared
    exact nonnull cleared
  | freed found inside here =>
    rw [Kernel.setMemory_allocation, unjoin_allocation, if_pos ⟨rfl, bound, shared⟩] at kept
    exact nonnull kept.symm

/-- A request for no bytes is handed a block that stays free, the next request the same block, and the
release of the block clears both slots. -/
theorem processMalloc_runs_shared : FreshSpaces (spaceKernel 0) {firstProcess} (fun _ => firstSpace) ∧
    ¬∀ after, Run (ProcessStep {firstProcess} (fun _ _ => True)) (spaceKernel 0) after →
      MallocsExactly {firstProcess} (fun _ => firstSpace) (fun _ _ => True) after := by
  refine ⟨spaceKernel_fresh 0, fun exactly => ?_⟩
  obtain ⟨kernel, _, taken, free⟩ := spaceKernel_paged 0
  have low : 1026 < (spaceKernel 0).memory.heap.table.total := by
    rw [kernel.blocks]
    decide
  have nonnull := kernel.nonnull low
  have place := kernel.address_toNat low
  have empty := kzalloc_eq (heapMalloc_zero_at kernel (by decide) taken free) nonnull
  generalize ptrEq : heapBlockToAddress (spaceKernel 0).memory.heap ((1026 : Nat) : Int) = ptr at *
  have aligned : PageAligned ptr := by
    unfold PageAligned pagingPageSize
    omega
  have first : processMalloc firstProcess 0 (spaceKernel 0) = _ := processMalloc_records empty nonnull
    (by rw [place]; decide) (by decide) (processFindFreeAllocationIndex_first rfl)
    (by rw [mapOwn_zero aligned])
  rw [mapOwn_zero aligned] at first
  generalize nextEq : Kernel.recordAllocation _ firstProcess 0 ptr 0 = next at first
  have heap : next.memory.heap = heapMarkBlocksTaken (spaceKernel 0).memory.heap (1026 : Nat) 0 := by
    rw [← nextEq]
    rfl
  have entries : next.memory.heap.table.entries = (spaceKernel 0).memory.heap.table.entries := by
    funext i
    rw [heap]
    exact (heapMarkBlocksTaken_entry _ _ 0 i).trans (if_neg (by omega))
  have slot (i : Nat) : next.allocation firstProcess i = if i = 0 then ⟨ptr, 0⟩ else ⟨0, 0⟩ := by
    rw [← nextEq, Kernel.recordAllocation_allocation]
    simp only [true_and]
    rfl
  have nextKernel : KernelHeap next.memory.heap := by
    rw [heap]
    exact kernel.congr (heapMarkBlocksTaken_saddr _ _ _) (heapMarkBlocksTaken_total _ _ _)
  have address : heapBlockToAddress next.memory.heap ((1026 : Nat) : Int) = ptr := by
    rw [heap, ← ptrEq]
    exact heapBlockToAddress_congr (heapMarkBlocksTaken_saddr _ _ _) _
  have stillTaken : ∀ block < 1026, ¬EntryFree next.memory.heap.table.entries block := by
    rw [entries]
    exact taken
  have stillFree : ∀ block < 25600, 1026 ≤ block → EntryFree next.memory.heap.table.entries block := by
    rw [entries]
    exact free
  have second := heapMalloc_one_at nextKernel (by decide) stillTaken stillFree 100 (by decide) (by decide)
  have single : blocksFor 100 = 1 := by decide
  have fits : FitsAt next.memory.heap (blocksFor 100) 1026 :=
    ⟨by rw [nextKernel.blocks]; decide, fun block above high => stillFree block (by omega) above⟩
  have step : ProcessStep {firstProcess} (fun _ _ => True) (spaceKernel 0) next :=
    .malloc firstProcess 0 ptr (Set.mem_singleton _) trivial first
  obtain ⟨result, after, call, ⟨index, recorded, later⟩ | full⟩ := exactly next (.single step) firstProcess
    (Set.mem_singleton _) 100 (by decide) ⟨1026, fits⟩
  · have same : result = ptr := by
      cases processMalloc_outcome call with
      | refused null => exact absurd rfl recorded.nonnull
      | returned bytes held mapped => exact absurd rfl recorded.nonnull
      | recorded found inside here held => rw [kzalloc_ptr, second, address]
    have different : 0 ≠ index := by
      rintro rfl
      have := recorded.empty
      rw [slot, if_pos rfl] at this
      exact nonnull this
    obtain ⟨final, freeing, freed⟩ := later after .refl
    refine freed.not_shared different (by decide) recorded.nonnull ?_ ?_ freeing
    · rw [recorded.slot, Kernel.recordAllocation_allocation, if_pos ⟨rfl, rfl⟩]
    · rw [recorded.slot, Kernel.recordAllocation_allocation, if_neg (fun both => different both.2),
        Kernel.setMemory_allocation, slot, if_pos rfl, same]
  · have unused := full.full 1 (by decide)
    rw [slot, if_neg (by decide)] at unused
    exact unused rfl

end PeachOS
