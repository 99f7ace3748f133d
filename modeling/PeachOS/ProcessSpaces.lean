import PeachOS.HeapSound
import PeachOS.ProcessHeap
import PeachOS.ProcessMap

/-! The tables of allocations, the heap and the page tables of processes in step: what each call
of `process_malloc` and `process_free` does to all three, in runs of both over any processes. -/

namespace PeachOS
open Program ByteMemory BlockPool Transition WriteLog Search

/-- The pages in which one of `size` bytes from `ptr` on lies. -/
def OwnPage (ptr : Addr) (size : Word) (page : Addr) : Prop :=
  ∃ offset < size.toNat, frameOf (ptr + BitVec.ofNat 32 offset) = page

theorem OwnPage.aligned {ptr page : Addr} {size : Word} (own : OwnPage ptr size page) : PageAligned page := by
  obtain ⟨offset, _, rfl⟩ := own
  exact frameOf_aligned _

theorem ownPage_iff {ptr page : Addr} {size : Word} (aligned : PageAligned ptr) :
    OwnPage ptr size page ↔ ∃ k < blocksFor size, page = ptr + BitVec.ofNat 32 (k * pagingPageSize) := by
  unfold PageAligned pagingPageSize at aligned
  unfold OwnPage blocksFor heapBlockSize pagingPageSize at *
  constructor
  · intro ⟨offset, bound, same⟩
    refine ⟨offset / 4096, by omega, BitVec.eq_of_toNat_eq ?_⟩
    rw [← same, frameOf_toNat, BitVec.toNat_add, BitVec.toNat_ofNat, BitVec.toNat_add, BitVec.toNat_ofNat]
    omega
  · intro ⟨k, bound, same⟩
    refine ⟨k * 4096, by omega, BitVec.eq_of_toNat_eq ?_⟩
    rw [frameOf_toNat, same, BitVec.toNat_add, BitVec.toNat_ofNat]
    omega

section Own
variable {bytes : Bytes} {chunk directory : Addr} {tables : Nat → Addr} {view : Addr → Word} {ptr page : Addr}
  {size : Word}

theorem FlatMap.mapOwn (flat : FlatMap bytes chunk directory tables view) (flags : Word) (aligned : PageAligned ptr)
    (positive : 0 < ptr.toNat) (room : ptr.toNat + blocksFor size * pagingPageSize < 2 ^ 32) :
    0 ≤ (mapOwn bytes chunk ptr size flags).1 ∧
      FlatMap (mapOwn bytes chunk ptr size flags).2 chunk directory tables
        (replay view (pageRun (· ||| flags) (blocksFor size) ptr ptr)) := by
  have fits : ptr.toNat + size.toNat ≤ 2 ^ 32 := by
    unfold blocksFor heapBlockSize pagingPageSize at room
    omega
  obtain ⟨count, _⟩ := ownPages aligned positive fits
  have order : ¬ (pagingAlignAddress (ptr + size)).toNat < ptr.toNat := by
    rw [pagingAlignAddress_toNat, BitVec.toNat_add]
    unfold PageAligned at aligned
    unfold blocksFor heapBlockSize at room
    unfold pagingPageSize at *
    omega
  have accepted := not_lt.mp (mt (flat.mapTo_accepted flags aligned aligned (pagingAlignAddress_aligned _)).1 order)
  have mapped := (flat.call (.mapTo ptr ptr (pagingAlignAddress (ptr + size)) flags)).2 accepted
  simp only [PagingCall.writes, count] at mapped
  exact ⟨accepted, mapped⟩

theorem replay_ownPage (view : Addr → Word) (flags : Word) (aligned : PageAligned ptr) (own : OwnPage ptr size page) :
    replay view (pageRun (· ||| flags) (blocksFor size) ptr ptr) page = page ||| flags := by
  obtain ⟨k, bound, rfl⟩ := (ownPage_iff aligned).mp own
  rw [replay, lastWrite_pageRun bound (blocksFor_lt size)]
  rfl

theorem replay_otherPage (view : Addr → Word) (flags : Word) (aligned : PageAligned ptr)
    (other : ¬OwnPage ptr size page) :
    replay view (pageRun (· ||| flags) (blocksFor size) ptr ptr) page = view page := by
  rw [replay, lastWrite_pageRun_missed]
  · rfl
  · exact fun i bound same => other ((ownPage_iff aligned).mpr ⟨i, bound, same⟩)

theorem mapOwn_zero {bytes : Bytes} {chunk ptr : Addr} {flags : Word} (aligned : PageAligned ptr) :
    mapOwn bytes chunk ptr 0 flags = (0, bytes) := by
  unfold PageAligned at aligned
  have sum : ptr + 0 = ptr := BitVec.add_zero ptr
  have last : pagingAlignAddress (ptr + 0) = ptr := by
    rw [sum, pagingAlignAddress, if_neg (not_not.mpr aligned)]
  unfold mapOwn pagingMapTo
  rw [last, if_neg (not_not.mpr aligned), if_neg (not_not.mpr aligned), if_neg (not_not.mpr aligned),
    if_neg (lt_irrefl _), BitVec.sub_self]
  rfl

end Own

section Pages
variable {heap : Heap} {run other : Interval} {ptr page : Addr} {size : Word}

theorem KernelHeap.ownPage_iff (kernel : KernelHeap heap) (within : run.Within heap.table.total)
    (start : ptr = heapBlockToAddress heap run.first) (length : run.length = blocksFor size) :
    OwnPage ptr size page ↔ ∃ block, run.Holds block ∧ page = heapBlockToAddress heap (block : Nat) := by
  have total := kernel.blocks
  have aligned : PageAligned ptr := start ▸ heapBlockToAddress_aligned kernel.pool run.first
  unfold Interval.Within at within
  have place {k : Nat} (bound : k < run.length) :
      ptr + BitVec.ofNat 32 (k * pagingPageSize) = heapBlockToAddress heap ((run.first + k : Nat) : Int) := by
    apply BitVec.eq_of_toNat_eq
    rw [start, BitVec.toNat_add, BitVec.toNat_ofNat, kernel.address_toNat (by omega), kernel.address_toNat (by omega)]
    unfold pagingPageSize
    omega
  rw [PeachOS.ownPage_iff aligned, ← length]
  unfold Interval.Holds
  constructor
  · intro ⟨k, bound, same⟩
    exact ⟨run.first + k, by omega, same.trans (place bound)⟩
  · intro ⟨block, inside, same⟩
    refine ⟨block - run.first, by omega, same.trans ?_⟩
    rw [place (by omega), Nat.add_sub_cancel' inside.1]

theorem KernelHeap.otherPage (kernel : KernelHeap heap) (within : run.Within heap.table.total)
    (start : ptr = heapBlockToAddress heap run.first) (length : run.length = blocksFor size)
    (apart : run.Apart other) (otherWithin : other.Within heap.table.total) {block : Nat} (held : other.Holds block)
    (here : page = heapBlockToAddress heap (block : Nat)) : ¬OwnPage ptr size page := by
  rw [kernel.ownPage_iff within start length]
  intro ⟨mine, inside, same⟩
  have mineBound := lt_of_lt_of_le inside.2 within.2
  have otherBound := lt_of_lt_of_le held.2 otherWithin.2
  have equal := heapBlockToAddress_inj kernel.pool mineBound otherBound (same.symm.trans here)
  exact apart.not_both inside (equal ▸ held)

theorem ownPage_of_near {address : Addr} (near : (address - ptr).toNat < size.toNat) :
    OwnPage ptr size (frameOf address) := by
  refine ⟨_, near, ?_⟩
  rw [BitVec.ofNat_toNat, BitVec.setWidth_eq, BitVec.add_comm, BitVec.sub_add_cancel]

theorem fill_otherPage (bytes : Bytes) (value : Byte) {address : Addr} (other : ¬OwnPage ptr size (frameOf address)) :
    fill bytes ptr size.toNat value address = bytes address :=
  if_neg (fun near => other (ownPage_of_near near))

theorem storeBytes_otherPage (bytes : Bytes) {content : List Byte} {address : Addr} (short : content.length ≤ size.toNat)
    (other : ¬OwnPage ptr size (frameOf address)) : storeBytes bytes ptr content address = bytes address := by
  apply storeBytes_outside
  · exact lt_of_le_of_lt short size.isLt
  · by_contra near
    exact other (ownPage_of_near (by omega))

end Pages

/-- Where a process has its page directory and its page tables. -/
structure Space where
  directory : Addr
  tables : Nat → Addr

/-- The pages that hold them, and the chunk that names the directory. -/
def Space.Page (space : Space) (chunk page : Addr) : Prop :=
  page = chunk ∨ page = space.directory ∨ ∃ i < 1024, page = space.tables i

theorem pageTables_kept {before after : Bytes} {chunk : Addr} {space : Space}
    (paged : PageTables before chunk space.directory space.tables)
    (same : ∀ address, space.Page chunk (frameOf address) → after address = before address) :
    PageTables after chunk space.directory space.tables ∧
      ∀ page, PageAligned page → pagingGet after space.directory page = pagingGet before space.directory page := by
  have later := paged.congr (fun address here => same address (Or.inl here))
    (fun address here => same address (Or.inr (Or.inl here)))
  refine ⟨later, fun page aligned => ?_⟩
  have bound := directoryIndex_lt page
  rw [later.pagingGet aligned, paged.pagingGet aligned]
  exact load32_congr_page (paged.tablesAligned _ bound) (tableIndex_lt page)
    (fun address here => same address (Or.inr (Or.inr ⟨_, bound, here⟩)))

/-- The heap and the tables of allocations in step, and each process with page tables of its own, in
chains of the heap that no slot names, that map what the process has recorded. -/
structure ProcessSpaces (kernel : Kernel) (processes : Set Addr) (live : Set Interval) (spaces : Addr → Space) :
    Prop where
  heap : ProcessHeap kernel processes live
  task : ∀ process ∈ processes, (kernel.processRecords process).task ≠ 0
  paged : ∀ process ∈ processes, PageTables kernel.memory.bytes (kernel.directoryOf process)
    (spaces process).directory (spaces process).tables
  kept : ∀ process ∈ processes, ∀ page, (spaces process).Page (kernel.directoryOf process) page →
    ∃ block, ∃ run ∈ live, page = heapBlockToAddress kernel.memory.heap (block : Nat) ∧ run.Holds block ∧
      ∀ owner ∈ processes, ∀ i < peachosMaxProgramAllocations, (kernel.allocation owner i).ptr ≠ 0 →
        slotChain kernel.memory.heap (kernel.allocation owner i) ≠ run
  apart : ∀ left ∈ processes, ∀ right ∈ processes, left ≠ right → ∀ page,
    (spaces left).Page (kernel.directoryOf left) page → ¬(spaces right).Page (kernel.directoryOf right) page
  mapped : ∀ process ∈ processes, ∀ i < peachosMaxProgramAllocations, (kernel.allocation process i).ptr ≠ 0 →
    ∀ page, OwnPage (kernel.allocation process i).ptr (kernel.allocation process i).size page →
      pagingGet kernel.memory.bytes (spaces process).directory page = page ||| ownFlags
  empty : ∀ process ∈ processes, ∀ i < peachosMaxProgramAllocations, (kernel.allocation process i).ptr = 0 →
    (kernel.allocation process i).size = 0

/-- What becomes of all spaces when one process maps or unmaps some pages of its own. -/
structure Remaps (kernel : Kernel) (processes : Set Addr) (spaces : Addr → Space) (after : Bytes)
    (process ptr : Addr) (size flags : Word) : Prop where
  paged : ∀ other ∈ processes, PageTables after (kernel.directoryOf other) (spaces other).directory
    (spaces other).tables
  own : ∀ page, OwnPage ptr size page →
    pagingGet after (spaces process).directory page = page ||| flags
  rest : ∀ page, PageAligned page → ¬OwnPage ptr size page →
    pagingGet after (spaces process).directory page = pagingGet kernel.memory.bytes (spaces process).directory page
  others : ∀ other ∈ processes, other ≠ process → ∀ page, PageAligned page →
    pagingGet after (spaces other).directory page = pagingGet kernel.memory.bytes (spaces other).directory page

section Spaces
variable {kernel after : Kernel} {processes : Set Addr} {live : Set Interval} {spaces : Addr → Space}
  {process ptr : Addr} {size : Word}

theorem mapOwn_outside {bytes filled : Bytes} {chunk address : Addr} {space : Space} {flags : Word}
    (paged : PageTables bytes chunk space.directory space.tables)
    (same : ∀ address, space.Page chunk (frameOf address) → filled address = bytes address)
    (outside : ∀ i < 1024, frameOf address ≠ space.tables i) :
    (mapOwn filled chunk ptr size flags).2 address = filled address := by
  have flat : FlatMap filled chunk space.directory space.tables (pagingGet filled space.directory) :=
    ⟨(pageTables_kept paged same).1, fun _ _ => rfl⟩
  exact flat.call_outside (.mapTo ptr ptr (pagingAlignAddress (ptr + size)) flags) outside

theorem ProcessSpaces.remap (held : ProcessSpaces kernel processes live spaces) (member : process ∈ processes)
    {filled : Bytes} (same : ∀ other ∈ processes, ∀ address,
      (spaces other).Page (kernel.directoryOf other) (frameOf address) → filled address = kernel.memory.bytes address)
    (flags : Word) (aligned : PageAligned ptr) (positive : 0 < ptr.toNat)
    (room : ptr.toNat + blocksFor size * pagingPageSize < 2 ^ 32) :
    0 ≤ (mapOwn filled (kernel.directoryOf process) ptr size flags).1 ∧
      Remaps kernel processes spaces (mapOwn filled (kernel.directoryOf process) ptr size flags).2 process ptr size
        flags := by
  obtain ⟨paged, entries⟩ := pageTables_kept (held.paged process member) (same process member)
  have flat : FlatMap filled (kernel.directoryOf process) (spaces process).directory (spaces process).tables
      (pagingGet filled (spaces process).directory) := ⟨paged, fun _ _ => rfl⟩
  obtain ⟨accepted, mapped⟩ := flat.mapOwn flags aligned positive room
  have other {next : Addr} (nextIn : next ∈ processes) (different : next ≠ process) :=
    @pageTables_kept _ (mapOwn filled (kernel.directoryOf process) ptr size flags).2 _ _ (held.paged next nextIn)
      (fun address inside => by
        have outside : ∀ i < 1024, frameOf address ≠ (spaces process).tables i := fun i bound here =>
          held.apart next nextIn process member different _ inside (Or.inr (Or.inr ⟨i, bound, here⟩))
        rw [mapOwn_outside (held.paged process member) (same process member) outside]
        exact same next nextIn address inside)
  refine ⟨accepted, ?_, ?_, ?_, ?_⟩
  · intro next nextIn
    by_cases here : next = process
    · rw [here]
      exact mapped.paged
    · exact (other nextIn here).1
  · intro page own
    rw [mapped.entry page own.aligned, replay_ownPage _ flags aligned own]
  · intro page pageAligned foreign
    rw [mapped.entry page pageAligned, replay_otherPage _ flags aligned foreign, entries page pageAligned]
  · exact fun next nextIn different => (other nextIn different).2

end Spaces

section Changes
variable {kernel : Kernel} {processes : Set Addr} {live others : Set Interval} {spaces : Addr → Space}
  {process ptr : Addr} {size : Word} {memory : Memory} {index : Nat}

theorem Kernel.recordAllocation_task (kernel : Kernel) (process other : Addr) (index : Nat) (ptr : Addr) (size : Word) :
    ((kernel.recordAllocation process index ptr size).processRecords other).task =
      (kernel.processRecords other).task := by
  unfold Kernel.recordAllocation
  rw [Kernel.setProcess_records]
  split
  next same => rw [same]
  next => rfl

theorem Kernel.recordAllocation_directoryOf (kernel : Kernel) (process other : Addr) (index : Nat) (ptr : Addr)
    (size : Word) : (kernel.recordAllocation process index ptr size).directoryOf other = kernel.directoryOf other := by
  unfold Kernel.directoryOf
  rw [Kernel.recordAllocation_task]
  rfl

theorem ProcessSpaces.remember (held : ProcessSpaces kernel processes live spaces)
    (heap : ProcessHeap (kernel.setMemory memory) processes live) (saddr : memory.heap.saddr = kernel.memory.heap.saddr)
    (same : ∀ other ∈ processes, ∀ address,
      (spaces other).Page (kernel.directoryOf other) (frameOf address) →
        memory.bytes address = kernel.memory.bytes address) :
    ProcessSpaces (kernel.setMemory memory) processes live spaces where
  heap := heap
  task := held.task
  paged := fun other member => (pageTables_kept (held.paged other member) (same other member)).1
  kept := by
    intro other member page inside
    obtain ⟨block, run, inLive, here, holds, unnamed⟩ := held.kept other member page inside
    refine ⟨block, run, inLive, ?_, holds, ?_⟩
    · rw [here]
      exact (heapBlockToAddress_congr saddr _).symm
    · simp only [Kernel.setMemory_memory, slotChain_congr saddr]
      exact unnamed
  apart := held.apart
  mapped := by
    intro other member i bound nonempty page own
    have aligned := own.aligned
    have entries := (pageTables_kept (held.paged other member) (same other member)).2 page aligned
    exact entries.trans (held.mapped other member i bound nonempty page own)
  empty := held.empty

theorem ProcessSpaces.rewrite {first : Addr} {length flags : Word} (held : ProcessSpaces kernel processes live spaces)
    (heap : ProcessHeap ((kernel.setMemory memory).recordAllocation process index ptr size) processes others)
    (saddr : memory.heap.saddr = kernel.memory.heap.saddr)
    (remaps : Remaps kernel processes spaces memory.bytes process first length flags)
    (chains : ∀ run ∈ live, (∀ owner ∈ processes, ∀ i < peachosMaxProgramAllocations,
      (kernel.allocation owner i).ptr ≠ 0 → slotChain kernel.memory.heap (kernel.allocation owner i) ≠ run) →
        run ∈ others ∧ (ptr ≠ 0 → slotChain kernel.memory.heap ⟨ptr, size⟩ ≠ run))
    (own : ptr ≠ 0 → ∀ page, OwnPage ptr size page →
      pagingGet memory.bytes (spaces process).directory page = page ||| ownFlags)
    (rest : ∀ i < peachosMaxProgramAllocations, i ≠ index → (kernel.allocation process i).ptr ≠ 0 →
      ∀ page, OwnPage (kernel.allocation process i).ptr (kernel.allocation process i).size page →
        ¬OwnPage first length page)
    (null : ptr = 0 → size = 0) :
    ProcessSpaces ((kernel.setMemory memory).recordAllocation process index ptr size) processes others spaces := by
  have allocation (other : Addr) (i : Nat) :=
    (kernel.setMemory memory).recordAllocation_allocation process other index i ptr size
  have directories (other : Addr) := (kernel.setMemory memory).recordAllocation_directoryOf process other index ptr size
  refine ⟨heap, ?_, ?_, ?_, ?_, ?_, ?_⟩
  · intro other otherIn
    rw [Kernel.recordAllocation_task]
    exact held.task other otherIn
  · intro other otherIn
    rw [directories]
    exact remaps.paged other otherIn
  · intro other otherIn page inside
    rw [directories] at inside
    obtain ⟨block, run, inLive, here, holds, unnamed⟩ := held.kept other otherIn page inside
    obtain ⟨inOthers, different⟩ := chains run inLive unnamed
    refine ⟨block, run, inOthers, here.trans (heapBlockToAddress_congr saddr _).symm, holds, ?_⟩
    intro owner ownerIn i bound nonempty
    show slotChain memory.heap _ ≠ run
    rw [slotChain_congr saddr]
    rw [allocation] at nonempty ⊢
    split
    next written =>
      rw [if_pos written] at nonempty
      exact different nonempty
    next kept =>
      rw [if_neg kept] at nonempty
      exact unnamed owner ownerIn i bound nonempty
  · intro left leftIn right rightIn different page
    rw [directories, directories]
    exact held.apart left leftIn right rightIn different page
  · intro other otherIn i bound nonempty page
    show _ → pagingGet memory.bytes _ _ = _
    rw [allocation] at nonempty ⊢
    by_cases written : other = process ∧ i = index
    · rw [if_pos written] at nonempty ⊢
      rw [written.1]
      exact own nonempty page
    · rw [if_neg written] at nonempty ⊢
      intro inside
      have pageAligned := inside.aligned
      have before := held.mapped other otherIn i bound nonempty page inside
      by_cases mine : other = process
      · have elsewhere : i ≠ index := fun same => written ⟨mine, same⟩
        rw [mine] at inside nonempty before ⊢
        rw [remaps.rest page pageAligned (rest i bound elsewhere nonempty page inside)]
        exact before
      · rw [remaps.others other otherIn mine page pageAligned]
        exact before
  · intro other otherIn i bound
    rw [allocation]
    split
    next => exact null
    next => exact held.empty other otherIn i bound

end Changes

section Slots
variable {kernel : Kernel} {processes : Set Addr} {live : Set Interval} {process : Addr} {index : Nat}

theorem ProcessHeap.ptr_inj (held : ProcessHeap kernel processes live) {left right : Addr} {i j : Nat}
    (leftIn : left ∈ processes) (rightIn : right ∈ processes) (iBound : i < peachosMaxProgramAllocations)
    (jBound : j < peachosMaxProgramAllocations) (nonempty : (kernel.allocation left i).ptr ≠ 0)
    (same : (kernel.allocation right j).ptr = (kernel.allocation left i).ptr) : left = right ∧ i = j := by
  have full : (kernel.allocation right j).ptr ≠ 0 := same ▸ nonempty
  by_contra different
  have apart := held.disjoint.apart left leftIn i iBound right rightIn j jBound nonempty full
    (not_and_or.mp different)
  have leftChain := held.disjoint.within left leftIn i iBound nonempty
  have rightChain := held.disjoint.within right rightIn j jBound full
  have first : (slotChain kernel.memory.heap (kernel.allocation right j)).first =
      (slotChain kernel.memory.heap (kernel.allocation left i)).first := by
    simp only [slotChain, chainOf, same]
  unfold Interval.Within at leftChain rightChain
  unfold Interval.Apart at apart
  omega

theorem ProcessHeap.unjoin (held : ProcessHeap kernel processes live) (member : process ∈ processes)
    (bound : index < peachosMaxProgramAllocations) (nonempty : (kernel.allocation process index).ptr ≠ 0) :
    kernel.setProcess process (processAllocationUnjoin (kernel.allocation process index).ptr) =
      kernel.recordAllocation process index 0 0 := by
  have slots : processAllocationUnjoin (kernel.allocation process index).ptr (kernel.processRecords process) =
      { kernel.processRecords process with
        allocations := Function.update (kernel.processRecords process).allocations index ⟨0, 0⟩ } := by
    unfold processAllocationUnjoin
    congr 1
    funext i
    rw [Function.update_apply]
    by_cases here : i = index
    · rw [if_pos here, if_pos ⟨here ▸ bound, by rw [here]; rfl⟩]
    · rw [if_neg here, if_neg]
      exact fun both => here (held.ptr_inj member member bound both.1 nonempty both.2).2.symm
  unfold Kernel.recordAllocation Kernel.setProcess
  rw [slots]

theorem unjoin_null (empty : ∀ i < peachosMaxProgramAllocations, (kernel.allocation process i).ptr = 0 →
    (kernel.allocation process i).size = 0) :
    kernel.setProcess process (processAllocationUnjoin 0) = kernel := by
  have slots : processAllocationUnjoin 0 (kernel.processRecords process) = kernel.processRecords process := by
    unfold processAllocationUnjoin
    congr 1
    funext i
    split
    next both =>
      exact (congr (congrArg ProcessAllocation.mk both.2) (empty i both.1 both.2)).symm
    next => rfl
  unfold Kernel.setProcess
  rw [slots, Function.update_eq_self]

end Slots

/-- The words of the page tables that `paging_new_4gb` builds in the first blocks of a free heap: the
directory, 1024 tables that map every page onto itself, and the chunk. -/
def spaceWord (block index : Nat) : Word :=
  if block = 0 then heapPage (index + 1) ||| 0x07
  else if block = 1025 then heapPage 0
  else BitVec.ofNat 32 (((block - 1) * 1024 + index) * 4096) ||| 0x05

def spaceBytes : Bytes := fun address =>
  (spaceWord (address.toNat / 4096 - 0x1000) (address.toNat % 4096 / 4)).extractLsb' (8 * (address.toNat % 4)) 8

abbrev firstSpace : Space := ⟨heapPage 0, fun i => heapPage (i + 1)⟩

theorem heapPage_aligned {block : Nat} (bound : block < 25600) : PageAligned (heapPage block) := by
  unfold PageAligned pagingPageSize
  rw [heapPage_toNat bound]
  omega

theorem spaceBytes_word {block index : Nat} (bound : block < 25600) (inside : index < 1024) :
    load32 spaceBytes (slot (heapPage block) index) = spaceWord block index := by
  have position := slot_toNat (heapPage_aligned bound) inside
  rw [heapPage_toNat bound] at position
  refine load32_of_bytes (fun j small => ?_)
  have byte : (slot (heapPage block) index + BitVec.ofNat 32 j).toNat = 0x1000000 + block * 4096 + 4 * index + j := by
    rw [BitVec.toNat_add, BitVec.toNat_ofNat]
    omega
  have page : (0x1000000 + block * 4096 + 4 * index + j) / 4096 - 0x1000 = block := by omega
  have word : (0x1000000 + block * 4096 + 4 * index + j) % 4096 / 4 = index := by omega
  have low : (0x1000000 + block * 4096 + 4 * index + j) % 4 = j := by omega
  unfold spaceBytes
  rw [byte, page, word, low]

theorem heapPage_inj {left right : Nat} (leftBound : left < 25600) (rightBound : right < 25600)
    (same : heapPage left = heapPage right) : left = right := by
  have place := heapPage_toNat leftBound
  rw [same, heapPage_toNat rightBound] at place
  omega

theorem spaceBytes_paged : PageTables spaceBytes (heapPage 1025) firstSpace.directory firstSpace.tables where
  chunkAligned := heapPage_aligned (by decide)
  directoryAligned := heapPage_aligned (by decide)
  tablesAligned := fun i bound => heapPage_aligned (by omega)
  chunkWord := by
    have word := spaceBytes_word (by decide : 1025 < 25600) (by decide : 0 < 1024)
    rw [slot_zero] at word
    exact word
  directoryWords := by
    intro i bound
    rw [spaceBytes_word (by decide) bound]
    exact frameOf_or _ (heapPage_aligned (by omega)) (by decide)
  tablesDistinct := by
    intro i iBound j jBound same
    have := heapPage_inj (by omega) (by omega) same
    omega
  notDirectory := by
    intro i bound same
    have := heapPage_inj (by omega) (by omega) same
    omega
  notChunk := by
    intro i bound same
    have := heapPage_inj (by omega) (by omega) same
    omega

theorem spaceBytes_flat :
    FlatMap spaceBytes (heapPage 1025) firstSpace.directory firstSpace.tables (· ||| 0x05) where
  paged := spaceBytes_paged
  entry := by
    intro page aligned
    have directory := directoryIndex_lt page
    have next : (directoryIndex page + 1 - 1) * 1024 * 4096 = directoryIndex page * 4194304 := by omega
    rw [spaceBytes_paged.pagingGet aligned, spaceBytes_word (by omega) (tableIndex_lt page), spaceWord,
      if_neg (by omega), if_neg (by omega), Nat.add_mul, next, pageOfIndexes aligned]

end PeachOS
