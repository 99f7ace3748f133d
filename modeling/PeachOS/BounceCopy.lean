import PeachOS.HeapSound
import PeachOS.StringCopy
import PeachOS.SystemCalls

/-! `copy_string_from_task`: the string passes through a block of the heap, whose page is mapped
onto itself in the task's address space for as long as it takes. -/

namespace PeachOS
open Program ByteMemory

/-- The entry of a free block is clear. -/
def HeapClear (heap : Heap) : Prop :=
  ∀ block < heap.table.total, EntryFree heap.table.entries block →
    heap.table.entries block = heapBlockTableEntryFree

theorem HeapClear.takes {before after : Memory} {taken : Set Nat} (clear : HeapClear before.heap)
    (takes : Takes before after taken) : HeapClear after.heap := by
  intro block bound free
  have others : ∀ other ∈ taken, (block : Int) ≠ (other : Nat) := by
    intro other member same
    obtain rfl : block = other := by exact_mod_cast same
    exact takes.not_free member free
  have kept := takes.kept block others
  unfold EntryFree at free
  rw [kept] at free ⊢
  exact clear block (takes.total ▸ bound) free

/-- What a call finds: the entry of a free block is clear, the address spaces of the task and of the
kernel are blocks of their own, the kernel's maps every page onto itself, and a string that is copied
goes to a buffer below the heap. -/
structure CopyReady (kernel : Kernel) (kernelChunk task phys : Addr) (max : Nat) (blocks kernelBlocks : Set Nat) :
    Prop where
  heap : KernelHeap kernel.memory.heap
  clear : HeapClear kernel.memory.heap
  nonnull : task ≠ 0
  space : SpaceBlocks kernel.memory (kernel.tasks task).pageDirectory blocks
  kernelSpace : SpaceBlocks kernel.memory kernelChunk kernelBlocks
  apart : Disjoint blocks kernelBlocks
  identity : ∀ virt, translate kernel.memory.bytes (directoryEntry kernel.memory.bytes kernelChunk) virt = some virt
  buffer : max < pagingPageSize → phys.toNat + max ≤ heapAddress.toNat
  plain : max < pagingPageSize → phys.toNat + max ≤ heapTableAddress.toNat ∨
    heapTableAddress.toNat + kernel.memory.heap.table.total ≤ phys.toNat

/-- The block that the string passes through. -/
structure Bounce (kernel : Kernel) (max : Nat) (tmp : Addr) (memory : Memory) (block : Nat) : Prop where
  run : Kernel.kzalloc (BitVec.ofNat 32 max) kernel = (.ok tmp, kernel.setMemory memory)
  nonnull : tmp ≠ 0
  address : tmp = heapBlockToAddress kernel.memory.heap block
  takes : Takes kernel.memory memory {block}

/-- The kernel when the copy begins: in the task's address space, with the block's page mapped onto itself. -/
def Kernel.bounced (kernel : Kernel) (task tmp : Addr) (memory : Memory) : Kernel :=
  let directory := directoryEntry memory.bytes (kernel.tasks task).pageDirectory
  { kernel.setMemory { memory with
      bytes := store32 memory.bytes (entryAddress memory.bytes directory tmp) (tmp ||| 0x07) } with
    pageDirectory := directory }

/-- The kernel when the string goes out: in its own address space, with these bytes. -/
def Kernel.restored (kernel : Kernel) (kernelChunk : Addr) (memory : Memory) (bytes : Bytes) : Kernel :=
  { kernel.setMemory { memory with bytes := bytes } with
    pageDirectory := directoryEntry kernel.memory.bytes kernelChunk }

section Stages
variable {kernel after : Kernel} {kernelChunk task virtual phys tmp : Addr} {max block : Nat}
  {blocks kernelBlocks : Set Nat} {memory : Memory}

section Request
variable (heap : KernelHeap kernel.memory.heap)
include heap

theorem Kernel.kzalloc_null {size : Word} (null : (PeachOS.kzalloc size kernel.memory).1 = 0) :
    Kernel.kzalloc size kernel = (.ok 0, kernel) := by
  have refused : PeachOS.kzalloc size kernel.memory = (0, kernel.memory) := by
    rcases heapMalloc_marks kernel.memory.heap size with result | ⟨start, address, marks⟩
    · unfold PeachOS.kzalloc kmalloc
      rw [result]
      rfl
    · rw [kzalloc_ptr, address] at null
      exact absurd null (heap.nonnull marks.bound)
  unfold Kernel.kzalloc
  rw [refused]
  rfl

theorem kzalloc_bounce (positive : 1 ≤ max) (short : max < pagingPageSize)
    (success : (PeachOS.kzalloc (BitVec.ofNat 32 max) kernel.memory).1 ≠ 0) : ∃ memory block,
      Bounce kernel max (PeachOS.kzalloc (BitVec.ofNat 32 max) kernel.memory).1 memory block := by
  unfold pagingPageSize at short
  have size : (BitVec.ofNat 32 max).toNat = max := by
    rw [BitVec.toNat_ofNat]
    omega
  have roundable : Roundable (BitVec.ofNat 32 max) := by
    unfold Roundable
    omega
  have single : blocksFor (BitVec.ofNat 32 max) = 1 := by
    unfold blocksFor heapBlockSize
    omega
  obtain ⟨block, address, takes⟩ := PeachOS.kzalloc_page heap.pool _ roundable single success
  refine ⟨_, block, ?_, success, address, takes⟩
  have bound := (takes.free block rfl).1
  have position := heap.address_toNat bound
  have blocks := heap.blocks
  unfold Kernel.kzalloc
  dsimp only
  rw [if_neg]
  rw [address, position, size]
  omega

end Request

theorem Bounce.apart (bounce : Bounce kernel max tmp memory block) (heap : KernelHeap kernel.memory.heap) {chunk : Addr}
    {own : Set Nat} (space : SpaceBlocks kernel.memory chunk own) {other : Nat} (member : other ∈ own) :
    heapBlockToAddress kernel.memory.heap other ≠ tmp := by
  intro same
  rw [bounce.address] at same
  have single := space.single other member
  have free := bounce.takes.free block rfl
  have here := heapBlockToAddress_inj heap.pool single.1 free.1 same
  exact single.not_free (here ▸ free.2)

theorem Bounce.samePages (bounce : Bounce kernel max tmp memory block) (heap : KernelHeap kernel.memory.heap)
    {chunk : Addr} {own : Set Nat} (space : SpaceBlocks kernel.memory chunk own) {after : Bytes}
    (same : ∀ address, frameOf address ≠ tmp → after address = kernel.memory.bytes address) :
    SamePages kernel.memory.heap own kernel.memory.bytes after :=
  fun _ member address inside => same address (inside ▸ bounce.apart heap space member)

theorem Bounce.frame (bounce : Bounce kernel max tmp memory block) :
    ∀ address, frameOf address ≠ tmp → memory.bytes address = kernel.memory.bytes address :=
  fun address outside => bounce.takes.frame address (fun _ same => by rw [same, ← bounce.address]; exact outside)

theorem Bounce.position (bounce : Bounce kernel max tmp memory block) (heap : KernelHeap kernel.memory.heap) :
    tmp.toNat = 0x1000000 + block * 4096 ∧ block < 25600 := by
  have bound := (bounce.takes.free block rfl).1
  refine ⟨?_, heap.blocks ▸ bound⟩
  rw [bounce.address, heap.address_toNat bound]

theorem Bounce.aligned (bounce : Bounce kernel max tmp memory block) (heap : KernelHeap kernel.memory.heap) :
    PageAligned tmp := by
  have position := (bounce.position heap).1
  unfold PageAligned pagingPageSize
  omega

/-- The task's tables, before and after the block is taken. -/
structure BounceTables (kernel : Kernel) (memory : Memory) (chunk tmp directory : Addr) (tables : Nat → Addr)
    (blocks : Set Nat) : Prop where
  before : PageTables kernel.memory.bytes chunk directory tables
  after : PageTables memory.bytes chunk directory tables
  offChunk : chunk ≠ tmp
  offDirectory : directory ≠ tmp
  offTables : ∀ k < 1024, tables k ≠ tmp
  own : ∀ k < 1024, ∃ block ∈ blocks, tables k = heapBlockToAddress kernel.memory.heap block

theorem Bounce.tables (bounce : Bounce kernel max tmp memory block)
    (ready : CopyReady kernel kernelChunk task phys max blocks kernelBlocks) : ∃ directory tables,
      BounceTables kernel memory (kernel.tasks task).pageDirectory tmp directory tables blocks := by
  obtain ⟨own, directory, tables, rfl, chunk, paged, _⟩ := ready.space.layout
  have ownIn : own ∈ insert own (builtBlocks directory tables 1024) := Set.mem_insert _ _
  have directoryIn : directory ∈ insert own (builtBlocks directory tables 1024) :=
    Set.mem_insert_of_mem _ (mem_builtBlocks_directory _ _ _)
  have tableIn : ∀ k < 1024, tables k ∈ insert own (builtBlocks directory tables 1024) :=
    fun k bound => Set.mem_insert_of_mem _ (mem_builtBlocks_table tables bound)
  have same := bounce.samePages ready.heap ready.space bounce.frame
  have off : ∀ other ∈ insert own (builtBlocks directory tables 1024),
      heapBlockToAddress kernel.memory.heap other ≠ tmp := fun _ member => bounce.apart ready.heap ready.space member
  exact ⟨_, _, paged, paged.congr (chunk ▸ same own ownIn) (same directory directoryIn), chunk ▸ off own ownIn,
    off directory directoryIn, fun k bound => off _ (tableIn k bound), fun k bound => ⟨_, tableIn k bound, rfl⟩⟩

section Tables
variable {directory : Addr} {tables : Nat → Addr}

theorem BounceTables.bounced
    (paging : BounceTables kernel memory (kernel.tasks task).pageDirectory tmp directory tables blocks) :
    (kernel.bounced task tmp memory).pageDirectory = directory ∧
      (kernel.bounced task tmp memory).memory.bytes =
        store32 memory.bytes (slot (tables (directoryIndex tmp)) (tableIndex tmp)) (tmp ||| 0x07) := by
  have word := paging.after.chunkWord
  refine ⟨word, ?_⟩
  rw [← paging.after.entryAddress tmp, ← word]
  rfl

/-- In the copy's address space the block's page is mapped onto itself, every other page as the task
has it. -/
theorem BounceTables.translate
    (paging : BounceTables kernel memory (kernel.tasks task).pageDirectory tmp directory tables blocks)
    (aligned : PageAligned tmp) (virt : Addr) (same : ∀ address, frameOf address ≠ tmp →
      memory.bytes address = kernel.memory.bytes address) :
    PeachOS.translate (kernel.bounced task tmp memory).memory.bytes
        (kernel.bounced task tmp memory).pageDirectory virt =
      if frameOf virt = tmp then some virt else PeachOS.translate kernel.memory.bytes directory virt := by
  obtain ⟨loaded, bytes⟩ := paging.bounced
  have pageAligned := frameOf_aligned virt
  have flat : FlatMap memory.bytes _ directory tables (pagingGet memory.bytes directory) :=
    ⟨paging.after, fun _ _ => rfl⟩
  have word : pagingGet (kernel.bounced task tmp memory).memory.bytes directory (frameOf virt) =
      if frameOf virt = tmp then tmp ||| 0x07 else pagingGet kernel.memory.bytes directory (frameOf virt) := by
    have entry := (flat.set aligned (tmp ||| 0x07)).2.entry _ pageAligned
    rw [paging.after.pagingSet aligned] at entry
    rw [bytes, entry, Function.update_apply]
    split
    · rfl
    · rw [paging.after.pagingGet pageAligned, paging.before.pagingGet pageAligned]
      exact load32_congr_page (paging.after.tablesAligned _ (directoryIndex_lt _)) (tableIndex_lt _)
        (fun address inside => same address (inside ▸ paging.offTables _ (directoryIndex_lt _)))
  rw [loaded, translate_eq, translate_eq, word]
  split
  next here =>
    have present : (tmp ||| 0x07) &&& pagingIsPresent ≠ 0 := by
      intro none
      have bit := congrArg (BitVec.getLsbD · 0) none
      simp at bit
    have place : tmp + BitVec.ofNat 32 (virt.toNat % pagingPageSize) = virt := by
      have value := congrArg BitVec.toNat here
      rw [frameOf_toNat] at value
      unfold pagingPageSize
      bv_omega
    rw [if_neg present, frameOf_or _ aligned (by decide), place]
  next => rfl

theorem BounceTables.enters (ready : CopyReady kernel kernelChunk task phys max blocks kernelBlocks)
    (bounce : Bounce kernel max tmp memory block)
    (paging : BounceTables kernel memory (kernel.tasks task).pageDirectory tmp directory tables blocks) :
    Kernel.onBytes (pagingMap · (kernel.tasks task).pageDirectory tmp tmp
        (pagingIsWriteable ||| pagingIsPresent ||| pagingAccessFromAll)) (kernel.setMemory memory) =
      (.ok 0, kernel.setMemory (kernel.bounced task tmp memory).memory) ∧
    Kernel.pagingSwitch (kernel.tasks task).pageDirectory (kernel.setMemory (kernel.bounced task tmp memory).memory) =
      (.ok (), kernel.bounced task tmp memory) := by
  have aligned := bounce.aligned ready.heap
  obtain ⟨loaded, bytes⟩ := paging.bounced
  have stored := paging.after.store (directoryIndex_lt tmp) (tableIndex_lt tmp) (tmp ||| 0x07)
  have map : pagingMap memory.bytes (kernel.tasks task).pageDirectory tmp tmp
      (pagingIsWriteable ||| pagingIsPresent ||| pagingAccessFromAll) =
      (0, (kernel.bounced task tmp memory).memory.bytes) := by
    rw [bytes, pagingMap_eq aligned aligned, paging.after.chunkWord]
    exact paging.after.pagingSet aligned _
  refine ⟨Kernel.onBytes_run map, ?_⟩
  rw [Kernel.pagingSwitch_run (ready.space.nonnull ready.heap), Kernel.setMemory_memory, bytes, stored.chunkWord,
    ← loaded]
  rfl

/-- The call as far as the copy, which is all that differs from call to call. -/
theorem copyStringFromTask_bounced (ready : CopyReady kernel kernelChunk task phys max blocks kernelBlocks)
    (bounce : Bounce kernel max tmp memory block) (short : max < pagingPageSize)
    (paging : BounceTables kernel memory (kernel.tasks task).pageDirectory tmp directory tables blocks) :
    copyStringFromTask kernelChunk task virtual phys max kernel =
      (Kernel.strncpy tmp virtual max >>= fun _ => copyStringOut kernelChunk directory tmp phys
        (load32 memory.bytes (slot (tables (directoryIndex tmp)) (tableIndex tmp))) max)
        (kernel.bounced task tmp memory) := by
  have word := paging.after.pagingGet (bounce.aligned ready.heap)
  have same : ((kernel.setMemory memory).tasks task).pageDirectory = (kernel.tasks task).pageDirectory := rfl
  obtain ⟨mapped, switched⟩ := paging.enters ready bounce
  unfold copyStringFromTask
  rw [if_neg (by exact_mod_cast not_le.mpr short), BitVec.ofInt_natCast, bind_ok bounce.run, if_neg bounce.nonnull,
    if_neg ready.nonnull, read_bind, same, if_neg (ready.space.nonnull ready.heap), read_bind,
    Kernel.setMemory_memory, paging.after.chunkWord, word]
  exact (bind_ok mapped).trans (bind_ok switched)

theorem BounceTables.writes (ready : CopyReady kernel kernelChunk task phys max blocks kernelBlocks)
    (bounce : Bounce kernel max tmp memory block) (short : max < pagingPageSize)
    (paging : BounceTables kernel memory (kernel.tasks task).pageDirectory tmp directory tables blocks) :
    Writes (kernel.bounced task tmp memory) tmp tmp max := by
  have aligned := bounce.aligned ready.heap
  obtain ⟨position, bound⟩ := bounce.position ready.heap
  unfold pagingPageSize at short
  have onPage : ∀ i < max, frameOf (tmp + BitVec.ofNat 32 i) = tmp := fun i inside =>
    frameOf_within aligned (by omega)
  obtain ⟨loaded, bytes⟩ := paging.bounced
  have stored := paging.after.store (directoryIndex_lt tmp) (tableIndex_lt tmp) (tmp ||| 0x07)
  rw [← bytes] at stored
  refine ⟨by omega, fun left agrees virt => ?_, fun i inside => ?_, fun i inside => ?_⟩
  · -- the tables are on other pages
    have same : ∀ page ≠ tmp, ∀ address, frameOf address = page →
        left address = (kernel.bounced task tmp memory).memory.bytes address :=
      fun page other address inside => agrees address (le_trans (by omega) (frameOf_apart aligned (inside ▸ other)))
    rw [loaded]
    exact stored.translate (stored.congr (same _ paging.offChunk) (same _ paging.offDirectory))
      (fun k bound => same _ (paging.offTables k bound)) virt
  · rw [paging.translate aligned _ bounce.frame, if_pos (onPage i inside)]
  · have total : (kernel.bounced task tmp memory).memory.heap.table.total = 25600 :=
      bounce.takes.total.trans ready.heap.blocks
    rw [total]
    unfold heapTableAddress
    bv_omega

theorem BounceTables.copied (ready : CopyReady kernel kernelChunk task phys max blocks kernelBlocks)
    (bounce : Bounce kernel max tmp memory block) (short : max < pagingPageSize)
    (paging : BounceTables kernel memory (kernel.tasks task).pageDirectory tmp directory tables blocks) {left : Bytes}
    (agrees : ∀ address, max ≤ (address - tmp).toNat →
      left address = (kernel.bounced task tmp memory).memory.bytes address) {address : Addr}
    (offPage : frameOf address ≠ tmp)
    (offEntry : ∀ i < 4, address ≠ slot (tables (directoryIndex tmp)) (tableIndex tmp) + BitVec.ofNat 32 i) :
    left address = kernel.memory.bytes address := by
  have outside := frameOf_apart (bounce.aligned ready.heap) offPage
  rw [agrees address (le_trans short.le outside), paging.bounced.2, store32_other _ _ offEntry,
    bounce.frame address offPage]

theorem BounceTables.restores (ready : CopyReady kernel kernelChunk task phys max blocks kernelBlocks)
    (bounce : Bounce kernel max tmp memory block) (short : max < pagingPageSize)
    (paging : BounceTables kernel memory (kernel.tasks task).pageDirectory tmp directory tables blocks) {left : Bytes}
    (agrees : ∀ address, max ≤ (address - tmp).toNat →
      left address = (kernel.bounced task tmp memory).memory.bytes address) :
    ∃ bytes, Kernel.pagingSwitch kernelChunk ((kernel.bounced task tmp memory).setBytes left) =
        (.ok (), kernel.restored kernelChunk memory left) ∧
      Kernel.onBytes (pagingSet · directory tmp
        (load32 memory.bytes (slot (tables (directoryIndex tmp)) (tableIndex tmp))))
        (kernel.restored kernelChunk memory left) = (.ok 0, kernel.restored kernelChunk memory bytes) ∧
      (∀ address, frameOf address ≠ tmp → bytes address = kernel.memory.bytes address) ∧
      ∀ address, frameOf address = tmp → bytes address = left address := by
  have aligned := bounce.aligned ready.heap
  have tableAligned := paging.before.tablesAligned _ (directoryIndex_lt tmp)
  have offTable := paging.offTables _ (directoryIndex_lt tmp)
  have others : ∀ page ≠ tmp, page ≠ tables (directoryIndex tmp) → ∀ address, frameOf address = page →
      left address = kernel.memory.bytes address := by
    intro page offPage offTable address inside
    have outside := frameOf_apart aligned (inside ▸ offPage)
    rw [agrees address (le_trans short.le outside), paging.bounced.2,
      store32_outside _ _ tableAligned (tableIndex_lt tmp) (inside ▸ offTable),
      bounce.frame address (inside ▸ offPage)]
  have left' : PageTables left (kernel.tasks task).pageDirectory directory tables :=
    paging.before.congr (others _ paging.offChunk (paging.before.notChunk _ (directoryIndex_lt tmp)).symm)
      (others _ paging.offDirectory (paging.before.notDirectory _ (directoryIndex_lt tmp)).symm)
  have kernelDirectory : directoryEntry left kernelChunk = directoryEntry kernel.memory.bytes kernelChunk := by
    refine (ready.kernelSpace.translate (fun other member address inside => ?_) 0).2
    refine others _ (bounce.apart ready.heap ready.kernelSpace member) (fun same => ?_) address inside
    obtain ⟨own, ownIn, table⟩ := paging.own _ (directoryIndex_lt tmp)
    have here := ready.heap.space.block_inj (ready.kernelSpace.single other member).1 (ready.space.single own ownIn).1
      (same.trans table)
    exact Set.disjoint_left.mp ready.apart ownIn (here ▸ member)
  have oldEntry : load32 memory.bytes (slot (tables (directoryIndex tmp)) (tableIndex tmp)) =
      load32 kernel.memory.bytes (slot (tables (directoryIndex tmp)) (tableIndex tmp)) :=
    load32_congr_page tableAligned (tableIndex_lt tmp)
      (fun address inside => bounce.frame address (inside ▸ offTable))
  rw [oldEntry]
  refine ⟨_, ?_, Kernel.onBytes_run (left'.pagingSet aligned _), fun address offPage => ?_,
    fun address onPage => ?_⟩
  · rw [Kernel.pagingSwitch_run (ready.kernelSpace.nonnull ready.heap)]
    unfold Kernel.restored
    rw [← kernelDirectory]
    rfl
  · exact store32_back (paging.copied ready bounce short agrees offPage)
  · exact store32_outside _ _ tableAligned (tableIndex_lt tmp) (onPage ▸ offTable.symm)

theorem copyStringOut_run {oldEntry : Word} {count : Int} {left bytes : Bytes}
    (switched : Kernel.pagingSwitch kernelChunk ((kernel.bounced task tmp memory).setBytes left) =
      (.ok (), kernel.restored kernelChunk memory left))
    (set : Kernel.onBytes (pagingSet · directory tmp oldEntry) (kernel.restored kernelChunk memory left) =
      (.ok 0, kernel.restored kernelChunk memory bytes)) :
    copyStringOut kernelChunk directory tmp phys oldEntry count ((kernel.bounced task tmp memory).setBytes left) =
      (Kernel.strncpy phys tmp count >>= fun _ => Kernel.kfree tmp >>= fun _ => pure 0)
        (kernel.restored kernelChunk memory bytes) := by
  unfold copyStringOut
  rw [bind_ok switched, bind_ok set, if_neg (by decide)]

end Tables

theorem CopyReady.frees (ready : CopyReady kernel kernelChunk task phys max blocks kernelBlocks)
    (bounce : Bounce kernel max tmp memory block) (bytes : Bytes) :
    Kernel.kfree tmp (kernel.restored kernelChunk memory bytes) =
      (.ok (), kernel.restored kernelChunk kernel.memory bytes) := by
  obtain ⟨bound, free⟩ := bounce.takes.free block rfl
  have address : tmp = heapBlockToAddress memory.heap block := by rw [bounce.takes.address, bounce.address]
  have single : Single memory.heap block := ⟨bounce.takes.total ▸ bound, bounce.takes.taken block rfl⟩
  have releases := kfree_single (bounce.takes.pool ready.heap.pool) single
  rw [← address] at releases
  have entries : (heapFree memory.heap tmp).table.entries = kernel.memory.heap.table.entries := by
    funext i
    by_cases here : i = block
    · rw [here, ready.clear block bound free]
      exact releases.freed block rfl
    · have kept := bounce.takes.kept i (fun other member => (show other = block from member) ▸ here)
      rw [← kept]
      exact releases.kept i (fun other member => (show other = block from member) ▸ here)
  have heap : heapFree memory.heap tmp = kernel.memory.heap := by
    have total : (heapFree memory.heap tmp).table.total = kernel.memory.heap.table.total := bounce.takes.total
    have saddr : (heapFree memory.heap tmp).saddr = kernel.memory.heap.saddr := bounce.takes.saddr
    generalize heapFree memory.heap tmp = left at entries total saddr
    generalize kernel.memory.heap = right at entries total saddr
    obtain ⟨⟨_, _⟩, _⟩ := left
    obtain ⟨⟨_, _⟩, _⟩ := right
    cases entries
    cases total
    cases saddr
    rfl
  unfold Kernel.restored
  rw [← heap]
  rfl

theorem CopyReady.above (ready : CopyReady kernel kernelChunk task phys max blocks kernelBlocks)
    (short : max < pagingPageSize) {other : Nat} (bound : other < kernel.memory.heap.table.total) {address : Addr}
    (inside : frameOf address = heapBlockToAddress kernel.memory.heap other) : max ≤ (address - phys).toNat := by
  have position := congrArg BitVec.toNat inside
  have buffer := ready.buffer short
  rw [frameOf_toNat, ready.heap.address_toNat bound] at position
  unfold heapAddress at buffer
  bv_omega

theorem CopyReady.translate (ready : CopyReady kernel kernelChunk task phys max blocks kernelBlocks) {left : Bytes}
    (same : SamePages kernel.memory.heap kernelBlocks kernel.memory.bytes left) (virt : Addr) :
    PeachOS.translate left (directoryEntry kernel.memory.bytes kernelChunk) virt = some virt :=
  ((ready.kernelSpace.translate same virt).1).trans (ready.identity virt)

section Out
variable {bytes : Bytes} (ready : CopyReady kernel kernelChunk task phys max blocks kernelBlocks)
  (bounce : Bounce kernel max tmp memory block) (short : max < pagingPageSize)
  (offPage : ∀ address, frameOf address ≠ tmp → bytes address = kernel.memory.bytes address)
include ready bounce short offPage

theorem CopyReady.writes : Writes (kernel.restored kernelChunk memory bytes) phys phys max := by
  have same := bounce.samePages ready.heap ready.kernelSpace offPage
  have buffer := ready.buffer short
  have plain := ready.plain short
  have small : max < 4096 := short
  refine ⟨by omega, fun left agrees virt => ?_, fun i inside => ready.translate same _, fun i inside => ?_⟩
  · have kept : SamePages kernel.memory.heap kernelBlocks bytes left := fun other member address inside =>
      agrees address (ready.above short (ready.kernelSpace.single other member).1 inside)
    exact (ready.translate (same.trans kept) virt).trans (ready.translate same virt).symm
  · have total : (kernel.restored kernelChunk memory bytes).memory.heap.table.total = 25600 :=
      bounce.takes.total.trans ready.heap.blocks
    rw [ready.heap.blocks] at plain
    rw [total]
    unfold heapTableAddress at plain ⊢
    unfold heapAddress at buffer
    bv_omega

theorem CopyReady.rereads {text : List Byte} (length : text.length < max)
    (stored : ∀ i < max, bytes (tmp + BitVec.ofNat 32 i) =
      storeBytes (kernel.bounced task tmp memory).memory.bytes tmp (text ++ [0]) (tmp + BitVec.ofNat 32 i)) {i : Nat}
    (bound : i ≤ text.length) : (kernel.restored kernelChunk memory bytes).Reads phys max (tmp + BitVec.ofNat 32 i)
      ((text ++ [0]).getD i 0) := by
  have same := bounce.samePages ready.heap ready.kernelSpace offPage
  obtain ⟨position, blockBound⟩ := bounce.position ready.heap
  have small : max < 4096 := short
  refine ⟨_, ready.translate same _, ?_, ?_⟩
  · apply ready.above short (bounce.takes.free block rfl).1
    rw [frameOf_within (bounce.aligned ready.heap) (by omega), bounce.address]
  · have total : (kernel.restored kernelChunk memory bytes).memory.heap.table.total = 25600 :=
      bounce.takes.total.trans ready.heap.blocks
    unfold Memory.physical
    dsimp only
    rw [total, if_neg]
    · have count : (text ++ [0]).length = text.length + 1 := by rw [List.length_append, List.length_singleton]
      exact (stored i (by omega)).trans (storeBytes_inside _ _ _ (by omega) (by omega))
    · unfold heapTableAddress
      bv_omega

end Out

/-- The string on its way through the block, and the bytes of memory when the task's entry is back. -/
structure Passed (kernel : Kernel) (kernelChunk task virtual tmp : Addr) (max : Nat) (memory : Memory)
    (blocks : Set Nat) (text : List Byte) (directory : Addr) (tables : Nat → Addr) (bytes : Bytes) : Prop where
  paging : BounceTables kernel memory (kernel.tasks task).pageDirectory tmp directory tables blocks
  string : CutString (fun i c => (kernel.bounced task tmp memory).Reads tmp max (virtual + BitVec.ofNat 32 i) c)
    (max - 1) 0 text
  copied : Kernel.strncpy tmp virtual max (kernel.bounced task tmp memory) =
    (.ok (), (kernel.bounced task tmp memory).setBytes
      (storeBytes (kernel.bounced task tmp memory).memory.bytes tmp (text ++ [0])))
  switched : Kernel.pagingSwitch kernelChunk ((kernel.bounced task tmp memory).setBytes
      (storeBytes (kernel.bounced task tmp memory).memory.bytes tmp (text ++ [0]))) =
    (.ok (), kernel.restored kernelChunk memory
      (storeBytes (kernel.bounced task tmp memory).memory.bytes tmp (text ++ [0])))
  set : Kernel.onBytes (pagingSet · directory tmp
      (load32 memory.bytes (slot (tables (directoryIndex tmp)) (tableIndex tmp))))
      (kernel.restored kernelChunk memory
        (storeBytes (kernel.bounced task tmp memory).memory.bytes tmp (text ++ [0]))) =
    (.ok 0, kernel.restored kernelChunk memory bytes)
  offPage : ∀ address, frameOf address ≠ tmp → bytes address = kernel.memory.bytes address
  stored : ∀ i < max, bytes (tmp + BitVec.ofNat 32 i) =
    storeBytes (kernel.bounced task tmp memory).memory.bytes tmp (text ++ [0]) (tmp + BitVec.ofNat 32 i)

theorem Passed.loaded {text : List Byte} {directory : Addr} {tables : Nat → Addr} {bytes : Bytes}
    (passed : Passed kernel kernelChunk task virtual tmp max memory blocks text directory tables bytes)
    (short : max < pagingPageSize) (phys : Addr) :
    loadBytes (storeBytes bytes phys (text ++ [0])) phys (text.length + 1) = text ++ [0] := by
  have small : max < 4096 := short
  have length := passed.string.length_le
  have count : (text ++ [0]).length = text.length + 1 := by rw [List.length_append, List.length_singleton]
  rw [← count]
  exact loadBytes_storeBytes bytes phys (text ++ [0]) (by omega)

section Calls
variable (ready : CopyReady kernel kernelChunk task phys max blocks kernelBlocks)
  (bounce : Bounce kernel max tmp memory block) (positive : 1 ≤ max) (short : max < pagingPageSize)
include ready bounce positive short

theorem CopyReady.passes {text : List Byte} (string : CutString (fun i c =>
      (kernel.bounced task tmp memory).Reads tmp max (virtual + BitVec.ofNat 32 i) c) (max - 1) 0 text) :
    ∃ directory tables bytes,
      Passed kernel kernelChunk task virtual tmp max memory blocks text directory tables bytes := by
  have small : max < 4096 := short
  have length := string.length_le
  have count : (text ++ [0]).length = text.length + 1 := by rw [List.length_append, List.length_singleton]
  obtain ⟨directory, tables, paging⟩ := bounce.tables ready
  have agrees : ∀ address, max ≤ (address - tmp).toNat →
      storeBytes (kernel.bounced task tmp memory).memory.bytes tmp (text ++ [0]) address =
        (kernel.bounced task tmp memory).memory.bytes address :=
    fun address outside => storeBytes_outside _ _ _ (by omega) (by omega)
  obtain ⟨bytes, switched, set, offPage, onPage⟩ := paging.restores ready bounce short agrees
  exact ⟨directory, tables, bytes, paging, string,
    Kernel.strncpy_copies (paging.writes ready bounce short) positive string, switched, set, offPage,
    fun i inside => onPage _ (frameOf_within (bounce.aligned ready.heap) (by omega))⟩

theorem CopyReady.copies {text : List Byte} {directory : Addr} {tables : Nat → Addr} {bytes : Bytes}
    (passed : Passed kernel kernelChunk task virtual tmp max memory blocks text directory tables bytes) :
    copyStringFromTask kernelChunk task virtual phys max kernel =
      (.ok 0, kernel.restored kernelChunk kernel.memory (storeBytes bytes phys (text ++ [0]))) := by
  have length : text.length < max := by
    have := passed.string.length_le
    omega
  have again : CutString (fun i c => (kernel.restored kernelChunk memory bytes).Reads phys max
      (tmp + BitVec.ofNat 32 i) c) (max - 1) 0 text :=
    passed.string.reread (fun j bound => by
      rw [Nat.zero_add]
      exact ready.rereads bounce short passed.offPage length passed.stored bound)
  have second := Kernel.strncpy_copies (ready.writes bounce short passed.offPage) positive again
  rw [copyStringFromTask_bounced ready bounce short passed.paging, bind_ok passed.copied,
    copyStringOut_run passed.switched passed.set, bind_ok second]
  exact bind_ok (ready.frees bounce (storeBytes bytes phys (text ++ [0])))

/-- Whatever the copy finds, only the block's page and the buffer are written. -/
theorem CopyReady.leaves {res : Int}
    (run : copyStringFromTask kernelChunk task virtual phys max kernel = (.ok res, after)) :
    ∃ bytes, after = kernel.restored kernelChunk kernel.memory bytes ∧ ∀ address, frameOf address ≠ tmp →
      max ≤ (address - phys).toNat → bytes address = kernel.memory.bytes address := by
  obtain ⟨directory, tables, paging⟩ := bounce.tables ready
  rw [copyStringFromTask_bounced ready bounce short paging] at run
  obtain ⟨_, middle, first, rest⟩ := bind_eq_ok run
  obtain ⟨left, rfl, agrees⟩ := Kernel.strncpy_within (paging.writes ready bounce short) positive first
  obtain ⟨bytes, switched, set, offPage, onPage⟩ := paging.restores ready bounce short agrees
  rw [copyStringOut_run switched set] at rest
  obtain ⟨_, middle, second, freed⟩ := bind_eq_ok rest
  obtain ⟨final, rfl, kept⟩ := Kernel.strncpy_within (ready.writes bounce short offPage) positive second
  have back : Kernel.kfree tmp ((kernel.restored kernelChunk memory bytes).setBytes final) = _ :=
    ready.frees bounce final
  rw [bind_ok back] at freed
  cases freed
  exact ⟨final, rfl, fun address other outside => (kept address outside).trans (offPage address other)⟩

end Calls

/-- In the system calls, where a caller gives the strings of its memory, the call goes the same way: it
has the same result and string, and leaves all but the buffer the same. -/
theorem CopyReady.copies_below {caller : Caller}
    (ready : CopyReady kernel caller.kernelChunk task phys max blocks kernelBlocks)
    (bounce : Bounce kernel max tmp memory block) (short : max < pagingPageSize) {text : List Byte} {directory : Addr}
    {tables : Nat → Addr} {bytes : Bytes}
    (passed : Passed kernel caller.kernelChunk task virtual tmp max memory blocks text directory tables bytes)
    (given : strncpy (caller.string virtual) max = text ++ [0]) (load : List Byte → Addr → KernelProg Int) :
    (kernelBelow load).copyStringFromTask caller task virtual max kernel =
      (.ok (0, text ++ [0]), kernel.restored caller.kernelChunk kernel.memory bytes) := by
  obtain ⟨mapped, entered⟩ := passed.paging.enters ready bounce
  have word := passed.paging.after.pagingGet (bounce.aligned ready.heap)
  have same : ((kernel.setMemory memory).tasks task).pageDirectory = (kernel.tasks task).pageDirectory := rfl
  have through : (kernelBelow load).copyThrough caller task tmp virtual max (kernel.setMemory memory) =
      (.ok 0, kernel.restored caller.kernelChunk memory bytes) := by
    unfold Below.copyThrough Below.kernelPage kernelBelow
    dsimp only [id]
    rw [if_neg ready.nonnull, read_bind, same, if_neg (ready.space.nonnull ready.heap), read_bind,
      Kernel.setMemory_memory, passed.paging.after.chunkWord, word, given, bind_ok mapped, bind_ok entered, update_bind]
    exact (bind_ok passed.switched).trans passed.set
  have free : (kernelBelow load).kfree tmp _ = _ := ready.frees bounce bytes
  have alloc : (kernelBelow load).kzalloc .kernel (BitVec.ofNat 32 max) kernel = _ := bounce.run
  unfold Below.copyStringFromTask
  rw [if_neg (not_le.mpr short), bind_ok alloc, if_neg bounce.nonnull, bind_ok through, bind_ok free,
    if_neg (by decide), given]
  rfl

end Stages

end PeachOS
