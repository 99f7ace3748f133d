import Mathlib.Data.Finset.Card
import PeachOS.Kernel
import PeachOS.PagingTables

/-! The kernel's own heap, and requests that must succeed because enough blocks
are free. -/

namespace PeachOS
open ByteMemory BlockPool

/-- The pool that `kheap_init` sets up. -/
structure KernelHeap (heap : Heap) : Prop where
  saddr : heap.saddr = heapAddress
  total : heap.table.total = heapSizeBytes / heapBlockSize

def freeBlocks (heap : Heap) : Finset Nat :=
  (Finset.range heap.table.total).filter (fun block => EntryFree heap.table.entries block)

theorem mem_freeBlocks {heap : Heap} {block : Nat} :
    block ∈ freeBlocks heap ↔ block < heap.table.total ∧ EntryFree heap.table.entries block := by
  rw [freeBlocks, Finset.mem_filter, Finset.mem_range]

/-- A pool of the address space that does not begin at null. -/
structure InSpace (heap : Heap) : Prop where
  saddr : heap.saddr ≠ 0
  top : heap.saddr.toNat + heap.table.total * heapBlockSize ≤ 2 ^ 32

section Space
variable {heap : Heap}

theorem InSpace.address_toNat (space : InSpace heap) {block : Nat}
    (bound : block < heap.table.total) :
    (heapBlockToAddress heap block).toNat = heap.saddr.toNat + block * 4096 := by
  have top := space.top
  have offset : BitVec.ofInt 32 ((block : Int) * heapBlockSize) = BitVec.ofNat 32 (block * 4096) := by
    rw [show (block : Int) * (heapBlockSize : Nat) = ((block * heapBlockSize : Nat) : Int) from
      (Int.natCast_mul _ _).symm, BitVec.ofInt_natCast]
  unfold heapBlockSize at top
  unfold heapBlockToAddress
  rw [offset, BitVec.toNat_add, BitVec.toNat_ofNat]
  omega

theorem InSpace.nonnull (space : InSpace heap) {block : Nat} (bound : block < heap.table.total) :
    heapBlockToAddress heap block ≠ 0 := by
  intro zero
  have position := space.address_toNat bound
  have base : heap.saddr.toNat ≠ 0 := fun null => space.saddr (BitVec.eq_of_toNat_eq null)
  rw [zero] at position
  have : (0 : Addr).toNat = 0 := rfl
  omega

theorem InSpace.block_inj (space : InSpace heap) {block other : Nat}
    (bound : block < heap.table.total) (otherBound : other < heap.table.total)
    (same : heapBlockToAddress heap block = heapBlockToAddress heap other) : block = other := by
  have position := space.address_toNat bound
  rw [same, space.address_toNat otherBound] at position
  omega

end Space

section Kernel
variable {heap : Heap}

theorem KernelHeap.blocks (kernel : KernelHeap heap) : heap.table.total = 25600 := by
  rw [kernel.total]
  rfl

theorem KernelHeap.pool (kernel : KernelHeap heap) : Pool heap where
  aligned := by rw [kernel.saddr]; decide
  small := by rw [kernel.blocks]; decide

theorem KernelHeap.space (kernel : KernelHeap heap) : InSpace heap where
  saddr := by rw [kernel.saddr]; decide
  top := by rw [kernel.saddr, kernel.blocks]; decide

theorem KernelHeap.address_toNat (kernel : KernelHeap heap) {block : Nat}
    (bound : block < heap.table.total) :
    (heapBlockToAddress heap block).toNat = 0x1000000 + block * 4096 := by
  rw [kernel.space.address_toNat bound, kernel.saddr]
  rfl

theorem KernelHeap.nonnull (kernel : KernelHeap heap) {block : Nat}
    (bound : block < heap.table.total) : heapBlockToAddress heap block ≠ 0 :=
  kernel.space.nonnull bound

theorem KernelHeap.congr {after : Heap} (kernel : KernelHeap heap) (saddr : after.saddr = heap.saddr)
    (total : after.table.total = heap.table.total) : KernelHeap after where
  saddr := saddr.trans kernel.saddr
  total := total.trans kernel.total

end Kernel

section Requests
variable {heap : Heap} {size : Word}

theorem heapMalloc_blocks (heap : Heap) (size : Word) :
    ∃ count : Word, heapMalloc heap size = heapMallocBlocks heap count ∧
      (0 < count.toNat → Roundable size ∧ count.toNat = blocksFor size) := by
  refine ⟨_, rfl, fun positive => ?_⟩
  have small := blocksFor_lt size
  by_cases low : size.toNat ≤ 2 ^ 32 - 4096
  · have count : (BitVec.ofNat 32 ((heapAlignValueToUpper size).toNat / heapBlockSize)).toNat =
        blocksFor size := by
      rw [heapAlignValueToUpper_blocks, if_pos low, blocksFor_toNat]
    rw [count] at positive ⊢
    refine ⟨⟨?_, low⟩, rfl⟩
    unfold blocksFor heapBlockSize at positive
    omega
  · rw [heapAlignValueToUpper_blocks, if_neg low] at positive
    exact absurd positive (by decide)

/-- Without a fitting run the scan ends in the free end of the table; where there is
none it finds nothing. -/
theorem heapMalloc_refuses (unserved : ¬(Roundable size ∧ ∃ start, FitsAt heap (blocksFor size) start))
    (last : LastTaken heap) : heapMalloc heap size = (0, heap) := by
  obtain ⟨count, same, served⟩ := heapMalloc_blocks heap size
  rw [same]
  have outcome := heapMallocBlocks_outcome heap count
  generalize heapMallocBlocks heap count = result at outcome
  cases outcome with
  | refused => rfl
  | fitting start positive least =>
    obtain ⟨roundable, blocks⟩ := served positive
    exact absurd ⟨roundable, start, blocks ▸ least.1⟩ unserved
  | trailing start none tail =>
    have bound := tail.1
    exact absurd (tail.2 (heap.table.total - 1) (by omega) (by omega)) (last (by omega))

end Requests

theorem Takes.kernel {before after : Memory} {blocks : Set Nat} (takes : Takes before after blocks)
    (kernel : KernelHeap before.heap) : KernelHeap after.heap :=
  kernel.congr takes.saddr takes.total

theorem Takes.freeBlocks_one {before after : Memory} {block : Nat}
    (takes : Takes before after {block}) :
    (freeBlocks after.heap).card + 1 = (freeBlocks before.heap).card := by
  have removed : freeBlocks after.heap = (freeBlocks before.heap).erase block := by
    ext other
    rw [Finset.mem_erase, mem_freeBlocks, mem_freeBlocks, takes.total]
    by_cases same : other = block
    · subst same
      have := takes.not_free (Set.mem_singleton other)
      simp [this]
    · have kept := takes.kept other (fun chosen member => by
        rw [Set.mem_singleton_iff.mp member]
        exact_mod_cast same)
      unfold EntryFree
      rw [kept]
      simp [same]
  have member : block ∈ freeBlocks before.heap :=
    mem_freeBlocks.mpr (takes.free block (Set.mem_singleton block))
  rw [removed, Finset.card_erase_add_one member]

theorem kzalloc_succeeds {memory : Memory} (kernel : KernelHeap memory.heap) (size : Word)
    (roundable : Roundable size) (single : blocksFor size = 1)
    (room : 0 < (freeBlocks memory.heap).card) : (kzalloc size memory).1 ≠ 0 := by
  obtain ⟨free, member⟩ := Finset.card_pos.mp room
  rw [mem_freeBlocks] at member
  rcases heapMalloc_one memory.heap roundable single with ⟨block, least, result⟩ | ⟨full, _⟩
  · have bound : block < memory.heap.table.total := by have := least.1.1; omega
    have nonnull := kernel.nonnull bound
    unfold kzalloc kmalloc
    rw [result]
    simp only [nonnull, if_false]
    exact nonnull
  · exact absurd member.2 (full free member.1)

theorem pagingNewTables_succeeds (flags : Word) (directory : Addr) (remaining i : Nat)
    (offset : Word) (memory : Memory) (kernel : KernelHeap memory.heap)
    (room : remaining < (freeBlocks memory.heap).card) :
    ∃ after, pagingNewTables directory flags remaining i offset memory = some after ∧
      KernelHeap after.heap ∧
      (freeBlocks after.heap).card + remaining = (freeBlocks memory.heap).card := by
  induction remaining generalizing i offset memory with
  | zero => exact ⟨memory, rfl, kernel, rfl⟩
  | succ remaining ih =>
    have success := kzalloc_succeeds kernel _ pageRequest.1 pageRequest.2 (by omega)
    obtain ⟨block, _, takes⟩ := kzalloc_page kernel.pool _ pageRequest.1 pageRequest.2 success
    have count := takes.freeBlocks_one
    simp only [pagingNewTables]
    rw [if_neg success]
    have rest := fun bytes => ih (i + 1)
      (offset + BitVec.ofNat 32 (pagingTotalEntriesPerTable * pagingPageSize))
      { (kzalloc (BitVec.ofNat 32 (4 * pagingTotalEntriesPerTable)) memory).2 with bytes := bytes }
      (takes.kernel kernel) (by simp only; omega)
    refine Exists.imp (fun after found => ⟨found.1, found.2.1, ?_⟩) (rest _)
    have := found.2.2
    simp only at this
    omega

theorem pagingNew4gb_succeeds (flags : BitVec 8) {memory : Memory}
    (kernel : KernelHeap memory.heap) (room : 1026 ≤ (freeBlocks memory.heap).card) :
    ∃ chunk after, pagingNew4gb flags memory = some (chunk, after) ∧ KernelHeap after.heap ∧
      (freeBlocks after.heap).card + 1026 = (freeBlocks memory.heap).card := by
  have success := kzalloc_succeeds kernel _ pageRequest.1 pageRequest.2 (by omega)
  obtain ⟨block, _, takes⟩ := kzalloc_page kernel.pool _ pageRequest.1 pageRequest.2 success
  have count := takes.freeBlocks_one
  have tables : pagingTotalEntriesPerTable = 1024 := rfl
  obtain ⟨middle, built, middleKernel, middleCount⟩ := pagingNewTables_succeeds (flags.setWidth 32)
    (kzalloc (BitVec.ofNat 32 (4 * pagingTotalEntriesPerTable)) memory).1
    pagingTotalEntriesPerTable 0 0 _ (takes.kernel kernel) (by omega)
  have chunkSuccess := kzalloc_succeeds middleKernel 4 (by decide) (by decide) (by omega)
  obtain ⟨chunkBlock, _, chunkTakes⟩ :=
    kzalloc_page middleKernel.pool 4 (by decide) (by decide) chunkSuccess
  have chunkCount := chunkTakes.freeBlocks_one
  refine ⟨(kzalloc 4 middle).1, { (kzalloc 4 middle).2 with
    bytes := store32 (kzalloc 4 middle).2.bytes (kzalloc 4 middle).1
      (kzalloc (BitVec.ofNat 32 (4 * pagingTotalEntriesPerTable)) memory).1 }, ?_,
    chunkTakes.kernel middleKernel, by simp only; omega⟩
  simp only [pagingNew4gb]
  rw [if_neg success, built]
  simp only [Option.bind_eq_bind, Option.bind_some]
  rw [if_neg chunkSuccess]

theorem kheapInit_success (entries : Int → Entry) (heap : Heap) :
    (kheapInit entries heap).1 = 0 := by
  have size : heapSizeBytes / heapBlockSize =
      (heapAddress + BitVec.ofNat 32 heapSizeBytes - heapAddress).toNat / heapBlockSize := by decide
  unfold kheapInit heapCreate heapValidateTable
  simp only [← size, ne_eq, not_true_eq_false, if_false]
  rw [if_neg (by decide), if_neg (by decide)]

theorem kheapInit_kernel (entries : Int → Entry) (heap : Heap) :
    KernelHeap (kheapInit entries heap).2 ∧
      (freeBlocks (kheapInit entries heap).2).card = 25600 := by
  have success : kheapInit entries heap = (0, (kheapInit entries heap).2) :=
    Prod.ext (kheapInit_success entries heap) rfl
  obtain ⟨saddr, total, _, exact⟩ := heapCreate_fresh success
  have kernel : KernelHeap (kheapInit entries heap).2 := ⟨saddr, total⟩
  refine ⟨kernel, ?_⟩
  have all : freeBlocks (kheapInit entries heap).2 = Finset.range 25600 := by
    ext block
    rw [mem_freeBlocks, kernel.blocks, Finset.mem_range, and_iff_left_iff_imp]
    intro bound
    unfold EntryFree
    rw [exact.rest block (by rw [kernel.blocks]; exact bound) (by simp)]
    decide
  rw [all, Finset.card_range]

/-- The block table lies right after the boot sector, which ends in `55 AA`. -/
def bootSignature (i : Int) : Entry := if i = -2 then 0x55 else if i = -1 then 0xAA else 0

/-- Memory as `kheap_init` leaves it, with every block free. -/
def bootMemory : Memory where
  heap := (kheapInit bootSignature ⟨⟨fun _ => 0, 0⟩, 0⟩).2
  bytes := fun _ => 0

theorem bootMemory_kernel : KernelHeap bootMemory.heap ∧ (freeBlocks bootMemory.heap).card = 25600 :=
  kheapInit_kernel bootSignature ⟨⟨fun _ => 0, 0⟩, 0⟩

theorem bootMemory_exact : ExactTable bootMemory.heap ∅ := by
  have created : kheapInit bootSignature ⟨⟨fun _ => 0, 0⟩, 0⟩ = (0, bootMemory.heap) :=
    Prod.ext (kheapInit_success _ _) rfl
  exact (heapCreate_fresh created).2.2.2

theorem bootMemory_free {block : Nat} (bound : block < 25600) :
    EntryFree bootMemory.heap.table.entries block := by
  have free := bootMemory_exact.rest block (by rw [bootMemory_kernel.1.blocks]; exact bound) (by simp)
  unfold EntryFree
  rw [free]
  decide

theorem heapGetStartBlockLoop_zero {entries : Int → Entry} (remaining i bc : Nat) {bs : Int}
    (free : ∀ block, i ≤ block → block < i + remaining → EntryFree entries block) (known : bs ≠ -1) :
    heapGetStartBlockLoop entries 0 remaining i bc bs = bs := by
  induction remaining generalizing i bc with
  | zero => rfl
  | succ remaining ih =>
    have here : heapGetEntryType (entries i) = heapBlockTableEntryFree := free i le_rfl (by omega)
    rw [heapGetStartBlockLoop, if_neg (not_not.mpr here), if_neg known]
    dsimp only
    rw [if_neg (by simp)]
    exact ih (i + 1) (bc + 1) (fun block low high => free block (by omega) (by omega))

theorem heapGetStartBlockLoop_taken {entries : Int → Entry} (want : Word) (count remaining i : Nat)
    (taken : ∀ block, i ≤ block → block < i + count → ¬EntryFree entries block) :
    heapGetStartBlockLoop entries want (count + remaining) i 0 (-1) =
      heapGetStartBlockLoop entries want remaining (i + count) 0 (-1) := by
  induction count generalizing i with
  | zero => rw [Nat.zero_add, Nat.add_zero]
  | succ count ih =>
    have here : heapGetEntryType (entries i) ≠ heapBlockTableEntryFree := taken i le_rfl (by omega)
    rw [Nat.succ_add, heapGetStartBlockLoop, if_pos here, ih (i + 1) (fun block low high => taken block (by omega) (by omega)),
      Nat.succ_add_eq_add_succ]

section FreeEnd
variable {heap : Heap} (kernel : KernelHeap heap) {count : Nat} (bound : count < 25600)
  (taken : ∀ block < count, ¬EntryFree heap.table.entries block)
  (free : ∀ block < 25600, count ≤ block → EntryFree heap.table.entries block)
include kernel bound taken free

theorem heapMalloc_one_at (size : Word) (roundable : Roundable size) (single : blocksFor size = 1) :
    heapMalloc heap size = (heapBlockToAddress heap count, heapMarkBlocksTaken heap count 1) := by
  have fits : FitsAt heap (blocksFor size) count := by
    rw [single]
    exact ⟨by rw [kernel.blocks]; omega, fun block low high => free block (by omega) low⟩
  obtain ⟨start, least, result⟩ := heapMalloc_fits heap size roundable ⟨count, fits⟩
  have first : start = count := by
    have low := least.2 count fits
    have free := least.1.2 start le_rfl (by omega)
    by_contra different
    exact taken start (by omega) free
  rw [result, first, single]

theorem heapMalloc_zero_at : heapMalloc heap 0 = (heapBlockToAddress heap count, heapMarkBlocksTaken heap count 0) := by
  have here : heapGetEntryType (heap.table.entries count) = heapBlockTableEntryFree := free count bound le_rfl
  have scan : heapGetStartBlock heap 0 = count := by
    have blocks : heap.table.total = count + (25599 - count + 1) := by
      rw [kernel.blocks]
      omega
    have loop : heapGetStartBlockLoop heap.table.entries 0 heap.table.total 0 0 (-1) = count := by
      rw [blocks, heapGetStartBlockLoop_taken 0 count _ 0 (fun block _ high => taken block (by omega)), Nat.zero_add,
        heapGetStartBlockLoop, if_neg (not_not.mpr here), if_pos rfl]
      dsimp only
      rw [if_neg (by simp)]
      exact heapGetStartBlockLoop_zero _ _ _ (fun block low high => free block (by omega) (by omega)) (by omega)
    unfold heapGetStartBlock
    rw [loop]
    exact if_neg (by omega)
  have zero : heapMalloc heap 0 = heapMallocBlocks heap 0 := rfl
  rw [zero]
  unfold heapMallocBlocks
  dsimp only
  rw [scan, if_neg (by omega)]
  rfl

end FreeEnd

theorem KernelHeap.firstAddress {heap : Heap} (kernel : KernelHeap heap) :
    heapBlockToAddress heap (0 : Nat) = 0x1000000 := by
  show heap.saddr + 0 = _
  rw [kernel.saddr]
  rfl

section FreeHeap
variable {heap : Heap} (kernel : KernelHeap heap) (free : ∀ block < 25600, EntryFree heap.table.entries block)
include kernel free

theorem heapMalloc_first (size : Word) (roundable : Roundable size) (single : blocksFor size = 1) :
    heapMalloc heap size = (0x1000000, heapMarkBlocksTaken heap 0 1) := by
  rw [heapMalloc_one_at kernel (by decide) (fun _ none => absurd none (Nat.not_lt_zero _)) (fun block bound _ =>
    free block bound) size roundable single, kernel.firstAddress]
  rfl

theorem heapMalloc_zero : heapMalloc heap 0 = (0x1000000, heapMarkBlocksTaken heap 0 0) := by
  rw [heapMalloc_zero_at kernel (by decide) (fun _ none => absurd none (Nat.not_lt_zero _)) (fun block bound _ =>
    free block bound), kernel.firstAddress]
  rfl

end FreeHeap

/-- The kernel of `kernel_main` before its first process, on an empty disk. -/
def bootKernel : Kernel := Kernel.blank bootMemory ⟨fun _ => 0, 512, false, none⟩

end PeachOS
