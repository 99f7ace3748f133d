import PeachOS.BounceCopy

/-! What a task sees at an address, and what `copy_string_from_task` finds there: they differ only where
the call itself changes memory. -/

namespace PeachOS
open Program ByteMemory

/-- The task sees `c` at a virtual address, which is neither the block's nor mapped onto it. -/
structure Kernel.Sees (kernel : Kernel) (task tmp virt address : Addr) (c : Byte) : Prop where
  found : translate kernel.memory.bytes (directoryEntry kernel.memory.bytes (kernel.tasks task).pageDirectory) virt =
    some address
  byte : kernel.memory.physical address = c
  offPage : frameOf virt ≠ tmp ∧ frameOf address ≠ tmp

/-- The call itself changes the entry of the block's page in the task's tables, and the entry of the
block in the heap's table. -/
structure Kernel.LeavesAlone (kernel : Kernel) (task tmp address : Addr) : Prop where
  entry : ∀ i < 4, address ≠ entryAddress kernel.memory.bytes
    (directoryEntry kernel.memory.bytes (kernel.tasks task).pageDirectory) tmp + BitVec.ofNat 32 i
  table : address ≠ heapTableAddress + BitVec.ofInt 32 (heapAddressToBlock kernel.memory.heap tmp)

section String
variable {kernel after : Kernel} {kernelChunk task virtual phys tmp address virt : Addr} {max block : Nat}
  {blocks kernelBlocks : Set Nat} {memory : Memory} {c : Byte}

theorem Kernel.Sees.reads (sees : kernel.Sees task tmp virt address c) (alone : kernel.LeavesAlone task tmp address)
    (ready : CopyReady kernel kernelChunk task phys max blocks kernelBlocks)
    (bounce : Bounce kernel max tmp memory block) (short : max < pagingPageSize) :
    (kernel.bounced task tmp memory).Reads tmp max virt c := by
  obtain ⟨directory, tables, paging⟩ := bounce.tables ready
  have aligned := bounce.aligned ready.heap
  have found := sees.found
  have offEntry := alone.entry
  rw [paging.before.chunkWord] at found offEntry
  rw [paging.before.entryAddress] at offEntry
  refine ⟨address, ?_, le_trans short.le (frameOf_apart aligned sees.offPage.2), ?_⟩
  · rw [paging.translate aligned virt bounce.frame, if_neg sees.offPage.1, found]
  · have free := bounce.takes.free block rfl
    have small := ready.heap.blocks
    have total : (kernel.bounced task tmp memory).memory.heap.table.total = kernel.memory.heap.table.total :=
      bounce.takes.total
    have offTable := alone.table
    rw [bounce.address, heapAddressToBlock_block _ _ (by omega), BitVec.ofInt_natCast] at offTable
    rw [← sees.byte]
    unfold Memory.physical
    dsimp only
    rw [total]
    split
    next inTable =>
      apply bounce.takes.kept
      rintro other rfl same
      apply offTable
      have here : (address - heapTableAddress).toNat = other := by exact_mod_cast same
      rw [← here, BitVec.ofNat_toNat, BitVec.setWidth_eq, BitVec.add_comm, BitVec.sub_add_cancel]
    next =>
      rw [paging.bounced.2, store32_other _ _ offEntry]
      exact bounce.frame address sees.offPage.2

end String

/-- A caller in the system calls is given such a string: the call ends as on the memory itself, but for
the buffer. -/
theorem copyStringFromTask_below {kernel : Kernel} {caller : Caller} {task virtual phys : Addr} {max : Nat}
    {blocks kernelBlocks : Set Nat} (load : List Byte → Addr → KernelProg Int)
    (ready : CopyReady kernel caller.kernelChunk task phys max blocks kernelBlocks) (positive : 1 ≤ max)
    (short : max < pagingPageSize) (success : (PeachOS.kzalloc (BitVec.ofNat 32 max) kernel.memory).1 ≠ 0)
    {text : List Byte} (string : CutString (fun i c => ∃ address,
      kernel.Sees task (PeachOS.kzalloc (BitVec.ofNat 32 max) kernel.memory).1 (virtual + BitVec.ofNat 32 i)
        address c ∧
      kernel.LeavesAlone task (PeachOS.kzalloc (BitVec.ofNat 32 max) kernel.memory).1 address) (max - 1) 0 text)
    (given : strncpy (caller.string virtual) max = text ++ [0]) : ∃ after,
      (kernelBelow load).copyStringFromTask caller task virtual max kernel = (.ok (0, text ++ [0]), after) ∧
      copyStringFromTask caller.kernelChunk task virtual phys max kernel =
        (.ok 0, after.setBytes (storeBytes after.memory.bytes phys (text ++ [0]))) := by
  obtain ⟨memory, block, bounce⟩ := kzalloc_bounce ready.heap positive short success
  have seen := string.imp (fun i c ⟨address, sees, alone⟩ => sees.reads alone ready bounce short)
  obtain ⟨_, _, _, passed⟩ := ready.passes bounce positive short seen
  exact ⟨_, ready.copies_below bounce short passed given load, ready.copies bounce positive short passed⟩

theorem NewPaging.below {before created : Memory} {flags : Word} {chunk directory : Nat} {tables : Nat → Nat}
    (new : NewPaging before created flags chunk directory tables) (heap : KernelHeap before.heap) {address : Addr}
    (low : address.toNat < 0x1000000) : created.bytes address = before.bytes address := by
  apply new.takes.frame
  intro block member same
  have position := congrArg BitVec.toNat same
  rw [frameOf_toNat, heap.address_toNat (new.takes.free block member).1] at position
  omega

def copyMemory : Memory := { bootMemory with bytes := fun address => if address = 0x500000 then 104 else 0 }

def copyKernel (memory : Memory) (chunk : Addr) : Kernel :=
  { Kernel.blank memory ⟨fun _ => 0, 512, false, none⟩ with
    tasks := fun _ => { Task.zero with pageDirectory := chunk } }

theorem translate_flat {bytes : Bytes} {directory : Addr} {flags : Word}
    (entry : ∀ page, PageAligned page → pagingGet bytes directory page = page ||| flags)
    (small : flags.toNat < 4096) (present : flags &&& pagingIsPresent = pagingIsPresent) (virt : Addr) :
    translate bytes directory virt = some virt := by
  have aligned := frameOf_aligned virt
  have bit : (frameOf virt ||| flags) &&& pagingIsPresent ≠ 0 := by
    rw [BitVec.and_comm, BitVec.and_or_distrib_left, BitVec.and_comm pagingIsPresent flags, present]
    intro none
    have bit := congrArg (BitVec.getLsbD · 0) none
    simp at bit
  rw [translate_eq, entry _ aligned, if_neg bit, frameOf_or _ aligned small]
  congr 1
  apply BitVec.eq_of_toNat_eq
  rw [BitVec.toNat_add, frameOf_toNat, BitVec.toNat_ofNat]
  unfold pagingPageSize
  omega

theorem copyKernel_ready : ∃ memory kernelChunk chunk blocks kernelBlocks,
    (∀ max < 4096, CopyReady (copyKernel memory chunk) kernelChunk 1 0x600000 max blocks kernelBlocks) ∧
    (∀ page, PageAligned page → pagingGet memory.bytes (directoryEntry memory.bytes chunk) page = page ||| 0x05) ∧
    0 < (freeBlocks memory.heap).card ∧ ∀ address : Addr, address.toNat < 0x1000000 →
      memory.bytes address = copyMemory.bytes address := by
  obtain ⟨heap, count⟩ : KernelHeap copyMemory.heap ∧ (freeBlocks copyMemory.heap).card = 25600 :=
    bootMemory_kernel
  obtain ⟨kernelChunk, middle, built, middleHeap, middleCount⟩ := pagingNew4gb_succeeds 0x07 heap (by omega)
  obtain ⟨first, kernelDirectory, kernelTables, rfl, new⟩ := pagingNew4gb_new heap.pool built
  obtain ⟨chunk, memory, taskBuilt, lastHeap, lastCount⟩ := pagingNew4gb_succeeds 0x05 middleHeap (by omega)
  obtain ⟨second, directory, tables, rfl, next⟩ := pagingNew4gb_new middleHeap.pool taskBuilt
  have kept : ∀ address : Addr, address.toNat < 0x1000000 → memory.bytes address = copyMemory.bytes address :=
    fun address low => (next.below middleHeap low).trans (new.below heap low)
  have clear : HeapClear copyMemory.heap := fun block bound _ => bootMemory_exact.rest block bound (by simp)
  have identity : ∀ virt, translate memory.bytes
      (directoryEntry memory.bytes (heapBlockToAddress copyMemory.heap first)) virt = some virt := by
    intro virt
    obtain ⟨same, loaded⟩ := new.space.translate (new.space.takes_pages middleHeap.pool next.takes) virt
    rw [loaded, same, new.flat.paged.chunkWord]
    exact translate_flat new.flat.entry (by decide) (by decide) virt
  have entry : ∀ page, PageAligned page → pagingGet memory.bytes
      (directoryEntry memory.bytes (heapBlockToAddress middle.heap second)) page = page ||| 0x05 := by
    rw [next.flat.paged.chunkWord]
    exact next.flat.entry
  have base : heapAddress.toNat = 0x1000000 := rfl
  have start : (0x600000 : Addr).toNat = 0x600000 := rfl
  have table : heapTableAddress.toNat = 0x7E00 := rfl
  have total := lastHeap.blocks
  refine ⟨memory, heapBlockToAddress copyMemory.heap first, heapBlockToAddress middle.heap second,
    insert second (builtBlocks directory tables 1024), insert first (builtBlocks kernelDirectory kernelTables 1024),
    fun max small => ?_, entry, by omega, kept⟩
  exact {
    heap := lastHeap
    clear := (clear.takes new.takes).takes next.takes
    nonnull := by decide
    space := next.space
    kernelSpace := new.space.takes middleHeap.pool next.takes
    apart := Set.disjoint_left.mpr (fun _ => new.takes.separate next.takes)
    identity := identity
    buffer := fun _ => by omega
    plain := fun _ => Or.inr (by
      show _ + memory.heap.table.total ≤ _
      omega) }

section Boot
variable {memory after : Memory} {kernelChunk chunk tmp : Addr} {max block : Nat} {blocks kernelBlocks : Set Nat}
  (entry : ∀ page, PageAligned page →
    pagingGet memory.bytes (directoryEntry memory.bytes chunk) page = page ||| 0x05)
  (ready : CopyReady (copyKernel memory chunk) kernelChunk 1 0x600000 max blocks kernelBlocks)
  (bounce : Bounce (copyKernel memory chunk) max tmp after block)
include entry ready bounce

theorem copyKernel_sees {address : Addr} (low : 0xE200 ≤ address.toNat) (high : address.toNat < 0x1000000) :
    (copyKernel memory chunk).Sees 1 tmp address address (memory.bytes address) ∧
      (copyKernel memory chunk).LeavesAlone 1 tmp address := by
  obtain ⟨position, bound⟩ := bounce.position ready.heap
  have total : memory.heap.table.total = 25600 := ready.heap.blocks
  have table : (address - heapTableAddress).toNat = address.toNat - 0x7E00 := by
    unfold heapTableAddress
    bv_omega
  have off : frameOf address ≠ tmp := by
    intro same
    have value := congrArg BitVec.toNat same
    rw [frameOf_toNat, position] at value
    omega
  obtain ⟨directory, tables, paging⟩ := bounce.tables ready
  refine ⟨⟨translate_flat entry (by decide) (by decide) address, ?_, off, off⟩, ?_, ?_⟩
  · show memory.physical address = _
    unfold Memory.physical
    dsimp only
    rw [total, if_neg (by omega)]
  · obtain ⟨other, member, place⟩ := paging.own _ (directoryIndex_lt tmp)
    have pagePosition := ready.heap.address_toNat (ready.space.single other member).1
    have slotPosition := slot_toNat (paging.before.tablesAligned _ (directoryIndex_lt tmp)) (tableIndex_lt tmp)
    have tableBound := (ready.space.single other member).1
    have blockCount := ready.heap.blocks
    have index := tableIndex_lt tmp
    rw [paging.before.chunkWord, paging.before.entryAddress]
    rw [place] at slotPosition ⊢
    intro i small same
    have value := congrArg BitVec.toNat same
    rw [BitVec.toNat_add, slotPosition, pagePosition, BitVec.toNat_ofNat] at value
    omega
  · rw [bounce.address, heapAddressToBlock_block _ _ (by omega), BitVec.ofInt_natCast]
    intro same
    have back : address - heapTableAddress = BitVec.ofNat 32 block := by rw [same]; bv_omega
    have value := congrArg BitVec.toNat back
    rw [BitVec.toNat_ofNat] at value
    omega

/-- The entry of the block's page lies off that page. The task sees its flags there, and the copy finds
those with which the page is mapped. -/
theorem copyKernel_entry (small : max < pagingPageSize) : ∃ cell,
    (copyKernel memory chunk).Sees 1 tmp cell cell 5 ∧
      ((copyKernel memory chunk).bounced 1 tmp after).Reads tmp max cell 7 := by
  have aligned := bounce.aligned ready.heap
  have total : memory.heap.table.total = 25600 := ready.heap.blocks
  obtain ⟨directory, tables, paging⟩ := bounce.tables ready
  obtain ⟨other, member, place⟩ := paging.own _ (directoryIndex_lt tmp)
  have before : PageTables memory.bytes chunk directory tables := paging.before
  have tableAligned := before.tablesAligned _ (directoryIndex_lt tmp)
  have offPage := paging.offTables _ (directoryIndex_lt tmp)
  have bytes := paging.bounced.2
  have word := before.pagingGet aligned
  have high : 0x1000000 ≤ (tables (directoryIndex tmp)).toNat := by
    rw [place, ready.heap.address_toNat (ready.space.single other member).1]
    omega
  have index := tableIndex_lt tmp
  have position := slot_toNat tableAligned index
  have page := frameOf_slot tableAligned index
  generalize slot (tables (directoryIndex tmp)) (tableIndex tmp) = cell at position page bytes word
  rw [← page] at offPage
  have offTable : ¬(cell - heapTableAddress).toNat < 25600 := by
    unfold heapTableAddress
    bv_omega
  have flat := translate_flat entry (by decide) (by decide) cell
  refine ⟨cell, ⟨flat, ?_, offPage, offPage⟩, cell, ?_, le_trans small.le (frameOf_apart aligned offPage), ?_⟩
  · have flags := entry tmp aligned
    have byte := load32_byte memory.bytes cell (j := 0) (by decide)
    rw [before.chunkWord, word] at flags
    rw [flags, lowByte_or _ aligned, BitVec.add_zero] at byte
    show memory.physical _ = _
    unfold Memory.physical
    dsimp only
    rw [total, if_neg offTable, ← byte]
    rfl
  · rw [paging.translate aligned _ bounce.frame, if_neg offPage, ← paging.before.chunkWord]
    exact flat
  · have bouncedTotal : ((copyKernel memory chunk).bounced 1 tmp after).memory.heap.table.total = 25600 :=
      bounce.takes.total.trans total
    unfold Memory.physical
    dsimp only
    rw [bouncedTotal, if_neg offTable, bytes]
    unfold store32
    rw [if_pos rfl, lowByte_or _ aligned]
    rfl

end Boot

/-- A string that the task sees, off the block's page and where the call does not write itself, goes to
the buffer; and every call that returns leaves the heap's table, the task's address space and the
kernel's directory as they were. -/
theorem copyStringFromTask_string {kernel : Kernel} {kernelChunk task virtual phys : Addr} {max : Int}
    {blocks kernelBlocks : Set Nat} (positive : 1 ≤ max)
    (ready : CopyReady kernel kernelChunk task phys max.toNat blocks kernelBlocks) :
    (max < pagingPageSize → (PeachOS.kzalloc (BitVec.ofInt 32 max) kernel.memory).1 ≠ 0 → ∀ text,
      CutString (fun i c => ∃ address,
        kernel.Sees task (PeachOS.kzalloc (BitVec.ofInt 32 max) kernel.memory).1 (virtual + BitVec.ofNat 32 i)
          address c ∧
        kernel.LeavesAlone task (PeachOS.kzalloc (BitVec.ofInt 32 max) kernel.memory).1 address)
        (max - 1).toNat 0 text →
      ∃ after, copyStringFromTask kernelChunk task virtual phys max kernel = (.ok 0, after) ∧
        loadBytes after.memory.bytes phys (text.length + 1) = text ++ [0]) ∧
    ∀ res after, copyStringFromTask kernelChunk task virtual phys max kernel = (.ok res, after) →
      after.memory.heap = kernel.memory.heap ∧
      SamePages kernel.memory.heap blocks kernel.memory.bytes after.memory.bytes ∧
      (kernel.pageDirectory = directoryEntry kernel.memory.bytes kernelChunk →
        after.pageDirectory = directoryEntry after.memory.bytes kernelChunk) := by
  obtain ⟨count, rfl⟩ := Int.eq_ofNat_of_zero_le (show 0 ≤ max by omega)
  rw [Int.toNat_natCast] at ready
  rw [BitVec.ofInt_natCast, show ((count : Int) - 1).toNat = count - 1 by omega]
  have atLeast : 1 ≤ count := by exact_mod_cast positive
  refine ⟨fun small success text string => ?_, fun res after run => ?_⟩
  · have short : count < pagingPageSize := by exact_mod_cast small
    obtain ⟨memory, block, bounce⟩ := kzalloc_bounce ready.heap atLeast short success
    have seen := string.imp (fun i c ⟨address, sees, alone⟩ => sees.reads alone ready bounce short)
    obtain ⟨_, _, _, passed⟩ := ready.passes bounce atLeast short seen
    exact ⟨_, ready.copies bounce atLeast short passed, passed.loaded short phys⟩
  · by_cases short : count < pagingPageSize
    · by_cases null : (PeachOS.kzalloc (BitVec.ofNat 32 count) kernel.memory).1 = 0
      · unfold copyStringFromTask at run
        rw [if_neg (by exact_mod_cast not_le.mpr short), BitVec.ofInt_natCast,
          bind_ok (Kernel.kzalloc_null ready.heap null), if_pos rfl] at run
        cases run
        exact ⟨rfl, fun _ _ _ _ => rfl, id⟩
      · obtain ⟨memory, block, bounce⟩ := kzalloc_bounce ready.heap atLeast short null
        obtain ⟨bytes, rfl, kept⟩ := ready.leaves bounce atLeast short run
        -- the pages of both spaces are neither the block's nor in the buffer
        have pages : ∀ {chunk : Addr} {own : Set Nat}, SpaceBlocks kernel.memory chunk own →
            SamePages kernel.memory.heap own kernel.memory.bytes bytes := fun space other member address inside =>
          kept address (inside ▸ bounce.apart ready.heap space member)
            (ready.above short (space.single other member).1 inside)
        exact ⟨rfl, pages ready.space, fun _ => ((ready.kernelSpace.translate (pages ready.kernelSpace) 0).2).symm⟩
    · unfold copyStringFromTask at run
      rw [if_pos (by exact_mod_cast not_lt.mp short)] at run
      cases run
      exact ⟨rfl, fun _ _ _ _ => rfl, id⟩

theorem copyStringFromTask_string_boot : ∃ memory kernelChunk chunk after,
    copyStringFromTask kernelChunk 1 0x500000 0x600000 3 (copyKernel memory chunk) = (.ok 0, after) ∧
      loadBytes after.memory.bytes 0x600000 2 = [104, 0] ∧ after.memory.heap = memory.heap := by
  obtain ⟨memory, kernelChunk, chunk, blocks, kernelBlocks, all, entry, room, kept⟩ := copyKernel_ready
  have ready : CopyReady (copyKernel memory chunk) kernelChunk 1 0x600000 3 blocks kernelBlocks := all 3 (by decide)
  have success : (PeachOS.kzalloc (BitVec.ofNat 32 3) memory).1 ≠ 0 :=
    kzalloc_succeeds ready.heap _ (by decide) (by decide) room
  obtain ⟨_, _, bounce⟩ := kzalloc_bounce ready.heap (by decide) (by decide) success
  have first := copyKernel_sees entry ready bounce (show 0xE200 ≤ (0x500000 : Addr).toNat by decide) (by decide)
  have second := copyKernel_sees entry ready bounce (show 0xE200 ≤ (0x500001 : Addr).toNat by decide) (by decide)
  rw [kept _ (by decide)] at first second
  have string : CutString (fun i c => ∃ address,
      (copyKernel memory chunk).Sees 1 (PeachOS.kzalloc (BitVec.ofInt 32 3) memory).1 (0x500000 + BitVec.ofNat 32 i)
        address c ∧
      (copyKernel memory chunk).LeavesAlone 1 (PeachOS.kzalloc (BitVec.ofInt 32 3) memory).1 address)
      (3 - 1 : Int).toNat 0 [104] := ⟨by decide, ⟨_, first⟩, ⟨_, second⟩⟩
  have positive : (1 : Int) ≤ 3 := by decide
  obtain ⟨copied, left⟩ := copyStringFromTask_string positive ready
  obtain ⟨after, run, loaded⟩ := copied (by decide) success [104] string
  exact ⟨memory, kernelChunk, chunk, after, run, loaded, (left 0 after run).1⟩

/-- A task that looks at the entry of the block's page sees other flags than the call, which maps the page. -/
theorem copyStringFromTask_ownEntry : ¬∀ (kernel : Kernel) (kernelChunk task virtual phys : Addr) (max : Int)
    (blocks kernelBlocks : Set Nat), 1 ≤ max →
    CopyReady kernel kernelChunk task phys max.toNat blocks kernelBlocks → max < pagingPageSize →
    (PeachOS.kzalloc (BitVec.ofInt 32 max) kernel.memory).1 ≠ 0 → ∀ text,
      CutString (fun i c => ∃ address, kernel.Sees task (PeachOS.kzalloc (BitVec.ofInt 32 max) kernel.memory).1
        (virtual + BitVec.ofNat 32 i) address c) (max - 1).toNat 0 text →
      ∃ after, copyStringFromTask kernelChunk task virtual phys max kernel = (.ok 0, after) ∧
        loadBytes after.memory.bytes phys (text.length + 1) = text ++ [0] := by
  intro always
  obtain ⟨memory, kernelChunk, chunk, blocks, kernelBlocks, all, entry, room, _⟩ := copyKernel_ready
  have ready : CopyReady (copyKernel memory chunk) kernelChunk 1 0x600000 2 blocks kernelBlocks := all 2 (by decide)
  have success : (PeachOS.kzalloc (BitVec.ofNat 32 2) memory).1 ≠ 0 :=
    kzalloc_succeeds ready.heap _ (by decide) (by decide) room
  obtain ⟨_, _, bounce⟩ := kzalloc_bounce ready.heap (by decide) (by decide) success
  obtain ⟨cell, sees, reads⟩ := copyKernel_entry entry ready bounce (by decide)
  rw [← BitVec.add_zero cell] at sees reads
  obtain ⟨after, run, claimed⟩ := always (copyKernel memory chunk) kernelChunk 1 cell 0x600000 2 blocks kernelBlocks
    (by decide) ready (by decide) success [5] ⟨by decide, ⟨_, sees⟩, rfl⟩
  have string : CutString (fun i c => ((copyKernel memory chunk).bounced 1 _ _).Reads _ 2 (cell + BitVec.ofNat 32 i) c)
      (2 - 1) 0 [7] := ⟨by decide, reads, rfl⟩
  obtain ⟨_, _, _, passed⟩ := ready.passes bounce (by decide) (by decide) string
  cases (ready.copies bounce (by decide) (by decide) passed).symm.trans run
  exact absurd ((passed.loaded (by decide) 0x600000).symm.trans claimed) (by decide)

end PeachOS
