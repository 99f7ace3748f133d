import PeachOS.ArgumentList

/-! The allocations that `process_inject_arguments` makes one after the other, and what it copies to them. -/

namespace PeachOS
open Program ByteMemory BlockPool

/-- Memory in use: it is in no free block of the heap, and in none of the page tables of the process. -/
def InUse (kernel : Kernel) (space : Space) (address : Addr) : Prop :=
  (∀ i < 1024, frameOf address ≠ space.tables i) ∧
    ∀ block < kernel.memory.heap.table.total, EntryFree kernel.memory.heap.table.entries block →
      frameOf address ≠ heapBlockToAddress kernel.memory.heap (block : Nat)

/-- What a call leaves of the allocations that were there, and of all memory that was in use. -/
structure Undisturbed (kernel after : Kernel) (processes : Set Addr) (space : Space) : Prop where
  slots : ∀ owner ∈ processes, ∀ i < peachosMaxProgramAllocations, (kernel.allocation owner i).ptr ≠ 0 →
    after.allocation owner i = kernel.allocation owner i
  bytes : ∀ address, InUse kernel space address → after.memory.bytes address = kernel.memory.bytes address
  used : ∀ address, InUse kernel space address → InUse after space address

section Memory
variable {kernel middle after : Kernel} {processes : Set Addr} {live others : Set Interval} {spaces : Addr → Space}
  {space : Space} {process owner ptr page address : Addr} {size : Word} {i j index : Nat}

theorem Undisturbed.trans (first : Undisturbed kernel middle processes space)
    (second : Undisturbed middle after processes space) : Undisturbed kernel after processes space := by
  refine ⟨?_, ?_, fun address use => second.used _ (first.used _ use)⟩
  · intro owner member i bound nonempty
    have same := first.slots owner member i bound nonempty
    rw [second.slots owner member i bound (same ▸ nonempty), same]
  · exact fun address use => (second.bytes _ (first.used _ use)).trans (first.bytes _ use)

theorem ProcessSpaces.slot_page (held : ProcessSpaces kernel processes live spaces) (ownerIn : owner ∈ processes)
    (bound : i < peachosMaxProgramAllocations) (nonempty : (kernel.allocation owner i).ptr ≠ 0)
    (inside : OwnPage (kernel.allocation owner i).ptr (kernel.allocation owner i).size page) :
    (∀ other ∈ processes, ¬(spaces other).Page (kernel.directoryOf other) page) ∧
      ∀ block < kernel.memory.heap.table.total, EntryFree kernel.memory.heap.table.entries block →
        page ≠ heapBlockToAddress kernel.memory.heap (block : Nat) := by
  obtain ⟨inLive, start⟩ := held.heap.slots owner ownerIn i bound nonempty
  have within := held.heap.table.within _ inLive
  obtain ⟨block, holds, here⟩ := (held.heap.heap.ownPage_iff within start rfl).mp inside
  have blockBound := lt_of_lt_of_le holds.2 within.2
  constructor
  · intro other member tables
    obtain ⟨cell, run, runLive, cellHere, cellHolds, unnamed⟩ := held.kept other member page tables
    have apart := held.heap.table.apart inLive runLive (unnamed owner ownerIn i bound nonempty)
    exact held.heap.heap.otherPage within start rfl apart (held.heap.table.within run runLive) cellHolds cellHere inside
  · intro cell cellBound free same
    have equal := heapBlockToAddress_inj held.heap.heap.pool blockBound cellBound (here.symm.trans same)
    exact (held.heap.table.free_iff cellBound).mp free _ inLive (equal ▸ holds)

theorem ProcessSpaces.slot_inUse (held : ProcessSpaces kernel processes live spaces) (ownerIn : owner ∈ processes)
    (member : process ∈ processes) (bound : i < peachosMaxProgramAllocations)
    (nonempty : (kernel.allocation owner i).ptr ≠ 0)
    (inside : OwnPage (kernel.allocation owner i).ptr (kernel.allocation owner i).size (frameOf address)) :
    InUse kernel (spaces process) address := by
  obtain ⟨noTables, notFree⟩ := held.slot_page ownerIn bound nonempty inside
  exact ⟨fun k small same => noTables process member (Or.inr (Or.inr ⟨k, small, same⟩)), notFree⟩

theorem ProcessSpaces.slots_apart (held : ProcessSpaces kernel processes live spaces) {other : Addr}
    (ownerIn : owner ∈ processes) (otherIn : other ∈ processes) (iBound : i < peachosMaxProgramAllocations)
    (jBound : j < peachosMaxProgramAllocations) (iFull : (kernel.allocation owner i).ptr ≠ 0)
    (jFull : (kernel.allocation other j).ptr ≠ 0) (different : owner ≠ other ∨ i ≠ j)
    (inside : OwnPage (kernel.allocation other j).ptr (kernel.allocation other j).size page) :
    ¬OwnPage (kernel.allocation owner i).ptr (kernel.allocation owner i).size page := by
  obtain ⟨iLive, iStart⟩ := held.heap.slots owner ownerIn i iBound iFull
  obtain ⟨jLive, jStart⟩ := held.heap.slots other otherIn j jBound jFull
  have jWithin := held.heap.table.within _ jLive
  obtain ⟨block, holds, here⟩ := (held.heap.heap.ownPage_iff jWithin jStart rfl).mp inside
  have apart := held.heap.disjoint.apart owner ownerIn i iBound other otherIn j jBound iFull jFull different
  exact held.heap.heap.otherPage (held.heap.table.within _ iLive) iStart rfl apart jWithin holds here

theorem SlotTaken.apart (taken : SlotTaken kernel after processes spaces process ptr size index)
    (held : ProcessSpaces after processes live spaces) (member : process ∈ processes)
    (use : InUse kernel space address) : ¬OwnPage ptr size (frameOf address) := by
  have saddr : after.memory.heap.saddr = kernel.memory.heap.saddr := by
    rw [taken.chain]
    exact heapMarkBlocksTaken_saddr _ _ _
  have slot : after.allocation process index = ⟨ptr, size⟩ := by
    rw [taken.slot, Kernel.recordAllocation_allocation, if_pos ⟨rfl, rfl⟩]
  have nonempty : (after.allocation process index).ptr ≠ 0 := by
    rw [slot]
    exact taken.nonnull
  obtain ⟨inLive, start⟩ := held.heap.slots process member index taken.bound nonempty
  have within := held.heap.table.within _ inLive
  rw [slot] at inLive start within
  intro inside
  obtain ⟨block, holds, here⟩ := (held.heap.heap.ownPage_iff within start rfl).mp inside
  have first : (slotChain after.memory.heap ⟨ptr, size⟩).first = firstBlock kernel.memory.heap ptr := by
    rw [slotChain_congr saddr]
    rfl
  obtain ⟨low, high⟩ := holds
  rw [first] at low high
  have bound := taken.free.1
  have free := taken.free.2 block low high
  refine use.2 block (lt_of_lt_of_le high bound) free ?_
  rw [here]
  exact heapBlockToAddress_congr saddr _

theorem SlotTaken.undisturbed (taken : SlotTaken kernel after processes spaces process ptr size index)
    (held : ProcessSpaces after processes live spaces) (member : process ∈ processes) :
    Undisturbed kernel after processes (spaces process) := by
  refine ⟨?_, ?_, ?_⟩
  · intro owner _ i _ nonempty
    rw [taken.slot, Kernel.recordAllocation_allocation, if_neg]
    · rfl
    · intro ⟨sameProcess, sameIndex⟩
      rw [sameProcess, sameIndex] at nonempty
      exact nonempty taken.empty
  · intro address use
    rw [taken.bytes address use.1]
    exact fill_otherPage _ _ (taken.apart held member use)
  · intro address use
    refine ⟨use.1, fun block bound free => ?_⟩
    rw [taken.chain] at bound free ⊢
    rw [heapBlockToAddress_congr (heapMarkBlocksTaken_saddr _ _ _)]
    rw [heapMarkBlocksTaken_total] at bound
    apply use.2 block bound
    unfold EntryFree at free ⊢
    rw [heapMarkBlocksTaken_entry] at free
    split at free
    · rw [chainEntry_taken] at free
      exact absurd free (by decide)
    · exact free

end Memory

def emptySlots (kernel : Kernel) (process : Addr) : Finset Nat :=
  (Finset.range peachosMaxProgramAllocations).filter (fun i => (kernel.allocation process i).ptr = 0)

/-- An empty slot and a free block for each of `count` allocations of a block. -/
structure AllocationsFit (kernel : Kernel) (process : Addr) (count : Nat) : Prop where
  slots : count ≤ (emptySlots kernel process).card
  blocks : count ≤ (freeBlocks kernel.memory.heap).card

section Room
variable {kernel after : Kernel} {processes : Set Addr} {live : Set Interval} {spaces : Addr → Space}
  {process ptr : Addr} {size : Word} {index count : Nat}

theorem mem_emptySlots : index ∈ emptySlots kernel process ↔
    index < peachosMaxProgramAllocations ∧ (kernel.allocation process index).ptr = 0 := by
  rw [emptySlots, Finset.mem_filter, Finset.mem_range]

theorem emptySlots_le (kernel : Kernel) (process : Addr) :
    (emptySlots kernel process).card ≤ peachosMaxProgramAllocations := by
  have inside : emptySlots kernel process ⊆ Finset.range peachosMaxProgramAllocations := Finset.filter_subset _ _
  have few := Finset.card_le_card inside
  rwa [Finset.card_range] at few

theorem emptySlots_recorded (nonnull : ptr ≠ 0) (bound : index < peachosMaxProgramAllocations)
    (empty : (kernel.allocation process index).ptr = 0)
    (slot : ∀ j, after.allocation process j = if j = index then ⟨ptr, size⟩ else kernel.allocation process j) :
    (emptySlots after process).card + 1 ≤ (emptySlots kernel process).card := by
  have full : index ∉ emptySlots after process := by
    intro member
    have null := (mem_emptySlots.mp member).2
    rw [slot, if_pos rfl] at null
    exact nonnull null
  have inside : insert index (emptySlots after process) ⊆ emptySlots kernel process := by
    refine Finset.insert_subset (mem_emptySlots.mpr ⟨bound, empty⟩) (fun j member => ?_)
    obtain ⟨jBound, jEmpty⟩ := mem_emptySlots.mp member
    have other : j ≠ index := by
      rintro rfl
      exact full member
    rw [slot, if_neg other] at jEmpty
    exact mem_emptySlots.mpr ⟨jBound, jEmpty⟩
  rw [← Finset.card_insert_of_notMem full]
  exact Finset.card_le_card inside

theorem processMalloc_slots (run : processMalloc process size kernel = (.ok ptr, after)) (nonnull : ptr ≠ 0) :
    (emptySlots after process).card + 1 ≤ (emptySlots kernel process).card := by
  cases processMalloc_outcome run with
  | refused => exact absurd rfl nonnull
  | returned => exact absurd rfl nonnull
  | recorded index bound empty full =>
    have slot : ∀ (before : Kernel) j, (before.recordAllocation process index (kzalloc size kernel.memory).1
        size).allocation process j = if j = index then ⟨(kzalloc size kernel.memory).1, size⟩ else
          before.allocation process j := by
      intro before j
      rw [Kernel.recordAllocation_allocation]
      simp only [true_and]
    exact emptySlots_recorded full bound empty (slot _)

theorem SlotTaken.fit (taken : SlotTaken kernel after processes spaces process ptr size index)
    (single : blocksFor size = 1) (room : AllocationsFit kernel process (count + 1)) :
    AllocationsFit after process count := by
  have slots : emptySlots kernel process ⊆ insert index (emptySlots after process) := by
    intro i member
    obtain ⟨bound, empty⟩ := mem_emptySlots.mp member
    by_cases same : i = index
    · exact same ▸ Finset.mem_insert_self _ _
    · apply Finset.mem_insert_of_mem
      refine mem_emptySlots.mpr ⟨bound, ?_⟩
      rw [taken.slot, Kernel.recordAllocation_allocation, if_neg (fun both => same both.2)]
      exact empty
  have blocks : freeBlocks kernel.memory.heap ⊆
      insert (firstBlock kernel.memory.heap ptr) (freeBlocks after.memory.heap) := by
    intro block member
    obtain ⟨bound, free⟩ := mem_freeBlocks.mp member
    by_cases same : block = firstBlock kernel.memory.heap ptr
    · exact same ▸ Finset.mem_insert_self _ _
    · apply Finset.mem_insert_of_mem
      rw [taken.chain, mem_freeBlocks, heapMarkBlocksTaken_total]
      refine ⟨bound, ?_⟩
      unfold EntryFree at free ⊢
      rw [heapMarkBlocksTaken_entry, if_neg (by omega)]
      exact free
  have slotCount := (Finset.card_le_card slots).trans (Finset.card_insert_le _ _)
  have blockCount := (Finset.card_le_card blocks).trans (Finset.card_insert_le _ _)
  have enoughSlots := room.slots
  have enoughBlocks := room.blocks
  exact ⟨by omega, by omega⟩

theorem ProcessSpaces.malloc_fits (held : ProcessSpaces kernel processes live spaces) (member : process ∈ processes)
    (positive : 0 < size.toNat) (single : blocksFor size = 1) (room : AllocationsFit kernel process (count + 1)) :
    ∃ ptr after index others, processMalloc process size kernel = (.ok ptr, after) ∧
      ProcessSpaces after processes others spaces ∧ SlotTaken kernel after processes spaces process ptr size index ∧
        AllocationsFit after process count := by
  have enoughSlots := room.slots
  have enoughBlocks := room.blocks
  obtain ⟨free, freeIn⟩ := Finset.card_pos.mp (by omega : 0 < (emptySlots kernel process).card)
  obtain ⟨block, blockIn⟩ := Finset.card_pos.mp (by omega : 0 < (freeBlocks kernel.memory.heap).card)
  obtain ⟨freeBound, empty⟩ := mem_emptySlots.mp freeIn
  obtain ⟨blockBound, unused⟩ := mem_freeBlocks.mp blockIn
  have fits : FitsAt kernel.memory.heap (blocksFor size) block := by
    rw [single]
    refine ⟨blockBound, fun other low high => ?_⟩
    obtain rfl : other = block := by omega
    exact unused
  obtain ⟨ptr, after, call, ⟨others, next⟩, ⟨index, taken⟩ | full⟩ := held.malloc member positive ⟨block, fits⟩
  · exact ⟨ptr, after, index, others, call, next, taken, taken.fit single room⟩
  · exact absurd empty (full.full free freeBound)

theorem ProcessSpaces.malloc_served (held : ProcessSpaces kernel processes live spaces) (member : process ∈ processes)
    (positive : 0 < size.toNat) (single : blocksFor size = 1)
    (run : processMalloc process size kernel = (.ok ptr, after)) (nonnull : ptr ≠ 0) :
    ∃ index others, ProcessSpaces after processes others spaces ∧
      SlotTaken kernel after processes spaces process ptr size index := by
  by_cases fits : ∃ start, FitsAt kernel.memory.heap (blocksFor size) start
  · obtain ⟨other, last, call, ⟨others, next⟩, ends⟩ := held.malloc member positive fits
    rw [run] at call
    cases call
    rcases ends with ⟨index, taken⟩ | full
    · exact ⟨index, others, next, taken⟩
    · exact absurd full.null nonnull
  · have total := held.heap.heap.blocks
    have guarded : MallocGuarded kernel.memory.heap size := by
      refine Or.inr (fun free => fits ⟨kernel.memory.heap.table.total - 1, ?_⟩)
      rw [single]
      refine ⟨by omega, fun other low high => ?_⟩
      obtain rfl : other = kernel.memory.heap.table.total - 1 := by omega
      exact free
    rw [ProcessSpaces.malloc_refused guarded (fun both => fits both.2)] at run
    cases run
    exact absurd rfl nonnull

end Room

theorem ProcessSpaces.setBytes {kernel : Kernel} {processes : Set Addr} {live : Set Interval} {spaces : Addr → Space}
    {bytes : Bytes} (held : ProcessSpaces kernel processes live spaces)
    (same : ∀ other ∈ processes, ∀ address, (spaces other).Page (kernel.directoryOf other) (frameOf address) →
      bytes address = kernel.memory.bytes address) : ProcessSpaces (kernel.setBytes bytes) processes live spaces :=
  held.remember (held.heap.remember rfl) rfl same

/-- The two writes of a round: the string, and the pointer to it in `argv`. -/
def argumentWritten (bytes : Bytes) (ptr argv : Addr) (i : Nat) (text : List Byte) : Bytes :=
  store32 (storeBytes bytes ptr (text ++ [0])) (argv + BitVec.ofNat 32 (4 * i)) ptr

section Written
variable {bytes : Bytes} {ptr argv address : Addr} {size : Word} {i k : Nat} {text : List Byte}

theorem terminated_length (short : text.length < sizeofArgument) :
    (text ++ [0]).length ≤ (BitVec.ofNat 32 sizeofArgument).toNat := by
  rw [List.length_append, List.length_singleton]
  exact short

theorem argumentWritten_other (short : text.length < sizeofArgument) (inside : 4 * i + 4 ≤ size.toNat)
    (noString : ¬OwnPage ptr (BitVec.ofNat 32 sizeofArgument) (frameOf address))
    (noPointer : ¬OwnPage argv size (frameOf address)) : argumentWritten bytes ptr argv i text address = bytes address := by
  unfold argumentWritten
  rw [store32_other]
  · exact storeBytes_otherPage _ (terminated_length short) noString
  · intro j bound same
    refine noPointer ⟨4 * i + j, by omega, ?_⟩
    rw [same, BitVec.add_assoc, ← BitVec.ofNat_add]

theorem argumentWritten_string (nonzero : ∀ c ∈ text, c ≠ 0) (short : text.length < sizeofArgument)
    (inside : 4 * i + 4 ≤ size.toNat)
    (apart : ∀ page, OwnPage ptr (BitVec.ofNat 32 sizeofArgument) page → ¬OwnPage argv size page) :
    HoldsString (argumentWritten bytes ptr argv i text) ptr text := by
  have stored : HoldsString (storeBytes bytes ptr (text ++ [0])) ptr text := by
    refine ⟨nonzero, ?_⟩
    have held := loadBytes_storeBytes bytes ptr (text ++ [0])
    rw [List.length_append, List.length_singleton] at held
    exact held (by unfold sizeofArgument at short; omega)
  refine stored.congr (fun j bound => store32_other _ _ (fun b small same => ?_))
  refine apart (frameOf (ptr + BitVec.ofNat 32 j)) ⟨j, ?_, rfl⟩ ⟨4 * i + b, by omega, ?_⟩
  · unfold sizeofArgument at *
    rw [BitVec.toNat_ofNat]
    omega
  · rw [same, BitVec.add_assoc, ← BitVec.ofNat_add]

theorem argumentWritten_pointer : load32 (argumentWritten bytes ptr argv i text) (argv + BitVec.ofNat 32 (4 * i)) = ptr :=
  load32_store32 _ _ _

theorem argumentWritten_pointers (aligned : PageAligned argv) (different : k ≠ i) (small : size.toNat ≤ 4096)
    (inside : 4 * i + 4 ≤ size.toNat) (within : 4 * k + 4 ≤ size.toNat) (short : text.length < sizeofArgument)
    (apart : ∀ page, OwnPage argv size page → ¬OwnPage ptr (BitVec.ofNat 32 sizeofArgument) page) :
    load32 (argumentWritten bytes ptr argv i text) (argv + BitVec.ofNat 32 (4 * k)) =
      load32 bytes (argv + BitVec.ofNat 32 (4 * k)) := by
  unfold PageAligned pagingPageSize at aligned
  have bound := argv.isLt
  unfold argumentWritten
  rw [load32_store32_ne]
  · refine load32_congr (fun j jBound => storeBytes_otherPage _ (terminated_length short) (apart _ ?_))
    refine ⟨4 * k + j, by omega, ?_⟩
    rw [BitVec.add_assoc, ← BitVec.ofNat_add]
  · rw [BitVec.toNat_add, BitVec.toNat_ofNat]
    omega
  · rw [BitVec.toNat_add, BitVec.toNat_ofNat]
    omega
  · intro same
    apply different
    have values := congrArg BitVec.toNat same
    rw [BitVec.toNat_add, BitVec.toNat_add, BitVec.toNat_ofNat, BitVec.toNat_ofNat] at values
    omega

end Written

/-- The sizes of the buffers of `count` arguments: first `argv`, then the strings. -/
def bufferSize (count : Nat) : Nat → Word
  | 0 => 4 * BitVec.ofNat 32 count
  | _ + 1 => BitVec.ofNat 32 sizeofArgument

/-- The state with `argv` and the first `i` strings in the buffers of slots `slot 0` to `slot i`. -/
structure ArgumentsCopied (kernel state : Kernel) (processes : Set Addr) (spaces : Addr → Space) (process : Addr)
    (arguments : List (List Byte)) (slot : Nat → Nat) (i : Nat) : Prop where
  held : ∃ live, ProcessSpaces state processes live spaces
  undisturbed : Undisturbed kernel state processes (spaces process)
  recorded : ∀ k ≤ i, slot k < peachosMaxProgramAllocations ∧ (kernel.allocation process (slot k)).ptr = 0 ∧
    (state.allocation process (slot k)).ptr ≠ 0 ∧
      (state.allocation process (slot k)).size = bufferSize arguments.length k
  distinct : ∀ j ≤ i, ∀ k ≤ i, slot j = slot k → j = k
  fresh : ∀ k ≤ i, ∀ address, InUse kernel (spaces process) address →
    ¬OwnPage (state.allocation process (slot k)).ptr (state.allocation process (slot k)).size (frameOf address)
  pointers : ∀ k < i, load32 state.memory.bytes ((state.allocation process (slot 0)).ptr + BitVec.ofNat 32 (4 * k)) =
    (state.allocation process (slot (k + 1))).ptr
  strings : ∀ k < i, HoldsString state.memory.bytes (state.allocation process (slot (k + 1))).ptr (arguments.getD k [])

/-- Each string that is left has a block served for it, when the loop comes to it. -/
def ArgumentBlocksServed (process argv : Addr) : (i : Nat) → List (List Byte) → Kernel → Prop :=
  StringsServed (processMalloc process (BitVec.ofNat 32 sizeofArgument))
    (fun ptr i text kernel => kernel.setBytes (argumentWritten kernel.memory.bytes ptr argv i text))

/-- All the allocations succeed: `argv`, and one for each string. -/
def AllocationsServed (process : Addr) (arguments : List (List Byte)) (kernel : Kernel) : Prop :=
  ∃ argv state, processMalloc process (bufferSize arguments.length 0) kernel = (.ok argv, state) ∧ argv ≠ 0 ∧
    ArgumentBlocksServed process argv 0 arguments state

section Rounds
variable {kernel state middle : Kernel} {processes : Set Addr} {live : Set Interval} {spaces : Addr → Space}
  {process ptr : Addr} {arguments : List (List Byte)} {slot : Nat → Nat} {i index : Nat}

theorem bufferSize_argv {count : Nat} (small : count < peachosMaxProgramAllocations) :
    (bufferSize count 0).toNat = 4 * count := by
  have four : (4 : Word).toNat = 4 := rfl
  unfold peachosMaxProgramAllocations at small
  unfold bufferSize
  rw [BitVec.toNat_mul, BitVec.toNat_ofNat, four]
  omega

/-- One more buffer, whose slot was empty, with the earlier ones as they were. -/
structure NextBuffer (state middle : Kernel) (processes : Set Addr) (spaces : Addr → Space) (process ptr : Addr)
    (slot : Nat → Nat) (i index : Nat) : Prop where
  held : ∃ live, ProcessSpaces middle processes live spaces
  taken : SlotTaken state middle processes spaces process ptr (BitVec.ofNat 32 sizeofArgument) index
  undisturbed : Undisturbed state middle processes (spaces process)
  buffer : middle.allocation process index = ⟨ptr, BitVec.ofNat 32 sizeofArgument⟩
  kept : ∀ k ≤ i, middle.allocation process (slot k) = state.allocation process (slot k)
  other : ∀ k ≤ i, slot k ≠ index
  apart : ∀ k ≤ i, ∀ page,
    OwnPage (state.allocation process (slot k)).ptr (state.allocation process (slot k)).size page →
      ¬OwnPage ptr (BitVec.ofNat 32 sizeofArgument) page

theorem ArgumentsCopied.buffer (copied : ArgumentsCopied kernel state processes spaces process arguments slot i)
    (member : process ∈ processes) (held : ProcessSpaces middle processes live spaces)
    (taken : SlotTaken state middle processes spaces process ptr (BitVec.ofNat 32 sizeofArgument) index) :
    NextBuffer state middle processes spaces process ptr slot i index := by
  have undisturbed := taken.undisturbed held member
  have buffer : middle.allocation process index = ⟨ptr, BitVec.ofNat 32 sizeofArgument⟩ := by
    rw [taken.slot, Kernel.recordAllocation_allocation, if_pos ⟨rfl, rfl⟩]
  have kept : ∀ k ≤ i, middle.allocation process (slot k) = state.allocation process (slot k) := by
    intro k bound
    obtain ⟨inTable, _, nonempty, _⟩ := copied.recorded k bound
    exact undisturbed.slots process member _ inTable nonempty
  have other : ∀ k ≤ i, slot k ≠ index := by
    intro k bound same
    obtain ⟨_, _, nonempty, _⟩ := copied.recorded k bound
    rw [same] at nonempty
    exact nonempty taken.empty
  refine ⟨⟨live, held⟩, taken, undisturbed, buffer, kept, other, fun k bound page inside => ?_⟩
  obtain ⟨inTable, _, nonempty, _⟩ := copied.recorded k bound
  rw [← kept k bound] at inside nonempty
  have apart := held.slots_apart member member taken.bound inTable (by rw [buffer]; exact taken.nonnull) nonempty
    (Or.inr (Ne.symm (other k bound))) inside
  rw [buffer] at apart
  exact apart

theorem NextBuffer.earlier (next : NextBuffer state middle processes spaces process ptr slot i index) {k : Nat}
    (low : k ≤ i) : middle.allocation process (Function.update slot (i + 1) index k) =
      state.allocation process (slot k) := by
  rw [Function.update_of_ne (by omega), next.kept k low]

theorem NextBuffer.last (next : NextBuffer state middle processes spaces process ptr slot i index) :
    middle.allocation process (Function.update slot (i + 1) index (i + 1)) = ⟨ptr, BitVec.ofNat 32 sizeofArgument⟩ := by
  rw [Function.update_self, next.buffer]

theorem ArgumentsCopied.argv (copied : ArgumentsCopied kernel state processes spaces process arguments slot i)
    (member : process ∈ processes) (bound : i < arguments.length)
    (small : arguments.length < peachosMaxProgramAllocations) :
    PageAligned (state.allocation process (slot 0)).ptr ∧ (state.allocation process (slot 0)).size.toNat ≤ 4096 ∧
      4 * i + 4 ≤ (state.allocation process (slot 0)).size.toNat := by
  obtain ⟨_, held⟩ := copied.held
  obtain ⟨inTable, _, full, size⟩ := copied.recorded 0 (Nat.zero_le i)
  have total := bufferSize_argv small
  rw [← size] at total
  unfold peachosMaxProgramAllocations at small
  refine ⟨?_, by omega, by omega⟩
  rw [(held.heap.slots process member _ inTable full).2]
  exact heapBlockToAddress_aligned held.heap.heap.pool _

theorem NextBuffer.unused (next : NextBuffer state middle processes spaces process ptr slot i index)
    (copied : ArgumentsCopied kernel state processes spaces process arguments slot i) (member : process ∈ processes)
    {address : Addr} (use : InUse kernel (spaces process) address) :
    ¬OwnPage ptr (BitVec.ofNat 32 sizeofArgument) (frameOf address) := by
  obtain ⟨_, held⟩ := next.held
  exact next.taken.apart held member (copied.undisturbed.used address use)

theorem NextBuffer.noTables (next : NextBuffer state middle processes spaces process ptr slot i index)
    (copied : ArgumentsCopied kernel state processes spaces process arguments slot i) (member : process ∈ processes)
    {owner address : Addr} (ownerIn : owner ∈ processes)
    (tables : (spaces owner).Page (middle.directoryOf owner) (frameOf address)) :
    ¬OwnPage ptr (BitVec.ofNat 32 sizeofArgument) (frameOf address) ∧
      ¬OwnPage (state.allocation process (slot 0)).ptr (state.allocation process (slot 0)).size (frameOf address) := by
  obtain ⟨_, held⟩ := next.held
  obtain ⟨inTable, _, full, _⟩ := copied.recorded 0 (Nat.zero_le i)
  constructor
  · intro own
    refine (held.slot_page member next.taken.bound ?_ ?_).1 owner ownerIn tables
    · rw [next.buffer]
      exact next.taken.nonnull
    · rw [next.buffer]
      exact own
  · intro own
    refine (held.slot_page member inTable ?_ ?_).1 owner ownerIn tables
    · rw [next.kept 0 (Nat.zero_le i)]
      exact full
    · rw [next.kept 0 (Nat.zero_le i)]
      exact own

theorem NextBuffer.recorded (next : NextBuffer state middle processes spaces process ptr slot i index)
    (copied : ArgumentsCopied kernel state processes spaces process arguments slot i) (member : process ∈ processes)
    {k : Nat} (high : k ≤ i + 1) :
    Function.update slot (i + 1) index k < peachosMaxProgramAllocations ∧
      (kernel.allocation process (Function.update slot (i + 1) index k)).ptr = 0 ∧
      (middle.allocation process (Function.update slot (i + 1) index k)).ptr ≠ 0 ∧
      (middle.allocation process (Function.update slot (i + 1) index k)).size = bufferSize arguments.length k := by
  rcases Nat.le_or_eq_of_le_succ high with low | rfl
  · rw [next.earlier low, Function.update_of_ne (by omega)]
    exact copied.recorded k low
  · rw [next.last, Function.update_self]
    refine ⟨next.taken.bound, ?_, next.taken.nonnull, rfl⟩
    by_contra full
    have same := copied.undisturbed.slots process member index next.taken.bound full
    exact full (same ▸ next.taken.empty)

theorem NextBuffer.distinct (next : NextBuffer state middle processes spaces process ptr slot i index)
    (copied : ArgumentsCopied kernel state processes spaces process arguments slot i) {j k : Nat} (jHigh : j ≤ i + 1)
    (kHigh : k ≤ i + 1) (same : Function.update slot (i + 1) index j = Function.update slot (i + 1) index k) : j = k := by
  have earlier : ∀ k ≤ i, Function.update slot (i + 1) index k = slot k :=
    fun k low => Function.update_of_ne (by omega) _ _
  rcases Nat.le_or_eq_of_le_succ jHigh with jLow | rfl <;> rcases Nat.le_or_eq_of_le_succ kHigh with kLow | rfl
  · rw [earlier j jLow, earlier k kLow] at same
    exact copied.distinct j jLow k kLow same
  · rw [earlier j jLow, Function.update_self] at same
    exact absurd same (next.other j jLow)
  · rw [earlier k kLow, Function.update_self] at same
    exact absurd same.symm (next.other k kLow)
  · rfl

theorem NextBuffer.pointers (next : NextBuffer state middle processes spaces process ptr slot i index)
    (copied : ArgumentsCopied kernel state processes spaces process arguments slot i) (member : process ∈ processes)
    (bound : i < arguments.length) (small : arguments.length < peachosMaxProgramAllocations)
    (short : (arguments.getD i []).length < sizeofArgument) {k : Nat} (high : k < i + 1) :
    load32 (argumentWritten middle.memory.bytes ptr (state.allocation process (slot 0)).ptr i (arguments.getD i []))
        ((state.allocation process (slot 0)).ptr + BitVec.ofNat 32 (4 * k)) =
      (middle.allocation process (Function.update slot (i + 1) index (k + 1))).ptr := by
  obtain ⟨_, held⟩ := copied.held
  obtain ⟨inTable, _, full, _⟩ := copied.recorded 0 (Nat.zero_le i)
  obtain ⟨aligned, limit, inside⟩ := copied.argv member bound small
  rcases Nat.lt_succ_iff_lt_or_eq.mp high with low | rfl
  · rw [next.earlier low, ← copied.pointers k low]
    refine (argumentWritten_pointers aligned (by omega) limit inside (by omega) short
      (next.apart 0 (Nat.zero_le i))).trans ?_
    refine load32_congr (fun j small => next.undisturbed.bytes _ ?_)
    refine held.slot_inUse member member inTable full ⟨4 * k + j, by omega, ?_⟩
    rw [BitVec.add_assoc, ← BitVec.ofNat_add]
  · rw [next.last]
    exact argumentWritten_pointer

theorem NextBuffer.strings (next : NextBuffer state middle processes spaces process ptr slot i index)
    (copied : ArgumentsCopied kernel state processes spaces process arguments slot i) (member : process ∈ processes)
    (bound : i < arguments.length) (small : arguments.length < peachosMaxProgramAllocations)
    (short : ∀ k, (arguments.getD k []).length < sizeofArgument) (nonzero : ∀ c ∈ arguments.getD i [], c ≠ 0) {k : Nat}
    (high : k < i + 1) :
    HoldsString (argumentWritten middle.memory.bytes ptr (state.allocation process (slot 0)).ptr i (arguments.getD i []))
      (middle.allocation process (Function.update slot (i + 1) index (k + 1))).ptr (arguments.getD k []) := by
  obtain ⟨_, held⟩ := copied.held
  obtain ⟨zeroIn, _, zeroFull, _⟩ := copied.recorded 0 (Nat.zero_le i)
  obtain ⟨_, _, inside⟩ := copied.argv member bound small
  rcases Nat.lt_succ_iff_lt_or_eq.mp high with low | rfl
  · rw [next.earlier low]
    obtain ⟨inTable, _, full, size⟩ := copied.recorded (k + 1) low
    refine (copied.strings k low).congr (fun j near => ?_)
    have own : OwnPage (state.allocation process (slot (k + 1))).ptr (state.allocation process (slot (k + 1))).size
        (frameOf ((state.allocation process (slot (k + 1))).ptr + BitVec.ofNat 32 j)) := by
      refine ⟨j, ?_, rfl⟩
      rw [size]
      exact lt_of_le_of_lt near (short k)
    have different : slot 0 ≠ slot (k + 1) := fun same =>
      absurd (copied.distinct 0 (Nat.zero_le i) (k + 1) low same) (Nat.succ_ne_zero k).symm
    have noPointer := held.slots_apart member member zeroIn inTable zeroFull full (Or.inr different) own
    rw [argumentWritten_other (short i) inside (next.apart (k + 1) low _ own) noPointer]
    exact next.undisturbed.bytes _ (held.slot_inUse member member inTable full own)
  · rw [next.last]
    exact argumentWritten_string nonzero (short k) inside
      (fun page own argv => next.apart 0 (Nat.zero_le k) page argv own)

theorem NextBuffer.copied (next : NextBuffer state middle processes spaces process ptr slot i index)
    (copied : ArgumentsCopied kernel state processes spaces process arguments slot i) (member : process ∈ processes)
    (bound : i < arguments.length) (small : arguments.length < peachosMaxProgramAllocations)
    (short : ∀ k, (arguments.getD k []).length < sizeofArgument)
    (nonzero : ∀ c ∈ arguments.getD i [], c ≠ 0) :
    ArgumentsCopied kernel (middle.setBytes (argumentWritten middle.memory.bytes ptr
        (state.allocation process (slot 0)).ptr i (arguments.getD i []))) processes spaces process arguments
      (Function.update slot (i + 1) index) (i + 1) := by
  obtain ⟨live, held⟩ := next.held
  obtain ⟨_, _, inside⟩ := copied.argv member bound small
  have base := copied.undisturbed.trans next.undisturbed
  refine ⟨⟨live, held.setBytes ?_⟩, ⟨base.slots, ?_, base.used⟩, ?_, ?_, ?_, ?_, ?_⟩
  · intro owner ownerIn address tables
    obtain ⟨noString, noPointer⟩ := next.noTables copied member ownerIn tables
    exact argumentWritten_other (short i) inside noString noPointer
  · intro address use
    rw [← base.bytes address use]
    exact argumentWritten_other (short i) inside (next.unused copied member use)
      (copied.fresh 0 (Nat.zero_le i) address use)
  · exact fun k high => next.recorded copied member high
  · exact fun j jHigh k kHigh same => next.distinct copied jHigh kHigh same
  · intro k high address use
    show ¬OwnPage (middle.allocation process _).ptr (middle.allocation process _).size _
    rcases Nat.le_or_eq_of_le_succ high with low | rfl
    · rw [next.earlier low]
      exact copied.fresh k low address use
    · rw [next.last]
      exact next.unused copied member use
  · intro k high
    show load32 _ ((middle.allocation process _).ptr + _) = (middle.allocation process _).ptr
    rw [next.earlier (Nat.zero_le i)]
    exact next.pointers copied member bound small (short i) high
  · exact fun k high => next.strings copied member bound small short nonzero high

theorem sizeofArgument_single : 0 < (BitVec.ofNat 32 sizeofArgument).toNat ∧
    blocksFor (BitVec.ofNat 32 sizeofArgument) = 1 := by decide

theorem NextBuffer.round (next : NextBuffer state middle processes spaces process ptr slot i index)
    (copied : ArgumentsCopied kernel state processes spaces process arguments slot i) (member : process ∈ processes)
    (call : processMalloc process (BitVec.ofNat 32 sizeofArgument) state = (.ok ptr, middle)) {current argv : Addr}
    {text : List Byte} (nonnull : current ≠ 0)
    (lives : ∀ j < sizeofCommandArgument, InUse kernel (spaces process) (current + BitVec.ofNat 32 j))
    (short : text.length < sizeofArgument) (holds : HoldsString state.memory.bytes current text) (fuel : Nat) :
    injectArgumentsLoop process argv (fuel + 1) i current state =
      injectArgumentsLoop process argv fuel (i + 1)
        (argumentNext (argumentWritten middle.memory.bytes ptr argv i text) current)
        (middle.setBytes (argumentWritten middle.memory.bytes ptr argv i text)) := by
  obtain ⟨_, held⟩ := next.held
  have used : ∀ b ≤ text.length, InUse state (spaces process) (current + BitVec.ofNat 32 b) :=
    fun b low => copied.undisturbed.used _ (lives b (by unfold sizeofCommandArgument; omega))
  have source : HoldsString middle.memory.bytes current text :=
    holds.congr (fun b low => next.undisturbed.bytes _ (used b low))
  have string : strncpyAt middle.memory.bytes ptr current sizeofArgument =
      storeBytes middle.memory.bytes ptr (text ++ [0]) := by
    refine strncpyAt_stores source short (fun a aLow b bLow same => ?_)
    refine next.taken.apart held member (used b bLow) ?_
    rw [same]
    exact ⟨a, lt_of_le_of_lt aLow short, rfl⟩
  rw [injectArgumentsLoop, if_neg nonnull, bind_ok call, if_neg next.taken.nonnull, update_bind, update_bind, read_bind]
  show injectArgumentsLoop process argv fuel (i + 1)
    (argumentNext (store32 (strncpyAt middle.memory.bytes ptr current sizeofArgument) _ ptr) current)
    (middle.setBytes (store32 (strncpyAt middle.memory.bytes ptr current sizeofArgument) _ ptr)) = _
  rw [string]
  rfl

theorem ArgumentsCopied.loop {rest : List (List Byte)} {current argv : Addr}
    (copied : ArgumentsCopied kernel state processes spaces process arguments slot i) (member : process ∈ processes)
    (small : arguments.length < peachosMaxProgramAllocations)
    (texts : ∀ text ∈ arguments, text.length < sizeofArgument ∧ ∀ c ∈ text, c ≠ 0)
    (low : i ≤ arguments.length) (left : arguments.drop i = rest)
    (listed : ArgumentList state.memory.bytes (InUse kernel (spaces process)) current rest)
    (here : (state.allocation process (slot 0)).ptr = argv) (served : ArgumentBlocksServed process argv i rest state) :
    ∃ after final, (∀ fuel, rest.length ≤ fuel →
        injectArgumentsLoop process argv fuel i current state = (.ok (some 0), after)) ∧
      ArgumentsCopied kernel after processes spaces process arguments final arguments.length ∧
        (after.allocation process (final 0)).ptr = argv := by
  induction rest generalizing state slot i current with
  | nil =>
    obtain rfl : i = arguments.length := le_antisymm low (List.drop_eq_nil_iff.mp left)
    have null : current = 0 := listed
    refine ⟨state, slot, fun fuel _ => ?_, copied, here⟩
    cases fuel <;> rw [injectArgumentsLoop, if_pos null] <;> rfl
  | cons text rest ih =>
    obtain ⟨nonnull, lives, short, holds, tail⟩ := listed
    obtain ⟨ptr, middle, call, full, more⟩ := served
    obtain ⟨_, held⟩ := copied.held
    obtain ⟨bound, this, left⟩ := drop_cons left
    obtain ⟨index, others, middleHeld, taken⟩ :=
      held.malloc_served member sizeofArgument_single.1 sizeofArgument_single.2 call full
    have next := copied.buffer member middleHeld taken
    have written := next.copied copied member bound small (fun k => (text_getD texts k).1) (this ▸ holds.1)
    rw [this, here] at written
    have same : ∀ address, InUse kernel (spaces process) address →
        argumentWritten middle.memory.bytes ptr argv i text address = state.memory.bytes address :=
      fun address use => (written.undisturbed.bytes address use).trans (copied.undisturbed.bytes address use).symm
    have link := argumentNext_congr (fun j small => same _ (lives j small))
    have later := tail.congr same (fun _ use => use)
    rw [← link] at later
    have still : (middle.allocation process (Function.update slot (i + 1) index 0)).ptr = argv := by
      rw [next.earlier (Nat.zero_le i)]
      exact here
    obtain ⟨after, final, run, done, kept⟩ := ih written bound left later still more
    refine ⟨after, final, fun fuel enough => ?_, done, kept⟩
    cases fuel with
    | zero => exact absurd enough (Nat.not_succ_le_zero _)
    | succ fuel =>
      rw [next.round copied member call nonnull lives short holds]
      exact run fuel (Nat.le_of_succ_le_succ enough)

theorem ArgumentsCopied.served {rest : List (List Byte)} {argv : Addr}
    (copied : ArgumentsCopied kernel state processes spaces process arguments slot i) (member : process ∈ processes)
    (small : arguments.length < peachosMaxProgramAllocations)
    (texts : ∀ text ∈ arguments, text.length < sizeofArgument ∧ ∀ c ∈ text, c ≠ 0)
    (left : arguments.drop i = rest) (here : (state.allocation process (slot 0)).ptr = argv)
    (room : AllocationsFit state process rest.length) : ArgumentBlocksServed process argv i rest state := by
  induction rest generalizing state slot i with
  | nil => trivial
  | cons text rest ih =>
    obtain ⟨_, held⟩ := copied.held
    obtain ⟨bound, this, left⟩ := drop_cons left
    obtain ⟨ptr, middle, index, others, call, middleHeld, taken, fit⟩ :=
      held.malloc_fits member sizeofArgument_single.1 sizeofArgument_single.2 room
    have next := copied.buffer member middleHeld taken
    have written := next.copied copied member bound small (fun k => (text_getD texts k).1) (text_getD texts i).2
    rw [this, here] at written
    have still : (middle.allocation process (Function.update slot (i + 1) index 0)).ptr = argv := by
      rw [next.earlier (Nat.zero_le i)]
      exact here
    exact ⟨ptr, middle, call, taken.nonnull, ih written left still ⟨fit.slots, fit.blocks⟩⟩

theorem SlotTaken.copied (taken : SlotTaken kernel state processes spaces process ptr (bufferSize arguments.length 0)
    index) (held : ProcessSpaces state processes live spaces) (member : process ∈ processes) :
    ArgumentsCopied kernel state processes spaces process arguments (fun _ => index) 0 ∧
      (state.allocation process index).ptr = ptr := by
  have buffer : state.allocation process index = ⟨ptr, bufferSize arguments.length 0⟩ := by
    rw [taken.slot, Kernel.recordAllocation_allocation, if_pos ⟨rfl, rfl⟩]
  refine ⟨⟨⟨_, held⟩, taken.undisturbed held member, ?_, ?_, ?_, ?_, ?_⟩, congrArg ProcessAllocation.ptr buffer⟩
  · intro k low
    obtain rfl := Nat.le_zero.mp low
    rw [buffer]
    exact ⟨taken.bound, taken.empty, taken.nonnull, rfl⟩
  · intro j jLow k kLow _
    rw [Nat.le_zero.mp jLow, Nat.le_zero.mp kLow]
  · intro k _ address use
    rw [buffer]
    exact taken.apart held member use
  · exact fun k none => absurd none (Nat.not_lt_zero k)
  · exact fun k none => absurd none (Nat.not_lt_zero k)

theorem ArgumentBlocksServed.count {rest : List (List Byte)} {argv : Addr}
    (served : ArgumentBlocksServed process argv i rest state) : rest.length ≤ (emptySlots state process).card := by
  induction rest generalizing state i with
  | nil => exact Nat.zero_le _
  | cons text rest ih =>
    obtain ⟨ptr, middle, call, full, more⟩ := served
    have fewer := ih more
    change rest.length ≤ (emptySlots middle process).card at fewer
    exact (Nat.succ_le_succ fewer).trans (processMalloc_slots call full)

theorem AllocationsServed.small (served : AllocationsServed process arguments kernel) :
    arguments.length < peachosMaxProgramAllocations := by
  obtain ⟨argv, state, call, full, strings⟩ := served
  exact ((Nat.succ_le_succ strings.count).trans (processMalloc_slots call full)).trans (emptySlots_le kernel process)

theorem bufferSize_single (nonempty : arguments ≠ []) (small : arguments.length < peachosMaxProgramAllocations) :
    0 < (bufferSize arguments.length 0).toNat ∧ blocksFor (bufferSize arguments.length 0) = 1 := by
  have positive : 0 < arguments.length := List.length_pos_iff.mpr nonempty
  have size := bufferSize_argv small
  unfold peachosMaxProgramAllocations at small
  unfold blocksFor heapBlockSize
  omega

theorem AllocationsFit.served (held : ProcessSpaces kernel processes live spaces) (member : process ∈ processes)
    (nonempty : arguments ≠ []) (texts : ∀ text ∈ arguments, text.length < sizeofArgument ∧ ∀ c ∈ text, c ≠ 0)
    (room : AllocationsFit kernel process (arguments.length + 1)) : AllocationsServed process arguments kernel := by
  have small : arguments.length < peachosMaxProgramAllocations :=
    lt_of_lt_of_le (Nat.lt_succ_self _) (room.slots.trans (emptySlots_le _ _))
  obtain ⟨positive, single⟩ := bufferSize_single nonempty small
  obtain ⟨argv, state, index, others, call, stateHeld, taken, fit⟩ := held.malloc_fits member positive single room
  obtain ⟨start, here⟩ := taken.copied stateHeld member
  exact ⟨argv, state, call, taken.nonnull, start.served member small texts rfl here fit⟩

end Rounds

/-- What the call is for: `argc`, and an `argv` of the process with a pointer to a string of the process for each
argument, in new buffers beside the allocations that were there. -/
structure ArgumentsInjected (kernel after : Kernel) (processes : Set Addr) (spaces : Addr → Space) (process : Addr)
    (arguments : List (List Byte)) (slot : Nat → Nat) : Prop where
  given : (after.processRecords process).arguments =
    ⟨BitVec.ofNat 32 arguments.length, (after.allocation process (slot 0)).ptr⟩
  recorded : ∀ k ≤ arguments.length, slot k < peachosMaxProgramAllocations ∧
    (kernel.allocation process (slot k)).ptr = 0 ∧ (after.allocation process (slot k)).ptr ≠ 0 ∧
      (after.allocation process (slot k)).size = bufferSize arguments.length k
  pointers : ∀ k < arguments.length,
    load32 after.memory.bytes ((after.allocation process (slot 0)).ptr + BitVec.ofNat 32 (4 * k)) =
      (after.allocation process (slot (k + 1))).ptr
  strings : ∀ k < arguments.length,
    HoldsString after.memory.bytes (after.allocation process (slot (k + 1))).ptr (arguments.getD k [])
  disjoint : ∀ j ≤ arguments.length, ∀ k ≤ arguments.length, j ≠ k →
    ∀ a < (after.allocation process (slot j)).size.toNat, ∀ b < (after.allocation process (slot k)).size.toNat,
      (after.allocation process (slot j)).ptr + BitVec.ofNat 32 a ≠
        (after.allocation process (slot k)).ptr + BitVec.ofNat 32 b
  mapped : ∀ k ≤ arguments.length, ∀ page,
    OwnPage (after.allocation process (slot k)).ptr (after.allocation process (slot k)).size page →
      pagingGet after.memory.bytes (spaces process).directory page = page ||| ownFlags
  earlier : ∀ owner ∈ processes, ∀ i < peachosMaxProgramAllocations, (kernel.allocation owner i).ptr ≠ 0 →
    after.allocation owner i = kernel.allocation owner i ∧
      (∀ a < (kernel.allocation owner i).size.toNat,
        after.memory.bytes ((kernel.allocation owner i).ptr + BitVec.ofNat 32 a) =
          kernel.memory.bytes ((kernel.allocation owner i).ptr + BitVec.ofNat 32 a)) ∧
      ∀ page, OwnPage (kernel.allocation owner i).ptr (kernel.allocation owner i).size page →
        pagingGet after.memory.bytes (spaces owner).directory page =
          pagingGet kernel.memory.bytes (spaces owner).directory page

section Injected
variable {kernel state after : Kernel} {processes : Set Addr} {live : Set Interval} {spaces : Addr → Space}
  {process root : Addr} {arguments : List (List Byte)} {slot : Nat → Nat}

theorem Kernel.setArguments_allocation (kernel : Kernel) (process owner : Addr) (given : ProcessArguments) (i : Nat) :
    (kernel.setProcess process (fun record => { record with arguments := given })).allocation owner i =
      kernel.allocation owner i := by
  unfold Kernel.allocation
  rw [Kernel.setProcess_records]
  split
  next same => rw [same]
  next => rfl

theorem ArgumentsCopied.injected
    (copied : ArgumentsCopied kernel state processes spaces process arguments slot arguments.length)
    (held : ProcessSpaces kernel processes live spaces) (member : process ∈ processes) :
    ArgumentsInjected kernel (state.setProcess process (fun record => { record with arguments :=
      ⟨BitVec.ofNat 32 arguments.length, (state.allocation process (slot 0)).ptr⟩ })) processes spaces process arguments
      slot := by
  obtain ⟨_, stateHeld⟩ := copied.held
  have same := Kernel.setArguments_allocation state process
  refine ⟨?_, ?_, ?_, ?_, ?_, ?_, ?_⟩
  · rw [Kernel.setProcess_records, if_pos rfl, same]
  · simp only [same]
    exact copied.recorded
  · simp only [same]
    exact copied.pointers
  · simp only [same]
    exact copied.strings
  · intro j jBound k kBound different a aBound b bBound here
    rw [same] at aBound
    rw [same] at bBound
    rw [same, same] at here
    obtain ⟨jIn, _, jFull, _⟩ := copied.recorded j jBound
    obtain ⟨kIn, _, kFull, _⟩ := copied.recorded k kBound
    refine stateHeld.slots_apart member member jIn kIn jFull kFull
      (Or.inr (fun slots => different (copied.distinct j jBound k kBound slots))) ⟨b, bBound, rfl⟩ ⟨a, aBound, ?_⟩
    rw [here]
  · intro k bound page own
    rw [same] at own
    obtain ⟨inTable, _, full, _⟩ := copied.recorded k bound
    exact stateHeld.mapped process member _ inTable full page own
  · intro owner ownerIn i bound full
    have slotSame := copied.undisturbed.slots owner ownerIn i bound full
    rw [same]
    refine ⟨slotSame, fun a inside => ?_, fun page own => ?_⟩
    · exact copied.undisturbed.bytes _ (held.slot_inUse ownerIn member bound full ⟨a, inside, rfl⟩)
    · rw [held.mapped owner ownerIn i bound full page own]
      rw [← slotSame] at full own
      exact stateHeld.mapped owner ownerIn i bound full page own

/-- Every list of arguments is injected into a process for which all the allocations succeed. -/
theorem processInjectArguments_injects (held : ProcessSpaces kernel processes live spaces)
    (member : process ∈ processes) (nonempty : arguments ≠ [])
    (listed : ArgumentList kernel.memory.bytes (InUse kernel (spaces process)) root arguments)
    (served : AllocationsServed process arguments kernel) :
    ∃ after slot, (∀ fuel, arguments.length ≤ fuel →
        processInjectArguments fuel process root kernel = (.ok (some 0), after)) ∧
      ArgumentsInjected kernel after processes spaces process arguments slot := by
  have small := served.small
  have positive : 0 < arguments.length := List.length_pos_iff.mpr nonempty
  obtain ⟨argv, state, call, full, strings⟩ := served
  obtain ⟨index, others, stateHeld, taken⟩ := held.malloc_served member (bufferSize_single nonempty small).1
    (bufferSize_single nonempty small).2 call full
  obtain ⟨start, here⟩ := taken.copied stateHeld member
  have undisturbed := start.undisturbed
  obtain ⟨final, slot, run, done, kept⟩ := start.loop member small listed.texts (Nat.zero_le _) rfl
    (listed.congr undisturbed.bytes (fun _ use => use)) here strings
  refine ⟨_, slot, fun fuel enough => ?_, done.injected held member⟩
  have counted := listed.counted fuel 0 enough
  rw [Nat.zero_add] at counted
  have argc : BitVec.ofNat 32 arguments.length ≠ 0 := by
    unfold peachosMaxProgramAllocations at small
    intro zero
    have value := congrArg BitVec.toNat zero
    rw [BitVec.toNat_ofNat, Nat.mod_eq_of_lt (by omega)] at value
    exact absurd value positive.ne'
  unfold processInjectArguments processCountCommandArguments
  rw [read_bind, counted]
  dsimp only
  rw [if_neg argc]
  have allocated : processMalloc process (4 * BitVec.ofNat 32 arguments.length) kernel = (.ok argv, state) := call
  rw [bind_ok allocated, if_neg full, bind_ok (run fuel enough), if_pos rfl, kept]
  rfl

end Injected

/-- A list of two arguments, "x" and "y", in low memory. -/
def listBytes : Bytes :=
  store32 (storeBytes (store32 (storeBytes spaceBytes 0x200000 [0x78, 0]) 0x200200 0x200400) 0x200400 [0x79, 0])
    0x200600 0

def listKernel : Kernel := (spaceKernel 0).setBytes listBytes

theorem Kernel.setBytes_heap (kernel : Kernel) (bytes : Bytes) :
    (kernel.setBytes bytes).memory.heap = kernel.memory.heap := rfl

theorem listKernel_heap : listKernel.memory.heap = (spaceKernel 0).memory.heap := Kernel.setBytes_heap _ _

theorem listKernel_bytes : listKernel.memory.bytes = listBytes := rfl

theorem listBytes_high {address : Addr} (high : 0x300000 ≤ address.toNat) : listBytes address = spaceBytes address := by
  have word : ∀ bytes : Bytes, ∀ base : Addr, base.toNat ≤ 0x200600 → ∀ value,
      store32 bytes base value address = bytes address := by
    intro bytes base low value
    apply store32_other
    intro i small same
    have place := congrArg BitVec.toNat same
    rw [BitVec.toNat_add, BitVec.toNat_ofNat] at place
    omega
  have text : ∀ bytes : Bytes, ∀ base : Addr, base.toNat ≤ 0x200600 → ∀ c : Byte,
      storeBytes bytes base [c, 0] address = bytes address := by
    intro bytes base low c
    apply storeBytes_outside _ _ _ (by show 2 < 2 ^ 32; decide)
    show 2 ≤ _
    rw [BitVec.toNat_sub]
    have := address.isLt
    omega
  unfold listBytes
  rw [word _ _ (by decide), text _ _ (by decide), word _ _ (by decide), text _ _ (by decide)]

theorem listBytes_page {address : Addr} (inside : firstSpace.Page (heapPage 1025) (frameOf address)) :
    listBytes address = spaceBytes address := by
  obtain ⟨block, bound, here⟩ := firstSpace_page inside
  have page := congrArg BitVec.toNat here
  rw [frameOf_toNat, heapPage_toNat (by omega)] at page
  exact listBytes_high (by omega)

theorem listKernel_held : ∃ live, ProcessSpaces listKernel {firstProcess} live (fun _ => firstSpace) := by
  obtain ⟨live, held⟩ := (spaceKernel_fresh 0).held
  exact ⟨live, held.setBytes (fun _ _ _ inside => listBytes_page inside)⟩

theorem listKernel_low {base : Addr} (low : base.toNat ≤ 0x200400) {j : Nat} (bound : j < sizeofCommandArgument) :
    InUse listKernel firstSpace (base + BitVec.ofNat 32 j) := by
  obtain ⟨kernel, _⟩ := spaceKernel_paged 0
  unfold sizeofCommandArgument sizeofArgument at bound
  refine ⟨fun i iBound same => ?_, fun block blockBound _ same => ?_⟩
  · have page := congrArg BitVec.toNat same
    rw [frameOf_toNat, BitVec.toNat_add, BitVec.toNat_ofNat] at page
    have place : (firstSpace.tables i).toNat = _ := heapPage_toNat (by omega : i + 1 < 25600)
    omega
  · have page := congrArg BitVec.toNat same
    rw [listKernel_heap] at blockBound page
    have place := kernel.address_toNat blockBound
    rw [frameOf_toNat, BitVec.toNat_add, BitVec.toNat_ofNat] at page
    omega

theorem listKernel_listed :
    ArgumentList listKernel.memory.bytes (InUse listKernel firstSpace) 0x200000 [[0x78], [0x79]] := by
  have text : HoldsString listBytes 0x200000 [0x78] ∧ HoldsString listBytes 0x200400 [0x79] := by
    unfold HoldsString
    decide +kernel
  have link : argumentNext listBytes 0x200000 = 0x200400 ∧ argumentNext listBytes 0x200400 = 0 := by decide +kernel
  rw [listKernel_bytes]
  unfold ArgumentList
  rw [link.1]
  exact ⟨by decide, fun j bound => listKernel_low (by decide) bound, by decide, text.1, by decide,
    fun j bound => listKernel_low (by decide) bound, by decide, text.2, link.2⟩

theorem processInjectArguments_injects_two : ∃ after slot,
    (∀ fuel, 2 ≤ fuel → processInjectArguments fuel firstProcess 0x200000 listKernel = (.ok (some 0), after)) ∧
      ArgumentsInjected listKernel after {firstProcess} (fun _ => firstSpace) firstProcess [[0x78], [0x79]] slot := by
  obtain ⟨live, held⟩ := listKernel_held
  obtain ⟨kernel, _, _, free⟩ := spaceKernel_paged 0
  have slots : emptySlots listKernel firstProcess = Finset.range peachosMaxProgramAllocations :=
    Finset.filter_true_of_mem (fun _ _ => rfl)
  have blocks : Finset.Ico 1026 25600 ⊆ freeBlocks listKernel.memory.heap := by
    intro block member
    obtain ⟨low, high⟩ := Finset.mem_Ico.mp member
    rw [listKernel_heap, mem_freeBlocks, kernel.blocks]
    exact ⟨high, free block high low⟩
  have count := Finset.card_le_card blocks
  rw [Nat.card_Ico] at count
  have room : AllocationsFit listKernel firstProcess 3 := by
    refine ⟨?_, by omega⟩
    rw [slots, Finset.card_range]
    decide
  have served : AllocationsServed firstProcess [[0x78], [0x79]] listKernel :=
    AllocationsFit.served held (Set.mem_singleton _) (by decide) listKernel_listed.texts room
  exact processInjectArguments_injects held (Set.mem_singleton _) (by decide) listKernel_listed served

end PeachOS
