import PeachOS.HeapScan
import PeachOS.Lib.Run

/-! The allocator keeps no list of its allocations: they are the chains that the
`HEAP_BLOCK_HAS_NEXT` bits spell out. `Represents` ties the table to a set of
chains, and every operation moves it to the set it should. -/

namespace PeachOS
open BlockPool Transition

/-- The table holds the chains of `live`, and every other entry is free. -/
structure Represents (total : Nat) (entries : Int → Entry) (live : Set Interval) : Prop where
  within : ∀ run ∈ live, run.Within total
  apart : live.Pairwise Interval.Apart
  marked : ∀ run ∈ live, ∀ offset : Nat, offset < run.length →
    entries ((run.first + offset : Nat) : Int) = chainEntry run.length offset
  rest : ∀ block < total, (∀ run ∈ live, ¬run.Holds block) →
    entries block = heapBlockTableEntryFree

section Represents
variable {total : Nat} {entries : Int → Entry} {live : Set Interval}

theorem Represents.marked_at (table : Represents total entries live) {run : Interval}
    (member : run ∈ live) {block : Nat} (inside : run.Holds block) :
    entries block = chainEntry run.length (block - run.first) := by
  have low := inside.1
  have high := inside.2
  have mark := table.marked run member (block - run.first) (by omega)
  rwa [show run.first + (block - run.first) = block by omega] at mark

theorem Represents.free_iff (table : Represents total entries live) {block : Nat}
    (inside : block < total) : EntryFree entries block ↔ ∀ run ∈ live, ¬run.Holds block := by
  constructor
  · intro free run member held
    have mark := table.marked_at member held
    unfold EntryFree at free
    rw [mark, chainEntry_taken] at free
    exact absurd free (by decide)
  · intro outside
    unfold EntryFree
    rw [table.rest block inside outside]
    decide

theorem Represents.apart_of_free (table : Represents total entries live) {length start : Nat}
    (positive : 0 < length) (free : FreeRun (EntryFree entries) total length start)
    {run : Interval} (member : run ∈ live) : (Interval.mk start length).Apart run := by
  apply Interval.apart_of_no_common positive (table.within run member).1
  intro cell inFresh
  have bound : cell < total := by
    have := free.1
    have := inFresh.2
    simp only at this
    omega
  exact (table.free_iff bound).mp (free.2 cell inFresh.1 inFresh.2) run member

theorem Represents.take {heap : Heap} (table : Represents total heap.table.entries live)
    {length start : Nat} (positive : 0 < length)
    (free : FreeRun (EntryFree heap.table.entries) total length start) :
    Represents total (heapMarkBlocksTaken heap start length).table.entries
      (insert ⟨start, length⟩ live) := by
  have separate := fun run member => @Represents.apart_of_free _ _ _ table _ _ positive free run member
  refine ⟨?_, pairwise_insert table.apart separate, ?_, ?_⟩
  · rintro run (rfl | member)
    · exact ⟨positive, free.1⟩
    · exact table.within run member
  · rintro run (rfl | member) offset bound
    · rw [heapMarkBlocksTaken_entry, if_pos (by simp only at bound ⊢; omega)]
      congr 1
      simp only
      omega
    · have := separate run member
      unfold Interval.Apart at this
      simp only at this
      rw [heapMarkBlocksTaken_entry, if_neg (by omega)]
      exact table.marked run member offset bound
  · intro block bound outside
    have fresh := outside _ (Set.mem_insert _ _)
    unfold Interval.Holds at fresh
    simp only at fresh
    rw [heapMarkBlocksTaken_entry, if_neg (by omega)]
    exact table.rest block bound (fun run member => outside run (Set.mem_insert_of_mem _ member))

/-- The walk from the first block of a chain gets to the blocks of that chain only. -/
theorem Represents.reaches_iff (table : Represents total entries live) {run : Interval}
    (member : run ∈ live) (i : Int) :
    FreeReaches entries total run.first i ↔ run.first ≤ i ∧ i < run.first + run.length := by
  have within := table.within run member
  have linked : ∀ offset : Nat, offset < run.length →
      (HasNext (entries ((run.first + offset : Nat) : Int)) ↔ offset + 1 < run.length) := by
    intro offset bound
    rw [table.marked run member offset bound, chainEntry_hasNext]
  constructor
  · rintro ⟨low, _, walk⟩
    refine ⟨low, ?_⟩
    by_contra past
    have last := walk ((run.first + (run.length - 1) : Nat) : Int) (by omega)
      (by have := within.1; omega)
    rw [linked _ (by have := within.1; omega)] at last
    have := within.1
    omega
  · rintro ⟨low, high⟩
    refine ⟨low, by have := within.2; omega, fun j lowJ highJ => ?_⟩
    have position := linked (j - run.first).toNat (by omega)
    rw [show (((run.first + (j - run.first).toNat : Nat)) : Int) = j by omega] at position
    exact position.mpr (by omega)

theorem Represents.free_entry {heap : Heap}
    (table : Represents heap.table.total heap.table.entries live) {run : Interval}
    (member : run ∈ live) (i : Int) :
    (heapMarkBlocksFree heap run.first).table.entries i =
      if run.first ≤ i ∧ i < run.first + run.length then heapBlockTableEntryFree
      else heap.table.entries i := by
  by_cases inside : (run.first : Int) ≤ i ∧ i < run.first + run.length
  · rw [if_pos inside, heapMarkBlocksFree_reached ((table.reaches_iff member i).mpr inside)]
  · rw [if_neg inside, heapMarkBlocksFree_missed (fun reach => inside ((table.reaches_iff member i).mp reach))]

theorem Represents.release {heap : Heap}
    (table : Represents heap.table.total heap.table.entries live) {run : Interval}
    (member : run ∈ live) :
    Represents heap.table.total (heapMarkBlocksFree heap run.first).table.entries
      (live \ {run}) := by
  refine ⟨fun other kept => table.within other kept.1, table.apart.mono Set.sdiff_subset, ?_, ?_⟩
  · intro other kept offset bound
    have apart := table.apart kept.1 member kept.2
    unfold Interval.Apart at apart
    rw [table.free_entry member, if_neg (by omega)]
    exact table.marked other kept.1 offset bound
  · intro block bound outside
    rw [table.free_entry member]
    by_cases inside : (run.first : Int) ≤ block ∧ (block : Int) < run.first + run.length
    · rw [if_pos inside]
    · rw [if_neg inside]
      refine table.rest block bound fun other kept held => ?_
      by_cases same : other = run
      · subst same
        unfold Interval.Holds at held
        omega
      · exact outside other ⟨kept, same⟩ held

end Represents

/-- `ceil(size / 4096)`. -/
def blocksFor (size : Word) : Nat := (size.toNat + 4095) / heapBlockSize

theorem heapAlignValueToUpper_blocks (size : Word) :
    (heapAlignValueToUpper size).toNat / heapBlockSize =
      if size.toNat ≤ 2 ^ 32 - 4096 then blocksFor size else 0 := by
  have bound := size.isLt
  unfold heapAlignValueToUpper blocksFor heapBlockSize
  split
  next exact =>
    rw [if_pos (by omega)]
    omega
  next inexact =>
    have rounded : (size - BitVec.ofNat 32 (size.toNat % 4096) + BitVec.ofNat 32 4096).toNat =
        (size.toNat - size.toNat % 4096 + 4096) % 2 ^ 32 := by
      simp only [BitVec.toNat_add, BitVec.toNat_sub, BitVec.toNat_ofNat]
      omega
    rw [rounded]
    split <;> omega

theorem blocksFor_pos {size : Word} (roundable : Roundable size) : 0 < blocksFor size := by
  unfold Roundable at roundable
  unfold blocksFor heapBlockSize
  omega

theorem blocksFor_lt (size : Word) : blocksFor size ≤ 2 ^ 20 := by
  have := size.isLt
  unfold blocksFor heapBlockSize
  omega

theorem heapMalloc_eq (heap : Heap) (size : Word) (roundable : Roundable size) :
    heapMalloc heap size = heapMallocBlocks heap (BitVec.ofNat 32 (blocksFor size)) := by
  unfold heapMalloc
  simp only [heapAlignValueToUpper_blocks, if_pos roundable.2]

theorem blocksFor_toNat (size : Word) :
    (BitVec.ofNat 32 (blocksFor size)).toNat = blocksFor size := by
  have := blocksFor_lt size
  rw [BitVec.toNat_ofNat, Nat.mod_eq_of_lt (by omega)]

@[simp] theorem heapMarkBlocksTaken_total (heap : Heap) (start : Int) (length : Nat) :
    (heapMarkBlocksTaken heap start length).table.total = heap.table.total := rfl

@[simp] theorem heapMarkBlocksTaken_saddr (heap : Heap) (start : Int) (length : Nat) :
    (heapMarkBlocksTaken heap start length).saddr = heap.saddr := rfl

@[simp] theorem heapMarkBlocksFree_total (heap : Heap) (start : Int) :
    (heapMarkBlocksFree heap start).table.total = heap.table.total := rfl

@[simp] theorem heapMarkBlocksFree_saddr (heap : Heap) (start : Int) :
    (heapMarkBlocksFree heap start).saddr = heap.saddr := rfl

@[simp] theorem heapFree_total (heap : Heap) (ptr : Addr) :
    (heapFree heap ptr).table.total = heap.table.total := rfl

@[simp] theorem heapFree_saddr (heap : Heap) (ptr : Addr) :
    (heapFree heap ptr).saddr = heap.saddr := rfl

@[simp] theorem heapMalloc_total (heap : Heap) (size : Word) :
    (heapMalloc heap size).2.table.total = heap.table.total := by
  unfold heapMalloc heapMallocBlocks
  dsimp only
  split <;> rfl

@[simp] theorem heapMalloc_saddr (heap : Heap) (size : Word) :
    (heapMalloc heap size).2.saddr = heap.saddr := by
  unfold heapMalloc heapMallocBlocks
  dsimp only
  split <;> rfl

theorem heapBlockToAddress_congr {before after : Heap} (saddr : after.saddr = before.saddr)
    (block : Int) : heapBlockToAddress after block = heapBlockToAddress before block := by
  unfold heapBlockToAddress
  rw [saddr]

theorem heapMalloc_fits (heap : Heap) (size : Word) (roundable : Roundable size)
    (fits : ∃ start, FitsAt heap (blocksFor size) start) :
    ∃ start, LeastFreeRun (EntryFree heap.table.entries) heap.table.total (blocksFor size) start ∧
      heapMalloc heap size =
        (heapBlockToAddress heap start, heapMarkBlocksTaken heap start (blocksFor size)) := by
  have count := blocksFor_toNat size
  obtain ⟨start, found, least⟩ := heapGetStartBlock_least heap (BitVec.ofNat 32 (blocksFor size))
    (by rw [count]; exact blocksFor_pos roundable) (by rw [count]; exact fits)
  rw [count] at least
  refine ⟨start, least, ?_⟩
  rw [heapMalloc_eq heap size roundable]
  have marked := intCount_eq (BitVec.ofNat 32 (blocksFor size))
    (by have := blocksFor_lt size; omega)
  simp only [heapMallocBlocks, found, marked, count]
  rw [if_neg (by omega)]

theorem heapAddressToBlock_block (heap : Heap) (block : Nat) (small : block * 4096 < 2 ^ 31) :
    heapAddressToBlock heap (heapBlockToAddress heap block) = block := by
  have difference : heapBlockToAddress heap block - heap.saddr =
      BitVec.ofNat 32 (block * heapBlockSize) := by
    unfold heapBlockToAddress
    rw [show (block : Int) * (heapBlockSize : Nat) = ((block * heapBlockSize : Nat) : Int) from
      (Int.natCast_mul _ _).symm, BitVec.ofInt_natCast, BitVec.add_comm, BitVec.add_sub_cancel]
  unfold heapAddressToBlock
  unfold heapBlockSize at difference ⊢
  rw [difference, BitVec.toInt_ofNat', Int.bmod_eq_of_le (by omega) (by omega), Int.natCast_mul]
  exact Int.mul_tdiv_cancel _ (by omega)

/-- A pointer that `heap_malloc` returned, with the size it was asked for. -/
structure Allocation where
  ptr : Addr
  size : Word
  deriving DecidableEq

def chainOf (heap : Heap) (allocation : Allocation) : Interval :=
  ⟨(heapAddressToBlock heap allocation.ptr).toNat, blocksFor allocation.size⟩

/-- One call on the heap: an allocation for which the table has room, or the
release of a pointer that is still live. -/
inductive HeapStep : Heap × Set Allocation → Heap × Set Allocation → Prop where
  | malloc {heap : Heap} {live : Set Allocation} (size : Word) (roundable : Roundable size)
      (fits : ∃ start, FitsAt heap (blocksFor size) start) :
      HeapStep (heap, live)
        ((heapMalloc heap size).2, insert ⟨(heapMalloc heap size).1, size⟩ live)
  | free {heap : Heap} {live : Set Allocation} (allocation : Allocation)
      (member : allocation ∈ live) :
      HeapStep (heap, live) (heapFree heap allocation.ptr, live \ {allocation})

/-- The table is one chain for each live pointer, and nothing else. -/
structure ExactTable (heap : Heap) (live : Set Allocation) : Prop where
  within : ∀ allocation ∈ live, (chainOf heap allocation).Within heap.table.total
  starts : ∀ allocation ∈ live,
    allocation.ptr = heapBlockToAddress heap (chainOf heap allocation).first
  marked : ∀ allocation ∈ live, ∀ offset : Nat, offset < (chainOf heap allocation).length →
    heap.table.entries (((chainOf heap allocation).first + offset : Nat) : Int) =
      chainEntry (chainOf heap allocation).length offset
  apart : ∀ left ∈ live, ∀ right ∈ live, left ≠ right →
    (chainOf heap left).Apart (chainOf heap right)
  rest : ∀ block < heap.table.total,
    (∀ allocation ∈ live, ¬(chainOf heap allocation).Holds block) →
      heap.table.entries block = heapBlockTableEntryFree

section Exact
variable {heap : Heap} {live : Set Allocation}

theorem ExactTable.represents (exact : ExactTable heap live) :
    Represents heap.table.total heap.table.entries (chainOf heap '' live) where
  within := by
    rintro _ ⟨allocation, member, rfl⟩
    exact exact.within allocation member
  apart := by
    rintro _ ⟨left, leftIn, rfl⟩ _ ⟨right, rightIn, rfl⟩ different
    exact exact.apart left leftIn right rightIn (fun same => different (by rw [same]))
  marked := by
    rintro _ ⟨allocation, member, rfl⟩
    exact exact.marked allocation member
  rest := fun block bound outside => exact.rest block bound
    (fun allocation member => outside _ ⟨allocation, member, rfl⟩)

theorem ExactTable.of_represents
    (table : Represents heap.table.total heap.table.entries (chainOf heap '' live))
    (injective : Set.InjOn (chainOf heap) live)
    (starts : ∀ allocation ∈ live,
      allocation.ptr = heapBlockToAddress heap (chainOf heap allocation).first) :
    ExactTable heap live where
  within := fun allocation member => table.within _ ⟨allocation, member, rfl⟩
  starts := starts
  marked := fun allocation member => table.marked _ ⟨allocation, member, rfl⟩
  apart := fun left leftIn right rightIn different =>
    table.apart ⟨left, leftIn, rfl⟩ ⟨right, rightIn, rfl⟩
      (fun same => different (injective leftIn rightIn same))
  rest := fun block bound outside => table.rest block bound
    (by rintro _ ⟨allocation, member, rfl⟩; exact outside allocation member)

theorem ExactTable.injective (exact : ExactTable heap live) : Set.InjOn (chainOf heap) live := by
  intro left leftIn right rightIn same
  by_contra different
  have apart := exact.apart left leftIn right rightIn different
  exact Interval.ne_of_apart (exact.within left leftIn).1 apart same

theorem chainOf_fresh {start : Nat} {size : Word} (small : start * 4096 < 2 ^ 31) :
    chainOf heap ⟨heapBlockToAddress heap start, size⟩ = ⟨start, blocksFor size⟩ := by
  simp only [chainOf, heapAddressToBlock_block heap start small, Int.toNat_natCast]

theorem chainOf_congr {after : Heap} (same : after.saddr = heap.saddr) :
    chainOf after = chainOf heap := by
  funext allocation
  simp only [chainOf, heapAddressToBlock, same]

theorem ExactTable.malloc (exact : ExactTable heap live) (small : heap.table.total * 4096 ≤ 2 ^ 31)
    {size : Word} (roundable : Roundable size) (fits : ∃ start, FitsAt heap (blocksFor size) start) :
    ExactTable (heapMalloc heap size).2 (insert ⟨(heapMalloc heap size).1, size⟩ live) := by
  obtain ⟨start, least, result⟩ := heapMalloc_fits heap size roundable fits
  have positive := blocksFor_pos roundable
  have inPool : start * 4096 < 2 ^ 31 := by have := least.1.1; omega
  have chain : chainOf heap ⟨heapBlockToAddress heap start, size⟩ = ⟨start, blocksFor size⟩ :=
    chainOf_fresh inPool
  rw [result]
  have sameChain : chainOf (heapMarkBlocksTaken heap start (blocksFor size)) = chainOf heap :=
    chainOf_congr rfl
  apply ExactTable.of_represents
  · rw [sameChain, Set.image_insert_eq, chain]
    exact exact.represents.take positive least.1
  · rw [sameChain]
    have separate : ∀ allocation ∈ live,
        chainOf heap ⟨heapBlockToAddress heap start, size⟩ ≠ chainOf heap allocation := by
      intro allocation member same
      have apart := exact.represents.apart_of_free positive least.1 ⟨allocation, member, rfl⟩
      rw [chain] at same
      exact Interval.ne_of_apart positive apart same
    rintro left (rfl | leftIn) right (rfl | rightIn) same
    · rfl
    · exact absurd same (separate right rightIn)
    · exact absurd same.symm (separate left leftIn)
    · exact exact.injective leftIn rightIn same
  · rw [sameChain]
    rintro allocation (rfl | member)
    · rw [chain]
      rfl
    · exact exact.starts allocation member

theorem ExactTable.block (exact : ExactTable heap live) (small : heap.table.total * 4096 ≤ 2 ^ 31)
    {allocation : Allocation} (member : allocation ∈ live) :
    heapAddressToBlock heap allocation.ptr = (chainOf heap allocation).first := by
  have within := exact.within allocation member
  unfold Interval.Within at within
  rw [exact.starts allocation member]
  exact heapAddressToBlock_block heap _ (by omega)

theorem ExactTable.free_entry (exact : ExactTable heap live)
    (small : heap.table.total * 4096 ≤ 2 ^ 31) {allocation : Allocation} (member : allocation ∈ live)
    (i : Int) : (heapFree heap allocation.ptr).table.entries i =
      if (chainOf heap allocation).first ≤ i ∧
          i < (chainOf heap allocation).first + (chainOf heap allocation).length then
        heapBlockTableEntryFree
      else heap.table.entries i := by
  unfold heapFree
  rw [exact.block small member]
  exact exact.represents.free_entry ⟨allocation, member, rfl⟩ i

theorem ExactTable.free (exact : ExactTable heap live) (small : heap.table.total * 4096 ≤ 2 ^ 31)
    {allocation : Allocation} (member : allocation ∈ live) :
    ExactTable (heapFree heap allocation.ptr) (live \ {allocation}) := by
  have sameChain : chainOf (heapFree heap allocation.ptr) = chainOf heap := chainOf_congr rfl
  apply ExactTable.of_represents
  · rw [sameChain, exact.injective.image_sdiff_subset (Set.singleton_subset_iff.mpr member),
      Set.image_singleton]
    unfold heapFree
    rw [exact.block small member]
    exact exact.represents.release ⟨allocation, member, rfl⟩
  · rw [sameChain]
    exact exact.injective.mono Set.sdiff_subset
  · rw [sameChain]
    exact fun other kept => exact.starts other kept.1

end Exact

theorem heapCreate_fresh {before created : Heap} {ptr finish : Addr} {table : HeapTable}
    (create : heapCreate before ptr finish table = (0, created)) :
    created.saddr = ptr ∧ created.table.total = table.total ∧
      table.total = (finish - ptr).toNat / heapBlockSize ∧ ExactTable created ∅ := by
  unfold heapCreate at create
  split at create
  · simp [EINVARG] at create
  · split at create
    next failed =>
      have := congrArg Prod.fst create
      simp only at this
      omega
    next valid =>
      have size : table.total = (finish - ptr).toNat / heapBlockSize := by
        by_contra wrong
        exact valid (by rw [heapValidateTable, if_pos wrong]; decide)
      obtain rfl := (Prod.mk.inj create).2
      refine ⟨rfl, rfl, size, ⟨by simp, by simp, by simp, by simp, fun block bound _ => ?_⟩⟩
      simp only [Heap.withEntries_entries]
      simp only [Heap.withEntries_total] at bound
      rw [if_pos (by omega)]

theorem HeapStep.total {before after : Heap × Set Allocation} (step : HeapStep before after) :
    after.1.table.total = before.1.table.total := by
  cases step <;> simp

theorem HeapStep.exact {before after : Heap × Set Allocation}
    (small : before.1.table.total * 4096 ≤ 2 ^ 31) (exact : ExactTable before.1 before.2)
    (step : HeapStep before after) : ExactTable after.1 after.2 := by
  cases step with
  | malloc size roundable fits => exact exact.malloc small roundable fits
  | free allocation member => exact exact.free small member

/-- Every run from `heap_create` keeps the table equal to the live chains; in every
state it reaches `heap_malloc` takes the leftmost fitting run under a pointer that is
not live, and `heap_free` clears the entries of its own pointer and no other byte. -/
theorem heap_runs_exact {before created heap : Heap} {ptr finish : Addr} {table : HeapTable}
    {live : Set Allocation} (create : heapCreate before ptr finish table = (0, created))
    (pool : (finish - ptr).toNat ≤ 2 ^ 31) (run : Run HeapStep (created, ∅) (heap, live)) :
    ExactTable heap live ∧
    (∀ size, Roundable size → (∃ start, FitsAt heap (blocksFor size) start) →
      ∃ start, LeastFreeRun (EntryFree heap.table.entries) heap.table.total (blocksFor size) start ∧
        (heapMalloc heap size).1 = heapBlockToAddress heap start ∧
        ∀ allocation ∈ live, allocation.ptr ≠ (heapMalloc heap size).1) ∧
    ∀ allocation ∈ live, ∀ i : Int, (heapFree heap allocation.ptr).table.entries i =
      if (chainOf heap allocation).first ≤ i ∧
          i < (chainOf heap allocation).first + (chainOf heap allocation).length then
        heapBlockTableEntryFree
      else heap.table.entries i := by
  obtain ⟨_, total, size, fresh⟩ := heapCreate_fresh create
  have reached := run.invariant
    (fun state => state.1.table.total * 4096 ≤ 2 ^ 31 ∧ ExactTable state.1 state.2)
    (fun _ _ held step => ⟨by rw [step.total]; exact held.1, step.exact held.1 held.2⟩)
    ⟨by simp only [total, size, heapBlockSize]; omega, fresh⟩
  obtain ⟨small, exact⟩ := reached
  refine ⟨exact, ?_, fun allocation member => exact.free_entry small member⟩
  intro size roundable fits
  obtain ⟨start, least, result⟩ := heapMalloc_fits heap size roundable fits
  refine ⟨start, least, by rw [result], fun allocation member same => ?_⟩
  have positive := blocksFor_pos roundable
  have inPool : start * 4096 < 2 ^ 31 := by have := least.1.1; simp only at small; omega
  have apart := exact.represents.apart_of_free positive least.1 ⟨allocation, member, rfl⟩
  rw [result] at same
  have block := heapAddressToBlock_block heap start inPool
  have first : (chainOf heap allocation).first = start := by
    simp only [chainOf, same, block, Int.toNat_natCast]
  have proper := (exact.within allocation member).1
  unfold Interval.Apart at apart
  simp only [first] at apart
  simp only at proper
  omega

/-- Two blocks above 16 MiB, over memory that was not clear before. -/
def twoBlockHeap : Heap :=
  (heapCreate ⟨⟨fun _ => 0xff, 0⟩, 0⟩ 0x01000000 0x01002000 ⟨fun _ => 0xff, 2⟩).2

theorem twoBlockHeap_created :
    heapCreate ⟨⟨fun _ => 0xff, 0⟩, 0⟩ 0x01000000 0x01002000 ⟨fun _ => 0xff, 2⟩ =
      (0, twoBlockHeap) := rfl

theorem heap_runs_exact_two_blocks :
    ExactTable (heapMalloc twoBlockHeap 4097).2
      (insert ⟨(heapMalloc twoBlockHeap 4097).1, 4097⟩ ∅) :=
  (heap_runs_exact twoBlockHeap_created (by decide)
    (.single (.malloc 4097 (by decide) ⟨0, by decide, fun block _ high => by
      have : block = 0 ∨ block = 1 := by
        have : blocksFor 4097 = 2 := by decide
        omega
      rcases this with rfl | rfl <;> decide⟩))).1

end PeachOS
