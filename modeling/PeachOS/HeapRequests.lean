import PeachOS.HeapSound
import PeachOS.Lib.Run

/-! What a request gets, whatever the table and the size. The scan takes the free end of
the table for a fitting run, so a request that cannot be served is refused only where the
last entry of the table is taken. -/

namespace PeachOS
open ByteMemory BlockPool Transition

/-- A request of `count` blocks without a fitting run is refused and changes nothing, and an
address belongs to a free run of that length. -/
structure BlocksServed (heap : Heap) (count : Word) : Prop where
  refused : (∀ start, ¬FitsAt heap count.toNat start) → heapMallocBlocks heap count = (0, heap)
  served : (heapMallocBlocks heap count).1 ≠ 0 → ∃ start : Nat,
    (heapMallocBlocks heap count).1 = heapBlockToAddress heap start ∧ FitsAt heap count.toNat start

section Blocks
variable {heap : Heap} {count : Word}

theorem BlocksServed.of_fits (positive : 0 < count.toNat)
    (fits : ∃ start, FitsAt heap count.toNat start) : BlocksServed heap count := by
  obtain ⟨run, fits⟩ := fits
  refine ⟨fun none => absurd fits (none run), fun _ => ?_⟩
  have outcome := heapMallocBlocks_outcome heap count
  generalize heapMallocBlocks heap count = result at outcome
  cases outcome with
  | refused none last => exact absurd fits (none positive run)
  | fitting start positive least => exact ⟨start, rfl, least.1⟩
  | trailing start none tail => exact absurd fits (none positive run)

theorem BlocksServed.of_last (positive : 0 < count.toNat) (last : LastTaken heap) :
    BlocksServed heap count := by
  by_cases fits : ∃ start, FitsAt heap count.toNat start
  · exact BlocksServed.of_fits positive fits
  · have refused : heapMallocBlocks heap count = (0, heap) := by
      have outcome := heapMallocBlocks_outcome heap count
      generalize heapMallocBlocks heap count = result at outcome
      cases outcome with
      | refused none last => rfl
      | fitting start positive least => exact absurd ⟨start, least.1⟩ fits
      | trailing start none tail =>
        have bound := tail.1
        exact absurd (tail.2 (heap.table.total - 1) (by omega) (by omega)) (last (by omega))
    exact ⟨fun _ => refused, fun nonnull => absurd (congrArg Prod.fst refused) nonnull⟩

end Blocks

/-- `heap_malloc_blocks` refuses what it cannot serve if and only if it can serve the
request or the last entry of the table is taken. -/
theorem heapMallocBlocks_served_iff (heap : Heap) (count : Word) (space : InSpace heap)
    (positive : 0 < count.toNat) :
    BlocksServed heap count ↔
      (∃ start, FitsAt heap count.toNat start) ∨ LastTaken heap := by
  constructor
  · intro served
    by_cases fits : ∃ start, FitsAt heap count.toNat start
    · exact Or.inl fits
    · right
      have refused := served.refused (fun start found => fits ⟨start, found⟩)
      have outcome := heapMallocBlocks_outcome heap count
      rw [refused] at outcome
      generalize same : ((0 : Addr), heap) = result at outcome
      cases outcome with
      | refused none last => exact last
      | fitting start positive least => exact absurd ⟨start, least.1⟩ fits
      | trailing start none tail =>
        exact absurd (congrArg Prod.fst same).symm (space.nonnull tail.1)
  · intro condition
    cases condition with
    | inl fits => exact BlocksServed.of_fits positive fits
    | inr last => exact BlocksServed.of_last positive last

theorem twoBlockHeap_space : InSpace twoBlockHeap := ⟨by decide, by decide⟩

theorem twoBlockHeap_fits : FitsAt twoBlockHeap 2 0 := by
  refine ⟨by decide, fun block _ high => ?_⟩
  have : block = 0 ∨ block = 1 := by omega
  cases this with
  | inl first => exact first ▸ by decide
  | inr second => exact second ▸ by decide

theorem heapMallocBlocks_served_two : BlocksServed twoBlockHeap 2 :=
  (heapMallocBlocks_served_iff twoBlockHeap 2 twoBlockHeap_space (by decide)).mpr
    (Or.inl ⟨0, twoBlockHeap_fits⟩)

def secondBlockHeap : Heap := (heapMalloc twoBlockHeap 1).2

/-- Two blocks are asked for where one is left: its address comes back, and the entry after
the table is written. -/
theorem heapMallocBlocks_overruns :
    (∀ start, ¬FitsAt secondBlockHeap 2 start) ∧
      (heapMallocBlocks secondBlockHeap 2).1 = 0x01001000 ∧
      (heapMallocBlocks secondBlockHeap 2).2.table.entries 2 ≠ secondBlockHeap.table.entries 2 ∧
      ¬BlocksServed secondBlockHeap 2 := by
  have none : ∀ start, ¬FitsAt secondBlockHeap 2 start := by
    intro start fits
    have bound : start + 2 ≤ 2 := fits.1
    have first : EntryFree secondBlockHeap.table.entries 0 := fits.2 0 (by omega) (by omega)
    exact absurd first (by decide)
  have address : (heapMallocBlocks secondBlockHeap 2).1 = 0x01001000 := by decide
  refine ⟨none, address, by decide, fun served => ?_⟩
  have refused := served.refused none
  rw [refused] at address
  exact absurd address (by decide)

/-- `after` comes from `before` by marking, from the address `ptr` on, a chain of free blocks of
the table that holds `size` bytes. -/
structure Granted (before after : Heap) (size : Word) (ptr : Addr) (start length : Nat) : Prop where
  address : ptr = heapBlockToAddress before start
  positive : 0 < length
  covers : size.toNat ≤ length * heapBlockSize
  free : FitsAt before length start
  marked : ∀ i : Int, after.table.entries i =
    if start ≤ i ∧ i < start + length then chainEntry length (i - start).toNat
    else before.table.entries i

/-- The bytes of a chain of `length` blocks at `ptr`. -/
def ChainBytes (ptr : Addr) (length : Nat) (address : Addr) : Prop :=
  ∃ offset < length * heapBlockSize, address = ptr + BitVec.ofNat 32 offset

/-- An address that `heap_malloc` returns is that of a chain it marked, and `kzalloc` clears
only bytes of this chain. -/
def GrantsChain (heap : Heap) (size : Word) : Prop :=
  (heapMalloc heap size).1 ≠ 0 → ∃ start length,
    Granted heap (heapMalloc heap size).2 size (heapMalloc heap size).1 start length ∧
    ∀ bytes address, (kzalloc size ⟨heap, bytes⟩).2.bytes address ≠ bytes address →
      ChainBytes (heapMalloc heap size).1 length address

/-- The request is served with a free run, or the scan cannot end in the free end of the table. -/
def Answered (heap : Heap) (size : Word) : Prop :=
  (Roundable size ∧ ∃ start, FitsAt heap (blocksFor size) start) ∨ LastTaken heap

section Sizes
variable {heap : Heap} {size : Word}

theorem blocksFor_covers (size : Word) : size.toNat ≤ blocksFor size * heapBlockSize := by
  unfold blocksFor heapBlockSize
  omega

theorem kzalloc_clears {bytes : Bytes} {address : Addr}
    (changed : (kzalloc size ⟨heap, bytes⟩).2.bytes address ≠ bytes address) :
    (address - (heapMalloc heap size).1).toNat < size.toNat := by
  by_contra outside
  apply changed
  unfold kzalloc kmalloc
  dsimp only
  split
  next null => rfl
  next nonnull =>
    unfold fill
    exact if_neg outside

theorem GrantsChain.of_fits (roundable : Roundable size)
    (fits : ∃ start, FitsAt heap (blocksFor size) start) : GrantsChain heap size := by
  intro _
  obtain ⟨start, least, result⟩ := heapMalloc_fits heap size roundable fits
  refine ⟨start, blocksFor size, ⟨by rw [result], blocksFor_pos roundable, blocksFor_covers size,
    least.1, ?_⟩, ?_⟩
  · rw [result]
    exact heapMarkBlocksTaken_entry heap start (blocksFor size)
  · intro bytes address changed
    have inside := kzalloc_clears changed
    have covers := blocksFor_covers size
    refine ⟨(address - (heapMalloc heap size).1).toNat, by omega, ?_⟩
    rw [BitVec.ofNat_toNat, BitVec.setWidth_eq, BitVec.add_comm, BitVec.sub_add_cancel]

theorem GrantsChain.of_last (last : LastTaken heap) : GrantsChain heap size := by
  by_cases served : Roundable size ∧ ∃ start, FitsAt heap (blocksFor size) start
  · exact GrantsChain.of_fits served.1 served.2
  · intro nonnull
    rw [heapMalloc_refuses served last] at nonnull
    exact absurd rfl nonnull

theorem GrantsChain.of_answered (answered : Answered heap size) : GrantsChain heap size := by
  cases answered with
  | inl served => exact GrantsChain.of_fits served.1 served.2
  | inr last => exact GrantsChain.of_last last

theorem Granted.taken {after : Heap} {ptr : Addr} {start length : Nat}
    (granted : Granted heap after size ptr start length) : ¬EntryFree after.table.entries start := by
  have positive := granted.positive
  unfold EntryFree
  rw [granted.marked, if_pos (by omega), chainEntry_taken]
  decide

/-- The free end of the table is no chain for a request that fits nowhere, and a size that is
rounded to no block marks none. -/
theorem GrantsChain.answered (space : InSpace heap) (grants : GrantsChain heap size) :
    Answered heap size := by
  unfold Answered
  by_contra unanswered
  have unserved := fun served => unanswered (Or.inl served)
  obtain ⟨count, same, served⟩ := heapMalloc_blocks heap size
  unfold GrantsChain at grants
  rw [same] at grants
  have outcome := heapMallocBlocks_outcome heap count
  generalize heapMallocBlocks heap count = result at outcome grants
  cases outcome with
  | refused none last => exact unanswered (Or.inr last)
  | fitting start positive least =>
    obtain ⟨roundable, blocks⟩ := served positive
    exact unserved ⟨roundable, start, blocks ▸ least.1⟩
  | trailing start none tail =>
    obtain ⟨first, length, granted, _⟩ := grants (space.nonnull tail.1)
    have positive := granted.positive
    have within := granted.free.1
    have here : start = first :=
      space.block_inj tail.1 (by omega) granted.address
    by_cases roundable : Roundable size
    · have covers := granted.covers
      have shorter : blocksFor size ≤ length := by
        unfold blocksFor heapBlockSize at *
        omega
      exact unserved ⟨roundable, first, by omega,
        fun block low high => granted.free.2 block low (by omega)⟩
    · have zero : count.toNat = 0 := by
        by_contra some
        exact roundable (served (by omega)).1
      have taken := granted.taken
      unfold EntryFree at taken
      rw [heapMarkBlocksTaken_entry, intCount_eq count (by omega), zero, if_neg (by omega)] at taken
      exact taken (granted.free.2 first le_rfl (by omega))

end Sizes

/-- One `heap_malloc`, with the addresses returned so far. -/
inductive MallocStep : Heap × List Addr → Heap × List Addr → Prop where
  | refused {heap : Heap} {ptrs : List Addr} (size : Word) (answered : Answered heap size)
      (null : (heapMalloc heap size).1 = 0) :
      MallocStep (heap, ptrs) ((heapMalloc heap size).2, ptrs)
  | returned {heap : Heap} {ptrs : List Addr} (size : Word) (answered : Answered heap size)
      (nonnull : (heapMalloc heap size).1 ≠ 0) :
      MallocStep (heap, ptrs) ((heapMalloc heap size).2, (heapMalloc heap size).1 :: ptrs)

/-- The addresses returned so far are those of different taken blocks. -/
structure Returned (heap : Heap) (ptrs : List Addr) : Prop where
  space : InSpace heap
  taken : ∀ ptr ∈ ptrs, ∃ block : Nat, ptr = heapBlockToAddress heap block ∧
    block < heap.table.total ∧ ¬EntryFree heap.table.entries block
  distinct : ptrs.Nodup

section Calls
variable {heap : Heap} {size : Word} {ptrs : List Addr}

theorem heapMalloc_taken {block : Nat} (bound : block < heap.table.total)
    (taken : ¬EntryFree heap.table.entries block) :
    ¬EntryFree (heapMalloc heap size).2.table.entries block := by
  cases heapMalloc_marks heap size with
  | inl refused =>
    rw [refused]
    exact taken
  | inr marked =>
    obtain ⟨start, _, marks⟩ := marked
    have apart := marks.apart bound taken
    unfold EntryFree
    rw [marks.outside (by omega)]
    exact taken

theorem Returned.kept (returned : Returned heap ptrs) :
    Returned (heapMalloc heap size).2 ptrs where
  space :=
    { saddr := by rw [heapMalloc_saddr]; exact returned.space.saddr
      top := by rw [heapMalloc_saddr, heapMalloc_total]; exact returned.space.top }
  taken := by
    intro ptr member
    obtain ⟨block, address, bound, taken⟩ := returned.taken ptr member
    refine ⟨block, ?_, ?_, heapMalloc_taken bound taken⟩
    · rw [address, heapBlockToAddress_congr (heapMalloc_saddr heap size)]
    · rw [heapMalloc_total]
      exact bound
  distinct := returned.distinct

theorem Returned.returned (returned : Returned heap ptrs) (answered : Answered heap size)
    (nonnull : (heapMalloc heap size).1 ≠ 0) :
    Returned (heapMalloc heap size).2 ((heapMalloc heap size).1 :: ptrs) := by
  have kept : Returned (heapMalloc heap size).2 ptrs := returned.kept
  obtain ⟨start, length, granted, _⟩ := GrantsChain.of_answered answered nonnull
  have within := granted.free.1
  have positive := granted.positive
  refine ⟨kept.space, ?_, List.nodup_cons.mpr ⟨?_, returned.distinct⟩⟩
  · intro ptr member
    cases List.mem_cons.mp member with
    | inl fresh =>
      refine ⟨start, ?_, ?_, granted.taken⟩
      · rw [fresh, granted.address, heapBlockToAddress_congr (heapMalloc_saddr heap size)]
      · rw [heapMalloc_total]
        omega
    | inr old => exact kept.taken ptr old
  · intro member
    obtain ⟨block, address, bound, taken⟩ := returned.taken _ member
    have same := returned.space.block_inj bound (by omega) (address.symm.trans granted.address)
    exact taken (granted.free.2 block (by omega) (by omega))

theorem MallocStep.returned_of {before after : Heap × List Addr} (step : MallocStep before after)
    (returned : Returned before.1 before.2) : Returned after.1 after.2 := by
  cases step with
  | refused size answered null => exact returned.kept
  | returned size answered nonnull => exact returned.returned answered nonnull

end Calls

/-- In every run of `heap_malloc` calls that are all answered the addresses returned are
different, and in every state such a run reaches a call grants a chain if and only if it is
answered. -/
theorem heapMalloc_grants {heap after : Heap} {ptrs : List Addr} (space : InSpace heap)
    (run : Run MallocStep (heap, []) (after, ptrs)) :
    ptrs.Nodup ∧ ∀ size, GrantsChain after size ↔ Answered after size := by
  have start : Returned heap [] := ⟨space, by simp, List.nodup_nil⟩
  have reached : Returned after ptrs := run.invariant (fun state => Returned state.1 state.2)
    (fun _ _ held step => step.returned_of held) start
  exact ⟨reached.distinct, fun size => ⟨fun grants => grants.answered reached.space,
    GrantsChain.of_answered⟩⟩

theorem heapMalloc_grants_block : (heapMalloc bootMemory.heap 100).1 = 0x1000000 ∧
    GrantsChain (heapMalloc bootMemory.heap 100).2 4096 := by
  have first := heapMalloc_first bootMemory_kernel.1 (fun _ => bootMemory_free) 100 (by decide)
    (by decide)
  have room : FitsAt bootMemory.heap 1 0 :=
    ⟨by rw [bootMemory_kernel.1.blocks]; decide, fun block _ high => bootMemory_free (by omega)⟩
  have step : MallocStep (bootMemory.heap, []) ((heapMalloc bootMemory.heap 100).2,
      [(heapMalloc bootMemory.heap 100).1]) :=
    .returned 100 (Or.inl ⟨by decide, 0, room⟩) (by rw [first]; decide)
  have next : FitsAt (heapMalloc bootMemory.heap 100).2 1 1 := by
    rw [first]
    refine ⟨by rw [heapMarkBlocksTaken_total, bootMemory_kernel.1.blocks]; decide, ?_⟩
    intro block low high
    unfold EntryFree
    rw [heapMarkBlocksTaken_entry, if_neg (by omega)]
    exact bootMemory_free (by omega)
  exact ⟨by rw [first], ((heapMalloc_grants bootMemory_kernel.1.space (.single step)).2 4096).mpr
    (Or.inl ⟨by decide, 1, next⟩)⟩

/-- Two calls of `malloc(0)` on the free heap return one address, and no block is marked. -/
theorem heapMalloc_repeats : (heapMalloc bootMemory.heap 0).1 = 0x1000000 ∧
    (heapMalloc (heapMalloc bootMemory.heap 0).2 0).1 = 0x1000000 ∧
    ¬GrantsChain bootMemory.heap 0 := by
  have first := heapMalloc_zero bootMemory_kernel.1 (fun _ => bootMemory_free)
  have unmarked : ∀ i : Int, (heapMarkBlocksTaken bootMemory.heap 0 0).table.entries i =
      bootMemory.heap.table.entries i := by
    intro i
    rw [heapMarkBlocksTaken_entry, if_neg (by omega)]
  have second := heapMalloc_zero
    (bootMemory_kernel.1.congr (heapMarkBlocksTaken_saddr _ 0 0) (heapMarkBlocksTaken_total _ 0 0))
    (fun block bound => by
      unfold EntryFree
      rw [unmarked]
      exact bootMemory_free bound)
  refine ⟨by rw [first], by rw [first, second], fun grants => ?_⟩
  obtain ⟨start, length, granted, _⟩ := grants (by rw [first]; decide)
  have within := granted.free.1
  have positive := granted.positive
  have taken := granted.taken
  unfold EntryFree at taken
  rw [first, unmarked] at taken
  exact taken (granted.free.2 start le_rfl (by omega))

end PeachOS
