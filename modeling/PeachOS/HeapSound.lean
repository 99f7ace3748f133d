import PeachOS.HeapRoom

/-! What every call on the heap keeps, for requests of any size: a chain that goes on
goes on into a taken block, so that no release runs from one chain into another. -/

namespace PeachOS
open BlockPool

/-- The walk of `kfree(0)` starts below the table and stops before it. -/
structure Sound (heap : Heap) : Prop where
  kernel : KernelHeap heap
  guard : ¬HasNext (heap.table.entries (-2))
  linked : ∀ block : Nat, block + 1 < heap.table.total →
    HasNext (heap.table.entries (block : Nat)) →
    ¬EntryFree heap.table.entries (block + 1)

/-- A block of the table into which no chain goes on. -/
structure Clean (heap : Heap) (block : Nat) : Prop where
  bound : block < heap.table.total
  first : ∀ previous : Nat, previous + 1 = block →
    ¬HasNext (heap.table.entries (previous : Nat))

/-- The first block of a chain. -/
structure Held (heap : Heap) (block : Nat) : Prop where
  clean : Clean heap block
  taken : ¬EntryFree heap.table.entries block

theorem Sound.clean_of_free {heap : Heap} (sound : Sound heap) {block : Nat}
    (bound : block < heap.table.total) (free : EntryFree heap.table.entries block) :
    Clean heap block where
  bound := bound
  first := by
    intro previous next linked
    subst next
    exact sound.linked previous bound linked free

/-- The number of blocks that `heap_malloc` marks. -/
def mallocBlocks (size : Word) : Nat := if size.toNat ≤ 2 ^ 32 - 4096 then blocksFor size else 0

theorem mallocBlocks_covered (size : Word) {offset : Nat} (inside : offset < mallocBlocks size) :
    offset * 4096 < size.toNat := by
  unfold mallocBlocks blocksFor heapBlockSize at inside
  split at inside
  · omega
  · omega

/-- `after` comes from `before` by marking a chain of `count` blocks from `start` on,
which were free as far as they lie in the table. -/
structure Marks (before after : Heap) (start count : Nat) : Prop where
  bound : start < before.table.total
  startFree : EntryFree before.table.entries start
  free : ∀ block, start ≤ block → block < start + count → block < before.table.total →
    EntryFree before.table.entries block
  result : after = heapMarkBlocksTaken before start count

theorem heapMalloc_marks (heap : Heap) (size : Word) :
    heapMalloc heap size = (0, heap) ∨
      ∃ start : Nat, (heapMalloc heap size).1 = heapBlockToAddress heap start ∧
        Marks heap (heapMalloc heap size).2 start (mallocBlocks size) := by
  have small := blocksFor_lt size
  have count : (BitVec.ofNat 32 ((heapAlignValueToUpper size).toNat / heapBlockSize)).toNat =
      mallocBlocks size := by
    rw [heapAlignValueToUpper_blocks, BitVec.toNat_ofNat]
    unfold mallocBlocks
    split
    · omega
    · rfl
  have marked := intCount_eq _ (lt_of_eq_of_lt count (by unfold mallocBlocks; split <;> omega))
  rw [count] at marked
  unfold heapMalloc
  dsimp only
  have outcome := heapMallocBlocks_outcome heap
    (BitVec.ofNat 32 ((heapAlignValueToUpper size).toNat / heapBlockSize))
  generalize heapMallocBlocks heap _ = result at outcome
  cases outcome with
  | refused => exact Or.inl rfl
  | fitting start positive least =>
    rw [count] at least positive
    rw [marked]
    have within := least.1.1
    exact Or.inr ⟨start, rfl, by omega, least.1.2 start le_rfl (by omega),
      fun block low high _ => least.1.2 block low high, rfl⟩
  | trailing start none tail =>
    rw [marked]
    exact Or.inr ⟨start, rfl, tail.1, tail.2 start le_rfl tail.1,
      fun block low _ high => tail.2 block low high, rfl⟩

section Marks
variable {before after : Heap} {start count block : Nat}

theorem Marks.total (marks : Marks before after start count) :
    after.table.total = before.table.total := by
  rw [marks.result]
  rfl

theorem Marks.saddr (marks : Marks before after start count) : after.saddr = before.saddr := by
  rw [marks.result]
  rfl

theorem Marks.entry (marks : Marks before after start count) (i : Int) :
    after.table.entries i = if start ≤ i ∧ i < start + count then chainEntry count (i - start).toNat
      else before.table.entries i := by
  rw [marks.result]
  exact heapMarkBlocksTaken_entry before start count i

theorem Marks.outside (marks : Marks before after start count) {i : Int}
    (outside : i < start ∨ start + count ≤ i) : after.table.entries i = before.table.entries i := by
  rw [marks.entry, if_neg (by omega)]

theorem Marks.inside (marks : Marks before after start count) (low : start ≤ block)
    (high : block < start + count) :
    after.table.entries (block : Nat) = chainEntry count (block - start) := by
  rw [marks.entry, if_pos (by omega)]
  congr 1
  omega

theorem Marks.taken (marks : Marks before after start count) (low : start ≤ block)
    (high : block < start + count) : ¬EntryFree after.table.entries block := by
  unfold EntryFree
  rw [marks.inside low high, chainEntry_taken]
  decide

theorem Marks.apart (marks : Marks before after start count) (bound : block < before.table.total)
    (taken : ¬EntryFree before.table.entries block) : block < start ∨ start + count ≤ block := by
  by_contra overlap
  exact taken (marks.free block (by omega) (by omega) bound)

theorem Marks.clean (marks : Marks before after start count) (clean : Clean before block)
    (outside : block ≤ start ∨ start + count ≤ block) : Clean after block where
  bound := by
    rw [marks.total]
    exact clean.bound
  first := by
    intro previous next
    by_cases inside : start ≤ previous ∧ previous < start + count
    · rw [marks.inside inside.1 inside.2, chainEntry_hasNext]
      omega
    · rw [marks.outside (by omega)]
      exact clean.first previous next

theorem Marks.sound (marks : Marks before after start count) (sound : Sound before) :
    Sound after where
  kernel := sound.kernel.congr marks.saddr marks.total
  guard := by
    rw [marks.outside (by omega)]
    exact sound.guard
  linked := by
    intro previous bound linked
    rw [marks.total] at bound
    by_cases inside : start ≤ previous ∧ previous < start + count
    · -- within the new chain the next block is one of it
      rw [marks.inside inside.1 inside.2, chainEntry_hasNext] at linked
      exact marks.taken (by omega) (by omega)
    · rw [marks.outside (by omega)] at linked
      have taken := sound.linked previous bound linked
      have apart := marks.apart bound taken
      unfold EntryFree
      rw [marks.outside (by omega)]
      exact taken

theorem Marks.held (marks : Marks before after start count) (held : Held before block) :
    Held after block where
  clean := by
    apply marks.clean held.clean
    have := marks.apart held.clean.bound held.taken
    omega
  taken := by
    have := marks.apart held.clean.bound held.taken
    unfold EntryFree
    rw [marks.outside (by omega)]
    exact held.taken

theorem Marks.fresh (marks : Marks before after start count) (sound : Sound before)
    (positive : 0 < count) : Held after start where
  clean := marks.clean (sound.clean_of_free marks.bound marks.startFree) (Or.inl le_rfl)
  taken := marks.taken le_rfl (by omega)

end Marks

/-- `after` comes from `before` by clearing entries, of which those above the table's start
are reached over the blocks of one chain from `start` on. -/
structure Frees (before after : Heap) (start : Int) : Prop where
  total : after.table.total = before.table.total
  saddr : after.saddr = before.saddr
  reached : ∀ i, FreeReaches before.table.entries before.table.total start i →
    after.table.entries i = heapBlockTableEntryFree
  missed : ∀ i, ¬FreeReaches before.table.entries before.table.total start i →
    after.table.entries i = before.table.entries i

theorem heapMarkBlocksFree_frees (heap : Heap) (start : Int) :
    Frees heap (heapMarkBlocksFree heap start) start where
  total := rfl
  saddr := rfl
  reached := fun _ reaches => heapMarkBlocksFree_reached reaches
  missed := fun _ misses => heapMarkBlocksFree_missed misses

section Frees
variable {before after : Heap} {start : Int} {block : Nat}

theorem Frees.hasNext (frees : Frees before after start) {i : Int}
    (linked : HasNext (after.table.entries i)) :
    HasNext (before.table.entries i) ∧
      ¬FreeReaches before.table.entries before.table.total start i := by
  by_cases reaches : FreeReaches before.table.entries before.table.total start i
  · rw [frees.reached i reaches] at linked
    exact absurd linked (by decide)
  · rw [frees.missed i reaches] at linked
    exact ⟨linked, reaches⟩

theorem Frees.clean (frees : Frees before after start) (clean : Clean before block) :
    Clean after block where
  bound := by
    rw [frees.total]
    exact clean.bound
  first := fun previous next linked => clean.first previous next (frees.hasNext linked).1

/-- A walk gets into a block from the block before it, or starts there. -/
theorem Clean.start_of_reached (clean : Clean before block)
    (reaches : FreeReaches before.table.entries before.table.total start block) (low : 0 ≤ start) :
    start = block := by
  by_contra other
  have := reaches.1
  have linked := reaches.2.2 ((block - 1 : Nat) : Int) (by omega) (by omega)
  exact clean.first (block - 1) (by omega) linked

theorem Frees.sound {first : Nat} (frees : Frees before after first) (sound : Sound before)
    (clean : Clean before first) : Sound after where
  kernel := sound.kernel.congr frees.saddr frees.total
  guard := fun linked => sound.guard (frees.hasNext linked).1
  linked := by
    intro previous bound linked
    rw [frees.total] at bound
    obtain ⟨linkedBefore, misses⟩ := frees.hasNext linked
    have missed : ¬FreeReaches before.table.entries before.table.total first
        ((previous + 1 : Nat) : Int) := by
      rintro ⟨low, high, walk⟩
      by_cases here : first = previous + 1
      · exact clean.first previous here.symm linkedBefore
      · exact misses ⟨by omega, by omega, fun j lowJ highJ => walk j lowJ (by omega)⟩
    have kept := frees.missed _ missed
    unfold EntryFree
    rw [kept]
    exact sound.linked previous bound linkedBefore

theorem Frees.held {first : Nat} (frees : Frees before after first) (held : Held before block)
    (other : block ≠ first) : Held after block where
  clean := frees.clean held.clean
  taken := by
    unfold EntryFree
    rw [frees.missed]
    · exact held.taken
    · intro reaches
      have := held.clean.start_of_reached reaches (by omega)
      omega

theorem Frees.below (frees : Frees before after (-4096)) (sound : Sound before) {i : Int}
    (high : -2 < i) : after.table.entries i = before.table.entries i := by
  apply frees.missed
  rintro ⟨_, _, walk⟩
  exact sound.guard (walk (-2) (by omega) (by omega))

theorem Frees.sound_below (frees : Frees before after (-4096)) (sound : Sound before) :
    Sound after where
  kernel := sound.kernel.congr frees.saddr frees.total
  guard := fun linked => sound.guard (frees.hasNext linked).1
  linked := by
    intro previous bound linked
    rw [frees.total] at bound
    rw [frees.below sound (by omega)] at linked
    have kept : after.table.entries ((previous + 1 : Nat) : Int) = _ :=
      frees.below sound (by omega)
    unfold EntryFree
    rw [kept]
    exact sound.linked previous bound linked

theorem Frees.held_below (frees : Frees before after (-4096)) (sound : Sound before)
    (held : Held before block) : Held after block where
  clean := frees.clean held.clean
  taken := by
    unfold EntryFree
    rw [frees.below sound (by omega)]
    exact held.taken

end Frees

theorem heapFree_frees {heap : Heap} {ptr : Addr} {start : Int} (leads : heapAddressToBlock heap ptr = start) :
    Frees heap (heapFree heap ptr) start := by
  unfold heapFree
  rw [leads]
  exact heapMarkBlocksFree_frees heap start

theorem Sound.heapFree_block {heap : Heap} (sound : Sound heap) {block : Nat}
    (bound : block < heap.table.total) :
    Frees heap (heapFree heap (heapBlockToAddress heap block)) block := by
  have small := sound.kernel.pool.small
  exact heapFree_frees (heapAddressToBlock_block heap block (by omega))

theorem Sound.heapFree_null {heap : Heap} (sound : Sound heap) :
    Frees heap (heapFree heap 0) (-4096) := by
  have start : heapAddressToBlock heap 0 = -4096 := by
    unfold heapAddressToBlock
    rw [sound.kernel.saddr]
    decide
  exact heapFree_frees start

theorem bootMemory_sound : Sound bootMemory.heap where
  kernel := bootMemory_kernel.1
  guard := by decide
  linked := by
    intro block bound linked
    rw [bootMemory_exact.rest block (by omega) (by simp)] at linked
    exact absurd linked (by decide)

/-- The boot heap with its first blocks taken, each by a chain of its own. -/
def pagedHeap : Nat → Heap
  | 0 => bootMemory.heap
  | count + 1 => heapMarkBlocksTaken (pagedHeap count) count 1

def heapPage (block : Nat) : Addr :=
  heapAddress + BitVec.ofNat 32 (block * heapBlockSize)

theorem heapPage_toNat {block : Nat} (bound : block < 25600) : (heapPage block).toNat = 0x1000000 + block * 4096 := by
  have base : heapAddress.toNat = 0x1000000 := rfl
  unfold heapPage heapBlockSize
  rw [BitVec.toNat_add, BitVec.toNat_ofNat]
  omega

/-- The first blocks are taken, each by a chain of its own, and the others are free. -/
structure Paged (heap : Heap) (count : Nat) : Prop where
  sound : Sound heap
  held : ∀ block < count, Held heap block
  free : ∀ block < 25600, count ≤ block → EntryFree heap.table.entries block

theorem Paged.marks {count : Nat} (paged : Paged (pagedHeap count) count) (bound : count < 25600) :
    Marks (pagedHeap count) (pagedHeap (count + 1)) count 1 := by
  have total := paged.sound.kernel.blocks
  refine ⟨by omega, paged.free _ (by omega) le_rfl, ?_, rfl⟩
  intro block low _ below
  exact paged.free block (by omega) low

theorem pagedHeap_paged {count : Nat} (bound : count ≤ 25600) : Paged (pagedHeap count) count := by
  induction count with
  | zero =>
    exact ⟨bootMemory_sound, fun _ less => (Nat.not_lt_zero _ less).elim,
      fun _ less _ => bootMemory_free less⟩
  | succ count ih =>
    have paged := ih (by omega)
    have marks := paged.marks (by omega)
    refine ⟨marks.sound paged.sound, ?_, ?_⟩
    · intro block less
      rcases Nat.lt_succ_iff_lt_or_eq.mp less with before | rfl
      · exact marks.held (paged.held block before)
      · exact marks.fresh paged.sound Nat.one_pos
    · intro block less above
      unfold EntryFree
      rw [marks.outside (by omega)]
      exact paged.free block less (by omega)

theorem Paged.address {heap : Heap} {count : Nat} (paged : Paged heap count) (block : Nat) :
    heapPage block = heapBlockToAddress heap block := by
  unfold heapPage heapBlockToAddress
  rw [paged.sound.kernel.saddr, ← Int.natCast_mul, BitVec.ofInt_natCast]

theorem Paged.room {heap : Heap} {count : Nat} (paged : Paged heap count) (bound : count < 25600) :
    0 < (freeBlocks heap).card := by
  refine Finset.card_pos.mpr ⟨count, mem_freeBlocks.mpr ⟨?_, paged.free count bound le_rfl⟩⟩
  rw [paged.sound.kernel.blocks]
  exact bound

end PeachOS
