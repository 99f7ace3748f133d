import PeachOS.PagingTables

/-! What `paging_free_4gb` gives back: the blocks that `paging_new_4gb` took, and
nothing else. -/

namespace PeachOS
open ByteMemory BlockPool

/-- A chain of one block. -/
def Single (heap : Heap) (block : Nat) : Prop :=
  block < heap.table.total ∧ heap.table.entries block = chainEntry 1 0

theorem Single.not_free {heap : Heap} {block : Nat} (single : Single heap block) :
    ¬EntryFree heap.table.entries block := by
  unfold EntryFree
  rw [single.2]
  decide

/-- `after` comes from `before` by clearing the entries of `blocks`. -/
structure Releases (before after : Memory) (blocks : Set Nat) : Prop where
  saddr : after.heap.saddr = before.heap.saddr
  total : after.heap.table.total = before.heap.table.total
  bytes : after.bytes = before.bytes
  freed : ∀ block ∈ blocks, after.heap.table.entries (block : Nat) = heapBlockTableEntryFree
  kept : ∀ i : Int, (∀ block ∈ blocks, i ≠ (block : Nat)) →
    after.heap.table.entries i = before.heap.table.entries i

section Releases
variable {before middle after : Memory} {first second : Set Nat}

theorem Releases.refl (memory : Memory) : Releases memory memory ∅ := by
  constructor <;> simp

theorem Releases.trans (left : Releases before middle first) (right : Releases middle after second) :
    Releases before after (first ∪ second) where
  saddr := right.saddr.trans left.saddr
  total := right.total.trans left.total
  bytes := right.bytes.trans left.bytes
  freed := by
    intro block member
    by_cases later : block ∈ second
    · exact right.freed block later
    · rw [right.kept block, left.freed block (member.resolve_right later)]
      intro other otherIn same
      exact later ((by exact_mod_cast same : block = other) ▸ otherIn)
  kept := by
    intro i outside
    rw [right.kept i (fun block member => outside block (Or.inr member)),
      left.kept i (fun block member => outside block (Or.inl member))]

theorem Releases.address (releases : Releases before after first) :
    heapBlockToAddress after.heap = heapBlockToAddress before.heap := by
  funext block
  simp only [heapBlockToAddress, releases.saddr]

theorem Releases.pool (releases : Releases before after first) (pool : Pool before.heap) :
    Pool after.heap where
  aligned := by rw [releases.saddr]; exact pool.aligned
  small := by rw [releases.total]; exact pool.small

theorem Releases.single (releases : Releases before after first) {block : Nat}
    (single : Single before.heap block) (outside : block ∉ first) : Single after.heap block := by
  refine ⟨by rw [releases.total]; exact single.1, ?_⟩
  rw [releases.kept block, single.2]
  intro other member same
  exact outside ((by exact_mod_cast same : block = other) ▸ member)

end Releases

theorem kfree_single {memory : Memory} (pool : Pool memory.heap) {block : Nat}
    (single : Single memory.heap block) :
    Releases memory (kfree (heapBlockToAddress memory.heap block) memory) {block} := by
  obtain ⟨bound, entry⟩ := single
  have small := pool.small
  have start : heapAddressToBlock memory.heap (heapBlockToAddress memory.heap block) = block :=
    heapAddressToBlock_block memory.heap block (by omega)
  have last : ¬HasNext (memory.heap.table.entries block) := by
    rw [entry]
    decide
  refine ⟨rfl, rfl, rfl, ?_, ?_⟩
  · intro other member
    rw [Set.mem_singleton_iff.mp member]
    unfold kfree heapFree
    rw [start]
    exact heapMarkBlocksFree_reached ⟨le_rfl, by omega, by omega⟩
  · intro i outside
    unfold kfree heapFree
    rw [start]
    apply heapMarkBlocksFree_missed
    rintro ⟨low, _, walk⟩
    have here := outside block rfl
    exact last (walk block le_rfl (by omega))

section Free
variable {memory : Memory} {chunk directory : Addr} {tables : Nat → Nat}

theorem pagingFreeTables_releases (remaining i : Nat) (count : i + remaining = 1024)
    (pool : Pool memory.heap)
    (paged : PageTables memory.bytes chunk directory
      (fun k => heapBlockToAddress memory.heap (tables k)))
    (distinct : ∀ j < 1024, ∀ k < 1024, tables j = tables k → j = k)
    (singles : ∀ k, i ≤ k → k < 1024 → Single memory.heap (tables k)) :
    Releases memory (pagingFreeTables chunk remaining i memory)
      {block | ∃ k, i ≤ k ∧ k < 1024 ∧ block = tables k} := by
  induction remaining generalizing i memory with
  | zero =>
    have none : {block | ∃ k, i ≤ k ∧ k < 1024 ∧ block = tables k} = ∅ := by
      ext block
      simp only [Set.mem_ofPred_eq, Set.mem_empty_iff_false, iff_false]
      rintro ⟨k, low, high, _⟩
      omega
    rw [none]
    exact Releases.refl memory
  | succ remaining ih =>
    have word := paged.directoryWords i (by omega)
    have released := kfree_single pool (singles i le_rfl (by omega))
    rw [pagingFreeTables, paged.chunkWord]
    simp only [word]
    have rest : Releases (kfree (heapBlockToAddress memory.heap (tables i)) memory) _ _ :=
      ih (i + 1) (by omega) (released.pool pool) paged (by
        intro k low high
        apply released.single (singles k (by omega) high)
        intro same
        have := distinct k high i (by omega) (Set.mem_singleton_iff.mp same)
        omega)
    have union : {block | ∃ k, i ≤ k ∧ k < 1024 ∧ block = tables k} =
        {tables i} ∪ {block | ∃ k, i + 1 ≤ k ∧ k < 1024 ∧ block = tables k} := by
      ext block
      simp only [Set.mem_ofPred_eq, Set.mem_union, Set.mem_singleton_iff]
      constructor
      · rintro ⟨k, low, high, same⟩
        by_cases first : k = i
        · exact Or.inl (first ▸ same)
        · exact Or.inr ⟨k, by omega, high, same⟩
      · rintro (same | ⟨k, low, high, same⟩)
        · exact ⟨i, le_rfl, by omega, same⟩
        · exact ⟨k, by omega, high, same⟩
    rw [union]
    exact released.trans rest

end Free

/-- The blocks of an address space: its chunk, its directory and its tables. -/
structure SpaceBlocks (memory : Memory) (chunkPtr : Addr) (blocks : Set Nat) : Prop where
  layout : ∃ (chunk directory : Nat) (tables : Nat → Nat),
    blocks = insert chunk (builtBlocks directory tables 1024) ∧
    chunkPtr = heapBlockToAddress memory.heap chunk ∧
    PageTables memory.bytes chunkPtr (heapBlockToAddress memory.heap directory)
      (fun k => heapBlockToAddress memory.heap (tables k)) ∧
    (∀ j < 1024, ∀ k < 1024, tables j = tables k → j = k) ∧
    (∀ k < 1024, tables k ≠ directory) ∧ chunk ∉ builtBlocks directory tables 1024
  single : ∀ block ∈ blocks, Single memory.heap block

section Space
variable {memory after : Memory} {chunkPtr : Addr} {blocks other : Set Nat}

theorem SpaceBlocks.free (space : SpaceBlocks memory chunkPtr blocks) (pool : Pool memory.heap) :
    Releases memory (pagingFree4gb chunkPtr memory) blocks := by
  obtain ⟨chunk, directory, tables, rfl, rfl, paged, distinct, notDirectory, notChunk⟩ := space.layout
  have single := space.single
  have tableIn : ∀ k < 1024, tables k ∈ insert chunk (builtBlocks directory tables 1024) :=
    fun k bound => Set.mem_insert_of_mem _ (mem_builtBlocks_table tables bound)
  have directoryIn : directory ∈ builtBlocks directory tables 1024 := mem_builtBlocks_directory _ _ _
  have first := pagingFreeTables_releases 1024 0 rfl pool paged distinct
    (fun k _ high => single _ (tableIn k high))
  generalize middleEq : pagingFreeTables (heapBlockToAddress memory.heap chunk) 1024 0 memory =
    middle at first
  have directorySingle : Single middle.heap directory := by
    apply first.single (single _ (Set.mem_insert_of_mem _ directoryIn))
    rintro ⟨k, _, high, same⟩
    exact notDirectory k high same.symm
  have second := kfree_single (first.pool pool) directorySingle
  have chunkDirectory : chunk ≠ directory := fun same => notChunk (same ▸ directoryIn)
  have chunkSingle : Single (kfree (heapBlockToAddress middle.heap directory) middle).heap chunk := by
    apply second.single
    · apply first.single (single _ (Set.mem_insert _ _))
      rintro ⟨k, _, high, same⟩
      exact notChunk (same ▸ mem_builtBlocks_table tables high)
    · exact chunkDirectory
  have third := kfree_single (second.pool (first.pool pool)) chunkSingle
  have word : directoryEntry middle.bytes (heapBlockToAddress memory.heap chunk) =
      heapBlockToAddress memory.heap directory := by
    rw [first.bytes]
    exact paged.chunkWord
  have whole : insert chunk (builtBlocks directory tables 1024) =
      {block | ∃ k, 0 ≤ k ∧ k < 1024 ∧ block = tables k} ∪ {directory} ∪ {chunk} := by
    ext block
    simp only [builtBlocks, Set.mem_insert_iff, Set.mem_ofPred_eq, Set.mem_union,
      Set.mem_singleton_iff, Nat.zero_le, true_and]
    rw [or_comm, or_comm (a := block = directory)]
  rw [whole, pagingFree4gb, middleEq, word, ← first.address]
  rw [second.address] at third
  exact (first.trans second).trans third

theorem SpaceBlocks.congr (space : SpaceBlocks memory chunkPtr blocks)
    (saddr : after.heap.saddr = memory.heap.saddr)
    (total : after.heap.table.total = memory.heap.table.total)
    (entries : ∀ block ∈ blocks, after.heap.table.entries (block : Nat) =
      memory.heap.table.entries (block : Nat))
    (pages : ∀ block ∈ blocks, ∀ address, frameOf address = heapBlockToAddress memory.heap block →
      after.bytes address = memory.bytes address) : SpaceBlocks after chunkPtr blocks := by
  obtain ⟨chunk, directory, tables, rfl, rfl, paged, distinct, notDirectory, notChunk⟩ := space.layout
  have address : heapBlockToAddress after.heap = heapBlockToAddress memory.heap := by
    funext block
    simp only [heapBlockToAddress, saddr]
  refine ⟨⟨chunk, directory, tables, rfl, by rw [address], ?_, distinct, notDirectory, notChunk⟩, ?_⟩
  · rw [address]
    exact paged.congr (fun target => pages chunk (Set.mem_insert _ _) target)
      (fun target => pages directory (Set.mem_insert_of_mem _ (mem_builtBlocks_directory _ _ _)) target)
  · intro block member
    obtain ⟨bound, entry⟩ := space.single block member
    exact ⟨by rw [total]; exact bound, by rw [entries block member]; exact entry⟩

theorem SpaceBlocks.takes_pages (space : SpaceBlocks memory chunkPtr blocks) (pool : Pool memory.heap)
    (takes : Takes memory after other) : ∀ block ∈ blocks, ∀ address,
      frameOf address = heapBlockToAddress memory.heap block → after.bytes address = memory.bytes address := by
  intro block member address inPage
  apply takes.frame
  intro taken takenIn same
  have free := takes.free taken takenIn
  have equal := heapBlockToAddress_inj pool (space.single block member).1 free.1 (inPage.symm.trans same)
  exact (space.single block member).not_free (equal ▸ free.2)

theorem SpaceBlocks.takes (space : SpaceBlocks memory chunkPtr blocks) (pool : Pool memory.heap)
    (takes : Takes memory after other) : SpaceBlocks after chunkPtr blocks := by
  apply space.congr takes.saddr takes.total
  · intro block member
    apply takes.kept
    intro taken takenIn same
    have equal : block = taken := by exact_mod_cast same
    exact (space.single block member).not_free (equal ▸ (takes.free taken takenIn).2)
  · exact space.takes_pages pool takes

theorem SpaceBlocks.releases (space : SpaceBlocks memory chunkPtr blocks)
    (releases : Releases memory after other) (apart : ∀ block ∈ blocks, block ∉ other) :
    SpaceBlocks after chunkPtr blocks := by
  apply space.congr releases.saddr releases.total
  · intro block member
    apply releases.kept
    intro freed freedIn same
    exact apart block member ((by exact_mod_cast same : block = freed) ▸ freedIn)
  · intro _ _ address _
    rw [releases.bytes]

end Space

theorem NewPaging.space {before after : Memory} {flags : Word} {chunk directory : Nat}
    {tables : Nat → Nat} (new : NewPaging before after flags chunk directory tables) :
    SpaceBlocks after (heapBlockToAddress before.heap chunk)
      (insert chunk (builtBlocks directory tables 1024)) where
  layout := by
    refine ⟨chunk, directory, tables, rfl, ?_, ?_, new.distinct, new.notDirectory, new.notChunk⟩
    · rw [new.takes.address]
    · rw [new.takes.address]
      exact new.paged
  single := fun block member =>
    ⟨by rw [new.takes.total]; exact (new.takes.free block member).1, new.takes.taken block member⟩

end PeachOS
