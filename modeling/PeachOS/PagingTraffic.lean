import PeachOS.HeapSound
import PeachOS.PagingFlat
import PeachOS.PagingRelease

/-! An address space between `paging_new_4gb` and `paging_free_4gb`, while its own pages
are mapped and the other owners of the heap allocate, write and free. -/

namespace PeachOS
open ByteMemory BlockPool Transition

/-- The pointers that `paging_free_4gb` gives to `kfree`, in order. -/
def pagingFrees (chunk : Addr) (bytes : Bytes) : List Addr :=
  (List.range 1024).map (fun i => frameOf (load32 bytes (slot (directoryEntry bytes chunk) i))) ++
    [directoryEntry bytes chunk, chunk]

def kfreeAll (ptrs : List Addr) (memory : Memory) : Memory :=
  ptrs.foldl (fun memory ptr => kfree ptr memory) memory

theorem kfreeAll_append (first second : List Addr) (memory : Memory) :
    kfreeAll (first ++ second) memory = kfreeAll second (kfreeAll first memory) :=
  List.foldl_append

theorem kfreeAll_bytes (ptrs : List Addr) (memory : Memory) :
    (kfreeAll ptrs memory).bytes = memory.bytes := by
  induction ptrs generalizing memory with
  | nil => rfl
  | cons ptr ptrs ih => exact ih (kfree ptr memory)

theorem pagingFreeTables_frees (chunk : Addr) (remaining i : Nat) (memory : Memory) :
    pagingFreeTables chunk remaining i memory = kfreeAll ((List.range' i remaining).map (fun k =>
      frameOf (load32 memory.bytes (slot (directoryEntry memory.bytes chunk) k)))) memory := by
  induction remaining generalizing i memory with
  | zero => rfl
  | succ remaining ih =>
    rw [pagingFreeTables, ih]
    rfl

theorem pagingFree4gb_frees (chunk : Addr) (memory : Memory) :
    pagingFree4gb chunk memory = kfreeAll (pagingFrees chunk memory.bytes) memory := by
  have tables := pagingFreeTables_frees chunk 1024 0 memory
  rw [← List.range_eq_range'] at tables
  rw [pagingFrees, kfreeAll_append, ← tables]
  show kfree chunk (kfree (directoryEntry (pagingFreeTables chunk 1024 0 memory).bytes chunk) _) = _
  rw [tables, kfreeAll_bytes]
  rfl

/-- The blocks of a space in the order in which they are freed. -/
def spaceList (chunk directory : Nat) (tables : Nat → Nat) : List Nat :=
  (List.range 1024).map tables ++ [directory, chunk]

theorem mem_spaceList {chunk directory block : Nat} {tables : Nat → Nat} :
    block ∈ spaceList chunk directory tables ↔ block ∈ insert chunk (builtBlocks directory tables 1024) := by
  simp only [spaceList, builtBlocks, List.mem_append, List.mem_map, List.mem_range, List.mem_cons,
    List.not_mem_nil, or_false, Set.mem_insert_iff, Set.mem_ofPred_eq]
  constructor
  · rintro (⟨k, bound, same⟩ | same | same)
    · exact Or.inr (Or.inr ⟨k, bound, same.symm⟩)
    · exact Or.inr (Or.inl same)
    · exact Or.inl same
  · rintro (same | same | ⟨k, bound, same⟩)
    · exact Or.inr (Or.inr same)
    · exact Or.inr (Or.inl same)
    · exact Or.inl ⟨k, bound, same.symm⟩

theorem spaceList_length (chunk directory : Nat) (tables : Nat → Nat) :
    (spaceList chunk directory tables).length = 1026 := by
  rw [spaceList, List.length_append, List.length_map, List.length_range]
  rfl

theorem NewPaging.nodup {before after : Memory} {flags : Word} {chunk directory : Nat} {tables : Nat → Nat}
    (new : NewPaging before after flags chunk directory tables) :
    (spaceList chunk directory tables).Nodup := by
  have chunkDirectory : directory ≠ chunk := fun same =>
    new.notChunk (same ▸ mem_builtBlocks_directory directory tables 1024)
  apply List.Nodup.append
  · refine List.Nodup.map_on ?_ List.nodup_range
    intro j jIn k kIn same
    exact new.distinct j (List.mem_range.mp jIn) k (List.mem_range.mp kIn) same
  · exact List.nodup_cons.mpr ⟨fun same => chunkDirectory (List.mem_singleton.mp same), List.nodup_singleton chunk⟩
  · intro block inTables inOthers
    obtain ⟨k, inRange, rfl⟩ := List.mem_map.mp inTables
    have bound := List.mem_range.mp inRange
    rcases List.mem_cons.mp inOthers with same | same
    · exact new.notDirectory k bound same
    · exact new.notChunk (List.mem_singleton.mp same ▸ mem_builtBlocks_table tables bound)

/-- An address outside the heap, or in a chain at one of the pointers of `others`. -/
def OthersWrite (heap : Heap) (others : Set Addr) (address : Addr) : Prop :=
  ∀ block < heap.table.total, frameOf address = heapBlockToAddress heap block →
    ∃ ptr ∈ others, FreeReaches heap.table.entries heap.table.total (heapAddressToBlock heap ptr) block

/-- One mapping call on the space at `chunk`, or one step of another owner, with the pointers
that the other owners were given: a request of any size that is served, the release of one of
their pointers, or bytes written to their own memory. -/
inductive TrafficStep (chunk : Addr) : Memory × Set Addr → Memory × Set Addr → Prop where
  | map {memory : Memory} {others : Set Addr} (call : PagingCall) :
      TrafficStep chunk (memory, others) ({ memory with bytes := (call.run chunk memory.bytes).2 }, others)
  | malloc {memory : Memory} {others : Set Addr} (size : Word) (served : (kmalloc size memory).1 ≠ 0) :
      TrafficStep chunk (memory, others) ((kmalloc size memory).2, insert (kmalloc size memory).1 others)
  | free {memory : Memory} {others : Set Addr} (ptr : Addr) (own : ptr ∈ others) :
      TrafficStep chunk (memory, others) (kfree ptr memory, others)
  | write {memory : Memory} {others : Set Addr} (bytes : Bytes)
      (own : ∀ address, bytes address ≠ memory.bytes address → OthersWrite memory.heap others address) :
      TrafficStep chunk (memory, others) ({ memory with bytes := bytes }, others)

/-- The space of these blocks among the pointers of the other owners: its tables are in place,
no chain goes on into one of its blocks, and no other owner has a pointer to one. -/
structure SpaceAmong (state : Memory × Set Addr) (chunk directory : Nat) (tables : Nat → Nat) : Prop where
  kernel : KernelHeap state.1.heap
  held : ∀ block ∈ spaceList chunk directory tables, Held state.1.heap block
  single : ∀ block ∈ spaceList chunk directory tables, Single state.1.heap block
  given : ∀ ptr ∈ state.2, ∃ first : Nat, first < state.1.heap.table.total ∧
    ptr = heapBlockToAddress state.1.heap first ∧ first ∉ spaceList chunk directory tables
  paged : PageTables state.1.bytes (heapBlockToAddress state.1.heap chunk)
    (heapBlockToAddress state.1.heap directory) (fun k => heapBlockToAddress state.1.heap (tables k))

section Among
variable {memory : Memory} {others : Set Addr} {chunk directory : Nat} {tables : Nat → Nat}

theorem mem_spaceList_chunk : chunk ∈ spaceList chunk directory tables :=
  mem_spaceList.mpr (Set.mem_insert _ _)

theorem mem_spaceList_directory : directory ∈ spaceList chunk directory tables :=
  mem_spaceList.mpr (Set.mem_insert_of_mem _ (mem_builtBlocks_directory directory tables 1024))

theorem SpaceAmong.missed (among : SpaceAmong (memory, others) chunk directory tables) {ptr : Addr}
    (member : ptr ∈ others) {block : Nat} (own : block ∈ spaceList chunk directory tables) :
    ¬FreeReaches memory.heap.table.entries memory.heap.table.total (heapAddressToBlock memory.heap ptr) block := by
  obtain ⟨first, bound, rfl, outside⟩ := among.given ptr member
  have small := among.kernel.pool.small
  intro reaches
  simp only at bound small
  rw [heapAddressToBlock_block memory.heap first (by omega)] at reaches
  have start := (among.held block own).clean.start_of_reached reaches (by omega)
  exact outside ((by exact_mod_cast start : first = block) ▸ own)

theorem SpaceAmong.congr (among : SpaceAmong (memory, others) chunk directory tables) {after : Memory × Set Addr}
    (saddr : after.1.heap.saddr = memory.heap.saddr) (total : after.1.heap.table.total = memory.heap.table.total)
    (held : ∀ block ∈ spaceList chunk directory tables, Held memory.heap block → Held after.1.heap block)
    (entries : ∀ block ∈ spaceList chunk directory tables,
      after.1.heap.table.entries (block : Nat) = memory.heap.table.entries (block : Nat))
    (given : ∀ ptr ∈ after.2, ptr ∈ others ∨ ∃ first : Nat, first < memory.heap.table.total ∧
      ptr = heapBlockToAddress memory.heap first ∧ first ∉ spaceList chunk directory tables)
    (paged : PageTables after.1.bytes (heapBlockToAddress memory.heap chunk)
      (heapBlockToAddress memory.heap directory) (fun k => heapBlockToAddress memory.heap (tables k))) :
    SpaceAmong after chunk directory tables where
  kernel := among.kernel.congr saddr total
  held := fun block own => held block own (among.held block own)
  single := by
    intro block own
    obtain ⟨bound, entry⟩ := among.single block own
    exact ⟨by rw [total]; exact bound, by rw [entries block own]; exact entry⟩
  given := by
    intro ptr member
    rw [total]
    simp only [heapBlockToAddress_congr saddr]
    exact (given ptr member).elim (among.given ptr) id
  paged := by
    simp only [heapBlockToAddress_congr saddr]
    exact paged

/-- Every step leaves the space alone. -/
theorem SpaceAmong.step {after : Memory × Set Addr} (among : SpaceAmong (memory, others) chunk directory tables)
    (step : TrafficStep (heapBlockToAddress memory.heap chunk) (memory, others) after) :
    SpaceAmong after chunk directory tables := by
  cases step with
  | map call =>
    have flat : FlatMap memory.bytes _ _ _ _ := ⟨among.paged, fun page _ => rfl⟩
    refine among.congr rfl rfl (fun _ _ => id) (fun _ _ => rfl) (fun _ => Or.inl) ?_
    by_cases rejected : (call.run (heapBlockToAddress memory.heap chunk) memory.bytes).1 < 0
    · simp only [(flat.call call).1 rejected]
      exact among.paged
    · exact ((flat.call call).2 (not_lt.mp rejected)).paged
  | malloc size served =>
    rcases heapMalloc_marks memory.heap size with refused | ⟨start, address, marks⟩
    · exact absurd (congrArg Prod.fst refused) served
    · -- the new chain lies in free blocks, the space does not
      have apart := fun block own => marks.apart (among.held block own).clean.bound (among.held block own).taken
      refine among.congr marks.saddr marks.total (fun _ _ => marks.held) ?_ ?_ among.paged
      · intro block own
        have := apart block own
        exact marks.outside (by omega)
      · rintro ptr (rfl | member)
        · exact Or.inr ⟨start, marks.bound, address, fun own => (among.held start own).taken marks.startFree⟩
        · exact Or.inl member
  | free ptr own =>
    have missed := fun block (inSpace : block ∈ spaceList chunk directory tables) => among.missed own inSpace
    obtain ⟨first, bound, rfl, outside⟩ := among.given ptr own
    have small := among.kernel.pool.small
    have start : heapAddressToBlock memory.heap (heapBlockToAddress memory.heap first) = first :=
      heapAddressToBlock_block memory.heap first (by simp only at bound small; omega)
    have frees := heapFree_frees start
    rw [start] at missed
    refine among.congr rfl rfl ?_ ?_ (fun _ => Or.inl) among.paged
    · intro block inSpace held
      exact frees.held held (fun same => outside (same ▸ inSpace))
    · exact fun block inSpace => frees.missed block (missed block inSpace)
  | write bytes own =>
    have kept : ∀ block ∈ spaceList chunk directory tables, ∀ address,
        frameOf address = heapBlockToAddress memory.heap block → bytes address = memory.bytes address := by
      intro block inSpace address inPage
      by_contra written
      obtain ⟨ptr, member, reaches⟩ := own address written block (among.held block inSpace).clean.bound inPage
      exact among.missed member inSpace reaches
    exact among.congr rfl rfl (fun _ _ => id) (fun _ _ => rfl) (fun _ => Or.inl)
      (among.paged.congr (kept chunk mem_spaceList_chunk) (kept directory mem_spaceList_directory))

theorem SpaceAmong.space (among : SpaceAmong (memory, others) chunk directory tables)
    {before created : Memory} {flags : Word} (new : NewPaging before created flags chunk directory tables) :
    SpaceBlocks memory (heapBlockToAddress memory.heap chunk) (insert chunk (builtBlocks directory tables 1024)) where
  layout := ⟨chunk, directory, tables, rfl, rfl, among.paged, new.distinct, new.notDirectory, new.notChunk⟩
  single := fun block member => among.single block (mem_spaceList.mpr member)

theorem SpaceAmong.frees (among : SpaceAmong (memory, others) chunk directory tables) :
    pagingFrees (heapBlockToAddress memory.heap chunk) memory.bytes =
      (spaceList chunk directory tables).map (fun block : Nat => heapBlockToAddress memory.heap block) := by
  have words : (List.range 1024).map (fun k => frameOf (load32 memory.bytes
      (slot (heapBlockToAddress memory.heap directory) k))) =
      (List.range 1024).map (fun k => heapBlockToAddress memory.heap (tables k)) :=
    List.map_congr_left (fun k inRange => among.paged.directoryWords k (List.mem_range.mp inRange))
  unfold pagingFrees spaceList
  rw [among.paged.chunkWord, words, List.map_append, List.map_map]
  rfl

end Among

theorem ExactTable.clean_of_free {heap : Heap} {live : Set Allocation} (exact : ExactTable heap live) {block : Nat}
    (bound : block < heap.table.total) (free : EntryFree heap.table.entries block) : Clean heap block where
  bound := bound
  first := by
    rintro previous rfl linked
    have table := exact.represents
    by_cases held : ∃ run ∈ chainOf heap '' live, run.Holds previous
    · obtain ⟨run, member, inside⟩ := held
      have low := inside.1
      rw [table.marked_at member inside, chainEntry_hasNext] at linked
      exact (table.free_iff bound).mp free run member ⟨by omega, by omega⟩
    · rw [table.rest previous (by omega) (fun run member inside => held ⟨run, member, inside⟩)] at linked
      exact absurd linked (by decide)

theorem NewPaging.among {before created : Memory} {flags : Word} {chunk directory : Nat} {tables : Nat → Nat}
    {live : Set Allocation} (new : NewPaging before created flags chunk directory tables)
    (kernel : KernelHeap before.heap) (exact : ExactTable before.heap live) :
    SpaceAmong (created, Allocation.ptr '' live) chunk directory tables where
  kernel := new.takes.kernel kernel
  held := by
    intro block own
    have taken := mem_spaceList.mp own
    obtain ⟨bound, free⟩ := new.takes.free block taken
    refine ⟨⟨by rw [new.takes.total]; exact bound, fun previous next linked => ?_⟩, new.takes.not_free taken⟩
    by_cases fresh : previous ∈ insert chunk (builtBlocks directory tables 1024)
    · rw [new.takes.taken previous fresh] at linked
      exact absurd linked (by decide)
    · rw [new.takes.kept previous (fun other member same => fresh ((by exact_mod_cast same : previous = other) ▸ member))]
        at linked
      exact (exact.clean_of_free bound free).first previous next linked
  single := fun block own => new.space.single block (mem_spaceList.mp own)
  given := by
    rintro _ ⟨allocation, member, rfl⟩
    have within := exact.within allocation member
    have positive := within.1
    refine ⟨(chainOf before.heap allocation).first, ?_, ?_, fun own => ?_⟩
    · rw [new.takes.total]
      have := within.2
      omega
    · rw [new.takes.address]
      exact exact.starts allocation member
    · have free := (new.takes.free _ (mem_spaceList.mp own)).2
      have := within.2
      exact (exact.represents.free_iff (by omega)).mp free _ ⟨allocation, member, rfl⟩ ⟨le_rfl, by omega⟩
  paged := by
    rw [new.takes.address]
    exact new.paged

/-- Whatever is mapped in the space and whatever the other owners of the heap do in between,
`paging_free_4gb` frees the 1026 blocks that `paging_new_4gb` took, each once, and no entry that
another owner's pointer leads to. -/
theorem paging_traffic_freed {before : Memory} {live : Set Allocation} (flags : BitVec 8)
    (kernel : KernelHeap before.heap) (exact : ExactTable before.heap live)
    (room : 1026 ≤ (freeBlocks before.heap).card) :
    ∃ (chunk : Addr) (created : Memory) (blocks : List Nat),
      pagingNew4gb flags before = some (chunk, created) ∧ blocks.length = 1026 ∧ blocks.Nodup ∧
      Takes before created {block | block ∈ blocks} ∧
      ∀ memory others, Run (TrafficStep chunk) (created, Allocation.ptr '' live) (memory, others) →
        pagingFree4gb chunk memory = kfreeAll (pagingFrees chunk memory.bytes) memory ∧
        pagingFrees chunk memory.bytes = blocks.map (fun block : Nat => heapBlockToAddress before.heap block) ∧
        Releases memory (pagingFree4gb chunk memory) {block | block ∈ blocks} ∧
        ∀ ptr ∈ others, ∀ block ∈ blocks, ¬FreeReaches memory.heap.table.entries memory.heap.table.total
          (heapAddressToBlock memory.heap ptr) block := by
  obtain ⟨chunkPtr, created, built, _⟩ := pagingNew4gb_succeeds flags kernel room
  obtain ⟨chunk, directory, tables, rfl, new⟩ := pagingNew4gb_new kernel.pool built
  have same : {block | block ∈ spaceList chunk directory tables} = insert chunk (builtBlocks directory tables 1024) := by
    ext block
    rw [Set.mem_ofPred_eq, mem_spaceList]
  refine ⟨_, created, spaceList chunk directory tables, built, spaceList_length _ _ _, new.nodup, same ▸ new.takes, ?_⟩
  intro memory others run
  have address : ∀ state : Memory × Set Addr, state.1.heap.saddr = before.heap.saddr →
      heapBlockToAddress state.1.heap = heapBlockToAddress before.heap :=
    fun state saddr => funext (heapBlockToAddress_congr saddr)
  obtain ⟨saddr, among⟩ := run.invariant
    (fun state => state.1.heap.saddr = before.heap.saddr ∧ SpaceAmong state chunk directory tables)
    (fun earlier later held step => by
      have stepped := held.2.step (by rw [address earlier held.1]; exact step)
      exact ⟨stepped.kernel.saddr.trans kernel.saddr.symm, stepped⟩)
    ⟨new.takes.saddr, new.among kernel exact⟩
  have here := address (memory, others) saddr
  simp only at here
  refine ⟨pagingFree4gb_frees _ memory, ?_, ?_, fun ptr member block own => among.missed member own⟩
  · rw [← here]
    exact among.frees
  · rw [same, ← here]
    exact (among.space new).free among.kernel.pool

/-- One page is mapped in between. -/
theorem paging_traffic_freed_boot : ∃ (chunk : Addr) (created : Memory) (blocks : List Nat),
    pagingNew4gb 0x05 bootMemory = some (chunk, created) ∧ blocks.length = 1026 ∧
      pagingFrees chunk (pagingMap created.bytes chunk 0x400000 0x1000000 0x07).2 =
        blocks.map (fun block : Nat => heapBlockToAddress bootMemory.heap block) := by
  have boot := bootMemory_kernel
  obtain ⟨chunk, created, blocks, built, length, _, _, runs⟩ :=
    paging_traffic_freed 0x05 boot.1 bootMemory_exact (by omega)
  have mapped := runs _ _ (.single (.map (.map 0x400000 0x1000000 0x07)))
  exact ⟨chunk, created, blocks, built, length, mapped.2.1⟩

end PeachOS
