import PeachOS.PagingFlat
import PeachOS.TreeWalk

/-! A new address space beside what is in memory: its 1026 blocks come from the free end of the heap, and no chain that
there was has any of them. -/

namespace PeachOS
open Program ByteMemory BlockPool

section Takes
variable {before after : Memory} {blocks : Set Nat} {block : Nat}

theorem Takes.linked (takes : Takes before after blocks) {i : Int} (linked : HasNext (after.heap.table.entries i)) :
    HasNext (before.heap.table.entries i) := by
  by_cases inside : ∃ block ∈ blocks, i = (block : Nat)
  · obtain ⟨block, member, rfl⟩ := inside
    rw [takes.taken block member, chainEntry_hasNext] at linked
    omega
  · rwa [takes.kept i (fun block member same => inside ⟨block, member, same⟩)] at linked

theorem Takes.freeBefore (takes : Takes before after blocks) (free : EntryFree after.heap.table.entries block) :
    EntryFree before.heap.table.entries block := by
  by_cases member : block ∈ blocks
  · exact (takes.free block member).2
  · unfold EntryFree at free ⊢
    rwa [takes.kept block (fun other inside same => member ((Int.ofNat.inj same) ▸ inside))] at free

theorem Takes.sound (takes : Takes before after blocks) (sound : Sound before.heap) : Sound after.heap where
  kernel := takes.kernel sound.kernel
  guard := fun linked => sound.guard (takes.linked linked)
  linked := by
    intro block bound linked free
    rw [takes.total] at bound
    exact sound.linked block bound (takes.linked linked) (takes.freeBefore free)

theorem Takes.held (takes : Takes before after blocks) (held : Held before.heap block) : Held after.heap block where
  clean := ⟨takes.total.symm ▸ held.clean.bound,
    fun previous next linked => held.clean.first previous next (takes.linked linked)⟩
  taken := fun free => held.taken (takes.freeBefore free)

theorem Takes.newHeld (takes : Takes before after blocks) (sound : Sound before.heap) (member : block ∈ blocks) :
    Held after.heap block where
  clean := by
    obtain ⟨bound, free⟩ := takes.free block member
    refine ⟨takes.total.symm ▸ bound, fun previous next linked => ?_⟩
    exact (sound.clean_of_free bound free).first previous next (takes.linked linked)
  taken := by
    unfold EntryFree
    rw [takes.taken block member]
    decide

theorem Takes.outside (takes : Takes before after blocks) (sound : Sound before.heap) {address : Addr}
    (owned : Owned before.heap address) : ∀ block ∈ blocks, frameOf address ≠ heapBlockToAddress before.heap block := by
  rintro block member same
  obtain ⟨start, inChain, chained, page⟩ := owned
  obtain ⟨bound, free⟩ := takes.free block member
  have equal := heapBlockToAddress_inj sound.kernel.pool chained.bound bound (page.symm.trans same)
  exact chained.taken sound (equal ▸ free)

end Takes

section Apart
variable {kernel : Kernel} {memory : Memory} {blocks : Set Nat}

theorem Takes.apart (takes : Takes kernel.memory memory blocks) (sound : Sound kernel.memory.heap) :
    Apart kernel (kernel.setMemory memory) where
  sound := takes.sound sound
  saddr := takes.saddr
  total := takes.total
  held := fun _ held => takes.held held
  entries := by
    intro start block chained
    apply takes.kept
    intro other member same
    obtain rfl : block = other := Int.ofNat.inj same
    exact chained.taken sound (takes.free block member).2
  bytes := fun address owned => takes.frame address (takes.outside sound owned)
  files := fun _ _ => rfl

end Apart

section Room
variable {memory : Memory} {count : Nat} {size : Word}

theorem FreeEnd.page (freeEnd : FreeEnd memory.heap (count + 1)) (roundable : Roundable size)
    (single : blocksFor size = 1) :
    (PeachOS.kzalloc size memory).1 ≠ 0 ∧ FreeEnd (PeachOS.kzalloc size memory).2.heap count := by
  obtain ⟨start, address, _, marks, left⟩ := (single.symm ▸ freeEnd : FreeEnd memory.heap
    (count + blocksFor size)).serves roundable
  have nonnull := freeEnd.kernel.nonnull marks.bound
  rw [kzalloc_eq (Prod.ext address rfl) nonnull]
  exact ⟨nonnull, left⟩

theorem FreeEnd.pagingNewTables (flags : Word) (directory : Addr) (remaining i : Nat) (offset : Word)
    (freeEnd : FreeEnd memory.heap (count + remaining)) :
    ∃ after, pagingNewTables directory flags remaining i offset memory = some after ∧ FreeEnd after.heap count := by
  induction remaining generalizing i offset memory with
  | zero => exact ⟨memory, rfl, freeEnd⟩
  | succ remaining ih =>
    obtain ⟨success, left⟩ := freeEnd.page pageRequest.1 pageRequest.2
    simp only [PeachOS.pagingNewTables]
    rw [if_neg success]
    exact ih _ _ left

theorem FreeEnd.pagingNew4gb (flags : BitVec 8) (freeEnd : FreeEnd memory.heap (count + 1026)) :
    ∃ chunk after, pagingNew4gb flags memory = some (chunk, after) ∧ FreeEnd after.heap count := by
  obtain ⟨success, left⟩ := freeEnd.page pageRequest.1 pageRequest.2
  have room : FreeEnd (PeachOS.kzalloc (BitVec.ofNat 32 (4 * pagingTotalEntriesPerTable)) memory).2.heap
      (count + 1 + pagingTotalEntriesPerTable) := left
  obtain ⟨middle, built, middleEnd⟩ := room.pagingNewTables (flags.setWidth 32)
    (PeachOS.kzalloc (BitVec.ofNat 32 (4 * pagingTotalEntriesPerTable)) memory).1 pagingTotalEntriesPerTable 0 0
  obtain ⟨chunkSuccess, after⟩ := middleEnd.page (by decide : Roundable 4) (by decide)
  refine ⟨(PeachOS.kzalloc 4 middle).1, ⟨(PeachOS.kzalloc 4 middle).2.heap, store32 (PeachOS.kzalloc 4 middle).2.bytes
    (PeachOS.kzalloc 4 middle).1 (PeachOS.kzalloc (BitVec.ofNat 32 (4 * pagingTotalEntriesPerTable)) memory).1⟩, ?_,
    after⟩
  simp only [PeachOS.pagingNew4gb]
  rw [if_neg success, built]
  simp only [Option.bind_eq_bind, Option.bind_some]
  rw [if_neg chunkSuccess]

end Room

/-- The bytes of the pages that an address space is made of. -/
def SpaceByte (chunk directory : Addr) (tables : Nat → Addr) (address : Addr) : Prop :=
  frameOf address = chunk ∨ frameOf address = directory ∨ ∃ i < 1024, frameOf address = tables i

/-- Page tables that hold `view`, in blocks of the heap. -/
structure OwnSpace (kernel : Kernel) (chunk directory : Addr) (tables : Nat → Addr) (view : Addr → Word) : Prop where
  flat : FlatMap kernel.memory.bytes chunk directory tables view
  chunk : ∀ address, frameOf address = chunk → Owned kernel.memory.heap address
  directory : ∀ address, frameOf address = directory → Owned kernel.memory.heap address
  tables : ∀ i < 1024, ∀ address, frameOf address = tables i → Owned kernel.memory.heap address

section Space
variable {kernel after : Kernel} {chunk directory : Addr} {pages : Nat → Addr} {view : Addr → Word} {room : Nat}
  {tables : Set (Nat → Addr)}

theorem FlatMap.congr {bytes other : Bytes} (flat : FlatMap bytes chunk directory pages view)
    (sameChunk : ∀ address, frameOf address = chunk → other address = bytes address)
    (sameDirectory : ∀ address, frameOf address = directory → other address = bytes address)
    (sameTables : ∀ i < 1024, ∀ address, frameOf address = pages i → other address = bytes address) :
    FlatMap other chunk directory pages view where
  paged := flat.paged.congr sameChunk sameDirectory
  entry := by
    intro page aligned
    have index := directoryIndex_lt page
    rw [← flat.entry page aligned, flat.paged.pagingGet aligned,
      (flat.paged.congr sameChunk sameDirectory).pagingGet aligned]
    exact load32_congr_page (flat.paged.tablesAligned _ index) (tableIndex_lt page) (sameTables _ index)

theorem OwnSpace.unharmed (space : OwnSpace kernel chunk directory pages view) (unharmed : Unharmed kernel after) :
    OwnSpace after chunk directory pages view where
  flat := space.flat.congr (fun address inside => unharmed.bytes address (space.chunk address inside))
    (fun address inside => unharmed.bytes address (space.directory address inside))
    (fun i bound address inside => unharmed.bytes address (space.tables i bound address inside))
  chunk := fun address inside => unharmed.owned address (space.chunk address inside)
  directory := fun address inside => unharmed.owned address (space.directory address inside)
  tables := fun i bound address inside => unharmed.owned address (space.tables i bound address inside)

/-- A new space maps every page onto itself, in tables that no chain had. -/
theorem Tidy.pagingNew4gb (flags : BitVec 8) (tidy : Tidy tables (room + 1026) kernel) : ∃ chunk directory pages memory,
    pagingNew4gb flags kernel.memory = some (chunk, memory) ∧ Tidy tables room (kernel.setMemory memory) ∧
      Apart kernel (kernel.setMemory memory) ∧
      OwnSpace (kernel.setMemory memory) chunk directory pages (· ||| flags.setWidth 32) ∧
      ∀ address, Owned kernel.memory.heap address → ¬SpaceByte chunk directory pages address := by
  obtain ⟨_, memory, built, freeEnd⟩ := tidy.freeEnd.pagingNew4gb flags
  obtain ⟨chunk, directory, pages, rfl, new⟩ := pagingNew4gb_new tidy.sound.kernel.pool built
  have apart := new.takes.apart tidy.sound
  have owned : ∀ block ∈ insert chunk (builtBlocks directory pages 1024), ∀ address,
      frameOf address = heapBlockToAddress kernel.memory.heap block → Owned memory.heap address := by
    intro block member address inside
    refine ⟨block, block, (new.takes.newHeld tidy.sound member).chained, ?_⟩
    rw [new.takes.address]
    exact inside
  have table : ∀ i < 1024, pages i ∈ insert chunk (builtBlocks directory pages 1024) :=
    fun i bound => Or.inr (mem_builtBlocks_table pages bound)
  refine ⟨_, _, _, memory, built, tidy.apart apart rfl rfl freeEnd, apart,
    ⟨new.flat, owned chunk (Set.mem_insert _ _), owned directory (Or.inr (mem_builtBlocks_directory _ _ _)),
      fun i bound => owned _ (table i bound)⟩, fun address inside => ?_⟩
  have outside := new.takes.outside tidy.sound inside
  rintro (same | same | ⟨i, bound, same⟩)
  · exact outside chunk (Set.mem_insert _ _) same
  · exact outside directory (Or.inr (mem_builtBlocks_directory _ _ _)) same
  · exact outside _ (table i bound) same

end Space

end PeachOS
