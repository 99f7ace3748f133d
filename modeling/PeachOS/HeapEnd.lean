import PeachOS.FileFrames

/-! The free end of the heap's table. While it is long enough every request is served from before it or from its start,
and the chain of a request lies in the table. -/

namespace PeachOS
open Program ByteMemory

/-- The last `count` blocks of the table are free. -/
structure FreeEnd (heap : Heap) (count : Nat) : Prop where
  kernel : KernelHeap heap
  ends : FreeEntriesEnd heap
  within : count ≤ heap.table.total
  free : ∀ block, heap.table.total - count ≤ block → block < heap.table.total → EntryFree heap.table.entries block

section Heap
variable {heap before after : Heap} {count fewer used start : Nat} {size : Word}

theorem FreeEnd.less (freeEnd : FreeEnd heap count) (less : fewer ≤ count) : FreeEnd heap fewer where
  kernel := freeEnd.kernel
  ends := freeEnd.ends
  within := less.trans freeEnd.within
  free := fun block low bound => freeEnd.free block (by omega) bound

/-- A chain that begins where the free end does, or before, shortens it by its length at most. -/
theorem Marks.freeEnd (marks : Marks before after start used) (freeEnd : FreeEnd before (count + used))
    (low : start + (count + used) ≤ before.table.total) : FreeEnd after count where
  kernel := freeEnd.kernel.congr marks.saddr marks.total
  ends := marks.ends freeEnd.ends
  within := by
    rw [marks.total]
    omega
  free := by
    intro block below bound
    rw [marks.total] at below bound
    unfold EntryFree
    rw [marks.outside (by omega)]
    exact freeEnd.free block (by omega) bound

theorem Frees.freeEnd {first : Int} (frees : Frees before after first) (freeEnd : FreeEnd before count) :
    FreeEnd after count where
  kernel := freeEnd.kernel.congr frees.saddr frees.total
  ends := frees.ends freeEnd.ends
  within := by
    rw [frees.total]
    exact freeEnd.within
  free := by
    intro block low bound
    rw [frees.total] at low bound
    unfold EntryFree
    by_cases reaches : FreeReaches before.table.entries before.table.total first block
    · rw [frees.reached _ reaches]
      decide
    · rw [frees.missed _ reaches]
      exact freeEnd.free block low bound

theorem FreeEnd.serves (freeEnd : FreeEnd heap (count + blocksFor size)) (roundable : Roundable size) :
    ∃ start : Nat, (heapMalloc heap size).1 = heapBlockToAddress heap start ∧
      start + (count + blocksFor size) ≤ heap.table.total ∧
      Marks heap (heapMalloc heap size).2 start (blocksFor size) ∧ FreeEnd (heapMalloc heap size).2 count := by
  have positive := blocksFor_pos roundable
  have within := freeEnd.within
  have fits : FitsAt heap (blocksFor size) (heap.table.total - (count + blocksFor size)) :=
    ⟨by omega, fun block low high => freeEnd.free block low (by omega)⟩
  obtain ⟨start, least, served⟩ := heapMalloc_fits heap size roundable ⟨_, fits⟩
  have low := least.2 _ fits
  have marks : Marks heap (heapMalloc heap size).2 start (blocksFor size) := by
    rw [served]
    exact ⟨by omega, least.1.2 start le_rfl (by omega), fun block low high _ => least.1.2 block low high, rfl⟩
  refine ⟨start, ?_, by omega, marks, marks.freeEnd freeEnd (by omega)⟩
  rw [served]

end Heap

/-- A byte in a block of the chain at `ptr`. -/
def OwnedBy (heap : Heap) (ptr address : Addr) : Prop :=
  ∃ start block : Nat, ptr = heapBlockToAddress heap start ∧ Chained heap start block ∧
    frameOf address = heapBlockToAddress heap block

theorem OwnedBy.owned {heap : Heap} {ptr address : Addr} (inChain : OwnedBy heap ptr address) : Owned heap address := by
  obtain ⟨start, block, _, chained, page⟩ := inChain
  exact ⟨start, block, chained, page⟩

theorem Marks.ownedBy {before after : Heap} {start i : Nat} {size : Word}
    (marks : Marks before after start (blocksFor size)) (sound : Sound before)
    (within : start + blocksFor size ≤ before.table.total) (inside : i < size.toNat) :
    OwnedBy after (heapBlockToAddress before start) (heapBlockToAddress before start + BitVec.ofNat 32 i) := by
  have startAt := sound.kernel.address_toNat marks.bound
  have total := sound.kernel.blocks
  have covered : i / 4096 < blocksFor size := by
    unfold blocksFor heapBlockSize
    omega
  have bound : start + i / 4096 < before.table.total := by omega
  refine ⟨start, start + i / 4096, (heapBlockToAddress_congr marks.saddr start).symm,
    (marks.chained_new sound).mpr ⟨by omega, by omega, bound⟩, ?_⟩
  rw [heapBlockToAddress_congr marks.saddr]
  have blockAt := sound.kernel.address_toNat bound
  apply BitVec.eq_of_toNat_eq
  rw [frameOf_toNat, BitVec.toNat_add, BitVec.toNat_ofNat, startAt, blockAt]
  omega

section Records
variable {α : Type} {before after : Kernel} {count : Nat} {size : Word} {ptr other address : Addr}
  {select : FileRecord → Option α} {tables : Set (Nat → Addr)}

theorem FreeEnd.kzalloc (freeEnd : FreeEnd before.memory.heap (count + blocksFor size)) (roundable : Roundable size) :
    ∃ (start : Nat) (after : Kernel),
      Kernel.kzalloc size before = (.ok (heapBlockToAddress before.memory.heap start), after) ∧
      start + (count + blocksFor size) ≤ before.memory.heap.table.total ∧
      Marks before.memory.heap after.memory.heap start (blocksFor size) ∧ FreeEnd after.memory.heap count := by
  obtain ⟨start, address, low, marks, left⟩ := freeEnd.serves roundable
  have nonnull := freeEnd.kernel.nonnull marks.bound
  have position := freeEnd.kernel.address_toNat marks.bound
  have total := freeEnd.kernel.blocks
  have short : size.toNat ≤ blocksFor size * 4096 := by
    unfold blocksFor heapBlockSize
    omega
  have inside : (heapBlockToAddress before.memory.heap start).toNat + size.toNat ≤ 2 ^ 32 := by omega
  have cleared : PeachOS.kzalloc size before.memory = _ := kzalloc_eq (Prod.ext address rfl) nonnull
  refine ⟨start, before.setMemory ⟨(heapMalloc before.memory.heap size).2,
    fill before.memory.bytes (heapBlockToAddress before.memory.heap start) size.toNat 0⟩, ?_, low, marks, left⟩
  unfold Kernel.kzalloc
  rw [cleared]
  exact if_neg (fun wraps => absurd wraps.2 (not_lt.mpr inside))

theorem FreeEnd.newRecord (freeEnd : FreeEnd before.memory.heap (count + blocksFor size)) (roundable : Roundable size)
    (record : FileRecord) : ∃ (start : Nat) (after : Kernel),
      Kernel.newRecord size record before = (.ok (heapBlockToAddress before.memory.heap start), after) ∧
      start + (count + blocksFor size) ≤ before.memory.heap.table.total ∧
      Marks before.memory.heap after.memory.heap start (blocksFor size) ∧ FreeEnd after.memory.heap count := by
  obtain ⟨start, middle, allocated, low, marks, left⟩ := freeEnd.kzalloc roundable
  have nonnull := freeEnd.kernel.nonnull marks.bound
  exact ⟨start, _, (bind_ok allocated).trans (congrFun (if_neg nonnull) _), low, marks, left⟩

theorem FreeEnd.freeRecord (freeEnd : FreeEnd before.memory.heap count)
    (run : Kernel.freeRecord select ptr before = (.ok (), after)) : FreeEnd after.memory.heap count := by
  have freed : ∀ {files : Addr → Option FileRecord} {ptr : Addr},
      FreeEnd ((before.setFiles files).setMemory (PeachOS.kfree ptr before.memory)).memory.heap count :=
    (heapFree_frees rfl).freeEnd freeEnd
  rcases Kernel.freeRecord_ok run with ⟨rfl, rfl⟩ | ⟨_, _, _, _, rfl⟩ | ⟨_, rfl, _⟩
  · exact (heapFree_frees rfl).freeEnd freeEnd
  · exact freed
  · exact (heapFree_frees rfl).freeEnd freeEnd

theorem Kernel.freeRecord_ownedBy (recorded : Recorded tables before) (inChain : OwnedBy before.memory.heap other address)
    (different : other ≠ ptr) (run : Kernel.freeRecord select ptr before = (.ok (), after)) :
    OwnedBy after.memory.heap other address := by
  obtain ⟨start, block, rfl, chained, page⟩ := inChain
  have kept : ∀ {heap : Heap} {first : Nat}, Frees before.memory.heap heap first → Clean before.memory.heap first →
      ptr = heapBlockToAddress before.memory.heap first →
      OwnedBy heap (heapBlockToAddress before.memory.heap start) address := by
    intro heap first frees clean same
    refine ⟨start, block, (heapBlockToAddress_congr frees.saddr start).symm, (frees.chained clean ?_).mpr chained,
      page.trans (heapBlockToAddress_congr frees.saddr block).symm⟩
    rintro rfl
    exact different same.symm
  rcases Kernel.freeRecord_ok run with
    ⟨rfl, rfl⟩ | ⟨record, value, here, _, rfl⟩ | ⟨_, rfl, first, leads, bound, free⟩
  · have apart := (Apart.refl recorded.sound).freesNull
    exact ⟨start, block, (apart.address start).symm, apart.chained chained, page.trans (apart.address block).symm⟩
  · obtain ⟨first, same, clean⟩ := recorded.recorded ptr record here
    have frees := recorded.sound.heapFree_block clean.bound
    rw [← same] at frees
    exact kept frees clean same
  · have clean := recorded.sound.clean_of_free bound free
    have frees : Frees before.memory.heap (heapFree before.memory.heap ptr) first := heapFree_frees leads
    refine ⟨start, block, (heapBlockToAddress_congr frees.saddr start).symm, (frees.chained clean ?_).mpr chained,
      page.trans (heapBlockToAddress_congr frees.saddr block).symm⟩
    rintro rfl
    exact chained.1.taken free

end Records

end PeachOS
