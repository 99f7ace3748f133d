import PeachOS.FileRecords
import PeachOS.HeapOwners

/-! The calls of the kernel on its heap, by what is owned before and after them. -/

namespace PeachOS
open Program BlockPool

/-- Every pointer that is owned has a chain of its own. -/
structure OwnsHeld (base heap : Heap) (owned : Multiset Addr) : Prop extends Owns base heap owned where
  held : ∀ ptr ∈ owned, HeldAt heap ptr
  nodup : owned.Nodup

section Heap
variable {base heap after : Heap} {owned : Multiset Addr} {start count first : Nat} {ptr : Addr}

theorem HeldAt.marks (heldAt : HeldAt heap ptr) (marks : Marks heap after start count) : HeldAt after ptr := by
  obtain ⟨block, same, held⟩ := heldAt
  exact ⟨block, same.trans (heapBlockToAddress_congr marks.saddr block).symm, marks.held held⟩

theorem HeldAt.frees (heldAt : HeldAt heap ptr) (frees : Frees heap after first)
    (different : ptr ≠ heapBlockToAddress heap first) : HeldAt after ptr := by
  obtain ⟨block, same, held⟩ := heldAt
  refine ⟨block, same.trans (heapBlockToAddress_congr frees.saddr block).symm, frees.held held ?_⟩
  intro equal
  exact different (equal ▸ same)

theorem Marks.new (marks : Marks heap after start count) (sound : Sound heap) :
    ¬HeldAt heap (heapBlockToAddress heap start) := by
  intro heldAt
  obtain ⟨block, same, held⟩ := heldAt
  rw [heapBlockToAddress_inj sound.kernel.pool marks.bound held.clean.bound same] at marks
  exact held.taken marks.startFree

theorem OwnsHeld.refl (sound : Sound heap) (ends : FreeEntriesEnd heap) : OwnsHeld heap heap 0 where
  toOwns := Owns.refl sound ends
  held := fun ptr member => absurd member (Multiset.notMem_zero ptr)
  nodup := Multiset.nodup_zero

theorem OwnsHeld.malloc (owns : OwnsHeld base heap owned) (marks : Marks heap after start count)
    (positive : 0 < count) : OwnsHeld base after (heapBlockToAddress heap start ::ₘ owned) where
  toOwns := owns.toOwns.malloc marks
  held := by
    intro ptr member
    rcases Multiset.mem_cons.mp member with rfl | old
    · exact ⟨start, (heapBlockToAddress_congr marks.saddr start).symm, marks.fresh owns.sound positive⟩
    · exact (owns.held ptr old).marks marks
  nodup := Multiset.nodup_cons.mpr ⟨fun old => marks.new owns.sound (owns.held _ old), owns.nodup⟩

theorem OwnsHeld.free (owns : OwnsHeld base heap owned) (member : ptr ∈ owned) :
    OwnsHeld base (heapFree heap ptr) (owned.erase ptr) := by
  obtain ⟨first, rfl, held⟩ := owns.held ptr member
  refine ⟨owns.toOwns.free held.clean member, ?_, owns.nodup.erase _⟩
  intro other kept
  rw [owns.nodup.mem_erase_iff] at kept
  exact (owns.held other kept.2).frees (owns.sound.heapFree_block held.clean.bound) kept.1

theorem OwnsHeld.discard (owns : OwnsHeld base heap owned) (marks : Marks heap after start count) :
    OwnsHeld base (heapFree after (heapBlockToAddress heap start)) owned := by
  have clean := marks.clean (owns.sound.clean_of_free marks.bound marks.startFree) (Or.inl le_rfl)
  have same := heapBlockToAddress_congr marks.saddr start
  have made := owns.toOwns.malloc marks
  have freed := made.free clean (same ▸ Multiset.mem_cons_self _ _)
  rw [same, Multiset.erase_cons_head] at freed
  refine ⟨freed, ?_, owns.nodup⟩
  intro ptr member
  have frees := made.sound.heapFree_block clean.bound
  rw [same] at frees
  refine ((owns.held ptr member).marks marks).frees frees ?_
  intro equal
  rw [same] at equal
  exact marks.new owns.sound (equal ▸ owns.held ptr member)

theorem OwnsHeld.leaked (owns : OwnsHeld base heap owned) (some' : owned ≠ 0) :
    liveBlocks heap ≠ liveBlocks base := by
  obtain ⟨ptr, member⟩ := Multiset.exists_mem_of_ne_zero some'
  exact owns.toOwns.leaked member (owns.held ptr member)

end Heap

section Kernel
variable {α : Type} {base : Heap} {owned : Multiset Addr} {before after : Kernel} {ptr : Addr} {size : Word}

theorem OwnsHeld.kzalloc (owns : OwnsHeld base before.memory.heap owned) (positive : 0 < mallocBlocks size)
    (run : Kernel.kzalloc size before = (.ok ptr, after)) (nonnull : ptr ≠ 0) :
    OwnsHeld base after.memory.heap (ptr ::ₘ owned) := by
  rcases Kernel.kzalloc_marks owns.sound.kernel run with null | ⟨start, rfl, _, _, marks, _⟩
  · exact absurd null.1 nonnull
  · exact owns.malloc marks positive

theorem OwnsHeld.kfree (owns : OwnsHeld base before.memory.heap owned) (member : ptr ∈ owned)
    (run : Kernel.kfree ptr before = (.ok (), after)) : OwnsHeld base after.memory.heap (owned.erase ptr) := by
  cases run
  exact owns.free member

/-- Whatever is released, the heap is that after a `heap_free`. -/
theorem Kernel.freeRecord_heap {select : FileRecord → Option α}
    (run : Kernel.freeRecord select ptr before = (.ok (), after)) :
    after.memory.heap = heapFree before.memory.heap ptr := by
  rcases Kernel.freeRecord_ok run with ⟨rfl, rfl⟩ | ⟨_, _, _, _, rfl⟩ | ⟨_, rfl, _⟩ <;> rfl

end Kernel

end PeachOS
