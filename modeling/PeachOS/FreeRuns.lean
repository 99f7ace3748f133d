import PeachOS.AllocationRuns

/-! `process_free` of any pointer at all, in every state that the processes' own requests lead to. -/

namespace PeachOS
open Program ByteMemory BlockPool Transition Search

/-- A pointer that a slot of the process holds is freed with its slot, its chain and its pages, and any other
pointer changes nothing. -/
structure FreesExactly (kernel : Kernel) (processes : Set Addr) (spaces : Addr → Space) (process ptr : Addr) :
    Prop where
  own : ptr ≠ 0 → ∀ index < peachosMaxProgramAllocations, (kernel.allocation process index).ptr = ptr →
    ∃ after, processFree process ptr kernel = (.ok (), after) ∧
      SlotFreed kernel after processes spaces process ptr (kernel.allocation process index).size index
  other : (ptr = 0 ∨ ∀ index < peachosMaxProgramAllocations, (kernel.allocation process index).ptr ≠ ptr) →
    processFree process ptr kernel = (.ok (), kernel)

/-- The pointer is not null, or no slot is empty, or the byte 4096 entries below the heap's table is clear. -/
def FreeHarmless (kernel : Kernel) (process ptr : Addr) : Prop :=
  ptr ≠ 0 ∨ (∀ i < peachosMaxProgramAllocations, (kernel.allocation process i).ptr ≠ 0) ∨
    kernel.memory.heap.table.entries (-4096) = heapBlockTableEntryFree

section Frees
variable {kernel after : Kernel} {processes : Set Addr} {live : Set Interval} {spaces : Addr → Space}
  {process ptr : Addr}

theorem heapFree_null_clears {heap : Heap} (kernel : KernelHeap heap) :
    (heapFree heap 0).table.entries (-4096) = heapBlockTableEntryFree := by
  unfold heapFree
  rw [heapFree_null_block kernel]
  exact heapMarkBlocksFree_reached ⟨le_rfl, by rw [kernel.blocks]; decide, by omega⟩

theorem heapFree_null_same {heap : Heap} (kernel : KernelHeap heap)
    (clear : heap.table.entries (-4096) = heapBlockTableEntryFree) : heapFree heap 0 = heap := by
  have entries : (heapFree heap 0).table.entries = heap.table.entries := by
    funext i
    by_cases first : i = -4096
    · rw [first, heapFree_null_clears kernel, clear]
    · unfold heapFree
      rw [heapFree_null_block kernel]
      apply heapMarkBlocksFree_missed
      intro ⟨low, _, walk⟩
      have next := walk (-4096) le_rfl (by omega)
      rw [clear] at next
      exact absurd next (by decide)
  exact congrArg heap.withEntries entries

theorem ProcessSpaces.frees_iff (held : ProcessSpaces kernel processes live spaces) (member : process ∈ processes)
    (ptr : Addr) : FreesExactly kernel processes spaces process ptr ↔ FreeHarmless kernel process ptr := by
  have missing (none : ∀ i < peachosMaxProgramAllocations, (kernel.allocation process i).ptr ≠ ptr) :
      processFree process ptr kernel = (.ok (), kernel) := processFree_missing none
  constructor
  · intro exactly
    by_contra harmful
    unfold FreeHarmless at harmful
    push Not at harmful
    obtain ⟨null, ⟨i, bound, empty⟩, dirty⟩ := harmful
    obtain ⟨call, _⟩ := held.free_null member bound empty
    have unchanged := exactly.other (Or.inl null)
    rw [null, call] at unchanged
    have same := congrArg (fun kernel => kernel.memory.heap.table.entries (-4096)) (Prod.mk.inj unchanged).2
    exact dirty (same.symm.trans (heapFree_null_clears held.heap.heap))
  · intro harmless
    constructor
    · intro nonnull index bound here
      rw [← here] at nonnull ⊢
      obtain ⟨after, call, _, freed⟩ := held.free member bound nonnull
      exact ⟨after, call, freed⟩
    · intro foreign
      by_cases known : ∀ i < peachosMaxProgramAllocations, (kernel.allocation process i).ptr ≠ ptr
      · exact missing known
      · have null := foreign.resolve_right known
        push Not at known
        obtain ⟨i, bound, empty⟩ := known
        rw [null] at empty ⊢
        obtain ⟨call, _⟩ := held.free_null member bound empty
        have clear : kernel.memory.heap.table.entries (-4096) = heapBlockTableEntryFree := by
          rcases harmless with nonnull | full | clear
          · exact absurd null nonnull
          · exact absurd empty (full i bound)
          · exact clear
        have same : kfree 0 kernel.memory = kernel.memory := by
          unfold kfree
          rw [heapFree_null_same held.heap.heap clear]
        rw [call, same]
        rfl

/-- As long as every request is one that the heap serves with a chain of its own or refuses, `process_free`
is exact for every pointer but null, and for null where it has nothing to clear. -/
theorem processFree_runs_exact (start : FreshSpaces kernel processes spaces)
    (run : Run (ProcessStep processes MallocGuarded) kernel after) (member : process ∈ processes) (ptr : Addr) :
    FreesExactly after processes spaces process ptr ↔ FreeHarmless after process ptr := by
  obtain ⟨live, begun⟩ := start.held
  obtain ⟨_, held⟩ := spaces_run begun run
  exact held.frees_iff member ptr

end Frees

theorem processFree_runs_exact_block : ∃ after, Run (ProcessStep {firstProcess} MallocGuarded) (spaceKernel 0) after ∧
    (after.allocation firstProcess 0).ptr ≠ 0 ∧
    FreesExactly after {firstProcess} (fun _ => firstSpace) firstProcess (after.allocation firstProcess 0).ptr := by
  obtain ⟨after, step, nonnull⟩ := spaceKernel_malloc
  exact ⟨after, .single step, nonnull, (processFree_runs_exact (spaceKernel_fresh 0) (.single step)
    (Set.mem_singleton _) _).mpr (Or.inl nonnull)⟩

/-- A null pointer clears the byte 4096 entries below the heap's table. -/
theorem processFree_runs_below : FreshSpaces (spaceKernel 1) {firstProcess} (fun _ => firstSpace) ∧
    ¬FreesExactly (spaceKernel 1) {firstProcess} (fun _ => firstSpace) firstProcess 0 := by
  refine ⟨spaceKernel_fresh 1, fun exactly => ?_⟩
  obtain ⟨live, held⟩ := (spaceKernel_fresh 1).held
  rcases (held.frees_iff (Set.mem_singleton _) 0).mp exactly with nonnull | full | clear
  · exact nonnull rfl
  · exact full 0 (by decide) rfl
  · have dirty : (spaceKernel 1).memory.heap.table.entries (-4096) = 1 := by
      show Function.update (pagedHeap 1026).table.entries (-4096) 1 (-4096) = 1
      rw [Function.update_self]
    rw [dirty] at clear
    exact absurd clear (by decide)

end PeachOS
