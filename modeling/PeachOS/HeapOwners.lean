import Mathlib.Data.Multiset.AddSub
import Mathlib.Data.Set.BooleanAlgebra
import Mathlib.Order.CompletePartialOrder
import PeachOS.HeapSound

/-! Who owns the live blocks of a heap: what it has beyond an earlier heap are the chains at
the pointers that were allocated since and not freed. -/

namespace PeachOS
open BlockPool

/-- The blocks of the table that are taken. -/
def liveBlocks (heap : Heap) : Set Nat :=
  {block | block < heap.table.total ∧ ¬EntryFree heap.table.entries block}

/-- A pointer to the first block of a chain. -/
def HeldAt (heap : Heap) (ptr : Addr) : Prop :=
  ∃ start : Nat, ptr = heapBlockToAddress heap start ∧ Held heap start

/-- The chain from `start` on has the block. -/
def Chained (heap : Heap) (start block : Nat) : Prop :=
  Held heap start ∧ FreeReaches heap.table.entries heap.table.total start block

/-- The blocks of the chain at a pointer, if one begins there. -/
def chainAt (heap : Heap) (ptr : Addr) : Set Nat :=
  {block | ∃ start : Nat, ptr = heapBlockToAddress heap start ∧ Chained heap start block}

/-- No free entry goes on into the next block. -/
def FreeEntriesEnd (heap : Heap) : Prop :=
  ∀ block : Nat, block < heap.table.total → EntryFree heap.table.entries block →
    ¬HasNext (heap.table.entries (block : Nat))

/-- The live blocks of `heap` are those of `base` and, apart from them, the chains at the
pointers of `owned`. A pointer to no bytes has no chain. -/
structure Owns (base heap : Heap) (owned : Multiset Addr) : Prop where
  sound : Sound heap
  ends : FreeEntriesEnd heap
  saddr : heap.saddr = base.saddr
  total : heap.table.total = base.table.total
  starts : ∀ ptr ∈ owned, ∃ start : Nat, start < heap.table.total ∧ ptr = heapBlockToAddress heap start
  live : liveBlocks heap = liveBlocks base ∪ {block | ∃ ptr ∈ owned, block ∈ chainAt heap ptr}
  fresh : ∀ ptr ∈ owned, Disjoint (chainAt heap ptr) (liveBlocks base)

section Chained
variable {heap : Heap} {start block other : Nat}

theorem Held.chained (held : Held heap start) : Chained heap start start :=
  ⟨held, le_rfl, by exact_mod_cast held.clean.bound, fun j low high => absurd low (by omega)⟩

theorem Chained.bound (chained : Chained heap start block) : block < heap.table.total := by
  exact_mod_cast chained.2.2.1

theorem Chained.before (chained : Chained heap start block) (low : start ≤ other) (high : other ≤ block) :
    Chained heap start other := by
  obtain ⟨held, _, bound, walk⟩ := chained
  exact ⟨held, by omega, by omega, fun j lowJ highJ => walk j lowJ (by omega)⟩

theorem Chained.taken (sound : Sound heap) (chained : Chained heap start block) :
    ¬EntryFree heap.table.entries block := by
  obtain ⟨held, low, high, walk⟩ := chained
  by_cases first : start = block
  · rw [← first]
    exact held.taken
  · have linked := walk ((block - 1 : Nat) : Int) (by omega) (by omega)
    have next := sound.linked (block - 1) (by omega) linked
    rwa [Nat.sub_add_cancel (by omega)] at next

theorem Chained.missed (chained : Chained heap start block) (clean : Clean heap other)
    (different : other ≠ start) : ¬FreeReaches heap.table.entries heap.table.total other block := by
  intro reaches
  obtain ⟨held, low, high, walk⟩ := chained
  obtain ⟨low', _, walk'⟩ := reaches
  by_cases before : other < start
  · exact held.clean.first (start - 1) (by omega) (walk' ((start - 1 : Nat) : Int) (by omega) (by omega))
  · exact clean.first (other - 1) (by omega) (walk ((other - 1 : Nat) : Int) (by omega) (by omega))

theorem mem_chainAt (sound : Sound heap) (bound : start < heap.table.total) :
    block ∈ chainAt heap (heapBlockToAddress heap start) ↔ Chained heap start block := by
  constructor
  · rintro ⟨other, same, chained⟩
    rwa [heapBlockToAddress_inj sound.kernel.pool bound chained.1.clean.bound same]
  · intro chained
    exact ⟨start, rfl, chained⟩

theorem chainAt_disjoint {ptr other : Addr} (different : ptr ≠ other) : Disjoint (chainAt heap ptr) (chainAt heap other) := by
  rw [Set.disjoint_left]
  rintro block ⟨first, rfl, chained⟩ ⟨second, rfl, otherChained⟩
  exact chained.missed otherChained.1.clean (fun same => different (same ▸ rfl)) otherChained.2

theorem HeldAt.chain_nonempty {ptr : Addr} (heldAt : HeldAt heap ptr) : (chainAt heap ptr).Nonempty := by
  obtain ⟨start, same, held⟩ := heldAt
  exact ⟨start, start, same, held.chained⟩

end Chained

section Marks
variable {before after : Heap} {start count other block : Nat}

theorem Marks.ends (marks : Marks before after start count) (ends : FreeEntriesEnd before) :
    FreeEntriesEnd after := by
  intro block bound free
  rw [marks.total] at bound
  by_cases inside : start ≤ block ∧ block < start + count
  · exact absurd free (marks.taken inside.1 inside.2)
  · unfold EntryFree at free
    rw [marks.outside (by omega)] at free ⊢
    exact ends block bound free

theorem Marks.live (marks : Marks before after start count) :
    liveBlocks after = liveBlocks before ∪
      {block | start ≤ block ∧ block < start + count ∧ block < before.table.total} := by
  ext block
  unfold liveBlocks
  rw [Set.mem_union, Set.mem_ofPred_eq, Set.mem_ofPred_eq, Set.mem_ofPred_eq, marks.total]
  by_cases inside : start ≤ block ∧ block < start + count
  · constructor
    · intro live
      exact Or.inr ⟨inside.1, inside.2, live.1⟩
    · intro live
      exact ⟨live.elim And.left (fun fresh => fresh.2.2), marks.taken inside.1 inside.2⟩
  · have same : EntryFree after.table.entries block ↔ EntryFree before.table.entries block := by
      unfold EntryFree
      rw [marks.outside (by omega)]
    rw [same, or_iff_left]
    intro fresh
    exact inside ⟨fresh.1, fresh.2.1⟩

theorem Marks.chained_new (marks : Marks before after start count) (sound : Sound before) :
    Chained after start block ↔ start ≤ block ∧ block < start + count ∧ block < before.table.total := by
  constructor
  · intro chained
    have low : start ≤ block := by exact_mod_cast chained.2.1
    refine ⟨low, ?_, marks.total ▸ chained.bound⟩
    by_contra past
    by_cases none : count = 0
    · -- nothing was marked
      have taken := chained.1.taken
      unfold EntryFree at taken
      rw [marks.outside (by omega)] at taken
      exact taken marks.startFree
    · have linked := chained.2.2.2 ((start + (count - 1) : Nat) : Int) (by omega) (by omega)
      rw [marks.inside (by omega) (by omega), chainEntry_hasNext] at linked
      omega
  · rintro ⟨low, high, bound⟩
    refine ⟨marks.fresh sound (by omega), by omega, by rw [marks.total]; omega, ?_⟩
    intro j lowJ highJ
    obtain ⟨j, rfl⟩ := Int.eq_ofNat_of_zero_le (show 0 ≤ j by omega)
    rw [marks.inside (by omega) (by omega), chainEntry_hasNext]
    omega

theorem Marks.chained_old (marks : Marks before after start count) (sound : Sound before)
    (ends : FreeEntriesEnd before) (different : other ≠ start) :
    Chained after other block ↔ Chained before other block := by
  constructor
  · intro chained
    have clean := marks.clean (sound.clean_of_free marks.bound marks.startFree) (Or.inl le_rfl)
    -- a walk from elsewhere does not enter the new chain
    have away : ∀ i : Nat, other ≤ i → i ≤ block → i < start ∨ start + count ≤ i := by
      intro i low high
      by_contra inside
      have here := chained.before low high
      by_cases fromBelow : other < start
      · exact clean.first (start - 1) (by omega)
          (here.2.2.2 ((start - 1 : Nat) : Int) (by omega) (by omega))
      · have linked := chained.1.clean.first (other - 1) (by omega)
        rw [marks.inside (by omega) (by omega), chainEntry_hasNext] at linked
        omega
    have low : other ≤ block := by exact_mod_cast chained.2.1
    have bound : other < before.table.total := marks.total ▸ chained.1.clean.bound
    refine ⟨⟨⟨bound, ?_⟩, ?_⟩, chained.2.1, ?_, ?_⟩
    · intro previous next linked
      by_cases inside : start ≤ previous ∧ previous < start + count
      · exact ends previous (by omega) (marks.free previous inside.1 inside.2 (by omega)) linked
      · apply chained.1.clean.first previous next
        rwa [marks.outside (by omega)]
    · have taken := chained.1.taken
      unfold EntryFree at taken ⊢
      rwa [marks.outside (by have := away other le_rfl low; omega)] at taken
    · rw [← marks.total]
      exact chained.2.2.1
    · intro j lowJ highJ
      obtain ⟨j, rfl⟩ := Int.eq_ofNat_of_zero_le (show 0 ≤ j by omega)
      have linked := chained.2.2.2 _ lowJ highJ
      rwa [marks.outside (by have := away j (by omega) (by omega); omega)] at linked
  · intro chained
    refine ⟨marks.held chained.1, chained.2.1, by rw [marks.total]; exact chained.2.2.1, ?_⟩
    intro j lowJ highJ
    obtain ⟨j, rfl⟩ := Int.eq_ofNat_of_zero_le (show 0 ≤ j by omega)
    have here := chained.before (show other ≤ j by omega) (by omega)
    have apart := marks.apart here.bound (here.taken sound)
    rw [marks.outside (by omega)]
    exact chained.2.2.2 _ lowJ highJ

end Marks

section Frees
variable {before after : Heap} {first other block : Nat}

theorem Frees.ends {start : Int} (frees : Frees before after start) (ends : FreeEntriesEnd before) :
    FreeEntriesEnd after := by
  intro block bound free linked
  obtain ⟨linkedBefore, misses⟩ := frees.hasNext linked
  unfold EntryFree at free
  rw [frees.missed _ misses] at free
  exact ends block (frees.total ▸ bound) free linkedBefore

theorem Frees.live {start : Int} (frees : Frees before after start) :
    liveBlocks after = liveBlocks before \
      {block | FreeReaches before.table.entries before.table.total start block} := by
  ext block
  unfold liveBlocks
  rw [Set.mem_sdiff, Set.mem_ofPred_eq, Set.mem_ofPred_eq, Set.mem_ofPred_eq, frees.total]
  by_cases reaches : FreeReaches before.table.entries before.table.total start block
  · have free : EntryFree after.table.entries block := by
      unfold EntryFree
      rw [frees.reached _ reaches]
      decide
    constructor
    · intro live
      exact absurd free live.2
    · intro live
      exact absurd reaches live.2
  · have same : EntryFree after.table.entries block ↔ EntryFree before.table.entries block := by
      unfold EntryFree
      rw [frees.missed _ reaches]
    rw [same, and_iff_left reaches]

theorem Frees.chained (frees : Frees before after first) (clean : Clean before first)
    (different : other ≠ first) : Chained after other block ↔ Chained before other block := by
  constructor
  · intro chained
    have taken := chained.1.taken
    have missed : ¬FreeReaches before.table.entries before.table.total first (other : Nat) := by
      intro reaches
      unfold EntryFree at taken
      rw [frees.reached _ reaches] at taken
      exact taken (by decide)
    have bound : other < before.table.total := frees.total ▸ chained.1.clean.bound
    refine ⟨⟨⟨bound, ?_⟩, ?_⟩, chained.2.1, frees.total ▸ chained.2.2.1,
      fun j low high => (frees.hasNext (chained.2.2.2 j low high)).1⟩
    · intro previous next linked
      apply chained.1.clean.first previous next
      rwa [frees.missed]
      intro reaches
      -- the walk would have gone on into `other`
      apply missed
      refine ⟨by have := reaches.1; omega, by omega, fun j low high => ?_⟩
      by_cases last : j = previous
      · rwa [last]
      · exact reaches.2.2 j low (by omega)
    · unfold EntryFree at taken ⊢
      rwa [frees.missed _ missed] at taken
  · intro chained
    refine ⟨frees.held chained.1 different, chained.2.1, frees.total.symm ▸ chained.2.2.1, ?_⟩
    intro j lowJ highJ
    obtain ⟨j, rfl⟩ := Int.eq_ofNat_of_zero_le (show 0 ≤ j by omega)
    have here := chained.before (show other ≤ j by omega) (by omega)
    rw [frees.missed _ (here.missed clean (Ne.symm different))]
    exact chained.2.2.2 _ lowJ highJ

theorem Frees.gone (frees : Frees before after first) (bound : first < before.table.total) :
    ¬Chained after first block := by
  intro chained
  have taken := chained.1.taken
  unfold EntryFree at taken
  rw [frees.reached _ ⟨le_rfl, by exact_mod_cast bound, fun j low high => absurd low (by omega)⟩] at taken
  exact taken (by decide)

end Frees

section Owns
variable {base heap after : Heap} {owned : Multiset Addr} {start count first : Nat} {ptr : Addr}

theorem Owns.refl (sound : Sound heap) (ends : FreeEntriesEnd heap) : Owns heap heap 0 where
  sound := sound
  ends := ends
  saddr := rfl
  total := rfl
  starts := fun ptr member => absurd member (Multiset.notMem_zero ptr)
  live := by simp
  fresh := fun ptr member => absurd member (Multiset.notMem_zero ptr)

theorem chainAt_congr {before after : Heap} (saddr : after.saddr = before.saddr)
    (same : ∀ other : Nat, ptr = heapBlockToAddress before other → ∀ block : Nat,
      (Chained after other block ↔ Chained before other block)) : chainAt after ptr = chainAt before ptr := by
  ext block
  constructor
  · rintro ⟨other, address, chained⟩
    rw [heapBlockToAddress_congr saddr] at address
    exact ⟨other, address, (same other address block).mp chained⟩
  · rintro ⟨other, address, chained⟩
    exact ⟨other, by rwa [heapBlockToAddress_congr saddr], (same other address block).mpr chained⟩

theorem Owns.malloc (owns : Owns base heap owned) (marks : Marks heap after start count) :
    Owns base after (heapBlockToAddress heap start ::ₘ owned) := by
  have sound := marks.sound owns.sound
  have fresh : chainAt after (heapBlockToAddress heap start) =
      {block | start ≤ block ∧ block < start + count ∧ block < heap.table.total} := by
    ext block
    rw [← heapBlockToAddress_congr marks.saddr, mem_chainAt sound (marks.total ▸ marks.bound)]
    exact marks.chained_new owns.sound
  have old : ∀ ptr ≠ heapBlockToAddress heap start, chainAt after ptr = chainAt heap ptr := by
    intro ptr different
    refine chainAt_congr marks.saddr (fun other address block => ?_)
    exact marks.chained_old owns.sound owns.ends (fun same => different (same ▸ address))
  -- before, nothing began at the new address
  have unused : chainAt heap (heapBlockToAddress heap start) = ∅ := by
    apply Set.eq_empty_of_forall_notMem
    intro block chained
    rw [mem_chainAt owns.sound marks.bound] at chained
    exact chained.1.taken marks.startFree
  refine ⟨sound, marks.ends owns.ends, marks.saddr.trans owns.saddr, marks.total.trans owns.total, ?_, ?_, ?_⟩
  · intro ptr member
    rcases Multiset.mem_cons.mp member with rfl | old
    · exact ⟨start, marks.total.symm ▸ marks.bound, (heapBlockToAddress_congr marks.saddr start).symm⟩
    · obtain ⟨other, bound, address⟩ := owns.starts ptr old
      exact ⟨other, marks.total.symm ▸ bound, address.trans (heapBlockToAddress_congr marks.saddr other).symm⟩
  · rw [marks.live, owns.live, Set.union_assoc, ← fresh]
    congr 1
    ext block
    constructor
    · rintro (⟨ptr, member, chained⟩ | chained)
      · by_cases same : ptr = heapBlockToAddress heap start
        · rw [same, unused] at chained
          exact chained.elim
        · exact ⟨ptr, Multiset.mem_cons_of_mem member, (old ptr same).symm ▸ chained⟩
      · exact ⟨_, Multiset.mem_cons_self _ _, chained⟩
    · rintro ⟨ptr, member, chained⟩
      by_cases same : ptr = heapBlockToAddress heap start
      · exact Or.inr (same ▸ chained)
      · rw [old ptr same] at chained
        exact Or.inl ⟨ptr, (Multiset.mem_cons.mp member).resolve_left same, chained⟩
  · intro ptr member
    by_cases same : ptr = heapBlockToAddress heap start
    · rw [same, fresh, Set.disjoint_left]
      intro block inside live
      have taken : block ∈ liveBlocks heap := owns.live ▸ Or.inl live
      exact taken.2 (marks.free block inside.1 inside.2.1 inside.2.2)
    · rw [old ptr same]
      exact owns.fresh ptr ((Multiset.mem_cons.mp member).resolve_left same)

theorem Owns.frees (owns : Owns base heap owned) (frees : Frees heap after first) (clean : Clean heap first)
    (member : heapBlockToAddress heap first ∈ owned) :
    Owns base after (owned.erase (heapBlockToAddress heap first)) := by
  have sound := frees.sound owns.sound clean
  have gone : chainAt after (heapBlockToAddress heap first) = ∅ := by
    apply Set.eq_empty_of_forall_notMem
    intro block chained
    rw [← heapBlockToAddress_congr frees.saddr, mem_chainAt sound (frees.total.symm ▸ clean.bound)] at chained
    exact frees.gone clean.bound chained
  have old : ∀ ptr ≠ heapBlockToAddress heap first, chainAt after ptr = chainAt heap ptr := by
    intro ptr different
    refine chainAt_congr frees.saddr (fun other address block => ?_)
    exact frees.chained clean (fun same => different (same ▸ address))
  -- of the live blocks the walk takes those of the chain
  have taken : ∀ block ∈ liveBlocks heap,
      (FreeReaches heap.table.entries heap.table.total first (block : Nat) ↔
        block ∈ chainAt heap (heapBlockToAddress heap first)) := by
    intro block live
    rw [mem_chainAt owns.sound clean.bound]
    constructor
    · intro reaches
      refine ⟨⟨clean, ?_⟩, reaches⟩
      intro free
      by_cases here : first = block
      · exact live.2 (here ▸ free)
      · exact owns.ends first clean.bound free (reaches.2.2 first le_rfl (by have := reaches.1; omega))
    · intro chained
      exact chained.2
  refine ⟨sound, frees.ends owns.ends, frees.saddr.trans owns.saddr, frees.total.trans owns.total, ?_, ?_, ?_⟩
  · intro ptr kept
    obtain ⟨other, bound, address⟩ := owns.starts ptr (Multiset.mem_of_mem_erase kept)
    exact ⟨other, frees.total.symm ▸ bound, address.trans (heapBlockToAddress_congr frees.saddr other).symm⟩
  · ext block
    rw [frees.live, Set.mem_sdiff, Set.mem_ofPred_eq]
    constructor
    · rintro ⟨live, missed⟩
      rw [taken block live] at missed
      rw [owns.live] at live
      refine live.imp_right ?_
      rintro ⟨ptr, here, chained⟩
      have different : ptr ≠ heapBlockToAddress heap first := fun same => missed (same ▸ chained)
      exact ⟨ptr, (Multiset.mem_erase_of_ne different).mpr here, (old ptr different).symm ▸ chained⟩
    · intro live
      have before : block ∈ liveBlocks heap := by
        rw [owns.live]
        refine live.imp_right ?_
        rintro ⟨ptr, here, chained⟩
        by_cases same : ptr = heapBlockToAddress heap first
        · rw [same, gone] at chained
          exact chained.elim
        · exact ⟨ptr, Multiset.mem_of_mem_erase here, old ptr same ▸ chained⟩
      refine ⟨before, ?_⟩
      rw [taken block before]
      intro chained
      rcases live with inBase | ⟨ptr, here, other⟩
      · exact Set.disjoint_left.mp (owns.fresh _ member) chained inBase
      · by_cases same : ptr = heapBlockToAddress heap first
        · rw [same, gone] at other
          exact other
        · rw [old ptr same] at other
          obtain ⟨left, leftAt, leftChain⟩ := other
          have missed := leftChain.missed clean (fun equal => same (equal ▸ leftAt))
          exact missed ((mem_chainAt owns.sound clean.bound).mp chained).2
  · intro ptr kept
    by_cases same : ptr = heapBlockToAddress heap first
    · rw [same, gone]
      exact Set.empty_disjoint _
    · rw [old ptr same]
      exact owns.fresh ptr (Multiset.mem_of_mem_erase kept)

theorem Owns.free (owns : Owns base heap owned) (clean : Clean heap first)
    (member : heapBlockToAddress heap first ∈ owned) :
    Owns base (heapFree heap (heapBlockToAddress heap first))
      (owned.erase (heapBlockToAddress heap first)) :=
  owns.frees (owns.sound.heapFree_block clean.bound) clean member

theorem Owns.restored (owns : Owns base heap 0) : liveBlocks heap = liveBlocks base := by
  rw [owns.live]
  simp

theorem Owns.leaked (owns : Owns base heap owned) (member : ptr ∈ owned) (held : HeldAt heap ptr) :
    liveBlocks heap ≠ liveBlocks base := by
  intro same
  obtain ⟨block, chained⟩ := held.chain_nonempty
  have live : block ∈ liveBlocks heap := owns.live ▸ Or.inr ⟨ptr, member, chained⟩
  exact Set.disjoint_left.mp (owns.fresh ptr member) chained (same ▸ live)

end Owns

theorem bootMemory_ends : FreeEntriesEnd bootMemory.heap := by
  intro block bound _ linked
  rw [bootMemory_exact.rest block bound (by simp)] at linked
  exact absurd linked (by decide)

theorem pagedHeap_ends {count : Nat} (bound : count ≤ 25600) : FreeEntriesEnd (pagedHeap count) := by
  induction count with
  | zero => exact bootMemory_ends
  | succ count ih => exact ((pagedHeap_paged (by omega)).marks (by omega)).ends (ih (by omega))

end PeachOS
