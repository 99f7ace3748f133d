import PeachOS.PagingWords

/-! The two-level table that `paging_new_4gb` builds, and what it takes from the
heap to build it. -/

namespace PeachOS
open ByteMemory BlockPool

/-- A chunk, its directory and 1024 tables, each on a page of its own. -/
structure PageTables (bytes : Bytes) (chunk directory : Addr) (tables : Nat → Addr) : Prop where
  chunkAligned : PageAligned chunk
  directoryAligned : PageAligned directory
  tablesAligned : ∀ i < 1024, PageAligned (tables i)
  chunkWord : directoryEntry bytes chunk = directory
  directoryWords : ∀ i < 1024, frameOf (load32 bytes (slot directory i)) = tables i
  tablesDistinct : ∀ i < 1024, ∀ j < 1024, tables i = tables j → i = j
  notDirectory : ∀ i < 1024, tables i ≠ directory
  notChunk : ∀ i < 1024, tables i ≠ chunk

theorem PageTables.congr {before after : Bytes} {chunk directory : Addr} {tables : Nat → Addr}
    (paged : PageTables before chunk directory tables)
    (sameChunk : ∀ address, frameOf address = chunk → after address = before address)
    (sameDirectory : ∀ address, frameOf address = directory → after address = before address) :
    PageTables after chunk directory tables where
  chunkAligned := paged.chunkAligned
  directoryAligned := paged.directoryAligned
  tablesAligned := paged.tablesAligned
  chunkWord := by
    have word := load32_congr_page paged.chunkAligned (by omega : 0 < 1024) sameChunk
    rw [slot_zero] at word
    exact word.trans paged.chunkWord
  directoryWords := by
    intro i bound
    rw [load32_congr_page paged.directoryAligned bound sameDirectory]
    exact paged.directoryWords i bound
  tablesDistinct := paged.tablesDistinct
  notDirectory := paged.notDirectory
  notChunk := paged.notChunk

section Fill
variable {entry page : Addr} (offset flags : Word)

theorem pagingFillTable_entry (aligned : PageAligned entry) (pageAligned : PageAligned page)
    (remaining b : Nat) (bytes : Bytes) (short : b + remaining ≤ 1024) {index : Nat}
    (bound : index < 1024) :
    load32 (pagingFillTable entry offset flags remaining b bytes) (slot page index) =
      if page = entry ∧ b ≤ index ∧ index < b + remaining then
        (offset + BitVec.ofNat 32 (index * pagingPageSize)) ||| flags
      else load32 bytes (slot page index) := by
  induction remaining generalizing b bytes with
  | zero => rw [pagingFillTable, if_neg (by omega)]
  | succ remaining ih =>
    rw [pagingFillTable, ih (b + 1) _ (by omega),
      load32_store32_slot bytes _ aligned pageAligned (by omega) bound]
    by_cases here : page = entry ∧ index = b
    · rw [if_neg (by omega), if_pos here, if_pos ⟨here.1, by omega⟩, here.2]
    · by_cases later : page = entry ∧ b + 1 ≤ index ∧ index < b + 1 + remaining
      · rw [if_pos later, if_pos ⟨later.1, by omega⟩]
      · rw [if_neg later, if_neg here, if_neg]
        rintro ⟨same, low, high⟩
        have after : index ≠ b := fun equal => here ⟨same, equal⟩
        exact later ⟨same, by omega, by omega⟩

theorem pagingFillTable_outside (aligned : PageAligned entry) (remaining b : Nat) (bytes : Bytes)
    (short : b + remaining ≤ 1024) {address : Addr} (outside : frameOf address ≠ entry) :
    pagingFillTable entry offset flags remaining b bytes address = bytes address := by
  induction remaining generalizing b bytes with
  | zero => rfl
  | succ remaining ih =>
    rw [pagingFillTable, ih (b + 1) _ (by omega), store32_outside _ _ aligned (by omega) outside]

end Fill

/-- The blocks of the directory and of the first `i` tables. -/
def builtBlocks (directory : Nat) (tables : Nat → Nat) (i : Nat) : Set Nat :=
  insert directory {block | ∃ k < i, block = tables k}

/-- The state of `paging_new_4gb` when it comes to table `i`. -/
structure Building (before memory : Memory) (flags : Word) (directory : Nat) (tables : Nat → Nat)
    (i : Nat) : Prop where
  takes : Takes before memory (builtBlocks directory tables i)
  distinct : ∀ j < i, ∀ k < i, tables j = tables k → j = k
  notDirectory : ∀ k < i, tables k ≠ directory
  words : ∀ k < i, load32 memory.bytes (slot (heapBlockToAddress before.heap directory) k) =
    heapBlockToAddress before.heap (tables k) ||| flags ||| pagingIsWriteable
  entries : ∀ k < i, ∀ b < 1024,
    load32 memory.bytes (slot (heapBlockToAddress before.heap (tables k)) b) =
      BitVec.ofNat 32 (k * 4194304 + b * 4096) ||| flags

theorem mem_builtBlocks_directory (directory : Nat) (tables : Nat → Nat) (i : Nat) :
    directory ∈ builtBlocks directory tables i := Set.mem_insert _ _

theorem mem_builtBlocks_table {directory i k : Nat} (tables : Nat → Nat) (bound : k < i) :
    tables k ∈ builtBlocks directory tables i := Set.mem_insert_of_mem _ ⟨k, bound, rfl⟩

theorem builtBlocks_succ (directory : Nat) (tables : Nat → Nat) (i fresh : Nat) :
    builtBlocks directory (Function.update tables i fresh) (i + 1) =
      builtBlocks directory tables i ∪ {fresh} := by
  ext block
  simp only [builtBlocks, Set.mem_insert_iff, Set.mem_ofPred_eq, Set.mem_union, Set.mem_singleton_iff]
  constructor
  · rintro (here | ⟨k, bound, same⟩)
    · exact Or.inl (Or.inl here)
    · by_cases last : k = i
      · rw [last, Function.update_self] at same
        exact Or.inr same
      · rw [Function.update_of_ne last] at same
        exact Or.inl (Or.inr ⟨k, by omega, same⟩)
  · rintro ((here | ⟨k, bound, same⟩) | same)
    · exact Or.inl here
    · exact Or.inr ⟨k, by omega, by rw [Function.update_of_ne (by omega)]; exact same⟩
    · exact Or.inr ⟨i, by omega, by rw [Function.update_self]; exact same⟩

section Building
variable {before memory : Memory} {flags : Word} {directory i : Nat} {tables : Nat → Nat}

theorem Building.next (pool : Pool before.heap)
    (building : Building before memory flags directory tables i) (bound : i < 1024)
    {size : Word} (roundable : Roundable size) (single : blocksFor size = 1)
    (success : (kzalloc size memory).1 ≠ 0) :
    ∃ fresh : Nat, Building before
      { (kzalloc size memory).2 with
        bytes := store32
          (pagingFillTable (kzalloc size memory).1 (BitVec.ofNat 32 (i * 4194304)) flags 1024 0
            (kzalloc size memory).2.bytes)
          (slot (heapBlockToAddress before.heap directory) i)
          ((kzalloc size memory).1 ||| flags ||| pagingIsWriteable) }
      flags directory (Function.update tables i fresh) (i + 1) := by
  obtain ⟨fresh, address, taken⟩ :=
    kzalloc_page (building.takes.pool pool) size roundable single success
  rw [building.takes.address] at address
  have takes := building.takes.trans taken
  have inPool : ∀ block ∈ builtBlocks directory tables i ∪ {fresh}, block < before.heap.table.total :=
    fun block member => (takes.free block member).1
  have old : ∀ block ∈ builtBlocks directory tables i, block ≠ fresh := by
    rintro block member rfl
    exact building.takes.separate taken rfl member
  have freshBound := inPool fresh (Or.inr rfl)
  have pages : ∀ block ∈ builtBlocks directory tables i,
      heapBlockToAddress before.heap block ≠ heapBlockToAddress before.heap fresh :=
    fun block member same => old block member
      (heapBlockToAddress_inj pool (inPool block (Or.inl member)) freshBound same)
  have directoryIn := mem_builtBlocks_directory directory tables i
  have directoryAligned := heapBlockToAddress_aligned pool directory
  have freshAligned := heapBlockToAddress_aligned pool fresh
  have directoryPage := pages directory directoryIn
  -- the fresh page only: zeroed by kzalloc, then filled
  have zeroed : ∀ page, PageAligned page → page ≠ heapBlockToAddress before.heap fresh →
      ∀ index < 1024, load32 (kzalloc size memory).2.bytes (slot page index) =
        load32 memory.bytes (slot page index) := by
    intro page aligned different index small
    apply load32_congr_page aligned small
    intro target inPage
    apply taken.frame
    rintro block rfl
    rw [building.takes.address, inPage]
    exact different
  have fillEntry : ∀ page, PageAligned page → ∀ index < 1024, _ := fun page aligned index bound =>
    pagingFillTable_entry (BitVec.ofNat 32 (i * 4194304)) flags freshAligned
      aligned 1024 0 (kzalloc size memory).2.bytes (by omega) bound
  have fillOutside : ∀ target, frameOf target ≠ heapBlockToAddress before.heap fresh → _ :=
    fun target outside => pagingFillTable_outside (BitVec.ofNat 32 (i * 4194304)) flags
      freshAligned 1024 0 (kzalloc size memory).2.bytes (by omega) outside
  rw [address]
  generalize pagingFillTable (heapBlockToAddress before.heap fresh) (BitVec.ofNat 32 (i * 4194304))
    flags 1024 0 (kzalloc size memory).2.bytes = filled at fillEntry fillOutside ⊢
  refine ⟨fresh, ⟨?_, ?_, ?_, ?_, ?_⟩⟩
  · rw [builtBlocks_succ]
    have filledTakes := takes.store (Or.inr rfl : fresh ∈ builtBlocks directory tables i ∪ {fresh})
      fillOutside
    exact filledTakes.store (Or.inl directoryIn)
      (fun target outside => store32_outside _ _ directoryAligned bound outside)
  · intro j jBound k kBound same
    by_cases jLast : j = i <;> by_cases kLast : k = i
    · omega
    · rw [jLast, Function.update_self, Function.update_of_ne kLast] at same
      exact absurd same.symm (old _ (mem_builtBlocks_table tables (by omega)))
    · rw [kLast, Function.update_self, Function.update_of_ne jLast] at same
      exact absurd same (old _ (mem_builtBlocks_table tables (by omega)))
    · rw [Function.update_of_ne jLast, Function.update_of_ne kLast] at same
      exact building.distinct j (by omega) k (by omega) same
  · intro k kBound
    by_cases last : k = i
    · rw [last, Function.update_self]
      exact fun same => old directory directoryIn same.symm
    · rw [Function.update_of_ne last]
      exact building.notDirectory k (by omega)
  · intro k kBound
    simp only
    rw [load32_store32_slot _ _ directoryAligned directoryAligned bound (by omega)]
    by_cases last : k = i
    · rw [if_pos ⟨rfl, last⟩, last, Function.update_self]
    · rw [if_neg (fun same => last same.2), Function.update_of_ne last,
        fillEntry _ directoryAligned k (by omega),
        if_neg (fun same => directoryPage same.1), zeroed _ directoryAligned directoryPage k (by omega)]
      exact building.words k (by omega)
  · intro k kBound b bBound
    have aligned : PageAligned (heapBlockToAddress before.heap (Function.update tables i fresh k)) :=
      heapBlockToAddress_aligned pool _
    have notDirectoryPage : heapBlockToAddress before.heap (Function.update tables i fresh k) ≠
        heapBlockToAddress before.heap directory := by
      by_cases last : k = i
      · rw [last, Function.update_self]
        exact directoryPage.symm
      · rw [Function.update_of_ne last]
        intro same
        exact building.notDirectory k (by omega) (heapBlockToAddress_inj pool
          (inPool _ (Or.inl (mem_builtBlocks_table tables (by omega)))) (inPool _ (Or.inl directoryIn)) same)
    simp only
    rw [load32_store32_slot _ _ directoryAligned aligned bound bBound,
      if_neg (fun same => notDirectoryPage same.1), fillEntry _ aligned b bBound]
    by_cases last : k = i
    · rw [last, Function.update_self, if_pos ⟨rfl, by omega, by omega⟩, ← BitVec.ofNat_add]
    · have member : tables k ∈ builtBlocks directory tables i := mem_builtBlocks_table tables (by omega)
      rw [Function.update_of_ne last, if_neg (fun same => pages _ member same.1),
        zeroed _ (heapBlockToAddress_aligned pool _) (pages _ member) b bBound]
      exact building.entries k (by omega) b bBound

end Building

theorem pageRequest : Roundable (BitVec.ofNat 32 (4 * pagingTotalEntriesPerTable)) ∧
    blocksFor (BitVec.ofNat 32 (4 * pagingTotalEntriesPerTable)) = 1 := by decide

theorem pagingNewTables_building {before : Memory} (pool : Pool before.heap) {flags : Word}
    {directory : Nat} (remaining i : Nat) (tables : Nat → Nat) (memory after : Memory)
    (count : i + remaining = 1024) (building : Building before memory flags directory tables i)
    (built : pagingNewTables (heapBlockToAddress before.heap directory) flags remaining i
      (BitVec.ofNat 32 (i * 4194304)) memory = some after) :
    ∃ tables, Building before after flags directory tables 1024 := by
  induction remaining generalizing i tables memory with
  | zero =>
    rw [pagingNewTables, Option.some.injEq] at built
    obtain rfl : i = 1024 := by omega
    exact ⟨tables, built ▸ building⟩
  | succ remaining ih =>
    simp only [pagingNewTables] at built
    split at built
    · cases built
    next success =>
      obtain ⟨fresh, next⟩ := building.next pool (by omega) pageRequest.1 pageRequest.2 success
      have offset : BitVec.ofNat 32 (i * 4194304) +
          BitVec.ofNat 32 (pagingTotalEntriesPerTable * pagingPageSize) =
          BitVec.ofNat 32 ((i + 1) * 4194304) := by
        rw [← BitVec.ofNat_add, show i * 4194304 + pagingTotalEntriesPerTable * pagingPageSize =
          (i + 1) * 4194304 by unfold pagingTotalEntriesPerTable pagingPageSize; omega]
      rw [offset] at built
      exact ih (i + 1) _ _ (by omega) next built

/-- What a successful `paging_new_4gb` leaves: it took 1026 free blocks, and they
hold a chunk, a directory and 1024 tables that map every page onto itself. -/
structure NewPaging (before after : Memory) (flags : Word) (chunk directory : Nat)
    (tables : Nat → Nat) : Prop where
  takes : Takes before after (insert chunk (builtBlocks directory tables 1024))
  paged : PageTables after.bytes (heapBlockToAddress before.heap chunk)
    (heapBlockToAddress before.heap directory) (fun i => heapBlockToAddress before.heap (tables i))
  distinct : ∀ j < 1024, ∀ k < 1024, tables j = tables k → j = k
  notDirectory : ∀ k < 1024, tables k ≠ directory
  notChunk : chunk ∉ builtBlocks directory tables 1024
  entries : ∀ k < 1024, ∀ b < 1024,
    load32 after.bytes (slot (heapBlockToAddress before.heap (tables k)) b) =
      BitVec.ofNat 32 (k * 4194304 + b * 4096) ||| flags

theorem setWidth_flags_small (flags : BitVec 8) : (flags.setWidth 32).toNat < 256 := by
  rw [BitVec.toNat_setWidth]
  have := flags.isLt
  omega

theorem pagingNew4gb_new {before after : Memory} {flags : BitVec 8} {chunkPtr : Addr}
    (pool : Pool before.heap) (built : pagingNew4gb flags before = some (chunkPtr, after)) :
    ∃ (chunk directory : Nat) (tables : Nat → Nat),
      chunkPtr = heapBlockToAddress before.heap chunk ∧
      NewPaging before after (flags.setWidth 32) chunk directory tables := by
  simp only [pagingNew4gb] at built
  split at built
  · cases built
  next directorySuccess =>
    obtain ⟨directory, directoryPtr, directoryTakes⟩ :=
      kzalloc_page pool _ pageRequest.1 pageRequest.2 directorySuccess
    rw [directoryPtr] at built
    obtain ⟨memory, tablesBuilt, rest⟩ := Option.bind_eq_some_iff.mp built
    have start : Building before (kzalloc (BitVec.ofNat 32 (4 * pagingTotalEntriesPerTable)) before).2
        (flags.setWidth 32) directory (fun _ => 0) 0 := by
      refine ⟨?_, by omega, by omega, by omega, by omega⟩
      simpa [builtBlocks] using directoryTakes
    have offset : (0 : Word) = BitVec.ofNat 32 (0 * 4194304) := rfl
    rw [offset] at tablesBuilt
    obtain ⟨tables, building⟩ := pagingNewTables_building pool pagingTotalEntriesPerTable 0 _ _ memory
      rfl start tablesBuilt
    split at rest
    · cases rest
    next chunkSuccess =>
      obtain ⟨chunk, chunkAddress, chunkTakes⟩ :=
        kzalloc_page (building.takes.pool pool) 4 (by decide) (by decide) chunkSuccess
      rw [building.takes.address] at chunkAddress
      obtain ⟨rfl, rfl⟩ := Prod.mk.inj (Option.some.inj rest)
      have takes := building.takes.trans chunkTakes
      have notChunk : chunk ∉ builtBlocks directory tables 1024 :=
        building.takes.separate chunkTakes rfl
      have inPool : ∀ block ∈ builtBlocks directory tables 1024 ∪ {chunk},
          block < before.heap.table.total := fun block member => (takes.free block member).1
      have address : ∀ left ∈ builtBlocks directory tables 1024 ∪ {chunk},
          ∀ right ∈ builtBlocks directory tables 1024 ∪ {chunk},
          heapBlockToAddress before.heap left = heapBlockToAddress before.heap right → left = right :=
        fun left leftIn right rightIn same =>
          heapBlockToAddress_inj pool (inPool left leftIn) (inPool right rightIn) same
      have directoryIn := mem_builtBlocks_directory directory tables 1024
      have chunkAligned := heapBlockToAddress_aligned pool chunk
      have kept : ∀ block ∈ builtBlocks directory tables 1024, ∀ target,
          frameOf target = heapBlockToAddress before.heap block →
          store32 (kzalloc 4 memory).2.bytes (heapBlockToAddress before.heap chunk)
            (heapBlockToAddress before.heap directory) target = memory.bytes target := by
        intro block member target inPage
        have other : frameOf target ≠ heapBlockToAddress before.heap chunk := by
          rw [inPage]
          intro same
          exact notChunk (address block (Or.inl member) chunk (Or.inr rfl) same ▸ member)
        have stored := store32_outside (kzalloc 4 memory).2.bytes
          (heapBlockToAddress before.heap directory) chunkAligned (by omega : 0 < 1024) other
        rw [slot_zero] at stored
        rw [stored]
        apply chunkTakes.frame
        rintro _ rfl
        rw [building.takes.address]
        exact other
      rw [chunkAddress]
      refine ⟨chunk, directory, tables, rfl, ⟨?_, ?_, building.distinct, building.notDirectory, notChunk, ?_⟩⟩
      · rw [← Set.union_singleton]
        apply takes.store (Or.inr rfl : chunk ∈ builtBlocks directory tables 1024 ∪ {chunk})
        intro target outside
        have stored := store32_outside (kzalloc 4 memory).2.bytes
          (heapBlockToAddress before.heap directory) chunkAligned (by omega : 0 < 1024) outside
        rwa [slot_zero] at stored
      · have flagsSmall := setWidth_flags_small flags
        refine ⟨chunkAligned, heapBlockToAddress_aligned pool _,
          fun i _ => heapBlockToAddress_aligned pool _, load32_store32 _ _ _, ?_, ?_, ?_, ?_⟩
        · intro i bound
          rw [load32_congr_page (heapBlockToAddress_aligned pool _) bound (kept directory directoryIn),
            building.words i bound, BitVec.or_assoc, frameOf_or _ (heapBlockToAddress_aligned pool _)]
          exact flags_or_small (by omega) (by decide)
        · intro i iBound j jBound same
          exact building.distinct i iBound j jBound
            (address _ (Or.inl (mem_builtBlocks_table tables iBound)) _
              (Or.inl (mem_builtBlocks_table tables jBound)) same)
        · intro i bound same
          exact building.notDirectory i bound
            (address _ (Or.inl (mem_builtBlocks_table tables bound)) _ (Or.inl directoryIn) same)
        · intro i bound same
          have member : tables i ∈ builtBlocks directory tables 1024 := mem_builtBlocks_table tables bound
          exact notChunk (address _ (Or.inl member) _ (Or.inr rfl) same ▸ member)
      · intro k kBound b bBound
        rw [load32_congr_page (heapBlockToAddress_aligned pool _) bBound
          (kept _ (mem_builtBlocks_table tables kBound))]
        exact building.entries k kBound b bBound

end PeachOS
