import PeachOS.Paging
import PeachOS.HeapChains

/-! Page frames, the words of a page, and the single-block allocations that hand
out pages. -/

namespace PeachOS
open ByteMemory BlockPool

def PageAligned (address : Addr) : Prop := address.toNat % pagingPageSize = 0

instance (address : Addr) : Decidable (PageAligned address) :=
  inferInstanceAs (Decidable (_ = _))

theorem pagingIsAligned_iff (address : Addr) : pagingIsAligned address = true ↔ PageAligned address := by
  simp only [pagingIsAligned, PageAligned, beq_iff_eq]

theorem frameOf_eq_shift (entry : Word) : frameOf entry = (entry >>> 12) <<< 12 := by
  have low : ∀ bit < 12, (0xfffff000#32).getLsbD bit = false := by decide
  have high : ∀ bit < 32, 12 ≤ bit → (0xfffff000#32).getLsbD bit = true := by decide
  apply BitVec.eq_of_getLsbD_eq
  intro bit bound
  simp only [frameOf, BitVec.getLsbD_and, BitVec.getLsbD_shiftLeft, BitVec.getLsbD_ushiftRight]
  by_cases small : bit < 12
  · simp [low bit small, small]
  · rw [high bit bound (by omega)]
    simp only [Bool.and_true, bound, decide_true, Bool.true_and, small, decide_false, Bool.not_false]
    congr 1
    omega

theorem frameOf_toNat (entry : Word) : (frameOf entry).toNat = entry.toNat / 4096 * 4096 := by
  have bound := entry.isLt
  rw [frameOf_eq_shift]
  simp only [BitVec.toNat_shiftLeft, BitVec.toNat_ushiftRight, Nat.shiftLeft_eq,
    Nat.shiftRight_eq_div_pow]
  omega

theorem frameOf_aligned (entry : Word) : PageAligned (frameOf entry) := by
  unfold PageAligned pagingPageSize
  rw [frameOf_toNat]
  omega

theorem frameOf_of_aligned {address : Addr} (aligned : PageAligned address) :
    frameOf address = address := by
  apply BitVec.eq_of_toNat_eq
  unfold PageAligned pagingPageSize at aligned
  rw [frameOf_toNat]
  omega

theorem frameOf_within {page : Addr} (aligned : PageAligned page) {i : Nat} (bound : i < 4096) :
    frameOf (page + BitVec.ofNat 32 i) = page := by
  apply BitVec.eq_of_toNat_eq
  have := page.isLt
  unfold PageAligned pagingPageSize at aligned
  rw [frameOf_toNat, BitVec.toNat_add, BitVec.toNat_ofNat]
  omega

theorem frameOf_apart {page address : Addr} (aligned : PageAligned page) (other : frameOf address ≠ page) :
    4096 ≤ (address - page).toNat := by
  by_contra close
  have within := frameOf_within aligned (not_le.mp close)
  rw [BitVec.ofNat_toNat, BitVec.setWidth_eq, BitVec.add_comm, BitVec.sub_add_cancel] at within
  exact other within

theorem frameOf_or {address : Addr} (flags : Word) (aligned : PageAligned address)
    (small : flags.toNat < 4096) : frameOf (address ||| flags) = address := by
  have noFlags : flags >>> 12 = 0#32 := by
    apply BitVec.eq_of_toNat_eq
    simp only [BitVec.toNat_ushiftRight, Nat.shiftRight_eq_div_pow, BitVec.toNat_ofNat]
    omega
  rw [frameOf_eq_shift, BitVec.ushiftRight_or_distrib, noFlags, BitVec.or_zero, ← frameOf_eq_shift,
    frameOf_of_aligned aligned]

theorem lowByte_or {address : Addr} (flags : Word) (aligned : PageAligned address) :
    (address ||| flags).extractLsb' 0 8 = flags.extractLsb' 0 8 := by
  have none : address.extractLsb' 0 8 = 0#8 := by
    apply BitVec.eq_of_toNat_eq
    unfold PageAligned pagingPageSize at aligned
    rw [BitVec.extractLsb'_toNat, Nat.shiftRight_zero, BitVec.toNat_ofNat]
    omega
  rw [BitVec.extractLsb'_or, none, BitVec.zero_or]

theorem pagingAlignToLowerPage_eq (address : Addr) : pagingAlignToLowerPage address = frameOf address := by
  apply BitVec.eq_of_toNat_eq
  have bound := address.isLt
  rw [frameOf_toNat]
  unfold pagingAlignToLowerPage pagingPageSize
  simp only [BitVec.toNat_sub, BitVec.toNat_ofNat]
  omega

theorem pagingGetPhysicalAddress_eq (bytes : Bytes) (directory virt : Addr) :
    pagingGetPhysicalAddress bytes directory virt =
      frameOf (pagingGet bytes directory (frameOf virt)) + BitVec.ofNat 32 (virt.toNat % pagingPageSize) := by
  have difference : virt - frameOf virt = BitVec.ofNat 32 (virt.toNat % pagingPageSize) := by
    apply BitVec.eq_of_toNat_eq
    have := virt.isLt
    unfold pagingPageSize
    rw [BitVec.toNat_sub, frameOf_toNat, BitVec.toNat_ofNat]
    omega
  simp only [pagingGetPhysicalAddress, pagingAlignToLowerPage_eq, difference]

theorem flags_or_small {left right : Word} (leftSmall : left.toNat < 4096)
    (rightSmall : right.toNat < 4096) : (left ||| right).toNat < 4096 := by
  rw [BitVec.toNat_or]
  exact Nat.or_lt_two_pow (n := 12) leftSmall rightSmall

section Slots
variable {page other : Addr} {index otherIndex : Nat}

theorem slot_toNat (aligned : PageAligned page) (bound : index < 1024) :
    (slot page index).toNat = page.toNat + 4 * index := by
  have := page.isLt
  unfold PageAligned pagingPageSize at aligned
  unfold slot
  rw [BitVec.toNat_add, BitVec.toNat_ofNat]
  omega

theorem slot_aligned (aligned : PageAligned page) (bound : index < 1024) :
    (slot page index).toNat % 4 = 0 := by
  rw [slot_toNat aligned bound]
  unfold PageAligned pagingPageSize at aligned
  omega

theorem frameOf_slot (aligned : PageAligned page) (bound : index < 1024) : frameOf (slot page index) = page :=
  frameOf_within aligned (by omega)

theorem slot_inj (aligned : PageAligned page) (otherAligned : PageAligned other)
    (bound : index < 1024) (otherBound : otherIndex < 1024) :
    slot page index = slot other otherIndex ↔ page = other ∧ index = otherIndex := by
  constructor
  · intro same
    have values := congrArg BitVec.toNat same
    rw [slot_toNat aligned bound, slot_toNat otherAligned otherBound] at values
    unfold PageAligned pagingPageSize at aligned otherAligned
    exact ⟨BitVec.eq_of_toNat_eq (by omega), by omega⟩
  · rintro ⟨rfl, rfl⟩
    rfl

theorem load32_store32_slot (bytes : Bytes) (value : Word) (aligned : PageAligned page)
    (otherAligned : PageAligned other) (bound : index < 1024) (otherBound : otherIndex < 1024) :
    load32 (store32 bytes (slot page index) value) (slot other otherIndex) =
      if other = page ∧ otherIndex = index then value else load32 bytes (slot other otherIndex) := by
  by_cases same : slot other otherIndex = slot page index
  · rw [if_pos ((slot_inj otherAligned aligned otherBound bound).mp same), same, load32_store32]
  · rw [if_neg (fun equal => same ((slot_inj otherAligned aligned otherBound bound).mpr equal)),
      load32_store32_ne bytes value (slot_aligned aligned bound)
        (slot_aligned otherAligned otherBound) same]

theorem slot_zero (page : Addr) : slot page 0 = page := by
  unfold slot
  rw [Nat.mul_zero]
  exact BitVec.add_zero page

theorem frameOf_slot_add (aligned : PageAligned page) (bound : index < 1024) {i : Nat} (small : i < 4) :
    frameOf (slot page index + BitVec.ofNat 32 i) = page := by
  unfold slot
  rw [BitVec.add_assoc, ← BitVec.ofNat_add]
  exact frameOf_within aligned (by omega)

theorem store32_outside (bytes : Bytes) (value : Word) (aligned : PageAligned page)
    (bound : index < 1024) {address : Addr} (outside : frameOf address ≠ page) :
    store32 bytes (slot page index) value address = bytes address := by
  apply store32_other
  rintro i small rfl
  exact outside (frameOf_slot_add aligned bound small)

end Slots

theorem fill_outside (bytes : Bytes) (value : Byte) {page address : Addr} {count : Nat}
    (aligned : PageAligned page) (short : count ≤ 4096) (outside : frameOf address ≠ page) :
    fill bytes page count value address = bytes address := by
  rw [fill, if_neg]
  exact not_lt.mpr (le_trans short (frameOf_apart aligned outside))

theorem load32_congr_page {before after : Bytes} {page : Addr} {index : Nat}
    (aligned : PageAligned page) (bound : index < 1024)
    (same : ∀ address, frameOf address = page → after address = before address) :
    load32 after (slot page index) = load32 before (slot page index) :=
  load32_congr (fun _ small => same _ (frameOf_slot_add aligned bound small))

/-- The pool of the kernel heap: page-aligned, and short enough for signed offsets. -/
structure Pool (heap : Heap) : Prop where
  aligned : PageAligned heap.saddr
  small : heap.table.total * 4096 ≤ 2 ^ 31

theorem heapBlockToAddress_aligned {heap : Heap} (pool : Pool heap) (block : Nat) :
    PageAligned (heapBlockToAddress heap block) := by
  have aligned := pool.aligned
  have offset : BitVec.ofInt 32 ((block : Int) * heapBlockSize) = BitVec.ofNat 32 (block * 4096) := by
    rw [show (block : Int) * (heapBlockSize : Nat) = ((block * heapBlockSize : Nat) : Int) from
      (Int.natCast_mul _ _).symm, BitVec.ofInt_natCast]
  unfold PageAligned pagingPageSize at aligned ⊢
  unfold heapBlockToAddress
  rw [offset, BitVec.toNat_add, BitVec.toNat_ofNat]
  omega

theorem heapBlockToAddress_inj {heap : Heap} (pool : Pool heap) {left right : Nat}
    (leftBound : left < heap.table.total) (rightBound : right < heap.table.total)
    (same : heapBlockToAddress heap left = heapBlockToAddress heap right) : left = right := by
  have small := pool.small
  have leftBlock := heapAddressToBlock_block heap left (by omega)
  have rightBlock := heapAddressToBlock_block heap right (by omega)
  rw [same, rightBlock] at leftBlock
  omega

/-- `after` comes from `before` by taking the single blocks `blocks`, which were free. -/
structure Takes (before after : Memory) (blocks : Set Nat) : Prop where
  saddr : after.heap.saddr = before.heap.saddr
  total : after.heap.table.total = before.heap.table.total
  free : ∀ block ∈ blocks, block < before.heap.table.total ∧
    EntryFree before.heap.table.entries block
  taken : ∀ block ∈ blocks, after.heap.table.entries (block : Nat) = chainEntry 1 0
  kept : ∀ i : Int, (∀ block ∈ blocks, i ≠ (block : Nat)) →
    after.heap.table.entries i = before.heap.table.entries i
  frame : ∀ address, (∀ block ∈ blocks, frameOf address ≠ heapBlockToAddress before.heap block) →
    after.bytes address = before.bytes address

section Takes
variable {before middle after : Memory} {first second : Set Nat}

theorem Takes.pool (takes : Takes before after first) (pool : Pool before.heap) :
    Pool after.heap where
  aligned := by rw [takes.saddr]; exact pool.aligned
  small := by rw [takes.total]; exact pool.small

theorem Takes.address (takes : Takes before after first) :
    heapBlockToAddress after.heap = heapBlockToAddress before.heap := by
  funext block
  simp only [heapBlockToAddress, takes.saddr]

theorem Takes.not_free (takes : Takes before after first) {block : Nat} (member : block ∈ first) :
    ¬EntryFree after.heap.table.entries block := by
  unfold EntryFree
  rw [takes.taken block member]
  decide

theorem Takes.trans (left : Takes before middle first) (right : Takes middle after second) :
    Takes before after (first ∪ second) where
  saddr := right.saddr.trans left.saddr
  total := right.total.trans left.total
  free := by
    rintro block (member | member)
    · exact left.free block member
    · have ⟨bound, free⟩ := right.free block member
      have fresh : ∀ taken ∈ first, (block : Int) ≠ (taken : Nat) := by
        intro taken takenIn same
        obtain rfl : block = taken := by exact_mod_cast same
        exact left.not_free takenIn free
      rw [left.total] at bound
      unfold EntryFree at free ⊢
      rw [left.kept block fresh] at free
      exact ⟨bound, free⟩
  taken := by
    intro block member
    by_cases later : block ∈ second
    · exact right.taken block later
    · have here : block ∈ first := member.resolve_right later
      rw [right.kept block, left.taken block here]
      intro other otherIn same
      exact later ((by exact_mod_cast same : block = other) ▸ otherIn)
  kept := by
    intro i outside
    rw [right.kept i (fun block member => outside block (Or.inr member)),
      left.kept i (fun block member => outside block (Or.inl member))]
  frame := by
    intro address outside
    rw [right.frame address (fun block member => ?_),
      left.frame address (fun block member => outside block (Or.inl member))]
    rw [left.address]
    exact outside block (Or.inr member)

theorem Takes.store (takes : Takes before after first) {bytes : Bytes} {block : Nat}
    (member : block ∈ first)
    (same : ∀ address, frameOf address ≠ heapBlockToAddress before.heap block →
      bytes address = after.bytes address) :
    Takes before { after with bytes := bytes } first where
  saddr := takes.saddr
  total := takes.total
  free := takes.free
  taken := takes.taken
  kept := takes.kept
  frame := fun address outside =>
    (same address (outside block member)).trans (takes.frame address outside)

theorem Takes.separate (left : Takes before middle first) (right : Takes middle after second)
    {block : Nat} (member : block ∈ second) : block ∉ first :=
  fun taken => left.not_free taken (right.free block member).2

end Takes

theorem heapMalloc_one (heap : Heap) {size : Word} (roundable : Roundable size)
    (single : blocksFor size = 1) :
    (∃ block, LeastFreeRun (EntryFree heap.table.entries) heap.table.total 1 block ∧
      heapMalloc heap size = (heapBlockToAddress heap block, heapMarkBlocksTaken heap block 1)) ∨
    ((∀ block < heap.table.total, ¬EntryFree heap.table.entries block) ∧
      heapMalloc heap size = (0, heap)) := by
  by_cases fits : ∃ start, FitsAt heap (blocksFor size) start
  · left
    obtain ⟨start, least, result⟩ := heapMalloc_fits heap size roundable fits
    rw [single] at least result
    exact ⟨start, least, result⟩
  · right
    have full : ∀ block < heap.table.total, ¬EntryFree heap.table.entries block := by
      intro block bound free
      apply fits
      rw [single]
      refine ⟨block, by omega, fun cell low high => ?_⟩
      rwa [show cell = block by omega]
    refine ⟨full, ?_⟩
    rw [heapMalloc_eq heap size roundable, single]
    have outcome := heapMallocBlocks_outcome heap (BitVec.ofNat 32 1)
    generalize heapMallocBlocks heap (BitVec.ofNat 32 1) = result at outcome
    cases outcome with
    | refused => rfl
    | fitting start positive least =>
      have run := least.1
      have count : (BitVec.ofNat 32 1).toNat = 1 := rfl
      rw [count] at run
      exact absurd (run.2 start le_rfl (by omega)) (full start (by have := run.1; omega))
    | trailing start none tail => exact absurd (tail.2 start le_rfl tail.1) (full start tail.1)

theorem kzalloc_page {memory : Memory} (pool : Pool memory.heap) (size : Word)
    (roundable : Roundable size) (single : blocksFor size = 1)
    (success : (kzalloc size memory).1 ≠ 0) :
    ∃ block : Nat, (kzalloc size memory).1 = heapBlockToAddress memory.heap block ∧
      Takes memory (kzalloc size memory).2 {block} := by
  rcases heapMalloc_one memory.heap roundable single with ⟨block, least, result⟩ | ⟨_, result⟩
  · have unfolded : kzalloc size memory =
        if heapBlockToAddress memory.heap block = 0 then
          (0, { memory with heap := heapMarkBlocksTaken memory.heap block 1 })
        else (heapBlockToAddress memory.heap block,
          { heap := heapMarkBlocksTaken memory.heap block 1,
            bytes := fill memory.bytes (heapBlockToAddress memory.heap block) size.toNat 0 }) := by
      unfold kzalloc kmalloc
      rw [result]
    have nonnull : heapBlockToAddress memory.heap block ≠ 0 := by
      intro zero
      rw [unfolded, if_pos zero] at success
      exact success rfl
    rw [if_neg nonnull] at unfolded
    have short : size.toNat ≤ 4096 := by
      unfold blocksFor heapBlockSize at single
      omega
    have free := least.1.2 block le_rfl (by omega)
    have bound : block < memory.heap.table.total := by have := least.1.1; omega
    rw [unfolded]
    refine ⟨block, rfl, ?_⟩
    refine ⟨rfl, rfl, by simpa using ⟨bound, free⟩, ?_, ?_, ?_⟩
    · intro other member
      rw [Set.mem_singleton_iff.mp member]
      have entry := heapMarkBlocksTaken_entry memory.heap block 1 block
      rw [if_pos (by omega), show ((block : Int) - block).toNat = 0 by omega] at entry
      exact entry
    · intro i outside
      have entry := heapMarkBlocksTaken_entry memory.heap block 1 i
      have := outside block rfl
      rw [if_neg (by omega)] at entry
      exact entry
    · intro address outside
      exact fill_outside _ _ (heapBlockToAddress_aligned pool block) short (outside block rfl)
  · exact absurd (by simp [kzalloc, kmalloc, result]) success

end PeachOS
