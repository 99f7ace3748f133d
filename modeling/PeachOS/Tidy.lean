import PeachOS.DirectoryWalk
import PeachOS.HeapEnd
import PeachOS.KernelOwners

/-! A kernel whose records lie in chains of the heap and whose heap has free blocks at its end. What the file system makes,
writes and gives back keeps it so. -/

namespace PeachOS
open Program ByteMemory

/-- Every record of a file is at the start of a chain, and the last `room` blocks of the heap are free. -/
structure Tidy (tables : Set (Nat → Addr)) (room : Nat) (kernel : Kernel) : Prop where
  recorded : Recorded tables kernel
  placed : ∀ ptr record, kernel.files ptr = some record → HeldAt kernel.memory.heap ptr
  freeEnd : FreeEnd kernel.memory.heap room

section Tidy
variable {α : Type} {tables : Set (Nat → Addr)} {room fewer : Nat} {kernel after : Kernel} {ptr : Addr} {size : Word}
  {select : FileRecord → Option α} {record : FileRecord}

theorem Tidy.less (tidy : Tidy tables room kernel) (less : fewer ≤ room) : Tidy tables fewer kernel :=
  ⟨tidy.recorded, tidy.placed, tidy.freeEnd.less less⟩

theorem Tidy.sound (tidy : Tidy tables room kernel) : Sound kernel.memory.heap := tidy.recorded.sound

theorem Tidy.exact (tidy : Tidy tables room kernel) : Tidy {kernel.fileDescriptors} room kernel :=
  ⟨tidy.recorded.exact, tidy.placed, tidy.freeEnd⟩

theorem Tidy.congr (tidy : Tidy tables room kernel) (heap : after.memory.heap = kernel.memory.heap)
    (files : after.files = kernel.files) (table : after.fileDescriptors = kernel.fileDescriptors) :
    Tidy tables room after := by
  refine ⟨tidy.recorded.congr heap files table, ?_, ?_⟩
  · rw [heap, files]
    exact tidy.placed
  · rw [heap]
    exact tidy.freeEnd

theorem Tidy.retable (tidy : Tidy tables room kernel) (index : Nat) (desc : Addr) :
    Tidy {Function.update kernel.fileDescriptors index desc} room (kernel.setFileDescriptor index desc) :=
  ⟨tidy.recorded.retable index desc, tidy.placed, tidy.freeEnd⟩

theorem Tidy.newRecord (tidy : Tidy tables (room + blocksFor size) kernel) (roundable : Roundable size)
    (record : FileRecord) : ∃ (start : Nat) (after : Kernel),
      Kernel.newRecord size record kernel = (.ok (heapBlockToAddress kernel.memory.heap start), after) ∧
      start + (room + blocksFor size) ≤ kernel.memory.heap.table.total ∧
      Marks kernel.memory.heap after.memory.heap start (blocksFor size) ∧ Tidy tables room after := by
  obtain ⟨start, after, run, low, marks, freeEnd⟩ := tidy.freeEnd.newRecord roundable record
  refine ⟨start, after, run, low, marks, Guards.newRecord _ _ _ _ _ tidy.recorded run, ?_, freeEnd⟩
  have positive := blocksFor_pos roundable
  have held : HeldAt after.memory.heap (heapBlockToAddress kernel.memory.heap start) :=
    ⟨start, (heapBlockToAddress_congr marks.saddr start).symm, marks.fresh tidy.sound positive⟩
  intro other found here
  rcases Kernel.newRecord_ok tidy.sound.kernel run with null | ⟨_, same, _, _, _, place⟩
  · exact absurd null.1 (tidy.freeEnd.kernel.nonnull marks.bound)
  · rw [place] at here
    simp only [Kernel.setFiles_files, placeRecord] at here
    split at here
    · split at here
      next first => exact first ▸ held
      · cases here
    · exact (tidy.placed other found here).marks marks

theorem Tidy.apart {fewer : Nat} (tidy : Tidy tables fewer kernel) (apart : Apart kernel after)
    (files : after.files = kernel.files) (table : after.fileDescriptors = kernel.fileDescriptors)
    (freeEnd : FreeEnd after.memory.heap room) : Tidy tables room after := by
  have placed : ∀ ptr record, after.files ptr = some record → HeldAt after.memory.heap ptr := by
    intro ptr record here
    rw [files] at here
    exact apart.heldAt (tidy.placed ptr record here)
  refine ⟨⟨apart.sound, ?_, ?_, ?_, table ▸ tidy.recorded.table⟩, placed, freeEnd⟩
  · intro ptr record here
    obtain ⟨block, place, held⟩ := placed ptr record here
    exact ⟨block, place, held.clean⟩
  · exact fun _ member => absurd member (Set.notMem_empty _)
  · exact fun _ member => absurd member (Set.notMem_empty _)

/-- A block for data that `kzalloc` made, with its bytes in a chain of its own. -/
structure MadeBlock (kernel after : Kernel) (size : Word) (ptr : Addr) : Prop where
  same : after = kernel.setMemory ⟨after.memory.heap, fill kernel.memory.bytes ptr size.toNat 0⟩
  apart : Apart kernel after
  new : ¬HeldAt kernel.memory.heap ptr
  bytes : ∀ k < size.toNat, ¬Owned kernel.memory.heap (ptr + BitVec.ofNat 32 k)
  owned : ∀ k < size.toNat, OwnedBy after.memory.heap ptr (ptr + BitVec.ofNat 32 k)
  aligned : PageAligned ptr
  low : heapAddress.toNat ≤ ptr.toNat
  high : ptr.toNat + blocksFor size * heapBlockSize ≤ heapAddress.toNat + heapSizeBytes

/-- A block for other data. No record is in it, so the records stay at the starts of their chains. -/
theorem Tidy.kzalloc (tidy : Tidy tables (room + blocksFor size) kernel) (roundable : Roundable size) : ∃ ptr after,
    Kernel.kzalloc size kernel = (.ok ptr, after) ∧ Tidy tables room after ∧ MadeBlock kernel after size ptr := by
  obtain ⟨start, after, run, low, marks, freeEnd⟩ := tidy.freeEnd.kzalloc roundable
  obtain ⟨same, short⟩ : after = kernel.setMemory ⟨after.memory.heap,
      fill kernel.memory.bytes (heapBlockToAddress kernel.memory.heap start) size.toNat 0⟩ ∧
        (heapBlockToAddress kernel.memory.heap start).toNat + size.toNat ≤ 2 ^ 32 := by
    rcases Kernel.kzalloc_marks tidy.sound.kernel run with null | ⟨_, _, _, short, _, same⟩
    · exact absurd null.1 (tidy.freeEnd.kernel.nonnull marks.bound)
    · exact ⟨same, short⟩
  have content : after.memory.bytes =
      fill kernel.memory.bytes (heapBlockToAddress kernel.memory.heap start) size.toNat 0 := by
    rw [same]
    rfl
  have files : after.files = kernel.files := by
    rw [same]
    rfl
  have table : after.fileDescriptors = kernel.fileDescriptors := by
    rw [same]
    rfl
  have base := Apart.refl tidy.sound
  have outside : ∀ {address : Addr}, (address - heapBlockToAddress kernel.memory.heap start).toNat < size.toNat →
      ¬Owned kernel.memory.heap address :=
    fun filled => base.filled ((if_pos roundable.2 : mallocBlocks size = _).symm ▸ marks) short filled
  have position := tidy.sound.kernel.address_toNat marks.bound
  have total := tidy.sound.kernel.blocks
  have apart : Apart kernel after := by
    refine ⟨marks.sound tidy.sound, marks.saddr, marks.total, fun first held => marks.held held, ?_, ?_,
      fun other _ => congrFun files other⟩
    · intro first block chained
      have bound : block < kernel.memory.heap.table.total := by exact_mod_cast chained.2.2.1
      have away := marks.apart bound (chained.taken tidy.sound)
      exact marks.outside (by omega)
    · intro address owned
      rw [content]
      exact if_neg (fun filled => outside filled owned)
  refine ⟨_, after, run, tidy.apart apart files table freeEnd, same, apart, base.fresh marks.bound marks.startFree, ?_,
    fun k inside => marks.ownedBy tidy.sound (by omega) inside,
    heapBlockToAddress_aligned tidy.sound.kernel.pool start, ?_, ?_⟩
  · intro k inside
    refine outside ?_
    rw [BitVec.add_comm, BitVec.add_sub_cancel, BitVec.toNat_ofNat]
    omega
  · rw [position]
    exact Nat.le_add_right _ _
  · have space : heapAddress.toNat + heapSizeBytes = 0x1000000 + 25600 * 4096 := rfl
    unfold heapBlockSize
    omega

theorem Tidy.wrote (tidy : Tidy tables room kernel) (run : Kernel.writeRecord select ptr record kernel = (.ok (), after)) :
    Tidy tables room after := by
  have recorded := Guards.writeRecord (fun _ _ isKind => absurd isKind not_false) _ _ _ tidy.recorded run
  obtain ⟨rfl, old, _, here, _⟩ := Kernel.writeRecord_ok run
  refine ⟨recorded, fun other found place => ?_, tidy.freeEnd⟩
  by_cases same : other = ptr
  · exact same ▸ tidy.placed ptr old here
  · exact tidy.placed other found ((Function.update_of_ne same _ _).symm.trans place)

theorem Tidy.freed (tidy : Tidy tables room kernel) (run : Kernel.freeRecord select ptr kernel = (.ok (), after)) :
    Tidy tables room after := by
  refine ⟨Guards.freeRecord (fun _ _ isKind => absurd isKind not_false) _ _ _ tidy.recorded run, ?_,
    tidy.freeEnd.freeRecord run⟩
  intro other found here
  have before := Kernel.freeRecord_fewer run here
  refine (Kernel.freeRecord_other tidy.recorded run ?_ (tidy.placed other found before)).1
  rintro rfl
  rcases Kernel.freeRecord_ok run with ⟨rfl, _⟩ | ⟨_, _, _, _, rfl⟩ | ⟨none', _⟩
  · rw [tidy.recorded.null] at before
    cases before
  · change Function.update kernel.files other none other = some found at here
    rw [Function.update_self] at here
    cases here
  · rw [before] at none'
    cases none'

end Tidy

/-- A program that takes at most `used` blocks from the end of the heap, and leaves the kernel as tidy as before. -/
def Uses {α : Type} (used : Nat) (program : KernelProg α) : Prop :=
  ∀ tables room before result after, Tidy tables (room + used) before → program before = (.ok result, after) →
    Tidy tables room after

section Uses
variable {α β : Type} {used later total : Nat} {program : KernelProg α} {next : α → KernelProg β}
  {select : FileRecord → Option α}

theorem Uses.less (uses : Uses used program) (less : used ≤ later) : Uses later program :=
  fun tables room before result after tidy run => uses tables room before result after (tidy.less (by omega)) run

theorem Uses.pure (result : α) : Uses used (pure result : KernelProg α) := by
  intro tables room before result after tidy run
  cases run
  exact tidy.less (by omega)

theorem Uses.bind (first : Uses used program) (fits : used ≤ total)
    (rest : ∀ result before after, program before = (.ok result, after) → Uses (total - used) (next result)) :
    Uses total (program >>= next) := by
  intro tables room before result after tidy run
  obtain ⟨value, middle, begun, ended⟩ := bind_eq_ok run
  have left := first tables (room + (total - used)) before value middle (tidy.less (by omega)) begun
  exact rest value before middle begun tables room middle result after left ended

theorem Uses.ite {condition : Prop} [Decidable condition] {first second : KernelProg α} (yes : Uses used first)
    (no : Uses used second) : Uses used (if condition then first else second) := by
  split
  · exact yes
  · exact no

theorem Uses.newRecord {size : Word} (roundable : Roundable size) (record : FileRecord) :
    Uses (blocksFor size) (Kernel.newRecord size record) := by
  intro tables room before result after tidy run
  obtain ⟨start, last, same, _, _, left⟩ := tidy.newRecord roundable record
  cases same.symm.trans run
  exact left

theorem Uses.record (ptr : Addr) : Uses 0 (Kernel.record select ptr) := by
  intro tables room before result after tidy run
  rw [(Kernel.record_ok run).1]
  exact tidy

theorem Uses.writeRecord (ptr : Addr) (record : FileRecord) : Uses 0 (Kernel.writeRecord select ptr record) :=
  fun _ _ _ _ _ tidy run => tidy.wrote run

theorem Uses.freeRecord (ptr : Addr) : Uses 0 (Kernel.freeRecord select ptr) :=
  fun _ _ _ _ _ tidy run => tidy.freed run

theorem Uses.setBytes (change : Kernel → Bytes) :
    Uses 0 (update (fun kernel => kernel.setMemory { kernel.memory with bytes := change kernel }) : KernelProg Unit) := by
  intro tables room before result after tidy run
  cases run
  exact tidy.congr rfl rfl rfl

end Uses

end PeachOS
