import PeachOS.DirectoryLookup
import PeachOS.SegmentMap

/-! An ELF file by its bytes alone: wherever the file is in memory, the loader finds the same headers in it. -/

namespace PeachOS
open Program ByteMemory

def fileBytes (file : List Byte) : Bytes := fun address => file.getD address.toNat 0

def shiftBytes (bytes : Bytes) (base : Addr) : Bytes := fun address => bytes (base + address)

section Shift
variable {bytes : Bytes} {base address : Addr}

theorem load32_shiftBytes : load32 (shiftBytes bytes base) address = load32 bytes (base + address) := by
  unfold load32 shiftBytes
  simp only [BitVec.add_assoc]

theorem load16_shiftBytes : load16 (shiftBytes bytes base) address = load16 bytes (base + address) := by
  unfold load16 shiftBytes
  simp only [BitVec.add_assoc]

theorem elfPhoff_shiftBytes : elfPhoff (shiftBytes bytes base) 0 = elfPhoff bytes base := load32_shiftBytes

theorem elfPhnum_shiftBytes : elfPhnum (shiftBytes bytes base) 0 = elfPhnum bytes base := load16_shiftBytes

theorem elfValidateLoaded_shiftBytes : elfValidateLoaded (shiftBytes bytes base) 0 = elfValidateLoaded bytes base := by
  have signature : loadBytes (shiftBytes bytes base) 0 4 = loadBytes bytes base 4 := by
    refine (loadBytes_shift bytes base 0 4).trans ?_
    simp
  unfold elfValidateLoaded elfValidSignature elfValidClass elfValidEncoding elfHasProgramHeader
  rw [signature, elfPhoff_shiftBytes]
  rfl

theorem segmentAt_shiftBytes : segmentAt (shiftBytes bytes base) address = segmentAt bytes (base + address) := by
  have field : ∀ offset, load32 (shiftBytes bytes base) (address + offset) = load32 bytes (base + address + offset) := by
    intro offset
    rw [load32_shiftBytes, BitVec.add_assoc]
  unfold segmentAt phdrType phdrOffset phdrVaddr phdrFilesz phdrMemsz phdrFlags
  simp only [field, load32_shiftBytes]

theorem elfProgramHeader_shiftBytes (headers : elfPhoff bytes base ≠ 0) (index : Nat) :
    base + elfProgramHeader (shiftBytes bytes base) 0 index = elfProgramHeader bytes base index := by
  unfold elfProgramHeader elfPheader
  rw [elfPhoff_shiftBytes, if_neg headers, if_neg headers]
  simp [BitVec.add_assoc]

theorem segments_shiftBytes (headers : elfPhoff bytes base ≠ 0) :
    segments (shiftBytes bytes base) 0 = segments bytes base := by
  unfold segments
  rw [elfPhnum_shiftBytes]
  apply List.map_congr_left
  intro index _
  rw [segmentAt_shiftBytes, elfProgramHeader_shiftBytes headers]

end Shift

/-- An ELF file that the loader takes, and whose headers lie in it. -/
structure ElfProgram (file : List Byte) : Prop where
  complete : sizeofElfHeader ≤ file.length
  short : file.length < 2 ^ 31
  valid : elfValidateLoaded (fileBytes file) 0 = 0
  table : (elfPhoff (fileBytes file) 0).toNat + sizeofElfPhdr * (elfPhnum (fileBytes file) 0).toNat ≤ file.length

section File
variable {file : List Byte} {bytes : Bytes} {base : Addr}

theorem sameFile_shiftBytes (short : file.length < 2 ^ 31) (content : loadBytes bytes base file.length = file) :
    SameFile 0 file.length (fileBytes file) (shiftBytes bytes base) := by
  intro i bound
  have byte : file.getD i 0 = bytes (base + BitVec.ofNat 32 i) := by
    nth_rewrite 1 [← content]
    rw [loadBytes_map, List.getD_eq_getElem?_getD, List.getElem?_map, List.getElem?_range bound]
    rfl
  have index : (0 + BitVec.ofNat 32 i : Addr).toNat = i := by
    simp
    omega
  unfold shiftBytes fileBytes
  rw [index, byte]
  simp

theorem ElfProgram.headers (program : ElfProgram file) : elfPhoff (fileBytes file) 0 ≠ 0 := by
  intro none'
  have valid := program.valid
  unfold elfValidateLoaded elfHasProgramHeader at valid
  rw [none', bne_self_eq_false, Bool.and_false, if_neg Bool.false_ne_true] at valid
  exact absurd valid (by decide)

theorem ElfProgram.inside (program : ElfProgram file) : TableInside (fileBytes file) 0 file.length := by
  intro i bound
  have table := program.table
  have short := program.short
  have next : sizeofElfPhdr * (i + 1) ≤ sizeofElfPhdr * (elfPhnum (fileBytes file) 0).toNat :=
    Nat.mul_le_mul_left _ bound
  rw [Nat.mul_succ] at next
  rw [BitVec.toInt_eq_toNat_of_lt (by omega)]
  omega

theorem ElfProgram.loaded (program : ElfProgram file) (content : loadBytes bytes base file.length = file) :
    elfValidateLoaded bytes base = 0 ∧ segments bytes base = segments (fileBytes file) 0 ∧
      ∀ address, HeaderByte bytes base address → ∃ k < file.length, address = base + BitVec.ofNat 32 k := by
  have complete : 52 ≤ file.length := program.complete
  have short := program.short
  have same := sameFile_shiftBytes short content
  have fourth : shiftBytes bytes base (0 + 4) = fileBytes file (0 + 4) := same 4 (by omega)
  have fifth : shiftBytes bytes base (0 + 5) = fileBytes file (0 + 5) := same 5 (by omega)
  have offset : elfPhoff (shiftBytes bytes base) 0 = elfPhoff (fileBytes file) 0 :=
    same.word (by omega : 28 + 4 ≤ file.length)
  have number : elfPhnum (shiftBytes bytes base) 0 = elfPhnum (fileBytes file) 0 :=
    same.half (by omega : 44 + 2 ≤ file.length)
  have valid : elfValidateLoaded (shiftBytes bytes base) 0 = elfValidateLoaded (fileBytes file) 0 := by
    have signature : loadBytes (shiftBytes bytes base) 0 4 = loadBytes (fileBytes file) 0 4 :=
      loadBytes_congr (fun i bound => same i (by omega))
    unfold elfValidateLoaded elfValidSignature elfValidClass elfValidEncoding elfHasProgramHeader
    rw [signature, fourth, fifth, offset]
  have headers := program.headers
  have headersHere : elfPhoff bytes base ≠ 0 := by
    rw [← elfPhoff_shiftBytes, offset]
    exact headers
  have inside := program.inside
  refine ⟨by rw [← elfValidateLoaded_shiftBytes, valid, program.valid], ?_, ?_⟩
  · rw [← segments_shiftBytes headersHere]
    unfold segments
    rw [number]
    apply List.map_congr_left
    intro i bound
    have first : elfPheader (shiftBytes bytes base) 0 = elfPheader (fileBytes file) 0 := by
      unfold elfPheader
      rw [offset]
    unfold elfProgramHeader
    rw [first]
    exact (inside.phdr headers (List.mem_range.mp bound) same).segment
  · rintro address (⟨j, small, rfl⟩ | ⟨i, bound, j, small, rfl⟩)
    · refine ⟨44 + j, by omega, ?_⟩
      rw [BitVec.ofNat_add, ← BitVec.add_assoc]
      rfl
    · rw [← elfPhnum_shiftBytes, number] at bound
      have table := program.table
      have next : sizeofElfPhdr * (i + 1) ≤ sizeofElfPhdr * (elfPhnum (fileBytes file) 0).toNat :=
        Nat.mul_le_mul_left _ bound
      rw [Nat.mul_succ] at next
      refine ⟨(elfPhoff (fileBytes file) 0).toNat + sizeofElfPhdr * i + j, by omega, ?_⟩
      unfold elfProgramHeader elfPheader
      rw [if_neg headersHere, ← elfPhoff_shiftBytes, offset, BitVec.ofNat_add, BitVec.ofNat_add, BitVec.ofNat_toNat,
        BitVec.setWidth_eq, BitVec.add_assoc, BitVec.add_assoc, BitVec.add_assoc]

end File

def heapEnd : Addr := heapAddress + BitVec.ofNat 32 heapSizeBytes

/-- The headers of a file fit it and each other, even at the end of the heap. -/
structure ProgramFits (file : List Byte) : Prop where
  each : ∀ segment ∈ segments (fileBytes file) 0, segment.Fits ⟨heapEnd, BitVec.ofNat 32 file.length, 0⟩
  disjoint : (segments (fileBytes file) 0).Pairwise
    (fun first second => ∀ page, first.Covers page → ¬second.Covers page)

/-- What a program may write of its image is in the blocks of the file. -/
def ProgramInside (file : List Byte) : Prop :=
  ∀ segment ∈ segments (fileBytes file) 0, segment.flags &&& pfW ≠ 0 →
    segment.offset.toNat + segment.memsz.toNat ≤ blocksFor (BitVec.ofNat 32 file.length) * heapBlockSize

section Fits
variable {file : List Byte} {bytes : Bytes} {own : OwnBlocks}

theorem ProgramFits.layout (fits : ProgramFits file)
    (listed : segments bytes own.image = segments (fileBytes file) 0)
    (size : own.imageSize = BitVec.ofNat 32 file.length) (low : own.image.toNat ≤ heapEnd.toNat)
    (stackRoom : own.stack.toNat + peachosUserProgramStackSize < 2 ^ 32) : LayoutFits bytes own := by
  refine ⟨?_, listed ▸ fits.disjoint, stackRoom⟩
  intro segment member
  have placed := fits.each segment (listed ▸ member)
  have room : heapEnd.toNat + segment.offset.toNat + segment.memsz.toNat < 2 ^ 32 := placed.physRoom
  exact ⟨placed.congruent, placed.smaller, size ▸ placed.inside, placed.virtRoom, by omega, placed.noStack⟩

theorem ProgramFits.accepted (fits : ProgramFits file)
    (listed : segments bytes own.image = segments (fileBytes file) 0)
    (low : own.image.toNat + pagingPageSize ≤ heapEnd.toNat) :
    ∀ segment ∈ segments bytes own.image, ¬segment.Rejected own.image := by
  intro segment member rejected
  have room : heapEnd.toNat + segment.offset.toNat + segment.memsz.toNat < 2 ^ 32 :=
    (fits.each segment (listed ▸ member)).physRoom
  unfold pagingPageSize at low
  have start : (own.image + segment.offset).toNat = own.image.toNat + segment.offset.toNat := by
    rw [BitVec.toNat_add, Nat.mod_eq_of_lt (by omega)]
  have stop : (own.image + segment.offset + segment.memsz).toNat =
      own.image.toNat + segment.offset.toNat + segment.memsz.toNat := by
    rw [BitVec.toNat_add, start, Nat.mod_eq_of_lt (by omega)]
  unfold Segment.Rejected at rejected
  rw [pagingAlignToLowerPage_eq, frameOf_toNat, pagingAlignAddress_toNat, start, stop] at rejected
  omega

theorem PageAligned.shift {frame page start : Addr} (frameAligned : PageAligned frame) (aligned : PageAligned page)
    (startAligned : PageAligned start) : PageAligned (frame + (page - start)) := by
  unfold PageAligned pagingPageSize at *
  rw [BitVec.toNat_add, BitVec.toNat_sub]
  omega

theorem LayoutFits.writeable {page : Addr} (fits : LayoutFits bytes own) (imageAligned : PageAligned own.image)
    (positive : 0 < own.image.toNat) (stackAligned : PageAligned own.stack)
    (inside : ∀ segment ∈ segments bytes own.image, segment.flags &&& pfW ≠ 0 →
      segment.offset.toNat + segment.memsz.toNat ≤ blocksFor own.imageSize * heapBlockSize)
    (aligned : PageAligned page) (writeable : mappedEntry bytes own (· ||| 0x05) page &&& pagingIsWriteable ≠ 0) :
    own.Frame (frameOf (mappedEntry bytes own (· ||| 0x05) page)) := by
  by_cases inStack : StackPage page
  · have low : peachosProgramVirtualStackAddressEnd.toNat = 0x3FB000 := rfl
    have high : peachosProgramVirtualStackAddressStart.toNat = 0x3FF000 := rfl
    have room := fits.stackRoom
    rw [fits.stackEntry stackAligned aligned inStack,
      frameOf_or _ (stackAligned.shift aligned (by decide)) (by decide)]
    unfold StackPage at inStack
    unfold PageAligned at stackAligned aligned
    unfold pagingPageSize peachosUserProgramStackSize at *
    refine Or.inr ⟨(page.toNat - 0x3FB000) / 4096, ?_, BitVec.eq_of_toNat_eq ?_⟩
    · unfold peachosUserProgramStackSize heapBlockSize
      omega
    · unfold pagingPageSize
      rw [BitVec.toNat_add, BitVec.toNat_add, BitVec.toNat_sub, BitVec.toNat_ofNat, low]
      omega
  · by_cases covered : ∃ segment ∈ segments bytes own.image, segment.Covers page
    · obtain ⟨segment, member, covers⟩ := covered
      have placed := fits.each segment member
      have frameAligned : PageAligned (frameOf (own.image + segment.offset) + (page - frameOf segment.vaddr)) :=
        (frameOf_aligned _).shift aligned (frameOf_aligned _)
      obtain ⟨small, _, writes⟩ := segment.pageFlags_bits
      rw [fits.entry imageAligned positive stackAligned member covers] at writeable ⊢
      rw [or_and_flags frameAligned (by decide)] at writeable
      have room := inside segment member (writes.mp writeable)
      have congruent := placed.congruent
      have physRoom := placed.physRoom
      have virtRoom := placed.virtRoom
      obtain ⟨_, first, last⟩ := covers
      have start : (own.image + segment.offset).toNat = own.image.toNat + segment.offset.toNat := by
        rw [BitVec.toNat_add, Nat.mod_eq_of_lt (by omega)]
      rw [frameOf_or _ frameAligned small]
      unfold PageAligned at imageAligned aligned
      unfold pagingPageSize heapBlockSize at *
      refine Or.inl ⟨segment.offset.toNat / 4096 + (page.toNat - segment.vaddr.toNat / 4096 * 4096) / 4096, ?_,
        BitVec.eq_of_toNat_eq ?_⟩
      · omega
      · unfold pagingPageSize
        rw [BitVec.toNat_add, BitVec.toNat_add, BitVec.toNat_sub, BitVec.toNat_ofNat, frameOf_toNat, frameOf_toNat, start]
        omega
    · have none : mappedEntry bytes own (· ||| 0x05) page = page ||| 0x05 := by
        unfold mappedEntry
        rw [(stackEntry_page stackAligned fits.stackRoom aligned).2 inStack, Option.none_or,
          List.findSome?_eq_none_iff.mpr]
        · rfl
        · intro segment listed
          have member := List.mem_reverse.mp listed
          exact ((fits.each segment member).entry imageAligned positive aligned).2
            (fun covers => covered ⟨segment, member, covers⟩)
      rw [none, or_and_flags aligned (by decide)] at writeable
      exact absurd (by decide) writeable

end Fits

end PeachOS
