import PeachOS.SegmentMap

/-! The bytes of a segment that are not in the file. Its program expects zeros of its own there; it gets the
bytes that happen to follow in the loaded file, and the blocks that happen to follow its image. -/

namespace PeachOS
open Program ByteMemory

/-- Byte `k` of a header's memory is past its bytes of the file. -/
structure TailByte (bytes : Bytes) (own : OwnBlocks) (segment : Segment) (k : Nat) : Prop where
  listed : segment ∈ segments bytes own.image
  load : segment.type = ptLoad
  past : segment.filesz.toNat ≤ k
  inside : k < segment.memsz.toNat

def TailsZero (before after : Kernel) (process : Addr) (own : OwnBlocks) : Prop :=
  ∀ segment k, TailByte before.memory.bytes own segment k →
    own.Frame (frameOf (taskVirtualAddressToPhysical after (after.processRecords process).task
      (segment.vaddr + BitVec.ofNat 32 k))) ∧
      after.memory.bytes (taskVirtualAddressToPhysical after (after.processRecords process).task
        (segment.vaddr + BitVec.ofNat 32 k)) = 0

/-- The file and what follows it are zero where the headers put the tails, and the process's. -/
def TailsHeld (bytes : Bytes) (own : OwnBlocks) (view : Addr → Word) : Prop :=
  ∀ segment k, TailByte bytes own segment k →
    own.Frame (frameOf (placeOf bytes own view (segment.vaddr + BitVec.ofNat 32 k))) ∧
      bytes (placeOf bytes own view (segment.vaddr + BitVec.ofNat 32 k)) = 0

section Tails
variable {kernel after : Kernel} {process : Addr} {own : OwnBlocks} {directory : Addr} {tables : Nat → Addr}
  {view : Addr → Word} {res : Int}

/-- A program's uninitialised data is zero and its own if and only if the file has zeros there, in blocks of the
process: nothing is cleared and nothing is allocated for it. -/
theorem processMapMemory_tails_iff (loaded : LoadedProcess kernel process own directory tables view)
    (elf : (kernel.processRecords process).filetype = processFiletypeElf)
    (apart : TablesApart kernel.memory.bytes own tables) (run : processMapMemory process kernel = (.ok res, after))
    (done : 0 ≤ res) :
    TailsZero kernel after process own ↔ TailsHeld kernel.memory.bytes own view := by
  obtain ⟨agree, placed, _⟩ := loaded.placed elf apart run done
  unfold TailsZero TailsHeld
  simp only [placed]
  have kept : ∀ address, own.Frame (frameOf address) → after.memory.bytes address = kernel.memory.bytes address :=
    fun address inside => agree address (apart.frames _ inside)
  constructor
  · intro zero segment k tail
    obtain ⟨inside, reads⟩ := zero segment k tail
    exact ⟨inside, (kept _ inside).symm.trans reads⟩
  · intro held segment k tail
    obtain ⟨inside, reads⟩ := held segment k tail
    exact ⟨inside, (kept _ inside).trans reads⟩

theorem LayoutFits.tails_iff {bytes : Bytes} (fits : LayoutFits bytes own) (imageAligned : PageAligned own.image)
    (positive : 0 < own.image.toNat) (stackAligned : PageAligned own.stack) :
    TailsHeld bytes own view ↔ ∀ segment k, TailByte bytes own segment k →
      own.Frame (frameOf (own.image + segment.offset + BitVec.ofNat 32 k)) ∧
        bytes (own.image + segment.offset + BitVec.ofNat 32 k) = 0 := by
  have place : ∀ segment k, TailByte bytes own segment k →
      placeOf bytes own view (segment.vaddr + BitVec.ofNat 32 k) = own.image + segment.offset + BitVec.ofNat 32 k :=
    fun segment k tail => fits.place imageAligned positive stackAligned tail.listed tail.inside
  unfold TailsHeld
  constructor
  · intro held segment k tail
    rw [← place segment k tail]
    exact held segment k tail
  · intro follows segment k tail
    rw [place segment k tail]
    exact follows segment k tail

end Tails

theorem segmentImage_empty {k : Nat} (past : 84 ≤ k) (inside : k < 4096) :
    segmentImage 84 (0x1000000 + BitVec.ofNat 32 k) = 0 := by
  have word : ∀ bytes : Bytes, ∀ base : Addr, 0x1000000 ≤ base.toNat → base.toNat ≤ 0x1000050 → ∀ value,
      store32 bytes base value (0x1000000 + BitVec.ofNat 32 k) = bytes (0x1000000 + BitVec.ofNat 32 k) := by
    intro bytes base low high value
    apply store32_other
    intro i small same
    have place := congrArg BitVec.toNat same
    rw [BitVec.toNat_add, BitVec.toNat_add, BitVec.toNat_ofNat, BitVec.toNat_ofNat] at place
    have start : (0x1000000 : Addr).toNat = 0x1000000 := rfl
    omega
  unfold segmentImage elfImage
  simp (disch := decide) only [word]

theorem processMapMemory_tails_image : ∃ memory chunk after, ∃ res : Int,
    processMapMemory 0x902000 (elfImageKernel memory chunk) = (.ok res, after) ∧ 0 ≤ res ∧
      segments memory.bytes 0x1000000 = [imageSegment 84] ∧
      TailsZero (elfImageKernel memory chunk) after 0x902000 elfImageOwn := by
  obtain ⟨memory, chunk, directory, tables, loaded, apart, listed, image, done⟩ :=
    segmentImage_loaded (Or.inr (rfl : (84 : Word) = 84))
  refine ⟨memory, chunk, _, _, loaded.run.1, done, listed,
    (processMapMemory_tails_iff loaded rfl apart loaded.run.1 done).mpr ?_⟩
  refine ((segmentImage_fits (Or.inr rfl) listed).tails_iff (by decide) (by decide) (by decide)).mpr ?_
  rintro segment k ⟨member, _, past, inside⟩
  obtain rfl : segment = imageSegment 84 := List.mem_singleton.mp (listed ▸ member)
  have past : 84 ≤ k := past
  have inside : k < 4096 := inside
  have page : frameOf (0x1000000 + BitVec.ofNat 32 k) = 0x1000000 := by
    apply BitVec.eq_of_toNat_eq
    rw [frameOf_toNat, BitVec.toNat_add, BitVec.toNat_ofNat]
    have start : (0x1000000 : Addr).toNat = 0x1000000 := rfl
    omega
  show elfImageOwn.Frame (frameOf (0x1000000 + 0 + BitVec.ofNat 32 k)) ∧ memory.bytes (0x1000000 + 0 + BitVec.ofNat 32 k) = 0
  have base : (0x1000000 : Addr) + 0 = 0x1000000 := by decide
  rw [base, page]
  exact ⟨Or.inl ⟨0, by decide, by decide⟩, (image _ page).trans (segmentImage_empty past inside)⟩

/-- A program finds its own program header in its uninitialised data. -/
theorem processMapMemory_tails_fail : ¬∀ (kernel after : Kernel) (process : Addr) (own : OwnBlocks) (directory : Addr)
    (tables : Nat → Addr) (view : Addr → Word) (res : Int),
    LoadedProcess kernel process own directory tables view →
      (kernel.processRecords process).filetype = processFiletypeElf → TablesApart kernel.memory.bytes own tables →
        processMapMemory process kernel = (.ok res, after) → 0 ≤ res → TailsZero kernel after process own := by
  intro always
  obtain ⟨memory, chunk, directory, tables, loaded, apart, listed, image, done⟩ := segmentImage_loaded (Or.inl (rfl : (52 : Word) = 52))
  obtain ⟨agree, placed, _⟩ := loaded.placed rfl apart loaded.run.1 done
  have tail : TailByte memory.bytes elfImageOwn (imageSegment 52) 52 :=
    ⟨listed ▸ List.mem_singleton_self _, rfl, by decide, by decide⟩
  have place := @LayoutFits.place (elfImageKernel memory chunk).memory.bytes elfImageOwn (· ||| 0x05) (imageSegment 52)
    (segmentImage_fits (Or.inl rfl) listed) (by decide) (by decide) (by decide) tail.listed 52 (by decide)
  obtain ⟨inside, reads⟩ := always _ _ _ _ _ _ _ _ loaded rfl apart loaded.run.1 done _ _ tail
  rw [placed] at inside reads
  have kept := agree _ (apart.frames _ inside)
  rw [place] at kept reads
  have byte := image (elfImageOwn.image + (imageSegment 52).offset + BitVec.ofNat 32 52) (by decide)
  -- the type of the header follows the 52 bytes of the file that the header names
  have load : segmentImage 52 (elfImageOwn.image + (imageSegment 52).offset + BitVec.ofNat 32 52) = 1 := by decide
  exact absurd (load.symm.trans (byte.symm.trans (kept.symm.trans reads))) (by decide)

end PeachOS
