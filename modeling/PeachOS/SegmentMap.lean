import PeachOS.ArgumentStores
import PeachOS.ElfFormat

/-! Where the bytes of an ELF file are for its program, once `process_map_memory` has mapped one program
header after the other and then the stack. -/

namespace PeachOS
open Program ByteMemory WriteLog

/-- What a program header says of a program's memory. -/
structure Segment where
  type : Word
  offset : Word
  vaddr : Addr
  filesz : Word
  memsz : Word
  flags : Word
  deriving DecidableEq

def segmentAt (bytes : Bytes) (phdr : Addr) : Segment :=
  ⟨phdrType bytes phdr, phdrOffset bytes phdr, phdrVaddr bytes phdr, phdrFilesz bytes phdr, phdrMemsz bytes phdr,
    phdrFlags bytes phdr⟩

/-- The headers of the image at `memory`, in the order of the table. -/
def segments (bytes : Bytes) (memory : Addr) : List Segment :=
  (List.range (elfPhnum bytes memory).toNat).map (fun i => segmentAt bytes (elfProgramHeader bytes memory i))

/-- The entry that `paging_map_to` writes for a page of its range. -/
def mapToEntry (virt phys physEnd : Addr) (flags : Word) (page : Addr) : Option Word :=
  if (page - virt).toNat / pagingPageSize < (physEnd - phys).toNat / pagingPageSize then
    some ((phys + (page - virt)) ||| flags)
  else none

namespace Segment

def pageFlags (segment : Segment) : Word :=
  if segment.flags &&& pfW ≠ 0 then pagingIsPresent ||| pagingAccessFromAll ||| pagingIsWriteable
  else pagingIsPresent ||| pagingAccessFromAll

/-- The call of `paging_map_to` for the header, with the file at `memory`. -/
def call (memory : Addr) (segment : Segment) : PagingCall :=
  .mapTo (pagingAlignToLowerPage segment.vaddr) (pagingAlignToLowerPage (memory + segment.offset))
    (pagingAlignAddress (memory + segment.offset + segment.memsz)) segment.pageFlags

/-- What the call writes for a page, if it comes to the page. -/
def entry (memory : Addr) (segment : Segment) (page : Addr) : Option Word :=
  mapToEntry (pagingAlignToLowerPage segment.vaddr) (pagingAlignToLowerPage (memory + segment.offset))
    (pagingAlignAddress (memory + segment.offset + segment.memsz)) segment.pageFlags page

/-- What `paging_map_to` says of a range that ends before it starts. -/
def Rejected (memory : Addr) (segment : Segment) : Prop :=
  (pagingAlignAddress (memory + segment.offset + segment.memsz)).toNat <
    (pagingAlignToLowerPage (memory + segment.offset)).toNat

/-- The pages from the one of `p_vaddr` on up to the end of `p_memsz` bytes. -/
def Covers (segment : Segment) (page : Addr) : Prop :=
  PageAligned page ∧ segment.vaddr.toNat / 4096 * 4096 ≤ page.toNat ∧
    page.toNat < (segment.vaddr.toNat + segment.memsz.toNat + 4095) / 4096 * 4096

end Segment

theorem elfPhdrCall_eq (bytes : Bytes) (file : ElfFile) (phdr : Addr) :
    elfPhdrCall bytes file phdr = (segmentAt bytes phdr).call file.elfMemory := rfl

/-- The pages of the stack, which are given out last. -/
def stackEntry (stack page : Addr) : Option Word :=
  if (pagingAlignAddress (stack + BitVec.ofNat 32 peachosUserProgramStackSize)).toNat < stack.toNat then none
  else mapToEntry peachosProgramVirtualStackAddressEnd stack
    (pagingAlignAddress (stack + BitVec.ofNat 32 peachosUserProgramStackSize))
    (pagingIsPresent ||| pagingIsWriteable ||| pagingAccessFromAll) page

/-- The entry of a page once all is mapped: the stack's, or that of the last header that comes to the page. -/
def mappedEntry (bytes : Bytes) (own : OwnBlocks) (view : Addr → Word) (page : Addr) : Word :=
  ((stackEntry own.stack page).or
    ((segments bytes own.image).reverse.findSome? (fun segment => segment.entry own.image page))).getD (view page)

/-- Where the headers put an address of the program. -/
def placeOf (bytes : Bytes) (own : OwnBlocks) (view : Addr → Word) (virt : Addr) : Addr :=
  frameOf (mappedEntry bytes own view (frameOf virt)) + BitVec.ofNat 32 (virt.toNat % pagingPageSize)

/-- The entry of a page in the page directory of the process's task. -/
def Kernel.pageEntry (kernel : Kernel) (process page : Addr) : Word :=
  pagingGet kernel.memory.bytes (directoryEntry kernel.memory.bytes (kernel.directoryOf process)) page

/-- The bytes that the loop over the headers reads. -/
def HeaderByte (bytes : Bytes) (memory address : Addr) : Prop :=
  (∃ j < 2, address = memory + 44 + BitVec.ofNat 32 j) ∨
    ∃ i < (elfPhnum bytes memory).toNat, ∃ j < sizeofElfPhdr,
      address = elfProgramHeader bytes memory i + BitVec.ofNat 32 j

/-- The page tables are in blocks of their own: none holds a byte of the image, of its headers or of the stack. -/
structure TablesApart (bytes : Bytes) (own : OwnBlocks) (tables : Nat → Addr) : Prop where
  frames : ∀ frame, own.Frame frame → ∀ i < 1024, frame ≠ tables i
  headers : ∀ address, HeaderByte bytes own.image address → ∀ i < 1024, frameOf address ≠ tables i

/-- Nothing but page tables differs. -/
def AgreeOutside (tables : Nat → Addr) (before after : Bytes) : Prop :=
  ∀ address, (∀ i < 1024, frameOf address ≠ tables i) → after address = before address

theorem SameFile.segment {bytes other : Bytes} {phdr : Addr} (same : SameFile phdr sizeofElfPhdr bytes other) :
    segmentAt other phdr = segmentAt bytes phdr := by
  have type : load32 other (phdr + BitVec.ofNat 32 0) = load32 bytes (phdr + BitVec.ofNat 32 0) :=
    same.word (by decide)
  have offset : phdrOffset other phdr = phdrOffset bytes phdr := same.word (by decide)
  have vaddr : phdrVaddr other phdr = phdrVaddr bytes phdr := same.word (by decide)
  have filesz : phdrFilesz other phdr = phdrFilesz bytes phdr := same.word (by decide)
  have memsz : phdrMemsz other phdr = phdrMemsz bytes phdr := same.word (by decide)
  have flags : phdrFlags other phdr = phdrFlags bytes phdr := same.word (by decide)
  rw [BitVec.add_zero] at type
  unfold segmentAt phdrType
  rw [type, offset, vaddr, filesz, memsz, flags]

section Headers
variable {base bytes : Bytes} {chunk directory memory : Addr} {tables : Nat → Addr} {view : Addr → Word}

theorem AgreeOutside.call (agree : AgreeOutside tables base bytes)
    (flat : FlatMap bytes chunk directory tables view) (call : PagingCall) :
    AgreeOutside tables base (call.run chunk bytes).2 :=
  fun address outside => (flat.call_outside call outside).trans (agree address outside)

theorem AgreeOutside.headers (agree : AgreeOutside tables base bytes)
    (apart : ∀ address, HeaderByte base memory address → ∀ i < 1024, frameOf address ≠ tables i) :
    elfPhnum bytes memory = elfPhnum base memory ∧ ∀ i < (elfPhnum base memory).toNat,
      segmentAt bytes (elfProgramHeader base memory i) = segmentAt base (elfProgramHeader base memory i) := by
  have number : SameFile (memory + 44) 2 base bytes := fun j bound => agree _ (apart _ (Or.inl ⟨j, bound, rfl⟩))
  have half := number.half (by decide : 0 + 2 ≤ 2)
  rw [BitVec.add_zero] at half
  refine ⟨half, fun i bound => ?_⟩
  have header : SameFile (elfProgramHeader base memory i) sizeofElfPhdr base bytes :=
    fun j small => agree _ (apart _ (Or.inr ⟨i, bound, j, small, rfl⟩))
  exact header.segment

theorem FlatMap.segment_rejected (flat : FlatMap bytes chunk directory tables view) (segment : Segment)
    (memory : Addr) : ((segment.call memory).run chunk bytes).1 < 0 ↔ segment.Rejected memory := by
  have aligned : ∀ address, PageAligned (pagingAlignToLowerPage address) := by
    intro address
    rw [pagingAlignToLowerPage_eq]
    exact frameOf_aligned address
  exact flat.mapTo_accepted _ (aligned _) (aligned _) (pagingAlignAddress_aligned _)

/-- The loop over the headers from `i` on. It fails only at a header that is rejected; else it takes every
header that is left. -/
theorem elfMapRun_segments (file : ElfFile) (fuel i : Nat) (res : Int)
    (flat : FlatMap bytes chunk directory tables view) (agree : AgreeOutside tables base bytes)
    (apart : ∀ address, HeaderByte base file.elfMemory address → ∀ i < 1024, frameOf address ≠ tables i)
    (enough : (elfPhnum base file.elfMemory).toNat ≤ i + fuel) :
    AgreeOutside tables base (elfMapRun chunk file (elfPheader base file.elfMemory) fuel i res bytes).1.2 ∧
      (0 ≤ (elfMapRun chunk file (elfPheader base file.elfMemory) fuel i res bytes).1.1 →
        (elfMapRun chunk file (elfPheader base file.elfMemory) fuel i res bytes).2 =
          ((segments base file.elfMemory).drop i).flatMap (fun segment => (segment.call file.elfMemory).writes)) ∧
      (0 ≤ res → (∀ segment ∈ (segments base file.elfMemory).drop i, ¬segment.Rejected file.elfMemory) →
        0 ≤ (elfMapRun chunk file (elfPheader base file.elfMemory) fuel i res bytes).1.1) := by
  have length : (segments base file.elfMemory).length = (elfPhnum base file.elfMemory).toNat := by
    unfold segments
    rw [List.length_map, List.length_range]
  have none : ∀ {j}, (elfPhnum base file.elfMemory).toNat ≤ j → (segments base file.elfMemory).drop j = [] :=
    fun past => List.drop_of_length_le (length ▸ past)
  induction fuel generalizing i res bytes view with
  | zero =>
    refine ⟨agree, fun _ => ?_, fun nonnegative _ => nonnegative⟩
    rw [none (Nat.add_zero i ▸ enough)]
    rfl
  | succ fuel ih =>
    obtain ⟨number, same⟩ := agree.headers apart
    rw [elfMapRun, number]
    by_cases more : i < (elfPhnum base file.elfMemory).toNat
    · have next : (segments base file.elfMemory).drop i =
          segmentAt base (elfProgramHeader base file.elfMemory i) :: (segments base file.elfMemory).drop (i + 1) := by
        rw [List.drop_eq_getElem_cons (length ▸ more)]
        simp [segments]
      have call : elfPhdrCall bytes file (elfPheader base file.elfMemory + BitVec.ofNat 32 (32 * i)) =
          (segmentAt base (elfProgramHeader base file.elfMemory i)).call file.elfMemory := by
        rw [elfPhdrCall_eq]
        exact congrArg (Segment.call file.elfMemory) (same i more)
      rw [if_pos more, next, call]
      generalize segmentAt base (elfProgramHeader base file.elfMemory i) = segment
      have rejected := flat.segment_rejected segment file.elfMemory
      have mapped := flat.log (segment.call file.elfMemory)
      unfold PagingCall.log at mapped ⊢
      dsimp only
      by_cases negative : ((segment.call file.elfMemory).run chunk bytes).1 < 0
      · rw [if_pos negative]
        refine ⟨agree.call flat _, fun done => absurd negative (not_lt.mpr done), fun _ accepted => ?_⟩
        exact absurd (rejected.mp negative) (accepted _ List.mem_cons_self)
      · rw [if_neg negative] at mapped ⊢
        rw [if_neg negative]
        obtain ⟨kept, log, succeeds⟩ := ih (i + 1) _ mapped (agree.call flat _) (by omega)
        refine ⟨kept, fun done => ?_, fun _ accepted => ?_⟩
        · rw [log done]
          rfl
        · exact succeeds (not_lt.mp negative) (List.forall_mem_cons.mp accepted).2
    · rw [if_neg more, none (not_lt.mp more)]
      exact ⟨agree, fun _ => rfl, fun nonnegative _ => nonnegative⟩

end Headers

theorem lastWrite_mapTo {virt phys physEnd page : Addr} {flags : Word} (virtAligned : PageAligned virt)
    (aligned : PageAligned page) :
    lastWrite (PagingCall.mapTo virt phys physEnd flags).writes page = mapToEntry virt phys physEnd flags page := by
  have short : (physEnd - phys).toNat / pagingPageSize ≤ 2 ^ 20 := by
    have := (physEnd - phys).isLt
    unfold pagingPageSize
    omega
  have place : BitVec.ofNat 32 ((page - virt).toNat / pagingPageSize * pagingPageSize) = page - virt := by
    have bound := page.isLt
    unfold PageAligned pagingPageSize at *
    apply BitVec.eq_of_toNat_eq
    rw [BitVec.toNat_ofNat, BitVec.toNat_sub]
    omega
  unfold mapToEntry
  show lastWrite (pageRun (· ||| flags) ((physEnd - phys).toNat / pagingPageSize) virt phys) page = _
  split
  next inside =>
    have written := @lastWrite_pageRun Word (· ||| flags) _ _ virt phys inside short
    rw [place, BitVec.add_comm virt, BitVec.sub_add_cancel] at written
    exact written
  next outside =>
    apply lastWrite_pageRun_missed
    intro i bound same
    apply outside
    have index : (page - virt).toNat / pagingPageSize = i := by
      have bound := (physEnd - phys).isLt
      unfold pagingPageSize at *
      rw [same, BitVec.add_comm, BitVec.add_sub_cancel, BitVec.toNat_ofNat]
      omega
    rw [index]
    exact bound

theorem FlatMap.stack_entry {bytes : Bytes} {chunk directory : Addr} {tables : Nat → Addr} {view : Addr → Word}
    (flat : FlatMap bytes chunk directory tables view) {record : Process} (stackAligned : PageAligned record.stack)
    {page : Addr} (aligned : PageAligned page) :
    lastWrite ((stackCall record).log chunk bytes) page = stackEntry record.stack page := by
  have virtAligned : PageAligned peachosProgramVirtualStackAddressEnd := by decide
  have rejected : ((stackCall record).run chunk bytes).1 < 0 ↔
      (pagingAlignAddress (record.stack + BitVec.ofNat 32 peachosUserProgramStackSize)).toNat < record.stack.toNat :=
    flat.mapTo_accepted _ virtAligned stackAligned (pagingAlignAddress_aligned _)
  unfold PagingCall.log stackEntry
  by_cases below : (pagingAlignAddress (record.stack + BitVec.ofNat 32 peachosUserProgramStackSize)).toNat <
      record.stack.toNat
  · rw [if_pos below, if_pos (rejected.mpr below)]
    rfl
  · rw [if_neg below, if_neg (fun negative => below (rejected.mp negative))]
    exact lastWrite_mapTo virtAligned aligned

section Loaded
variable {kernel : Kernel} {process : Addr} {own : OwnBlocks} {directory : Addr}
  {tables : Nat → Addr} {view : Addr → Word}

theorem LoadedProcess.elf_run (loaded : LoadedProcess kernel process own directory tables view)
    (elf : (kernel.processRecords process).filetype = processFiletypeElf)
    (apart : TablesApart kernel.memory.bytes own tables) :
    AgreeOutside tables kernel.memory.bytes (imageMapRun kernel process).1.2 ∧
      (0 ≤ (imageMapRun kernel process).1.1 → (imageMapRun kernel process).2 =
        (segments kernel.memory.bytes own.image).flatMap (fun segment => (segment.call own.image).writes)) ∧
      ((∀ segment ∈ segments kernel.memory.bytes own.image, ¬segment.Rejected own.image) →
        0 ≤ (imageMapRun kernel process).1.1) := by
  have image : own.image = (kernel.elfFiles (kernel.processRecords process).ptr).elfMemory := by
    rcases loaded.image with ⟨binary, _⟩ | ⟨_, _, same, _⟩
    · rw [elf] at binary
      exact absurd binary (by decide)
    · exact same
  have notBinary : (kernel.processRecords process).filetype ≠ processFiletypeBinary := by
    rw [elf]
    decide
  have headers := apart.headers
  rw [image] at headers
  have counted := (elfPhnum kernel.memory.bytes own.image).isLt
  obtain ⟨agree, taken, accepted⟩ := elfMapRun_segments (kernel.elfFiles (kernel.processRecords process).ptr) (2 ^ 16) 0
    0 loaded.flat (fun _ _ => rfl) headers (by rw [← image]; omega)
  unfold imageMapRun
  dsimp only
  rw [if_neg notBinary]
  rw [← image] at agree taken accepted ⊢
  exact ⟨agree, taken, accepted le_rfl⟩

theorem LoadedProcess.mapped (loaded : LoadedProcess kernel process own directory tables view)
    (elf : (kernel.processRecords process).filetype = processFiletypeElf)
    (apart : TablesApart kernel.memory.bytes own tables) (done : 0 ≤ (processMapRun kernel process).1.1) :
    AgreeOutside tables kernel.memory.bytes (processMapRun kernel process).1.2 ∧
      ∀ page, PageAligned page → pagingGet (processMapRun kernel process).1.2 directory page =
        mappedEntry kernel.memory.bytes own view page := by
  have flat := loaded.image_run.2
  have run := loaded.run.2
  obtain ⟨agree, taken, _⟩ := loaded.elf_run elf apart
  unfold processMapRun at done run ⊢
  dsimp only at done run ⊢
  by_cases failed : (imageMapRun kernel process).1.1 < 0
  · rw [if_pos failed] at done
    exact absurd failed (not_lt.mpr done)
  · rw [if_neg failed] at run ⊢
    refine ⟨agree.call flat _, fun page aligned => ?_⟩
    rw [run.entry page aligned, replay, lastWrite_append, taken (not_lt.mp failed), lastWrite_flatMap,
      flat.stack_entry (loaded.stack ▸ loaded.stackAligned) aligned, ← loaded.stack]
    have each : (fun segment : Segment => lastWrite (segment.call own.image).writes page) =
        fun segment => segment.entry own.image page := by
      funext segment
      exact lastWrite_mapTo (pagingAlignToLowerPage_eq segment.vaddr ▸ frameOf_aligned segment.vaddr) aligned
    rw [each]
    rfl

theorem LoadedProcess.succeeds (loaded : LoadedProcess kernel process own directory tables view)
    (elf : (kernel.processRecords process).filetype = processFiletypeElf)
    (apart : TablesApart kernel.memory.bytes own tables)
    (accepted : ∀ segment ∈ segments kernel.memory.bytes own.image, ¬segment.Rejected own.image) :
    0 ≤ (processMapRun kernel process).1.1 := by
  have image := (loaded.elf_run elf apart).2.2 accepted
  unfold processMapRun
  dsimp only
  rw [if_neg (not_lt.mpr image)]
  exact image

theorem LoadedProcess.placed {after : Kernel} {res : Int}
    (loaded : LoadedProcess kernel process own directory tables view)
    (elf : (kernel.processRecords process).filetype = processFiletypeElf)
    (apart : TablesApart kernel.memory.bytes own tables) (run : processMapMemory process kernel = (.ok res, after))
    (done : 0 ≤ res) : AgreeOutside tables kernel.memory.bytes after.memory.bytes ∧
      (∀ virt, taskVirtualAddressToPhysical after (after.processRecords process).task virt =
        placeOf kernel.memory.bytes own view virt) ∧
      ∀ page, PageAligned page → after.pageEntry process page = mappedEntry kernel.memory.bytes own view page := by
  obtain ⟨same, flat⟩ := loaded.run
  rw [same] at run
  obtain ⟨rfl, rfl⟩ : (processMapRun kernel process).1.1 = res ∧
      kernel.setBytes (processMapRun kernel process).1.2 = after := by
    simpa using run
  obtain ⟨agree, entries⟩ := loaded.mapped elf apart done
  have chunkWord := flat.paged.chunkWord
  refine ⟨agree, fun virt => ?_, fun page aligned => ?_⟩
  · unfold placeOf
    rw [← entries _ (frameOf_aligned virt), ← pagingGetPhysicalAddress_eq, ← chunkWord]
    rfl
  · rw [← entries page aligned, ← chunkWord]
    rfl

end Loaded

def StackPage (page : Addr) : Prop :=
  peachosProgramVirtualStackAddressEnd.toNat ≤ page.toNat ∧ page.toNat < peachosProgramVirtualStackAddressStart.toNat

/-- A header with bytes of the file only, whose pages can be those of the file. -/
structure Segment.Fits (own : OwnBlocks) (segment : Segment) : Prop where
  congruent : segment.vaddr.toNat % pagingPageSize = segment.offset.toNat % pagingPageSize
  smaller : segment.filesz.toNat ≤ segment.memsz.toNat
  inside : segment.offset.toNat + segment.filesz.toNat ≤ own.imageSize.toNat
  virtRoom : segment.vaddr.toNat + segment.memsz.toNat ≤ 2 ^ 32
  physRoom : own.image.toNat + segment.offset.toNat + segment.memsz.toNat < 2 ^ 32
  noStack : ∀ page, segment.Covers page → ¬StackPage page

/-- The headers of an image that is laid out page by page. -/
structure LayoutFits (bytes : Bytes) (own : OwnBlocks) : Prop where
  each : ∀ segment ∈ segments bytes own.image, segment.Fits own
  disjoint : (segments bytes own.image).Pairwise (fun first second => ∀ page, first.Covers page → ¬second.Covers page)
  stackRoom : own.stack.toNat + peachosUserProgramStackSize < 2 ^ 32

section Layout
variable {own : OwnBlocks} {segment : Segment} {page : Addr}

/-- Rounding outwards on both sides, the frames of a header are as many as its pages. -/
theorem Segment.Fits.count (fits : segment.Fits own) (imageAligned : PageAligned own.image)
    (positive : 0 < own.image.toNat) :
    (pagingAlignAddress (own.image + segment.offset + segment.memsz) -
        pagingAlignToLowerPage (own.image + segment.offset)).toNat / pagingPageSize =
      (segment.vaddr.toNat % 4096 + segment.memsz.toNat + 4095) / 4096 := by
  have congruent := fits.congruent
  have room := fits.physRoom
  have start : (own.image + segment.offset).toNat = own.image.toNat + segment.offset.toNat := by
    rw [BitVec.toNat_add, Nat.mod_eq_of_lt (by omega)]
  have stop : (own.image + segment.offset + segment.memsz).toNat =
      own.image.toNat + segment.offset.toNat + segment.memsz.toNat := by
    rw [BitVec.toNat_add, start, Nat.mod_eq_of_lt room]
  rw [pagingAlignToLowerPage_eq, BitVec.toNat_sub, frameOf_toNat, pagingAlignAddress_toNat, start, stop]
  unfold PageAligned at imageAligned
  unfold pagingPageSize at *
  omega

theorem Segment.Fits.entry (fits : segment.Fits own) (imageAligned : PageAligned own.image)
    (positive : 0 < own.image.toNat) (aligned : PageAligned page) :
    (segment.Covers page → segment.entry own.image page =
      some ((frameOf (own.image + segment.offset) + (page - frameOf segment.vaddr)) ||| segment.pageFlags)) ∧
    (¬segment.Covers page → segment.entry own.image page = none) := by
  have room := fits.virtRoom
  have bound := page.isLt
  have inRange : (page - frameOf segment.vaddr).toNat / pagingPageSize <
      (segment.vaddr.toNat % 4096 + segment.memsz.toNat + 4095) / 4096 ↔ segment.Covers page := by
    unfold Segment.Covers
    rw [BitVec.toNat_sub, frameOf_toNat, and_iff_right aligned]
    unfold PageAligned at aligned
    unfold pagingPageSize at *
    omega
  unfold Segment.entry mapToEntry
  rw [fits.count imageAligned positive, pagingAlignToLowerPage_eq, pagingAlignToLowerPage_eq]
  exact ⟨fun covers => if_pos (inRange.mpr covers), fun other => if_neg (fun inside => other (inRange.mp inside))⟩

theorem stackEntry_page {stack : Addr} (stackAligned : PageAligned stack)
    (room : stack.toNat + peachosUserProgramStackSize < 2 ^ 32) (aligned : PageAligned page) :
    (StackPage page → stackEntry stack page = some ((stack + (page - peachosProgramVirtualStackAddressEnd)) |||
      (pagingIsPresent ||| pagingIsWriteable ||| pagingAccessFromAll))) ∧
    (¬StackPage page → stackEntry stack page = none) := by
  have bound := page.isLt
  have low : peachosProgramVirtualStackAddressEnd.toNat = 0x3FB000 := rfl
  have high : peachosProgramVirtualStackAddressStart.toNat = 0x3FF000 := rfl
  have size : (BitVec.ofNat 32 peachosUserProgramStackSize).toNat = 16384 := rfl
  unfold peachosUserProgramStackSize at room
  have stop : (pagingAlignAddress (stack + BitVec.ofNat 32 peachosUserProgramStackSize)).toNat = stack.toNat + 16384 := by
    rw [pagingAlignAddress_toNat, BitVec.toNat_add, size]
    unfold PageAligned pagingPageSize at stackAligned
    omega
  have inRange : (page - peachosProgramVirtualStackAddressEnd).toNat / pagingPageSize <
      (pagingAlignAddress (stack + BitVec.ofNat 32 peachosUserProgramStackSize) - stack).toNat / pagingPageSize ↔
        StackPage page := by
    unfold StackPage
    rw [BitVec.toNat_sub page, BitVec.toNat_sub (pagingAlignAddress _) stack, stop, low, high]
    unfold PageAligned at aligned
    unfold pagingPageSize at *
    omega
  unfold stackEntry mapToEntry
  rw [if_neg (by omega)]
  exact ⟨fun inside => if_pos (inRange.mpr inside), fun other => if_neg (fun inside => other (inRange.mp inside))⟩

theorem findSome_unique {Item Value : Type} {items : List Item} {find : Item → Option Value} {item : Item}
    {value : Value} (member : item ∈ items) (found : find item = some value)
    (others : ∀ other ∈ items, find other = none ∨ find other = some value) : items.findSome? find = some value := by
  cases first : items.findSome? find with
  | none =>
    have missing := List.findSome?_eq_none_iff.mp first item member
    rw [found] at missing
    cases missing
  | some other =>
    obtain ⟨source, listed, gives⟩ := List.exists_of_findSome?_eq_some first
    rcases others source listed with none | same
    · rw [none] at gives
      cases gives
    · exact gives.symm.trans same

variable {bytes : Bytes} {view : Addr → Word}

/-- A page that a header covers is the header's: neither the others nor the stack come to it. -/
theorem LayoutFits.entry (fits : LayoutFits bytes own) (imageAligned : PageAligned own.image)
    (positive : 0 < own.image.toNat) (stackAligned : PageAligned own.stack) (member : segment ∈ segments bytes own.image)
    (covers : segment.Covers page) : mappedEntry bytes own view page =
      (frameOf (own.image + segment.offset) + (page - frameOf segment.vaddr)) ||| segment.pageFlags := by
  have aligned := covers.1
  have symmetric : Std.Symm (fun first second : Segment => ∀ page, first.Covers page → ¬second.Covers page) :=
    ⟨fun first second apart page inSecond inFirst => apart page inFirst inSecond⟩
  have noStack := (stackEntry_page stackAligned fits.stackRoom aligned).2 ((fits.each segment member).noStack page covers)
  have own := ((fits.each segment member).entry imageAligned positive aligned).1 covers
  unfold mappedEntry
  rw [noStack, Option.none_or, findSome_unique (List.mem_reverse.mpr member) own]
  · rfl
  · intro other listed
    by_cases same : other = segment
    · exact Or.inr (same ▸ own)
    · have listed := List.mem_reverse.mp listed
      have apart := fits.disjoint.forall member listed (Ne.symm same) page covers
      exact Or.inl (((fits.each other listed).entry imageAligned positive aligned).2 apart)

theorem LayoutFits.stackEntry (fits : LayoutFits bytes own) (stackAligned : PageAligned own.stack)
    (aligned : PageAligned page) (inStack : StackPage page) : mappedEntry bytes own view page =
      (own.stack + (page - peachosProgramVirtualStackAddressEnd)) |||
        (pagingIsPresent ||| pagingIsWriteable ||| pagingAccessFromAll) := by
  unfold mappedEntry
  rw [(stackEntry_page stackAligned fits.stackRoom aligned).1 inStack]
  rfl

end Layout

theorem or_and_flags {frame flags mask : Word} (aligned : PageAligned frame) (low : 0xfffff000#32 &&& mask = 0) :
    (frame ||| flags) &&& mask = flags &&& mask := by
  have none : frame &&& mask = 0 := by
    rw [← frameOf_of_aligned aligned]
    unfold frameOf
    rw [BitVec.and_assoc, low]
    exact BitVec.and_zero
  rw [BitVec.and_or_distrib_right, none]
  exact BitVec.zero_or

theorem placeOf_run {bytes : Bytes} {own : OwnBlocks} {view : Addr → Word} {virt start frame : Addr} {flags : Word}
    (startAligned : PageAligned start) (frameAligned : PageAligned frame) (small : flags.toNat < 4096)
    (entry : mappedEntry bytes own view (frameOf virt) = (frame + (frameOf virt - start)) ||| flags) :
    placeOf bytes own view virt = frame + (virt - start) := by
  have aligned : PageAligned (frame + (frameOf virt - start)) := by
    have virtAligned := frameOf_aligned virt
    unfold PageAligned pagingPageSize at *
    rw [BitVec.toNat_add, BitVec.toNat_sub]
    omega
  have place : virt = frameOf virt + BitVec.ofNat 32 (virt.toNat % pagingPageSize) := by
    apply BitVec.eq_of_toNat_eq
    rw [BitVec.toNat_add, frameOf_toNat, BitVec.toNat_ofNat]
    unfold pagingPageSize
    omega
  unfold placeOf
  rw [entry, frameOf_or flags aligned small]
  generalize BitVec.ofNat 32 (virt.toNat % pagingPageSize) = inPage at *
  generalize frameOf virt = page at *
  bv_omega

theorem Segment.pageFlags_bits (segment : Segment) : segment.pageFlags.toNat < 4096 ∧
    segment.pageFlags &&& (pagingIsPresent ||| pagingAccessFromAll) = pagingIsPresent ||| pagingAccessFromAll ∧
      (segment.pageFlags &&& pagingIsWriteable ≠ 0 ↔ segment.flags &&& pfW ≠ 0) := by
  unfold Segment.pageFlags
  split
  next writable => exact ⟨by decide, by decide, iff_of_true (by decide) writable⟩
  next readable => exact ⟨by decide, by decide, iff_of_false (by decide) readable⟩

theorem OwnBlocks.frame_image {own : OwnBlocks} (imageAligned : PageAligned own.image)
    {n : Nat} (bound : n < own.imageSize.toNat) :
    own.Frame (frameOf (own.image + BitVec.ofNat 32 n)) := by
  refine Or.inl ⟨n / 4096, ?_, ?_⟩
  · unfold blocksFor heapBlockSize
    omega
  · apply BitVec.eq_of_toNat_eq
    have size := own.imageSize.isLt
    unfold PageAligned at imageAligned
    unfold pagingPageSize at *
    rw [frameOf_toNat, BitVec.toNat_add, BitVec.toNat_add, BitVec.toNat_ofNat, BitVec.toNat_ofNat]
    omega

section Places
variable {bytes : Bytes} {own : OwnBlocks} {view : Addr → Word} {segment : Segment}

theorem Segment.Fits.covers (fits : segment.Fits own) {k : Nat} (bound : k < segment.memsz.toNat) :
    segment.Covers (frameOf (segment.vaddr + BitVec.ofNat 32 k)) := by
  have room := fits.virtRoom
  have place : (segment.vaddr + BitVec.ofNat 32 k).toNat = segment.vaddr.toNat + k := by
    rw [BitVec.toNat_add, BitVec.toNat_ofNat]
    omega
  refine ⟨frameOf_aligned _, ?_, ?_⟩
  · rw [frameOf_toNat, place]
    omega
  · rw [frameOf_toNat, place]
    omega

theorem LayoutFits.place (fits : LayoutFits bytes own) (imageAligned : PageAligned own.image)
    (positive : 0 < own.image.toNat) (stackAligned : PageAligned own.stack)
    (member : segment ∈ segments bytes own.image) {k : Nat} (bound : k < segment.memsz.toNat) :
    placeOf bytes own view (segment.vaddr + BitVec.ofNat 32 k) = own.image + segment.offset + BitVec.ofNat 32 k := by
  have covers := (fits.each segment member).covers bound
  have entry := @LayoutFits.entry own segment _ bytes view fits imageAligned positive stackAligned member covers
  rw [placeOf_run (frameOf_aligned _) (frameOf_aligned _) segment.pageFlags_bits.1 entry]
  have congruent := (fits.each segment member).congruent
  have inPage : segment.vaddr - frameOf segment.vaddr =
      own.image + segment.offset - frameOf (own.image + segment.offset) := by
    have virtBound := segment.vaddr.isLt
    have physBound := (own.image + segment.offset).isLt
    have physPage : (own.image + segment.offset).toNat % 4096 = segment.offset.toNat % 4096 := by
      unfold PageAligned pagingPageSize at imageAligned
      rw [BitVec.toNat_add]
      omega
    apply BitVec.eq_of_toNat_eq
    rw [BitVec.toNat_sub, BitVec.toNat_sub, frameOf_toNat, frameOf_toNat]
    unfold pagingPageSize at congruent
    omega
  generalize frameOf segment.vaddr = first at *
  generalize frameOf (own.image + segment.offset) = frame at *
  bv_omega

theorem LayoutFits.placeStack (fits : LayoutFits bytes own) (stackAligned : PageAligned own.stack) {k : Nat}
    (bound : k < peachosUserProgramStackSize) :
    placeOf bytes own view (peachosProgramVirtualStackAddressEnd + BitVec.ofNat 32 k) =
      own.stack + BitVec.ofNat 32 k := by
  have low : peachosProgramVirtualStackAddressEnd.toNat = 0x3FB000 := rfl
  have high : peachosProgramVirtualStackAddressStart.toNat = 0x3FF000 := rfl
  unfold peachosUserProgramStackSize at bound
  have inStack : StackPage (frameOf (peachosProgramVirtualStackAddressEnd + BitVec.ofNat 32 k)) := by
    unfold StackPage
    rw [frameOf_toNat, BitVec.toNat_add, BitVec.toNat_ofNat, low, high]
    omega
  have aligned := frameOf_aligned (peachosProgramVirtualStackAddressEnd + BitVec.ofNat 32 k)
  have entry := @LayoutFits.stackEntry own _ bytes view fits stackAligned aligned inStack
  rw [placeOf_run (by decide) stackAligned (by decide) entry]
  generalize peachosProgramVirtualStackAddressEnd = first
  bv_omega

end Places

/-- The program finds the header's bytes of the file where the header says, with the header's rights. -/
structure SegmentMapped (before after : Kernel) (process image : Addr) (segment : Segment) : Prop where
  file : ∀ k < segment.filesz.toNat,
    taskVirtualAddressToPhysical after (after.processRecords process).task (segment.vaddr + BitVec.ofNat 32 k) =
        image + segment.offset + BitVec.ofNat 32 k ∧
      after.memory.bytes (image + segment.offset + BitVec.ofNat 32 k) =
        before.memory.bytes (image + segment.offset + BitVec.ofNat 32 k)
  pages : ∀ page, segment.Covers page →
    after.pageEntry process page &&& (pagingIsPresent ||| pagingAccessFromAll) = pagingIsPresent ||| pagingAccessFromAll ∧
      (after.pageEntry process page &&& pagingIsWriteable ≠ 0 ↔ segment.flags &&& pfW ≠ 0)

/-- A file that is laid out page by page is in place once its memory is mapped, and so is the stack. -/
theorem processMapMemory_segments {kernel after : Kernel} {process : Addr} {own : OwnBlocks} {directory : Addr}
    {tables : Nat → Addr} {view : Addr → Word} {res : Int}
    (loaded : LoadedProcess kernel process own directory tables view)
    (elf : (kernel.processRecords process).filetype = processFiletypeElf)
    (apart : TablesApart kernel.memory.bytes own tables) (fits : LayoutFits kernel.memory.bytes own)
    (run : processMapMemory process kernel = (.ok res, after)) (done : 0 ≤ res) :
    (∀ segment ∈ segments kernel.memory.bytes own.image, SegmentMapped kernel after process own.image segment) ∧
      ∀ k < peachosUserProgramStackSize,
        taskVirtualAddressToPhysical after (after.processRecords process).task
            (peachosProgramVirtualStackAddressEnd + BitVec.ofNat 32 k) =
          (kernel.processRecords process).stack + BitVec.ofNat 32 k := by
  obtain ⟨agree, placed, entries⟩ := loaded.placed elf apart run done
  have low : heapAddress.toNat = 0x1000000 := rfl
  have positive : 0 < own.image.toNat := by
    have := loaded.imageLow
    omega
  refine ⟨fun segment member => ⟨fun k bound => ⟨?_, ?_⟩, fun page covers => ?_⟩, fun k bound => ?_⟩
  · exact (placed _).trans (fits.place loaded.imageAligned positive loaded.stackAligned member
      (lt_of_lt_of_le bound (fits.each segment member).smaller))
  · have inside := (fits.each segment member).inside
    have place : own.image + segment.offset + BitVec.ofNat 32 k =
        own.image + BitVec.ofNat 32 (segment.offset.toNat + k) := by
      bv_omega
    rw [place]
    exact agree _ (apart.frames _ (OwnBlocks.frame_image loaded.imageAligned (by omega)))
  · obtain ⟨_, readable, writable⟩ := segment.pageFlags_bits
    have aligned : PageAligned (frameOf (own.image + segment.offset) + (page - frameOf segment.vaddr)) := by
      have pageAligned := covers.1
      have first := frameOf_aligned segment.vaddr
      have frame := frameOf_aligned (own.image + segment.offset)
      unfold PageAligned pagingPageSize at *
      rw [BitVec.toNat_add, BitVec.toNat_sub]
      omega
    rw [entries page covers.1, fits.entry loaded.imageAligned positive loaded.stackAligned member covers,
      or_and_flags aligned (by decide), or_and_flags aligned (by decide)]
    exact ⟨readable, writable⟩
  · exact (placed _).trans ((fits.placeStack loaded.stackAligned bound).trans (by rw [loaded.stack]))

/-- An executable image whose one writable segment has the first `filesz` bytes of the file. -/
def segmentImage (filesz : Word) : Bytes :=
  store32 (store32 (store32 (store32 (store32 elfImage 0x1000010 0x00030002) 0x1000018 0x400000) 0x1000034 1)
    0x100003c 0x400000) 0x1000044 filesz

abbrev imageSegment (filesz : Word) : Segment := ⟨1, 0, 0x400000, filesz, 0x1000, 2⟩

section Image
variable {filesz : Word}

theorem segmentImage_headers (size : filesz = 52 ∨ filesz = 84) {bytes : Bytes}
    (image : ∀ address, frameOf address = 0x1000000 → bytes address = segmentImage filesz address) :
    elfValidateLoaded bytes 0x1000000 = 0 ∧ segments bytes 0x1000000 = [imageSegment filesz] ∧
      ∀ address, HeaderByte bytes 0x1000000 address → frameOf address = 0x1000000 := by
  have valid : elfValidateLoaded bytes 0x1000000 = 0 := by
    simp (disch := decide) only [elfValidateLoaded, elfValidSignature, elfValidClass, elfValidEncoding,
      elfHasProgramHeader, elfPhoff, loadBytes, load32, image]
    rcases size with rfl | rfl <;> decide
  have number : elfPhnum bytes 0x1000000 = 1 := by
    simp (disch := decide) only [elfPhnum, load16, image]
    rcases size with rfl | rfl <;> decide
  have first : elfPheader bytes 0x1000000 = 0x1000034 := by
    simp (disch := decide) only [elfPheader, elfPhoff, load32, image]
    rcases size with rfl | rfl <;> decide
  have header : segmentAt bytes 0x1000034 = imageSegment filesz := by
    simp (disch := decide) only [segmentAt, phdrType, phdrOffset, phdrVaddr, phdrFilesz, phdrMemsz, phdrFlags, load32,
      image]
    rcases size with rfl | rfl <;> decide
  have start : elfProgramHeader bytes 0x1000000 0 = 0x1000034 := by
    unfold elfProgramHeader
    rw [first]
    rfl
  refine ⟨valid, ?_, ?_⟩
  · unfold segments
    rw [number]
    show [segmentAt bytes (elfProgramHeader bytes 0x1000000 0)] = _
    rw [start, header]
  · rintro address (⟨j, small, rfl⟩ | ⟨i, bound, j, small, rfl⟩)
    · revert j
      decide
    · rw [number] at bound
      obtain rfl : i = 0 := by
        have : (1 : BitVec 16).toNat = 1 := rfl
        omega
      rw [start]
      revert j
      decide

theorem segmentImage_loaded (size : filesz = 52 ∨ filesz = 84) : ∃ memory chunk directory tables,
    LoadedProcess (elfImageKernel memory chunk) 0x902000 elfImageOwn directory tables (· ||| 0x05) ∧
      TablesApart memory.bytes elfImageOwn tables ∧ segments memory.bytes 0x1000000 = [imageSegment filesz] ∧
        (∀ address, frameOf address = 0x1000000 → memory.bytes address = segmentImage filesz address) ∧
          0 ≤ (processMapRun (elfImageKernel memory chunk) 0x902000).1.1 := by
  obtain ⟨memory, chunk, directory, tables, loaded, image, above⟩ :=
    imageMemory_loaded (fun _ image => (segmentImage_headers size image).1)
  obtain ⟨_, listed, headers⟩ := segmentImage_headers size image
  have frames : ∀ frame, elfImageOwn.Frame frame → frame.toNat < 0x1005000 := by
    rintro frame (⟨i, bound, rfl⟩ | ⟨i, bound, rfl⟩)
    · revert i
      decide
    · revert i
      decide
  have apart : TablesApart memory.bytes elfImageOwn tables := by
    refine ⟨fun frame inside i bound same => ?_, fun address byte i bound same => ?_⟩
    · have low := frames frame inside
      have high := above i bound
      rw [← same] at high
      omega
    · have high := above i bound
      rw [← same, headers address byte] at high
      exact absurd high (by decide)
  have accepted : ∀ segment ∈ segments memory.bytes elfImageOwn.image, ¬segment.Rejected elfImageOwn.image := by
    intro segment member
    rw [listed] at member
    obtain rfl := List.mem_singleton.mp member
    unfold Segment.Rejected
    rcases size with rfl | rfl <;> decide
  exact ⟨memory, chunk, directory, tables, loaded, apart, listed, image, loaded.succeeds rfl apart accepted⟩

theorem segmentImage_fits (size : filesz = 52 ∨ filesz = 84) {bytes : Bytes}
    (listed : segments bytes 0x1000000 = [imageSegment filesz]) : LayoutFits bytes elfImageOwn := by
  have covers : ∀ page, (imageSegment filesz).Covers page → ¬StackPage page := by
    intro page covers stack
    have low : (0x400000 : Addr).toNat / 4096 * 4096 ≤ page.toNat := covers.2.1
    have start : (0x400000 : Addr).toNat / 4096 * 4096 = peachosProgramVirtualAddress.toNat := by decide
    have high := stack.2
    have order : peachosProgramVirtualStackAddressStart.toNat ≤ peachosProgramVirtualAddress.toNat := by decide
    omega
  refine ⟨?_, ?_, by decide⟩
  · intro segment member
    rw [listed] at member
    obtain rfl := List.mem_singleton.mp member
    rcases size with rfl | rfl <;> exact ⟨by decide, by decide, by decide, by decide, by decide, covers⟩
  · rw [listed]
    exact List.pairwise_singleton _ _

end Image

theorem processMapMemory_segments_image : ∃ memory chunk res after,
    processMapMemory 0x902000 (elfImageKernel memory chunk) = (.ok res, after) ∧ 0 ≤ res ∧
      SegmentMapped (elfImageKernel memory chunk) after 0x902000 0x1000000 (imageSegment 52) := by
  obtain ⟨memory, chunk, directory, tables, loaded, apart, listed, _, done⟩ := segmentImage_loaded (Or.inl rfl)
  have mapped := processMapMemory_segments loaded rfl apart (segmentImage_fits (Or.inl rfl) listed) loaded.run.1 done
  exact ⟨memory, chunk, _, _, loaded.run.1, done, mapped.1 _ (listed ▸ List.mem_singleton_self _)⟩

end PeachOS
