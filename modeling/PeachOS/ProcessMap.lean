import Mathlib.Order.Interval.Finset.Nat
import PeachOS.HeapRoom
import PeachOS.PagingFlat
import PeachOS.ProcessCalls

/-! The page-table entries that `process_map_memory` writes, for any image that a file
left in memory. -/

namespace PeachOS
open Program ByteMemory WriteLog

/-- The pages a program may have mapped: from its own start on, and those of its stack. -/
def PageAllowed (page : Addr) : Prop :=
  peachosProgramVirtualAddress.toNat ≤ page.toNat ∨
    (peachosProgramVirtualStackAddressEnd.toNat ≤ page.toNat ∧
      page.toNat < peachosProgramVirtualStackAddressStart.toNat)

/-- What was allocated for a process: its image of `imageSize` bytes and its stack. -/
structure OwnBlocks where
  image : Addr
  imageSize : Word
  stack : Addr

def OwnBlocks.Frame (own : OwnBlocks) (frame : Addr) : Prop :=
  (∃ i < blocksFor own.imageSize, frame = own.image + BitVec.ofNat 32 (i * pagingPageSize)) ∨
    ∃ i < peachosUserProgramStackSize / heapBlockSize,
      frame = own.stack + BitVec.ofNat 32 (i * pagingPageSize)

def OwnBlocks.Confines (own : OwnBlocks) (write : Addr × Word) : Prop :=
  PageAllowed write.1 ∧ own.Frame (frameOf write.2)

/-- The run of `count` pages from `page` on neither leaves the allowed pages nor wraps. -/
def PagesAllowed (page : Addr) (count : Nat) : Prop :=
  (peachosProgramVirtualAddress.toNat ≤ page.toNat ∧ page.toNat + count * pagingPageSize ≤ 2 ^ 32) ∨
    (peachosProgramVirtualStackAddressEnd.toNat ≤ page.toNat ∧
      page.toNat + count * pagingPageSize ≤ peachosProgramVirtualStackAddressStart.toNat)

section Pages
variable {page : Addr} {count : Nat}

theorem pagesAllowed_iff (aligned : PageAligned page) (positive : 0 < count) (short : count ≤ 2 ^ 20) :
    (∀ i < count, PageAllowed (page + BitVec.ofNat 32 (i * pagingPageSize))) ↔
      PagesAllowed page count := by
  have bound := page.isLt
  have start : peachosProgramVirtualAddress.toNat = 0x400000 := rfl
  have low : peachosProgramVirtualStackAddressEnd.toNat = 0x3FB000 := rfl
  have high : peachosProgramVirtualStackAddressStart.toNat = 0x3FF000 := rfl
  have position : ∀ i < count, (page + BitVec.ofNat 32 (i * pagingPageSize)).toNat =
      (page.toNat + i * 4096) % 2 ^ 32 := by
    intro i _
    rw [BitVec.toNat_add, BitVec.toNat_ofNat]
    unfold pagingPageSize
    omega
  unfold PageAligned pagingPageSize at aligned
  unfold PageAllowed PagesAllowed pagingPageSize
  rw [start, low, high]
  constructor
  · intro allowed
    have first := allowed 0 positive
    rw [position 0 positive] at first
    rcases first with above | ⟨inStack, belowEnd⟩
    · -- a run that wraps comes to page 0
      refine Or.inl ⟨by omega, ?_⟩
      by_contra wraps
      have last := allowed ((2 ^ 32 - page.toNat) / 4096) (by omega)
      rw [position _ (by omega)] at last
      omega
    · -- a run that leaves the stack comes to the page after it
      refine Or.inr ⟨by omega, ?_⟩
      by_contra leaves
      have last := allowed ((0x3FF000 - page.toNat) / 4096) (by omega)
      rw [position _ (by omega)] at last
      omega
  · intro allowed i inside
    rw [position i inside]
    rcases allowed with ⟨above, room⟩ | ⟨inStack, room⟩
    · exact Or.inl (by omega)
    · exact Or.inr (by omega)

theorem mem_pageRun {Value : Type} {entry : Addr → Value} {virt phys : Addr} {write : Addr × Value} :
    write ∈ pageRun entry count virt phys ↔ ∃ i < count,
      write = (virt + BitVec.ofNat 32 (i * pagingPageSize),
        entry (phys + BitVec.ofNat 32 (i * pagingPageSize))) := by
  induction count generalizing virt phys with
  | zero => simp [pageRun]
  | succ count ih =>
    rw [pageRun, List.mem_cons, ih]
    constructor
    · rintro (rfl | ⟨i, bound, rfl⟩)
      · exact ⟨0, Nat.succ_pos count, by simp⟩
      · exact ⟨i + 1, by omega, by rw [nextPage_add, nextPage_add]⟩
    · rintro ⟨i, bound, rfl⟩
      cases i with
      | zero => exact Or.inl (by simp)
      | succ i => exact Or.inr ⟨i, by omega, by rw [nextPage_add, nextPage_add]⟩

end Pages

/-- The pages and frames of one `paging_map_to` are allowed, when it maps any. -/
def MapConfined (own : OwnBlocks) (virt phys physEnd : Addr) : Prop :=
  (physEnd - phys).toNat / pagingPageSize = 0 ∨
    (PagesAllowed virt ((physEnd - phys).toNat / pagingPageSize) ∧
      ∀ i < (physEnd - phys).toNat / pagingPageSize,
        own.Frame (phys + BitVec.ofNat 32 (i * pagingPageSize)))

theorem PageAligned.add {page : Addr} (aligned : PageAligned page) (i : Nat) :
    PageAligned (page + BitVec.ofNat 32 (i * pagingPageSize)) := by
  unfold PageAligned pagingPageSize at *
  rw [BitVec.toNat_add, BitVec.toNat_ofNat]
  omega

theorem mapTo_confined_iff {own : OwnBlocks} {virt phys physEnd : Addr} {flags : Word}
    (virtAligned : PageAligned virt) (physAligned : PageAligned phys) (small : flags.toNat < 4096) :
    (∀ write ∈ (PagingCall.mapTo virt phys physEnd flags).writes, own.Confines write) ↔
      MapConfined own virt phys physEnd := by
  have short : (physEnd - phys).toNat / pagingPageSize ≤ 2 ^ 20 := by
    have := (physEnd - phys).isLt
    unfold pagingPageSize
    omega
  have writes : (PagingCall.mapTo virt phys physEnd flags).writes =
      pageRun (· ||| flags) ((physEnd - phys).toNat / pagingPageSize) virt phys := rfl
  unfold MapConfined
  rw [writes]
  generalize (physEnd - phys).toNat / pagingPageSize = count at *
  rcases Nat.eq_zero_or_pos count with rfl | positive
  · simp [pageRun]
  · have each : (∀ write ∈ pageRun (· ||| flags) count virt phys, own.Confines write) ↔
        ∀ i < count, PageAllowed (virt + BitVec.ofNat 32 (i * pagingPageSize)) ∧
          own.Frame (phys + BitVec.ofNat 32 (i * pagingPageSize)) := by
      constructor
      · intro confined i inside
        have write := confined _ (mem_pageRun.mpr ⟨i, inside, rfl⟩)
        unfold OwnBlocks.Confines at write
        rwa [frameOf_or flags (physAligned.add i) small] at write
      · intro confined write member
        obtain ⟨i, inside, rfl⟩ := mem_pageRun.mp member
        unfold OwnBlocks.Confines
        rw [frameOf_or flags (physAligned.add i) small]
        exact confined i inside
    rw [each, ← pagesAllowed_iff virtAligned positive short]
    constructor
    · exact fun confined => Or.inr ⟨fun i inside => (confined i inside).1, fun i inside => (confined i inside).2⟩
    · rintro (none | ⟨pages, frames⟩) i inside
      · omega
      · exact ⟨pages i inside, frames i inside⟩

/-- The entries that a call writes into the tables: none when it is rejected. -/
def PagingCall.log (call : PagingCall) (chunk : Addr) (bytes : Bytes) : List (Addr × Word) :=
  if (call.run chunk bytes).1 < 0 then [] else call.writes

theorem FlatMap.log {bytes : Bytes} {chunk directory : Addr} {tables : Nat → Addr} {view : Addr → Word}
    (flat : FlatMap bytes chunk directory tables view) (call : PagingCall) :
    FlatMap (call.run chunk bytes).2 chunk directory tables (replay view (call.log chunk bytes)) := by
  obtain ⟨rejected, accepted⟩ := flat.call call
  unfold PagingCall.log
  split
  next negative =>
    rw [rejected negative]
    exact flat
  next nonnegative => exact accepted (not_lt.mp nonnegative)

/-- The call for one program header, with its addresses rounded to whole pages. -/
def elfPhdrCall (bytes : Bytes) (file : ElfFile) (phdr : Addr) : PagingCall :=
  .mapTo (pagingAlignToLowerPage (phdrVaddr bytes phdr))
    (pagingAlignToLowerPage (elfPhdrPhysAddress bytes file phdr))
    (pagingAlignAddress (elfPhdrPhysAddress bytes file phdr + phdrMemsz bytes phdr))
    (if phdrFlags bytes phdr &&& pfW ≠ 0 then pagingIsPresent ||| pagingAccessFromAll ||| pagingIsWriteable
      else pagingIsPresent ||| pagingAccessFromAll)

theorem elfMapPhdr_call (bytes : Bytes) (chunk : Addr) (file : ElfFile) (phdr : Addr) :
    elfMapPhdr bytes chunk file phdr = (elfPhdrCall bytes file phdr).run chunk bytes := rfl

/-- What the loop over the program headers returns, leaves in memory and writes. -/
def elfMapRun (chunk : Addr) (file : ElfFile) (phdrs : Addr) :
    (fuel i : Nat) → (res : Int) → Bytes → (Int × Bytes) × List (Addr × Word)
  | 0, _, res, bytes => ((res, bytes), [])
  | fuel + 1, i, res, bytes =>
      if i < (elfPhnum bytes file.elfMemory).toNat then
        let call := elfPhdrCall bytes file (phdrs + BitVec.ofNat 32 (32 * i))
        let next := call.run chunk bytes
        if next.1 < 0 then (next, call.log chunk bytes)
        else
          let rest := elfMapRun chunk file phdrs fuel (i + 1) next.1 next.2
          (rest.1, call.log chunk bytes ++ rest.2)
      else ((res, bytes), [])

def binaryCall (record : Process) : PagingCall :=
  .mapTo peachosProgramVirtualAddress record.ptr (pagingAlignAddress (record.ptr + record.size))
    (pagingIsPresent ||| pagingIsWriteable ||| pagingAccessFromAll)

def stackCall (record : Process) : PagingCall :=
  .mapTo peachosProgramVirtualStackAddressEnd record.stack
    (pagingAlignAddress (record.stack + BitVec.ofNat 32 peachosUserProgramStackSize))
    (pagingIsPresent ||| pagingIsWriteable ||| pagingAccessFromAll)

/-- The same for the image alone, and for `process_map_memory` as a whole. -/
def imageMapRun (kernel : Kernel) (process : Addr) : (Int × Bytes) × List (Addr × Word) :=
  let record := kernel.processRecords process
  let chunk := kernel.directoryOf process
  let bytes := kernel.memory.bytes
  if record.filetype = processFiletypeBinary then
    ((binaryCall record).run chunk bytes, (binaryCall record).log chunk bytes)
  else
    elfMapRun chunk (kernel.elfFiles record.ptr) (elfPheader bytes (kernel.elfFiles record.ptr).elfMemory)
      (2 ^ 16) 0 0 bytes

def processMapRun (kernel : Kernel) (process : Addr) : (Int × Bytes) × List (Addr × Word) :=
  let image := imageMapRun kernel process
  if image.1.1 < 0 then image
  else
    let stack := stackCall (kernel.processRecords process)
    ((image.1.1, (stack.run (kernel.directoryOf process) image.1.2).2),
      image.2 ++ stack.log (kernel.directoryOf process) image.1.2)

def Kernel.setBytes (kernel : Kernel) (bytes : Bytes) : Kernel :=
  kernel.setMemory { kernel.memory with bytes := bytes }

section Runs
variable {kernel : Kernel} {process : Addr}

theorem processMapElfLoop_run (task : (kernel.processRecords process).task ≠ 0) (file : ElfFile)
    (phdrs : Addr) (fuel i : Nat) (res : Int) (bytes : Bytes) :
    processMapElfLoop process file phdrs fuel i res (kernel.setBytes bytes) =
      (.ok (elfMapRun (kernel.directoryOf process) file phdrs fuel i res bytes).1.1,
        kernel.setBytes (elfMapRun (kernel.directoryOf process) file phdrs fuel i res bytes).1.2) := by
  induction fuel generalizing i res bytes with
  | zero => rfl
  | succ fuel ih =>
    have page : processPageDirectory process (kernel.setBytes bytes) =
        (.ok (kernel.directoryOf process), kernel.setBytes bytes) := processPageDirectory_run task
    rw [processMapElfLoop, read_bind, elfMapRun]
    have same : (kernel.setBytes bytes).memory.bytes = bytes := rfl
    rw [same]
    by_cases more : i < (elfPhnum bytes file.elfMemory).toNat
    · rw [if_pos more, if_pos more, bind_ok page]
      have call : Kernel.onBytes (elfMapPhdr · (kernel.directoryOf process) file
          (phdrs + BitVec.ofNat 32 (32 * i))) (kernel.setBytes bytes) =
          (.ok ((elfPhdrCall bytes file (phdrs + BitVec.ofNat 32 (32 * i))).run
            (kernel.directoryOf process) bytes).1, kernel.setBytes
            ((elfPhdrCall bytes file (phdrs + BitVec.ofNat 32 (32 * i))).run
              (kernel.directoryOf process) bytes).2) := rfl
      rw [bind_ok call]
      dsimp only
      split
      · rfl
      · exact ih _ _ _
    · rw [if_neg more, if_neg more]
      rfl

theorem elfMapRun_flat {bytes : Bytes} {chunk directory : Addr} {tables : Nat → Addr}
    {view : Addr → Word} (flat : FlatMap bytes chunk directory tables view) (file : ElfFile) (phdrs : Addr)
    (fuel i : Nat) (res : Int) :
    FlatMap (elfMapRun chunk file phdrs fuel i res bytes).1.2 chunk directory tables
      (replay view (elfMapRun chunk file phdrs fuel i res bytes).2) := by
  induction fuel generalizing i res bytes view with
  | zero => exact flat
  | succ fuel ih =>
    rw [elfMapRun]
    split
    · have mapped := flat.log (elfPhdrCall bytes file (phdrs + BitVec.ofNat 32 (32 * i)))
      dsimp only
      split
      · exact mapped
      · rw [replay_append]
        exact ih mapped _ _
    · exact flat

end Runs

theorem pagingAlignAddress_toNat (address : Addr) :
    (pagingAlignAddress address).toNat = (address.toNat + 4095) / 4096 * 4096 % 2 ^ 32 := by
  have bound := address.isLt
  unfold pagingAlignAddress pagingPageSize
  split
  · rw [BitVec.toNat_sub, BitVec.toNat_add, BitVec.toNat_ofNat, BitVec.toNat_ofNat]
    omega
  · omega

theorem pagingAlignAddress_aligned (address : Addr) : PageAligned (pagingAlignAddress address) := by
  unfold PageAligned pagingPageSize
  rw [pagingAlignAddress_toNat]
  omega

/-- The condition on one program header: its pages and frames, rounded outwards to whole
pages, are allowed. A header whose frames end below their start is rejected by the code. -/
def PhdrConfined (own : OwnBlocks) (bytes : Bytes) (file : ElfFile) (phdr : Addr) : Prop :=
  MapConfined own (pagingAlignToLowerPage (phdrVaddr bytes phdr))
    (pagingAlignToLowerPage (elfPhdrPhysAddress bytes file phdr))
    (pagingAlignAddress (elfPhdrPhysAddress bytes file phdr + phdrMemsz bytes phdr))

def PhdrRejected (bytes : Bytes) (file : ElfFile) (phdr : Addr) : Prop :=
  (pagingAlignAddress (elfPhdrPhysAddress bytes file phdr + phdrMemsz bytes phdr)).toNat <
    (pagingAlignToLowerPage (elfPhdrPhysAddress bytes file phdr)).toNat

/-- The program headers from `i` on, as the loop reads them, up to the first rejected one. -/
def HeadersConfined (own : OwnBlocks) (chunk : Addr) (file : ElfFile) (phdrs : Addr) :
    (fuel i : Nat) → Bytes → Prop
  | 0, _, _ => True
  | fuel + 1, i, bytes =>
      i < (elfPhnum bytes file.elfMemory).toNat →
        ¬PhdrRejected bytes file (phdrs + BitVec.ofNat 32 (32 * i)) →
          PhdrConfined own bytes file (phdrs + BitVec.ofNat 32 (32 * i)) ∧
            HeadersConfined own chunk file phdrs fuel (i + 1)
              (elfMapPhdr bytes chunk file (phdrs + BitVec.ofNat 32 (32 * i))).2

section Headers
variable {bytes : Bytes} {chunk directory : Addr} {tables : Nat → Addr} {view : Addr → Word}

theorem elfPhdrCall_aligned (bytes : Bytes) (file : ElfFile) (phdr : Addr) :
    PageAligned (pagingAlignToLowerPage (phdrVaddr bytes phdr)) ∧
      PageAligned (pagingAlignToLowerPage (elfPhdrPhysAddress bytes file phdr)) := by
  rw [pagingAlignToLowerPage_eq, pagingAlignToLowerPage_eq]
  exact ⟨frameOf_aligned _, frameOf_aligned _⟩

theorem FlatMap.phdr_rejected (flat : FlatMap bytes chunk directory tables view) (file : ElfFile)
    (phdr : Addr) : ((elfPhdrCall bytes file phdr).run chunk bytes).1 < 0 ↔ PhdrRejected bytes file phdr :=
  flat.mapTo_accepted _ (elfPhdrCall_aligned bytes file phdr).1 (elfPhdrCall_aligned bytes file phdr).2
    (pagingAlignAddress_aligned _)

theorem elfPhdrCall_confined (own : OwnBlocks) (bytes : Bytes) (file : ElfFile) (phdr : Addr) :
    (∀ write ∈ (elfPhdrCall bytes file phdr).writes, own.Confines write) ↔
      PhdrConfined own bytes file phdr := by
  unfold elfPhdrCall PhdrConfined
  apply mapTo_confined_iff (elfPhdrCall_aligned bytes file phdr).1 (elfPhdrCall_aligned bytes file phdr).2
  split <;> decide

theorem elfMapRun_confined (flat : FlatMap bytes chunk directory tables view) (own : OwnBlocks)
    (file : ElfFile) (phdrs : Addr) (fuel i : Nat) (res : Int) :
    (∀ write ∈ (elfMapRun chunk file phdrs fuel i res bytes).2, own.Confines write) ↔
      HeadersConfined own chunk file phdrs fuel i bytes := by
  induction fuel generalizing i res bytes view with
  | zero => simp [elfMapRun, HeadersConfined]
  | succ fuel ih =>
    rw [elfMapRun, HeadersConfined, elfMapPhdr_call]
    by_cases more : i < (elfPhnum bytes file.elfMemory).toNat
    · rw [if_pos more]
      simp only [more, true_imp_iff]
      generalize phdrs + BitVec.ofNat 32 (32 * i) = phdr
      have rejected := flat.phdr_rejected file phdr
      have confined := elfPhdrCall_confined own bytes file phdr
      have mapped := flat.log (elfPhdrCall bytes file phdr)
      unfold PagingCall.log at mapped ⊢
      by_cases negative : ((elfPhdrCall bytes file phdr).run chunk bytes).1 < 0
      · have bad := rejected.mp negative
        simp [negative, bad]
      · have good : ¬PhdrRejected bytes file phdr := fun bad => negative (rejected.mpr bad)
        rw [if_neg negative] at mapped ⊢
        rw [if_neg negative, List.forall_mem_append, confined, ih mapped]
        exact ⟨fun both _ => both, fun both => both good⟩
    · rw [if_neg more]
      simp [more]

end Headers

theorem ownPages {base : Addr} {size : Word} (aligned : PageAligned base) (positive : 0 < base.toNat)
    (room : base.toNat + size.toNat ≤ 2 ^ 32) :
    (pagingAlignAddress (base + size) - base).toNat / pagingPageSize = blocksFor size ∧
      base.toNat + blocksFor size * pagingPageSize ≤ 2 ^ 32 := by
  have bound := base.isLt
  unfold PageAligned at aligned
  rw [BitVec.toNat_sub, pagingAlignAddress_toNat, BitVec.toNat_add]
  unfold blocksFor heapBlockSize
  unfold pagingPageSize at *
  constructor <;> omega

/-- A process as `process_load_data` and `task_new` leave it: its image of `imageSize`
bytes and its stack are where `kzalloc` put them, and its task has page tables. -/
structure LoadedProcess (kernel : Kernel) (process : Addr) (own : OwnBlocks) (directory : Addr)
    (tables : Nat → Addr) (view : Addr → Word) : Prop where
  task : (kernel.processRecords process).task ≠ 0
  flat : FlatMap kernel.memory.bytes (kernel.directoryOf process) directory tables view
  stack : own.stack = (kernel.processRecords process).stack
  image : ((kernel.processRecords process).filetype = processFiletypeBinary ∧
      own.image = (kernel.processRecords process).ptr ∧
      own.imageSize = (kernel.processRecords process).size) ∨
    ((kernel.processRecords process).filetype = processFiletypeElf ∧
      (kernel.processRecords process).ptr ≠ 0 ∧
      own.image = (kernel.elfFiles (kernel.processRecords process).ptr).elfMemory ∧
      elfValidateLoaded kernel.memory.bytes own.image = 0)
  imageAligned : PageAligned own.image
  imageLow : heapAddress.toNat ≤ own.image.toNat
  imageRoom : own.image.toNat + own.imageSize.toNat ≤ 2 ^ 32
  stackAligned : PageAligned own.stack
  stackLow : heapAddress.toNat ≤ own.stack.toNat
  stackRoom : own.stack.toNat + peachosUserProgramStackSize ≤ 2 ^ 32

/-- The condition on the file: a raw binary, or an ELF image whose headers keep to the
process's own pages and frames. -/
def FileConfined (kernel : Kernel) (process : Addr) (own : OwnBlocks) : Prop :=
  (kernel.processRecords process).filetype = processFiletypeElf →
    HeadersConfined own (kernel.directoryOf process) (kernel.elfFiles (kernel.processRecords process).ptr)
      (elfPheader kernel.memory.bytes own.image) (2 ^ 16) 0 kernel.memory.bytes

section Loaded
variable {kernel : Kernel} {process : Addr} {own : OwnBlocks} {directory : Addr}
  {tables : Nat → Addr} {view : Addr → Word}

/-- A range that starts at an aligned base and ends with its last page is the base's own. -/
theorem mapOwn_confined {base virt : Addr} {size : Word} (aligned : PageAligned base)
    (positive : 0 < base.toNat) (room : base.toNat + size.toNat ≤ 2 ^ 32)
    (pages : base.toNat + blocksFor size * pagingPageSize ≤ 2 ^ 32 → PagesAllowed virt (blocksFor size))
    (frames : ∀ i < blocksFor size, own.Frame (base + BitVec.ofNat 32 (i * pagingPageSize))) :
    MapConfined own virt base (pagingAlignAddress (base + size)) := by
  obtain ⟨count, fits⟩ := ownPages aligned positive room
  unfold MapConfined
  rw [count]
  exact Or.inr ⟨pages fits, frames⟩

theorem LoadedProcess.stack_confined (loaded : LoadedProcess kernel process own directory tables view)
    (bytes : Bytes) : ∀ write ∈ (stackCall (kernel.processRecords process)).log
      (kernel.directoryOf process) bytes, own.Confines write := by
  have aligned := loaded.stackAligned
  have size : (BitVec.ofNat 32 peachosUserProgramStackSize).toNat = 16384 := rfl
  have low : heapAddress.toNat = 0x1000000 := rfl
  have stackLow := loaded.stackLow
  have virtAligned : PageAligned peachosProgramVirtualStackAddressEnd := by decide
  unfold PagingCall.log
  split
  · simp
  · unfold stackCall
    rw [← loaded.stack]
    refine (mapTo_confined_iff virtAligned aligned (by decide)).mpr ?_
    refine mapOwn_confined aligned (by omega) (by rw [size]; exact loaded.stackRoom) ?_ ?_
    · exact fun _ => Or.inr (by decide)
    · exact fun i bound => Or.inr ⟨i, bound, rfl⟩

theorem LoadedProcess.binary_confined (loaded : LoadedProcess kernel process own directory tables view)
    (binary : (kernel.processRecords process).filetype = processFiletypeBinary) :
    ∀ write ∈ (binaryCall (kernel.processRecords process)).log (kernel.directoryOf process)
      kernel.memory.bytes, own.Confines write := by
  have aligned := loaded.imageAligned
  have low : heapAddress.toNat = 0x1000000 := rfl
  have imageLow := loaded.imageLow
  have virtAligned : PageAligned peachosProgramVirtualAddress := by decide
  obtain ⟨_, image, size⟩ : (kernel.processRecords process).filetype = processFiletypeBinary ∧
      own.image = (kernel.processRecords process).ptr ∧
      own.imageSize = (kernel.processRecords process).size := by
    rcases loaded.image with found | ⟨elf, _⟩
    · exact found
    · rw [elf] at binary
      exact absurd binary (by decide)
  unfold PagingCall.log
  split
  · simp
  · unfold binaryCall
    rw [← image, ← size]
    refine (mapTo_confined_iff virtAligned aligned (by decide)).mpr ?_
    refine mapOwn_confined aligned (by omega) loaded.imageRoom ?_ ?_
    · intro fits
      refine Or.inl ⟨le_rfl, ?_⟩
      have start : peachosProgramVirtualAddress.toNat = 0x400000 := rfl
      omega
    · exact fun i bound => Or.inl ⟨i, bound, rfl⟩

theorem LoadedProcess.image_run (loaded : LoadedProcess kernel process own directory tables view) :
    (if (kernel.processRecords process).filetype = processFiletypeBinary then processMapBinary process
      else if (kernel.processRecords process).filetype = processFiletypeElf then processMapElf process
      else panic "\n Invalid filetype" : KernelProg Int) kernel =
      (.ok (imageMapRun kernel process).1.1, kernel.setBytes (imageMapRun kernel process).1.2) ∧
    FlatMap (imageMapRun kernel process).1.2 (kernel.directoryOf process) directory tables
      (replay view (imageMapRun kernel process).2) := by
  unfold imageMapRun
  rcases loaded.image with ⟨binary, _⟩ | ⟨elf, nonnull, image, _⟩
  · rw [if_pos binary, if_pos binary]
    refine ⟨?_, loaded.flat.log _⟩
    unfold processMapBinary
    rw [read_bind, bind_ok (processPageDirectory_run loaded.task)]
    rfl
  · have notBinary : (kernel.processRecords process).filetype ≠ processFiletypeBinary := by
      rw [elf]
      decide
    rw [if_neg notBinary, if_pos elf, if_neg notBinary]
    refine ⟨?_, elfMapRun_flat loaded.flat _ _ _ _ _⟩
    unfold processMapElf
    rw [read_bind, if_neg nonnull, read_bind, read_bind]
    exact processMapElfLoop_run loaded.task _ _ _ _ _ kernel.memory.bytes

theorem LoadedProcess.run (loaded : LoadedProcess kernel process own directory tables view) :
    processMapMemory process kernel = (.ok (processMapRun kernel process).1.1,
      kernel.setBytes (processMapRun kernel process).1.2) ∧
    FlatMap (processMapRun kernel process).1.2 (kernel.directoryOf process) directory tables
      (replay view (processMapRun kernel process).2) := by
  obtain ⟨image, flat⟩ := loaded.image_run
  unfold processMapMemory processMapRun
  rw [read_bind, bind_ok image]
  generalize imageMapRun kernel process = result at *
  obtain ⟨⟨res, bytes⟩, log⟩ := result
  dsimp only at *
  split
  · exact ⟨rfl, flat⟩
  · have page : processPageDirectory process (kernel.setBytes bytes) =
        (.ok (kernel.directoryOf process), kernel.setBytes bytes) := processPageDirectory_run loaded.task
    rw [bind_ok page, replay_append]
    exact ⟨rfl, flat.log _⟩

theorem LoadedProcess.confined_iff (loaded : LoadedProcess kernel process own directory tables view) :
    (∀ write ∈ (processMapRun kernel process).2, own.Confines write) ↔
      FileConfined kernel process own := by
  have image : (∀ write ∈ (imageMapRun kernel process).2, own.Confines write) ↔
      FileConfined kernel process own := by
    unfold FileConfined imageMapRun
    rcases loaded.image with ⟨binary, _⟩ | ⟨elf, _, image, _⟩
    · have notElf : (kernel.processRecords process).filetype ≠ processFiletypeElf := by
        rw [binary]
        decide
      rw [if_pos binary]
      exact ⟨fun _ isElf => absurd isElf notElf, fun _ => loaded.binary_confined binary⟩
    · have notBinary : (kernel.processRecords process).filetype ≠ processFiletypeBinary := by
        rw [elf]
        decide
      rw [if_neg notBinary, image]
      simp only [elf, true_imp_iff]
      exact elfMapRun_confined loaded.flat own _ _ _ _ _
  unfold processMapRun
  dsimp only
  split
  · exact image
  · rw [List.forall_mem_append, image, and_iff_left (loaded.stack_confined _)]

end Loaded

/-- `process_map_memory` writes entries of allowed pages and own frames only, exactly when
the file is a raw binary or its program headers keep to them; then these are also the only
pages whose entries change. -/
theorem processMapMemory_confined_iff {kernel : Kernel} {process : Addr} {own : OwnBlocks}
    {directory : Addr} {tables : Nat → Addr} {view : Addr → Word}
    (loaded : LoadedProcess kernel process own directory tables view) :
    (processMapMemory process kernel = (.ok (processMapRun kernel process).1.1,
        kernel.setBytes (processMapRun kernel process).1.2) ∧
      FlatMap (processMapRun kernel process).1.2 (kernel.directoryOf process) directory tables
        (replay view (processMapRun kernel process).2)) ∧
    ((∀ write ∈ (processMapRun kernel process).2, own.Confines write) ↔
      FileConfined kernel process own) ∧
    (FileConfined kernel process own → ∀ page, PageAligned page →
      pagingGet (processMapRun kernel process).1.2 directory page = view page ∨
        own.Confines (page, pagingGet (processMapRun kernel process).1.2 directory page)) := by
  refine ⟨loaded.run, loaded.confined_iff, fun confined page aligned => ?_⟩
  rw [loaded.run.2.entry page aligned, replay]
  cases last : lastWrite (processMapRun kernel process).2 page with
  | none => exact Or.inl rfl
  | some entry => exact Or.inr (loaded.confined_iff.mpr confined _ (lastWrite_mem last))

/-- A valid ELF image at the first block of the heap, whose one writable program header
asks for page 0. -/
def elfImage : Bytes :=
  store32 (store32 (store32 (store32 (store32 (store32 (fun _ => 0) 0x1000000 0x464c457f)
    0x1000004 0x00000101) 0x100001c 52) 0x100002c 1) 0x1000048 0x1000) 0x100004c 2

/-- Memory with the image in the first block and a stack in the next four. -/
def elfImageMemory : Memory where
  heap := heapMarkBlocksTaken (heapMarkBlocksTaken bootMemory.heap 0 1) 1 4
  bytes := elfImage

/-- The process of the image, before its memory is mapped. -/
def elfImageKernel (memory : Memory) (chunk : Addr) : Kernel :=
  { bootKernel with
    memory := memory
    tasks := fun _ => { Task.zero with pageDirectory := chunk }
    processRecords := fun _ => { Process.zero with task := 0x900000, ptr := 0x901000, stack := 0x1001000 }
    elfFiles := fun _ => ⟨0x1000000, 0, 0, 0, 0⟩ }

abbrev elfImageOwn : OwnBlocks := ⟨0x1000000, 0x1000, 0x1001000⟩

theorem elfImageMemory_free : KernelHeap elfImageMemory.heap ∧
    (∀ block : Nat, block < 5 → ¬EntryFree elfImageMemory.heap.table.entries block) ∧ 1026 ≤ (freeBlocks elfImageMemory.heap).card := by
  have kernel : KernelHeap elfImageMemory.heap := bootMemory_kernel.1.congr rfl rfl
  have entry : ∀ block : Nat, elfImageMemory.heap.table.entries block =
      if block < 1 then chainEntry 1 0 else if block < 5 then chainEntry 4 (block - 1)
      else bootMemory.heap.table.entries block := by
    intro block
    unfold elfImageMemory
    rw [heapMarkBlocksTaken_entry, heapMarkBlocksTaken_entry]
    by_cases first : block < 1
    · rw [if_neg (by omega), if_pos (by omega), if_pos first]
      congr 1
      omega
    · by_cases stack : block < 5
      · rw [if_pos (by omega), if_neg first, if_pos stack]
        congr 1
        omega
      · rw [if_neg (by omega), if_neg (by omega), if_neg first, if_neg stack]
  refine ⟨kernel, ?_, ?_⟩
  · intro block bound
    unfold EntryFree
    rw [entry block]
    split
    · decide
    · rw [chainEntry_taken]
      decide
  · have rest : Finset.Ico 5 25600 ⊆ freeBlocks elfImageMemory.heap := by
      intro block member
      have bounds := Finset.mem_Ico.mp member
      rw [mem_freeBlocks, kernel.blocks]
      refine ⟨bounds.2, ?_⟩
      unfold EntryFree
      rw [entry, if_neg (by omega), if_neg (by omega)]
      exact bootMemory_free bounds.2
    have count := Finset.card_le_card rest
    rw [Nat.card_Ico] at count
    omega

theorem elfImage_header {bytes : Bytes}
    (image : ∀ address, frameOf address = 0x1000000 → bytes address = elfImage address) :
    elfValidateLoaded bytes 0x1000000 = 0 ∧ elfPheader bytes 0x1000000 = 0x1000034 ∧
      elfPhnum bytes 0x1000000 = 1 ∧ phdrOffset bytes 0x1000034 = 0 ∧
      phdrVaddr bytes 0x1000034 = 0 ∧ phdrMemsz bytes 0x1000034 = 0x1000 := by
  simp (disch := decide) only [elfValidateLoaded, elfValidSignature, elfValidClass, elfValidEncoding,
    elfHasProgramHeader, elfPheader, elfPhoff, elfPhnum, phdrOffset, phdrVaddr, phdrMemsz, loadBytes,
    load16, load32, image]
  decide

/-- The memory with another image in its first block. -/
def imageMemory (image : Bytes) : Memory := { elfImageMemory with bytes := image }

/-- The task's new page tables are in none of the five blocks, and leave the image as it is. -/
theorem imageMemory_loaded {image : Bytes} (valid : ∀ bytes : Bytes,
      (∀ address, frameOf address = 0x1000000 → bytes address = image address) → elfValidateLoaded bytes 0x1000000 = 0) :
    ∃ memory chunk directory tables,
      LoadedProcess (elfImageKernel memory chunk) 0x902000 elfImageOwn directory tables (· ||| 0x05) ∧
        (∀ address, frameOf address = 0x1000000 → memory.bytes address = image address) ∧
          ∀ i < 1024, 0x1005000 ≤ (tables i).toNat := by
  obtain ⟨kernel, taken, room⟩ := elfImageMemory_free
  obtain ⟨chunk, memory, built, _⟩ := @pagingNew4gb_succeeds 0x05 (imageMemory image) kernel room
  have pool : Pool (imageMemory image).heap := kernel.pool
  obtain ⟨chunkBlock, directory, tables, rfl, new⟩ := pagingNew4gb_new pool built
  have above : ∀ block ∈ insert chunkBlock (builtBlocks directory tables 1024),
      0x1005000 ≤ (heapBlockToAddress (imageMemory image).heap block).toNat := by
    intro block member
    have free := new.takes.free block member
    have position := kernel.address_toNat free.1
    have high : ¬block < 5 := fun low => taken block low free.2
    change (heapBlockToAddress (imageMemory image).heap block).toNat = _ at position
    omega
  have kept : ∀ address, frameOf address = 0x1000000 → memory.bytes address = image address := by
    intro address inImage
    apply new.takes.frame
    intro block member same
    have position := above block member
    rw [← same, inImage] at position
    exact absurd position (by decide)
  have task : (0x900000 : Addr) ≠ 0 := by decide
  have ptr : (0x901000 : Addr) ≠ 0 := by decide
  refine ⟨memory, _, _, _, ⟨task, new.flat, rfl, Or.inr ⟨rfl, ptr, rfl, valid _ kept⟩,
    by decide, by decide, by decide, by decide, by decide, by decide⟩, kept, fun i bound => ?_⟩
  exact above _ (Or.inr (Or.inr ⟨i, bound, rfl⟩))

theorem elfImage_loaded : ∃ memory chunk directory tables,
    LoadedProcess (elfImageKernel memory chunk) 0x902000 elfImageOwn directory tables (· ||| 0x05) ∧
      ∀ address, frameOf address = 0x1000000 → memory.bytes address = elfImage address := by
  obtain ⟨memory, chunk, directory, tables, loaded, kept, _⟩ :=
    imageMemory_loaded (fun _ image => (elfImage_header image).1)
  exact ⟨memory, chunk, directory, tables, loaded, kept⟩

theorem elfImage_unconfined {memory : Memory} {chunk : Addr}
    (image : ∀ address, frameOf address = 0x1000000 → memory.bytes address = elfImage address) :
    ¬FileConfined (elfImageKernel memory chunk) 0x902000 elfImageOwn := by
  obtain ⟨_, headers, number, offset, virt, size⟩ := elfImage_header image
  intro confined
  have first := confined rfl
  have start : elfPhdrPhysAddress memory.bytes ⟨0x1000000, 0, 0, 0, 0⟩ 0x1000034 = 0x1000000 := by
    show (0x1000000 : Addr) + phdrOffset memory.bytes 0x1000034 = _
    rw [offset]
    rfl
  have more : 0 < (elfPhnum memory.bytes 0x1000000).toNat := by
    rw [number]
    decide
  change HeadersConfined elfImageOwn _ ⟨0x1000000, 0, 0, 0, 0⟩ (elfPheader memory.bytes 0x1000000)
    (65535 + 1) 0 memory.bytes at first
  rw [headers] at first
  have accepted : ¬PhdrRejected memory.bytes ⟨0x1000000, 0, 0, 0, 0⟩ 0x1000034 := by
    unfold PhdrRejected
    rw [start, size]
    decide
  have mapped := (first more accepted).1
  change PhdrConfined elfImageOwn memory.bytes ⟨0x1000000, 0, 0, 0, 0⟩ 0x1000034 at mapped
  unfold PhdrConfined at mapped
  rw [start, size, virt] at mapped
  rcases mapped with none | ⟨pages, _⟩
  · exact absurd none (by decide)
  · revert pages
    unfold PagesAllowed
    decide

theorem processMapMemory_confined_elf : ∃ memory chunk directory tables,
    LoadedProcess (elfImageKernel memory chunk) 0x902000 elfImageOwn directory tables (· ||| 0x05) ∧
      ((∀ write ∈ (processMapRun (elfImageKernel memory chunk) 0x902000).2, elfImageOwn.Confines write) ↔
        FileConfined (elfImageKernel memory chunk) 0x902000 elfImageOwn) := by
  obtain ⟨memory, chunk, directory, tables, loaded, _⟩ := elfImage_loaded
  exact ⟨memory, chunk, directory, tables, loaded, (processMapMemory_confined_iff loaded).2.1⟩

/-- Not every file that the loader takes keeps to its own pages: the image maps page 0. -/
theorem processMapMemory_escapes : ¬∀ (kernel : Kernel) (process : Addr) (own : OwnBlocks)
    (directory : Addr) (tables : Nat → Addr) (view : Addr → Word),
    LoadedProcess kernel process own directory tables view →
      ∀ write ∈ (processMapRun kernel process).2, own.Confines write := by
  intro always
  obtain ⟨memory, chunk, directory, tables, loaded, image⟩ := elfImage_loaded
  exact elfImage_unconfined image (loaded.confined_iff.mp (always _ _ _ _ _ _ loaded))

end PeachOS
