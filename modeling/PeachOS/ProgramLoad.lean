import PeachOS.Below
import PeachOS.ProcessData
import PeachOS.TaskSpace

/-! `process_load`: a program's file on the disk is where its headers say in the address space of a new task. What was
loaded before stays where it is. -/

namespace PeachOS
open Program ByteMemory Search WriteLog

section File
variable {file : List Byte} {bytes : Bytes} {base : Addr}

theorem content_byte (content : loadBytes bytes base file.length = file) {k : Nat} (bound : k < file.length) :
    bytes (base + BitVec.ofNat 32 k) = file.getD k 0 := by
  nth_rewrite 1 [← content]
  rw [loadBytes_map, List.getD_eq_getElem?_getD, List.getElem?_map, List.getElem?_range bound]
  rfl

theorem ElfProgram.entry (program : ElfProgram file) (content : loadBytes bytes base file.length = file) :
    elfEntry bytes base = elfEntry (fileBytes file) 0 := by
  have complete : 52 ≤ file.length := program.complete
  have same := sameFile_shiftBytes program.short content
  have word : elfEntry (shiftBytes bytes base) 0 = elfEntry (fileBytes file) 0 := same.word (by omega : 24 + 4 ≤ file.length)
  rw [← word]
  unfold elfEntry
  rw [load32_shiftBytes]
  rfl

end File

/-- A process whose task starts where the file says, and finds each byte of a segment where the file says. -/
structure InPlace (kernel : Kernel) (process : Addr) (file : List Byte) : Prop where
  record : Owned kernel.memory.heap process
  task : Owned kernel.memory.heap (kernel.processRecords process).task
  entry : (kernel.tasks (kernel.processRecords process).task).registers.ip = elfEntry (fileBytes file) 0
  space : ∃ directory pages view, OwnSpace kernel (kernel.directoryOf process) directory pages view
  bytes : ∀ segment ∈ segments (fileBytes file) 0, ∀ k < segment.filesz.toNat,
    Owned kernel.memory.heap
        (taskVirtualAddressToPhysical kernel (kernel.processRecords process).task (segment.vaddr + BitVec.ofNat 32 k)) ∧
      kernel.memory.bytes
          (taskVirtualAddressToPhysical kernel (kernel.processRecords process).task (segment.vaddr + BitVec.ofNat 32 k)) =
        file.getD (segment.offset.toNat + k) 0

/-- What is in use stays: its bytes, the records of processes, and of a task all but its place in the list. -/
structure StaysLoaded (before after : Kernel) : Prop where
  unharmed : Unharmed before after
  records : ∀ process, Owned before.memory.heap process → after.processRecords process = before.processRecords process
  tasks : ∀ task, Owned before.memory.heap task →
    (after.tasks task).pageDirectory = (before.tasks task).pageDirectory ∧
      (after.tasks task).registers = (before.tasks task).registers

section Stays
variable {before middle after : Kernel} {process task chunk directory : Addr} {pages : Nat → Addr} {view : Addr → Word}
  {file : List Byte}

theorem StaysLoaded.refl (kernel : Kernel) : StaysLoaded kernel kernel :=
  ⟨⟨fun _ owned => owned, fun _ _ => rfl⟩, fun _ _ => rfl, fun _ _ => ⟨rfl, rfl⟩⟩

theorem StaysLoaded.trans (first : StaysLoaded before middle) (second : StaysLoaded middle after) :
    StaysLoaded before after where
  unharmed := first.unharmed.trans second.unharmed
  records := fun process owned =>
    (second.records process (first.unharmed.owned process owned)).trans (first.records process owned)
  tasks := by
    intro task owned
    obtain ⟨directory, registers⟩ := second.tasks task (first.unharmed.owned task owned)
    obtain ⟨directoryBefore, registersBefore⟩ := first.tasks task owned
    exact ⟨directory.trans directoryBefore, registers.trans registersBefore⟩

theorem FlatMap.translate {kernel : Kernel}
    (flat : FlatMap kernel.memory.bytes (kernel.tasks task).pageDirectory directory pages view) (virt : Addr) :
    taskVirtualAddressToPhysical kernel task virt =
      frameOf (view (frameOf virt)) + BitVec.ofNat 32 (virt.toNat % pagingPageSize) := by
  unfold taskVirtualAddressToPhysical
  rw [pagingGetPhysicalAddress_eq, flat.paged.chunkWord, flat.entry _ (frameOf_aligned virt)]

theorem FlatMap.translate_same {kernel after : Kernel} {other : Addr}
    (flat : FlatMap kernel.memory.bytes (kernel.tasks task).pageDirectory directory pages view)
    (same : FlatMap after.memory.bytes (after.tasks other).pageDirectory directory pages view) (virt : Addr) :
    taskVirtualAddressToPhysical after other virt = taskVirtualAddressToPhysical kernel task virt :=
  (same.translate virt).trans (flat.translate virt).symm

theorem InPlace.stays (inPlace : InPlace before process file) (stays : StaysLoaded before after) :
    InPlace after process file := by
  have record := stays.records process inPlace.record
  obtain ⟨pageDirectory, registers⟩ := stays.tasks _ inPlace.task
  obtain ⟨directory, pages, view, space⟩ := inPlace.space
  have kept := space.unharmed stays.unharmed
  have same : ∀ virt, taskVirtualAddressToPhysical after (before.processRecords process).task virt =
      taskVirtualAddressToPhysical before (before.processRecords process).task virt := by
    intro virt
    have flat := kept.flat
    unfold Kernel.directoryOf at flat
    rw [← pageDirectory] at flat
    exact FlatMap.translate_same space.flat flat virt
  refine ⟨stays.unharmed.owned _ inPlace.record, ?_, ?_, ⟨directory, pages, view, ?_⟩, fun segment member k bound => ?_⟩
  · rw [record]
    exact stays.unharmed.owned _ inPlace.task
  · rw [record, registers]
    exact inPlace.entry
  · unfold Kernel.directoryOf
    rw [record, pageDirectory]
    exact kept
  · obtain ⟨owned, byte⟩ := inPlace.bytes segment member k bound
    rw [record, same]
    exact ⟨stays.unharmed.owned _ owned, (stays.unharmed.bytes _ owned).trans byte⟩

/-- What the program of a process can write. -/
def Kernel.writes (kernel : Kernel) (process : Addr) : Set Addr :=
  {address | ∃ page, PageAligned page ∧ kernel.pageEntry process page &&& pagingIsWriteable ≠ 0 ∧
    frameOf address = frameOf (kernel.pageEntry process page)}

/-- A program and its page tables are in `area`, and so is all that it can write. It cannot write its page tables. -/
structure Separate (kernel : Kernel) (process : Addr) (file : List Byte) (area : Set Addr) : Prop where
  space : ∃ directory pages view, OwnSpace kernel (kernel.directoryOf process) directory pages view ∧
    ∀ address, SpaceByte (kernel.directoryOf process) directory pages address →
      address ∈ area ∧ (ProgramInside file → address ∉ kernel.writes process)
  bytes : ∀ segment ∈ segments (fileBytes file) 0, ∀ k < segment.filesz.toNat,
    taskVirtualAddressToPhysical kernel (kernel.processRecords process).task (segment.vaddr + BitVec.ofNat 32 k) ∈ area
  writes : ProgramInside file → kernel.writes process ⊆ area
  owned : ∀ address ∈ area, Owned kernel.memory.heap address

theorem FlatMap.pageEntry {kernel : Kernel}
    (flat : FlatMap kernel.memory.bytes (kernel.directoryOf process) directory pages view) {page : Addr}
    (aligned : PageAligned page) : kernel.pageEntry process page = view page := by
  unfold Kernel.pageEntry
  rw [flat.paged.chunkWord, flat.entry page aligned]

theorem FlatMap.writes {kernel after : Kernel}
    (flat : FlatMap kernel.memory.bytes (kernel.directoryOf process) directory pages view)
    (same : FlatMap after.memory.bytes (after.directoryOf process) directory pages view) :
    after.writes process = kernel.writes process := by
  ext address
  refine exists_congr fun page => and_congr_right fun aligned => ?_
  rw [same.pageEntry aligned, flat.pageEntry aligned]

variable {area : Set Addr}

theorem Separate.stays (separate : Separate before process file area) (inPlace : InPlace before process file)
    (stays : StaysLoaded before after) : Separate after process file area := by
  have record := stays.records process inPlace.record
  have chunk : after.directoryOf process = before.directoryOf process := by
    unfold Kernel.directoryOf
    rw [record, (stays.tasks _ inPlace.task).1]
  obtain ⟨directory, pages, view, space, inArea⟩ := separate.space
  have kept := space.unharmed stays.unharmed
  have flat : FlatMap after.memory.bytes (after.directoryOf process) directory pages view := by
    rw [chunk]
    exact kept.flat
  have sameWrites : after.writes process = before.writes process := FlatMap.writes space.flat flat
  refine ⟨⟨directory, pages, view, ?_, ?_⟩, ?_, ?_,
    fun address member => stays.unharmed.owned _ (separate.owned address member)⟩
  · rw [chunk]
    exact kept
  · rw [chunk, sameWrites]
    exact inArea
  · intro segment member k bound
    rw [FlatMap.translate_same space.flat flat]
    exact separate.bytes segment member k bound
  · rw [sameWrites]
    exact separate.writes

theorem Separate.written (separate : Separate before process file area) (inPlace : InPlace before process file)
    {bytes : Bytes} (same : ∀ address ∈ area, bytes address = before.memory.bytes address) :
    InPlace (before.setBytes bytes) process file := by
  obtain ⟨directory, pages, view, space, inArea⟩ := separate.space
  have flat : FlatMap (before.setBytes bytes).memory.bytes ((before.setBytes bytes).directoryOf process) directory pages
      view :=
    space.flat.congr (fun address inside => same address (inArea address (Or.inl inside)).1)
      (fun address inside => same address (inArea address (Or.inr (Or.inl inside))).1)
      (fun i bound address inside => same address (inArea address (Or.inr (Or.inr ⟨i, bound, inside⟩))).1)
  refine ⟨inPlace.record, inPlace.task, inPlace.entry,
    ⟨directory, pages, view, flat, space.chunk, space.directory, space.tables⟩, fun segment member k bound => ?_⟩
  obtain ⟨owned, byte⟩ := inPlace.bytes segment member k bound
  have there := FlatMap.translate_same space.flat flat (segment.vaddr + BitVec.ofNat 32 k)
  rw [there]
  exact ⟨owned, (same _ (separate.bytes segment member k bound)).trans byte⟩

theorem Separate.sameWrites (separate : Separate before process file area) (inside : ProgramInside file) {bytes : Bytes}
    (same : ∀ address ∈ area, address ∉ before.writes process → bytes address = before.memory.bytes address) :
    (before.setBytes bytes).writes process = before.writes process := by
  obtain ⟨directory, pages, view, space, inArea⟩ := separate.space
  have table : ∀ address, SpaceByte (before.directoryOf process) directory pages address →
      bytes address = before.memory.bytes address := by
    intro address member
    obtain ⟨here, apart⟩ := inArea address member
    exact same address here (apart inside)
  exact FlatMap.writes space.flat (space.flat.congr (fun address member => table address (Or.inl member))
    (fun address member => table address (Or.inr (Or.inl member)))
    (fun i bound address member => table address (Or.inr (Or.inr ⟨i, bound, member⟩))))

end Stays

section Rest
variable {image : Image} {header : FatHeader} {room count i : Nat} {loaded : Kernel} {file : List Byte}
  {process ptr : Addr}

theorem MadeTask.tablesApart {kernel after : Kernel} {task directory stack : Addr} {pages : Nat → Addr}
    (made : MadeTask kernel after process task directory pages) (program : ElfProgram file)
    (block : FileBlock kernel ptr file) (stackAligned : PageAligned stack)
    (stackOwned : ∀ k < 16384, Owned kernel.memory.heap (stack + BitVec.ofNat 32 k)) :
    TablesApart after.memory.bytes ⟨ptr, BitVec.ofNat 32 file.length, stack⟩ pages := by
  have short := program.short
  have kept := block.unharmed made.apart.unharmed
  have page : ∀ {base : Addr}, PageAligned base → ∀ {k : Nat}, Owned kernel.memory.heap (base + BitVec.ofNat 32 (k * 4096)) →
      ∀ i < 1024, base + BitVec.ofNat 32 (k * pagingPageSize) ≠ pages i := by
    intro base aligned k owned i bound
    have apart := made.besidePages owned i bound
    rwa [frameOf_of_aligned (PageAligned.add aligned k)] at apart
  refine ⟨?_, ?_⟩
  · rintro frame (⟨k, bound, rfl⟩ | ⟨k, bound, rfl⟩)
    · refine page block.aligned (block.owned (k * 4096) ?_)
      unfold blocksFor heapBlockSize at bound
      rw [BitVec.toNat_ofNat] at bound
      omega
    · refine page stackAligned (stackOwned (k * 4096) ?_)
      unfold peachosUserProgramStackSize heapBlockSize at bound
      omega
  · intro address byte
    obtain ⟨k, bound, rfl⟩ := (program.loaded kept.content).2.2 address byte
    exact made.besidePages (block.owned k bound)

theorem Owned.page {heap : Heap} {address other : Addr} (owned : Owned heap address)
    (same : frameOf other = frameOf address) : Owned heap other := by
  obtain ⟨start, block, chained, page⟩ := owned
  exact ⟨start, block, chained, same.trans page⟩

theorem OwnBlocks.Frame.byte {own : OwnBlocks} {address : Addr} (frame : own.Frame (frameOf address))
    (imageAligned : PageAligned own.image) (stackAligned : PageAligned own.stack) :
    (∃ k < own.imageSize.toNat, frameOf address = frameOf (own.image + BitVec.ofNat 32 k)) ∨
      ∃ k < 16384, frameOf address = frameOf (own.stack + BitVec.ofNat 32 k) := by
  rcases frame with ⟨i, bound, same⟩ | ⟨i, bound, same⟩
  · refine Or.inl ⟨i * pagingPageSize, ?_, ?_⟩
    · unfold blocksFor heapBlockSize at bound
      unfold pagingPageSize
      omega
    · rw [same, frameOf_of_aligned (imageAligned.add i)]
  · refine Or.inr ⟨i * pagingPageSize, ?_, ?_⟩
    · unfold peachosUserProgramStackSize heapBlockSize at bound
      unfold pagingPageSize
      omega
    · rw [same, frameOf_of_aligned (stackAligned.add i)]

/-- The stack of a process in a block of its own. -/
structure StackBlock (kernel : Kernel) (stack : Addr) : Prop where
  owned : ∀ k < 16384, Owned kernel.memory.heap (stack + BitVec.ofNat 32 k)
  aligned : PageAligned stack
  low : heapAddress.toNat ≤ stack.toNat
  high : stack.toNat + 16384 ≤ heapAddress.toNat + heapSizeBytes

theorem StackBlock.below {kernel : Kernel} {stack : Addr} (block : StackBlock kernel stack) :
    stack.toNat + peachosUserProgramStackSize < 2 ^ 32 := by
  have high := block.high
  have low : heapAddress.toNat = 0x1000000 := rfl
  unfold peachosUserProgramStackSize
  unfold heapSizeBytes at high
  rw [low] at high
  omega

/-- A process before it has a task: its record says that it is an ELF file, and where that and the stack are. -/
structure Prepares (kernel : Kernel) (process ptr stack : Addr) (file : List Byte) : Prop where
  block : FileBlock kernel ptr file
  stackBlock : StackBlock kernel stack
  filetype : (kernel.processRecords process).filetype = processFiletypeElf
  image : (kernel.processRecords process).ptr ≠ 0
  memory : (kernel.elfFiles (kernel.processRecords process).ptr).elfMemory = ptr
  stackPtr : (kernel.processRecords process).stack = stack

theorem Prepares.mapped {kernel tasked : Kernel} {task directory stack : Addr} {pages : Nat → Addr}
    (prepares : Prepares kernel process ptr stack file) (made : MadeTask kernel tasked process task directory pages)
    (program : ElfProgram file) (fits : ProgramFits file) : ∃ res bytes,
      processMapMemory process (tasked.setProcess process ({ · with task := task })) =
        (.ok res, (tasked.setProcess process ({ · with task := task })).setBytes bytes) ∧
      0 ≤ res ∧ AgreeOutside pages tasked.memory.bytes bytes ∧
      (∃ view, FlatMap bytes (tasked.tasks task).pageDirectory directory pages view) ∧
      (∀ segment ∈ segments (fileBytes file) 0, ∀ k < segment.filesz.toNat, segment.offset.toNat + k < file.length ∧
        taskVirtualAddressToPhysical ((tasked.setProcess process ({ · with task := task })).setBytes bytes) task
          (segment.vaddr + BitVec.ofNat 32 k) = ptr + BitVec.ofNat 32 (segment.offset.toNat + k)) ∧
      (ProgramInside file → ∀ page, PageAligned page →
        ((tasked.setProcess process ({ · with task := task })).setBytes bytes).pageEntry process page &&&
          pagingIsWriteable ≠ 0 → OwnBlocks.Frame ⟨ptr, BitVec.ofNat 32 file.length, stack⟩
            (frameOf (((tasked.setProcess process ({ · with task := task })).setBytes bytes).pageEntry process page))) := by
  obtain ⟨entered, enteredSame⟩ : ∃ entered, tasked.setProcess process ({ · with task := task }) = entered := ⟨_, rfl⟩
  have rest := made.rest
  have record : entered.processRecords process = { kernel.processRecords process with task := task } := by
    rw [← enteredSame, rest]
    exact Function.update_self ..
  have images : entered.elfFiles = kernel.elfFiles := by
    rw [← enteredSame, rest]
    rfl
  have tasks : entered.tasks = tasked.tasks := by
    rw [← enteredSame]
    rfl
  have memory : entered.memory = tasked.memory := by
    rw [← enteredSame]
    rfl
  have content := (prepares.block.unharmed made.apart.unharmed).content
  have short := program.short
  have complete : 52 ≤ file.length := program.complete
  have length : (BitVec.ofNat 32 file.length : Word).toNat = file.length := by
    rw [BitVec.toNat_ofNat]
    omega
  obtain ⟨valid, listed, _⟩ := program.loaded content
  have low : heapAddress.toNat = 0x1000000 := rfl
  have size : heapSizeBytes = 104857600 := rfl
  have behind : heapEnd.toNat = 0x1000000 + 104857600 := rfl
  have imageLow := prepares.block.low
  have imageHigh := prepares.block.high
  have covered : file.length ≤ blocksFor (BitVec.ofNat 32 file.length) * heapBlockSize ∧
      4096 ≤ blocksFor (BitVec.ofNat 32 file.length) * heapBlockSize := by
    unfold blocksFor heapBlockSize
    rw [length]
    omega
  have apart : TablesApart entered.memory.bytes ⟨ptr, BitVec.ofNat 32 file.length, stack⟩ pages := by
    rw [memory]
    exact made.tablesApart program prepares.block prepares.stackBlock.aligned prepares.stackBlock.owned
  have loaded : LoadedProcess entered process ⟨ptr, BitVec.ofNat 32 file.length, stack⟩ directory pages (· ||| 0x05) := by
    refine ⟨?_, ?_, ?_, Or.inr ⟨?_, ?_, ?_, ?_⟩, prepares.block.aligned, imageLow, ?_, prepares.stackBlock.aligned,
      prepares.stackBlock.low, ?_⟩
    · rw [record]
      exact made.nonnull
    · unfold Kernel.directoryOf
      rw [record, tasks, memory]
      exact made.space.flat
    · rw [record]
      exact prepares.stackPtr.symm
    · rw [record]
      exact prepares.filetype
    · rw [record]
      exact prepares.image
    · rw [record, images]
      exact prepares.memory.symm
    · rw [memory]
      exact valid
    · dsimp only
      rw [length]
      omega
    · exact prepares.stackBlock.below.le
  have elf : (entered.processRecords process).filetype = processFiletypeElf := by
    rw [record]
    exact prepares.filetype
  have segmentsHere : segments entered.memory.bytes ptr = segments (fileBytes file) 0 := by
    rw [memory]
    exact listed
  have layout : LayoutFits entered.memory.bytes ⟨ptr, BitVec.ofNat 32 file.length, stack⟩ := by
    refine fits.layout segmentsHere rfl ?_ prepares.stackBlock.below
    dsimp only
    omega
  have accepted := loaded.succeeds elf apart (fits.accepted segmentsHere (by
    unfold pagingPageSize
    dsimp only
    omega))
  obtain ⟨run, flat⟩ := loaded.run
  obtain ⟨agree, placed, entries⟩ := loaded.placed elf apart run accepted
  have at' : ((entered.setBytes (processMapRun entered process).1.2).processRecords process).task = task := by
    show (entered.processRecords process).task = task
    rw [record]
  rw [at'] at placed
  rw [enteredSame]
  generalize processMapRun entered process = result at *
  obtain ⟨⟨res, bytes⟩, log⟩ := result
  dsimp only at run accepted agree placed flat entries
  unfold Kernel.directoryOf at flat
  rw [record, tasks] at flat
  refine ⟨res, bytes, run, accepted, ?_, ⟨_, flat⟩, fun segment member k bound => ?_,
    fun within page aligned writes => ?_⟩
  · rw [← memory]
    exact agree
  · have each := layout.each segment (by
      show segment ∈ segments entered.memory.bytes ptr
      rw [segmentsHere]
      exact member)
    have inside := each.inside
    dsimp only at inside
    rw [length] at inside
    refine ⟨by omega, ?_⟩
    rw [placed, layout.place prepares.block.aligned (by dsimp only; omega) prepares.stackBlock.aligned (by
      show segment ∈ segments entered.memory.bytes ptr
      rw [segmentsHere]
      exact member) (lt_of_lt_of_le bound each.smaller), BitVec.ofNat_add, ← BitVec.add_assoc, BitVec.ofNat_toNat,
      BitVec.setWidth_eq]
  · rw [entries page aligned] at writes ⊢
    refine layout.writeable prepares.block.aligned (by dsimp only; omega) prepares.stackBlock.aligned ?_ aligned writes
    intro other listed
    have here : other ∈ segments entered.memory.bytes ptr := listed
    rw [segmentsHere] at here
    exact within other here

theorem HasProgram.prepares {stacked : Kernel} {stack : Addr} (has : HasProgram loaded process ptr file)
    (elf : (loaded.processRecords process).filetype = processFiletypeElf)
    (made : MadeBlock loaded stacked (BitVec.ofNat 32 peachosUserProgramStackSize) stack) {change : Process → Process}
    (kept : ∀ record, (change record).filetype = record.filetype ∧ (change record).ptr = record.ptr)
    (stored : ∀ record, (change record).stack = stack) :
    Prepares (stacked.setProcess process change) process ptr stack file := by
  have same := made.same
  have record : (stacked.setProcess process change).processRecords process = change (loaded.processRecords process) := by
    rw [same]
    exact Function.update_self ..
  have images : (stacked.setProcess process change).elfFiles = loaded.elfFiles := by
    rw [same]
    rfl
  have beside : Unharmed loaded (stacked.setProcess process change) :=
    (made.apart.congr rfl rfl : Apart loaded (stacked.setProcess process change)).unharmed
  obtain ⟨filetype, pointer⟩ := kept (loaded.processRecords process)
  have size : blocksFor (BitVec.ofNat 32 peachosUserProgramStackSize) * heapBlockSize = 16384 := by decide
  rcases has.kind with ⟨binary, _⟩ | ⟨_, nonnull, memory⟩
  · rw [elf] at binary
    exact absurd binary (by decide)
  · refine ⟨has.block.unharmed beside, ⟨fun k bound => (made.owned k bound).owned, made.aligned, made.low, size ▸ made.high⟩,
      ?_, ?_, ?_, ?_⟩
    · rw [record, filetype]
      exact elf
    · rw [record, pointer]
      exact nonnull
    · rw [record, pointer, images]
      exact memory
    · rw [record]
      exact stored _

/-- The pages of a process: its image, its stack and its page tables. -/
def processArea (ptr stack : Addr) (file : List Byte) (chunk directory : Addr) (pages : Nat → Addr) : Set Addr :=
  {address | OwnBlocks.Frame ⟨ptr, BitVec.ofNat 32 file.length, stack⟩ (frameOf address) ∨
    SpaceByte chunk directory pages address}

section Area
variable {before kernel after : Kernel} {stack chunk directory address : Addr} {pages : Nat → Addr} {view : Addr → Word}

theorem Prepares.frameByte (prepares : Prepares kernel process ptr stack file) (program : ElfProgram file)
    (frame : OwnBlocks.Frame ⟨ptr, BitVec.ofNat 32 file.length, stack⟩ (frameOf address)) :
    (∃ k < file.length, frameOf address = frameOf (ptr + BitVec.ofNat 32 k)) ∨
      ∃ k < 16384, frameOf address = frameOf (stack + BitVec.ofNat 32 k) := by
  have short := program.short
  have length : (BitVec.ofNat 32 file.length : Word).toNat = file.length := by
    rw [BitVec.toNat_ofNat]
    omega
  have byte := frame.byte prepares.block.aligned prepares.stackBlock.aligned
  dsimp only at byte
  rwa [length] at byte

theorem Prepares.frameOwned (prepares : Prepares kernel process ptr stack file) (program : ElfProgram file)
    (frame : OwnBlocks.Frame ⟨ptr, BitVec.ofNat 32 file.length, stack⟩ (frameOf address)) :
    Owned kernel.memory.heap address := by
  rcases prepares.frameByte program frame with ⟨k, bound, same⟩ | ⟨k, bound, same⟩
  · exact (prepares.block.owned k bound).page same
  · exact (prepares.stackBlock.owned k bound).page same

theorem Prepares.separate (prepares : Prepares kernel process ptr stack file) (program : ElfProgram file)
    (unharmed : Unharmed kernel after) (space : OwnSpace after (after.directoryOf process) directory pages view)
    (beside : ∀ address, Owned kernel.memory.heap address →
      ¬SpaceByte (after.directoryOf process) directory pages address)
    (placed : ∀ segment ∈ segments (fileBytes file) 0, ∀ k < segment.filesz.toNat,
      segment.offset.toNat + k < file.length ∧ taskVirtualAddressToPhysical after (after.processRecords process).task
        (segment.vaddr + BitVec.ofNat 32 k) = ptr + BitVec.ofNat 32 (segment.offset.toNat + k))
    (writes : ProgramInside file → ∀ page, PageAligned page →
      after.pageEntry process page &&& pagingIsWriteable ≠ 0 →
        OwnBlocks.Frame ⟨ptr, BitVec.ofNat 32 file.length, stack⟩ (frameOf (after.pageEntry process page))) :
    Separate after process file (processArea ptr stack file (after.directoryOf process) directory pages) := by
  have framed : ProgramInside file → ∀ address ∈ after.writes process,
      OwnBlocks.Frame ⟨ptr, BitVec.ofNat 32 file.length, stack⟩ (frameOf address) := by
    rintro within address ⟨page, aligned, writeable, same⟩
    exact same ▸ writes within page aligned writeable
  refine ⟨⟨directory, pages, view, space, fun address inside => ⟨Or.inr inside, fun within written => ?_⟩⟩, ?_,
    fun within address written => Or.inl (framed within address written), ?_⟩
  · exact beside address (prepares.frameOwned program (framed within address written)) inside
  · intro segment member k bound
    obtain ⟨inside, translated⟩ := placed segment member k bound
    have short := program.short
    rw [translated]
    refine Or.inl (OwnBlocks.frame_image prepares.block.aligned ?_)
    dsimp only
    rw [BitVec.toNat_ofNat]
    omega
  · rintro address (frame | same | same | ⟨i, bound, same⟩)
    · exact unharmed.owned _ (prepares.frameOwned program frame)
    · exact space.chunk _ same
    · exact space.directory _ same
    · exact space.tables i bound _ same

theorem Prepares.areaNew (prepares : Prepares kernel process ptr stack file) (program : ElfProgram file)
    (kept : Unharmed before kernel) (newImage : ∀ k < file.length, ¬Owned before.memory.heap (ptr + BitVec.ofNat 32 k))
    (newStack : ∀ k < 16384, ¬Owned before.memory.heap (stack + BitVec.ofNat 32 k))
    (beside : ∀ address, Owned kernel.memory.heap address → ¬SpaceByte chunk directory pages address) :
    ∀ address ∈ processArea ptr stack file chunk directory pages, ¬Owned before.memory.heap address := by
  rintro address (frame | inside) inUse
  · rcases prepares.frameByte program frame with ⟨k, bound, same⟩ | ⟨k, bound, same⟩
    · exact newImage k bound (inUse.page same.symm)
    · exact newStack k bound (inUse.page same.symm)
  · exact beside address (kept.owned _ inUse) inside

end Area

theorem kernelBelow_kernel {α : Type} (load : List Byte → Addr → KernelProg Int) (call : KernelProg α) :
    (kernelBelow load).kernel call = call := rfl

/-- The stack of a process is made beside all that is loaded, and its record is filled in. -/
structure StackMade (loaded prepared : Kernel) (process ptr stack : Addr) (file : List Byte) : Prop where
  prepares : Prepares prepared process ptr stack file
  beside : Unharmed loaded prepared
  records : ∀ other ≠ process, prepared.processRecords other = loaded.processRecords other
  tasks : prepared.tasks = loaded.tasks
  processes : prepared.processes = loaded.processes
  new : ∀ k < 16384, ¬Owned loaded.memory.heap (stack + BitVec.ofNat 32 k)

theorem OpensFiles.stackMade (opens : OpensFiles image header (room + 1031) count i loaded)
    (has : HasProgram loaded process ptr file) (elf : (loaded.processRecords process).filetype = processFiletypeElf)
    (filename : List Byte) (slot : Nat) : ∃ stack stacked prepared,
      Kernel.kzalloc (BitVec.ofNat 32 peachosUserProgramStackSize) loaded = (.ok stack, stacked) ∧ stack ≠ 0 ∧
      stacked.setProcess process (fun record => { record with
        filename := strncpy filename peachosMaxPath
        stack := stack
        id := BitVec.ofInt 16 slot }) = prepared ∧
      OpensFiles image header (room + 1027) count i prepared ∧ StackMade loaded prepared process ptr stack file := by
  have blocks : blocksFor (BitVec.ofNat 32 peachosUserProgramStackSize) = 4 := by decide
  obtain ⟨stack, stacked, run, stackOpens, made⟩ := (opens.less (by omega :
    room + 1027 + blocksFor (BitVec.ofNat 32 peachosUserProgramStackSize) ≤ _)).kzalloc (by decide)
  have same := made.same
  refine ⟨stack, stacked, _, run, made.nonnull, rfl, stackOpens.congr rfl rfl rfl rfl,
    has.prepares elf made (fun _ => ⟨rfl, rfl⟩) (fun _ => rfl),
    (made.apart.congr rfl rfl : Apart loaded (stacked.setProcess process _)).unharmed, ?_, ?_, ?_, made.bytes⟩
  · intro other different
    rw [same]
    exact Function.update_of_ne different ..
  · rw [same]
    rfl
  · rw [same]
    rfl

/-- The task of a prepared process is made beside all that is in use, and its program is mapped. -/
structure TaskMade (prepared after : Kernel) (process task ptr stack : Addr) (file : List Byte) : Prop where
  unharmed : Unharmed prepared after
  record : after.processRecords process = { prepared.processRecords process with task := task }
  new : ¬Owned prepared.memory.heap task
  records : ∀ other ≠ process, after.processRecords other = prepared.processRecords other
  tasks : ∀ other ≠ task, (after.tasks other).pageDirectory = (prepared.tasks other).pageDirectory ∧
    (after.tasks other).registers = (prepared.tasks other).registers
  inPlace : InPlace after process file
  apart : ∃ directory pages, Separate after process file
      (processArea ptr stack file (after.directoryOf process) directory pages) ∧
    ∀ address, Owned prepared.memory.heap address → ¬SpaceByte (after.directoryOf process) directory pages address

theorem OpensFiles.taskMade {prepared : Kernel} {stack : Addr}
    (opens : OpensFiles image header (room + 1027) count i prepared)
    (prepares : Prepares prepared process ptr stack file) (owned : Owned prepared.memory.heap process)
    (program : ElfProgram file) (fits : ProgramFits file) (slot : Nat) : ∃ res task tasked bytes after,
      taskNew process prepared = (.ok task, tasked) ∧ task ≠ 0 ∧
      processMapMemory process (tasked.setProcess process ({ · with task := task })) =
        (.ok res, (tasked.setProcess process ({ · with task := task })).setBytes bytes) ∧ 0 ≤ res ∧
      { (tasked.setProcess process ({ · with task := task })).setBytes bytes with
        processes := Function.update tasked.processes slot process } = after ∧
      OpensFiles image header room count i after ∧
      after.processes = Function.update prepared.processes slot process ∧
      TaskMade prepared after process task ptr stack file := by
  obtain ⟨task, directory, pages, tasked, taskRun, tidy, new⟩ := opens.ready.toTidy.taskNew process
  obtain ⟨res, bytes, mapRun, accepted, agree, ⟨view, flat⟩, placed, writes⟩ := prepares.mapped new program fits
  have rest := new.rest
  obtain ⟨after, afterSame⟩ : ∃ after, { (tasked.setProcess process ({ · with task := task })).setBytes bytes with
    processes := Function.update tasked.processes slot process } = after := ⟨_, rfl⟩
  have unharmed : Unharmed prepared after := by
    rw [← afterSame]
    exact ⟨fun address inside => new.apart.owned inside, fun address inside =>
      (agree address (new.besidePages inside)).trans (new.apart.bytes address inside)⟩
  have record : after.processRecords process = { prepared.processRecords process with task := task } := by
    rw [← afterSame, rest]
    exact Function.update_self ..
  have tasks : after.tasks = tasked.tasks := by
    rw [← afterSame]
    rfl
  have heapSame : after.memory.heap = tasked.memory.heap := by
    rw [← afterSame]
    rfl
  have chunk : after.directoryOf process = (tasked.tasks task).pageDirectory := by
    unfold Kernel.directoryOf
    rw [record, tasks]
  have space : OwnSpace after (after.directoryOf process) directory pages view := by
    rw [chunk]
    refine ⟨?_, ?_, ?_, ?_⟩
    · rw [← afterSame]
      exact flat
    · rw [heapSame]
      exact new.space.chunk
    · rw [heapSame]
      exact new.space.directory
    · rw [heapSame]
      exact new.space.tables
  have there : ∀ segment ∈ segments (fileBytes file) 0, ∀ k < segment.filesz.toNat,
      segment.offset.toNat + k < file.length ∧ taskVirtualAddressToPhysical after (after.processRecords process).task
        (segment.vaddr + BitVec.ofNat 32 k) = ptr + BitVec.ofNat 32 (segment.offset.toNat + k) := by
    intro segment member k bound
    rw [record, ← afterSame]
    exact placed segment member k bound
  have entries : ∀ page, after.pageEntry process page = Kernel.pageEntry
      ((tasked.setProcess process ({ · with task := task })).setBytes bytes) process page := by
    intro page
    rw [← afterSame]
    rfl
  have besideSpace : ∀ address, Owned prepared.memory.heap address →
      ¬SpaceByte (after.directoryOf process) directory pages address := by
    rw [chunk]
    exact new.beside
  refine ⟨res, task, tasked, bytes, after, taskRun, new.nonnull, mapRun, accepted, afterSame, ?_, ?_,
    unharmed, record, new.new, ?_, ?_, ⟨unharmed.owned _ owned, ?_, ?_, ⟨directory, pages, view, space⟩, ?_⟩,
    directory, pages, ?_, besideSpace⟩
  · have disk : after.disk = prepared.disk := by
      rw [← afterSame, rest]
      rfl
    have table : after.fileDescriptors = prepared.fileDescriptors := by
      rw [← afterSame, rest]
      rfl
    have still : Tidy {prepared.fileDescriptors} room after := afterSame ▸ tidy.congr rfl rfl rfl
    have ready : Ready {prepared.fileDescriptors} image header room after :=
      ⟨still, disk ▸ opens.ready.volume, disk ▸ opens.ready.directories⟩
    exact opens.moved ready.exact unharmed (congrArg Disk.streamless disk) table
  · rw [← afterSame, rest]
  · intro other different
    rw [← afterSame, rest]
    exact Function.update_of_ne different ..
  · rw [tasks]
    exact new.others
  · rw [record, heapSame]
    exact new.owned
  · rw [record, tasks]
    refine new.entry.trans ?_
    have records : tasked.processRecords = prepared.processRecords := by
      rw [rest]
    have sameImages : tasked.elfFiles = prepared.elfFiles := by
      rw [rest]
    unfold programEntry
    rw [records, sameImages, prepares.filetype, if_pos rfl, prepares.memory]
    exact program.entry (prepares.block.unharmed new.apart.unharmed).content
  · intro segment member k bound
    obtain ⟨inside, translated⟩ := there segment member k bound
    have kept := prepares.block.unharmed unharmed
    rw [translated]
    exact ⟨kept.owned _ inside, content_byte kept.content inside⟩
  · refine prepares.separate program unharmed space besideSpace there ?_
    intro within page aligned writeable
    rw [entries] at writeable ⊢
    exact writes within page aligned writeable

theorem OpensFiles.loadRest {before : Kernel} (opens : OpensFiles image header (room + 1031) count i loaded)
    (has : HasProgram loaded process ptr file) (elf : (loaded.processRecords process).filetype = processFiletypeElf)
    (owned : Owned loaded.memory.heap process) (program : ElfProgram file) (fits : ProgramFits file)
    (stays : StaysLoaded before loaded) (fresh : ¬Owned before.memory.heap process)
    (newImage : ∀ k < file.length, ¬Owned before.memory.heap (ptr + BitVec.ofNat 32 k))
    (load : List Byte → Addr → KernelProg Int) (filename : List Byte) (slot : Nat) : ∃ res after,
      (kernelBelow load).processLoadRest filename process slot loaded = (.ok (res, process), after) ∧ 0 ≤ res ∧
      OpensFiles image header room count i after ∧ InPlace after process file ∧
      ¬Owned before.memory.heap (after.processRecords process).task ∧ StaysLoaded before after ∧
      after.processes = Function.update loaded.processes slot process ∧
      ∃ area, Separate after process file area ∧ ∀ address ∈ area, ¬Owned before.memory.heap address := by
  obtain ⟨stack, stacked, prepared, stackRun, stackNonnull, preparedSame, preparedOpens, made⟩ :=
    opens.stackMade has elf filename slot
  obtain ⟨res, task, tasked, bytes, after, taskRun, taskNonnull, mapRun, accepted, afterSame, afterOpens, processes,
    placed⟩ := preparedOpens.taskMade made.prepares (made.beside.owned _ owned) program fits slot
  have beside := made.beside.trans placed.unharmed
  refine ⟨res, after, ?_, accepted, afterOpens, placed.inPlace, ?_, ⟨stays.unharmed.trans beside, ?_, ?_⟩, ?_, ?_⟩
  · have alloc : (kernelBelow load).kzalloc (.owned .stack process) (BitVec.ofNat 32 peachosUserProgramStackSize) loaded =
      (.ok stack, stacked) := stackRun
    have create : (kernelBelow load).taskNew process prepared = (.ok task, tasked) := taskRun
    have map : (kernelBelow load).processMapMemory process (tasked.setProcess process ({ · with task := task })) =
      (.ok res, (tasked.setProcess process ({ · with task := task })).setBytes bytes) := mapRun
    unfold Below.processLoadRest
    rw [bind_ok alloc, if_neg stackNonnull, kernelBelow_kernel, update_bind, preparedSame, bind_ok create,
      if_neg taskNonnull, kernelBelow_kernel, update_bind, bind_ok map, if_neg (by omega), kernelBelow_kernel, update_bind,
      ← afterSame]
    rfl
  · rw [placed.record]
    exact fun inUse => placed.new (made.beside.owned _ (stays.unharmed.owned _ inUse))
  · intro other inUse
    have different : other ≠ process := by
      rintro rfl
      exact fresh inUse
    exact (placed.records other different).trans ((made.records other different).trans (stays.records other inUse))
  · intro other inUse
    have different : other ≠ task := by
      rintro rfl
      exact placed.new (made.beside.owned _ (stays.unharmed.owned _ inUse))
    obtain ⟨pageDirectory, registers⟩ := placed.tasks other different
    obtain ⟨pageDirectoryBefore, registersBefore⟩ := stays.tasks other inUse
    rw [made.tasks] at pageDirectory registers
    exact ⟨pageDirectory.trans pageDirectoryBefore, registers.trans registersBefore⟩
  · rw [processes, made.processes]
  · obtain ⟨directory, pages, separate, besideSpace⟩ := placed.apart
    exact ⟨_, separate, made.prepares.areaNew program (stays.unharmed.trans made.beside) newImage
      (fun k bound inUse => made.new k bound (stays.unharmed.owned _ inUse)) besideSpace⟩

end Rest

section Program
variable {image : Image} {header : FatHeader} {room count i size cluster slot : Nat} {before : Kernel}
  {filename : List Byte} {names : List (List Byte)} {item : FatDirectoryItem}

/-- The blocks that `process_load` takes at most. -/
def processBlocks (header : FatHeader) (filename : List Byte) (names : List (List Byte)) (item : FatDirectoryItem) : Nat :=
  blocksFor sizeofProcess + elfBlocks header filename names item + 1031

theorem processGetFreeSlot_free (free : processGetFreeSlot before = slot) :
    slot < peachosMaxProcesses ∧ before.processes slot = 0 := by
  unfold processGetFreeSlot at free
  split at free
  next i first =>
    obtain rfl := Int.ofNat.inj free
    obtain ⟨bound, here, _⟩ := firstIndex_some first
    exact ⟨bound, eq_of_beq here⟩
  next => exact absurd free (by unfold EISTKN; omega)

theorem LeadsTo.processLoad (leads : LeadsTo image header true (rootPosition header) size names (.file item))
    (path : NamesPath filename names) (short : ShortFile header item cluster)
    (program : ElfProgram (clusterFile image header cluster item))
    (fits : ProgramFits (clusterFile image header cluster item))
    (opens : OpensFiles image header (room + processBlocks header filename names item) count i before)
    (free : processGetFreeSlot before = slot) : ∃ res process after,
      (kernelBelow processLoadData).processLoad filename before = (.ok (res, process), after) ∧ 0 ≤ res ∧
      process ≠ 0 ∧ ¬Owned before.memory.heap process ∧ OpensFiles image header room count i after ∧
      InPlace after process (clusterFile image header cluster item) ∧
      ¬Owned before.memory.heap (after.processRecords process).task ∧ StaysLoaded before after ∧
      after.processes = Function.update before.processes slot process ∧
      ∃ area, Separate after process (clusterFile image header cluster item) area ∧
        ∀ address ∈ area, ¬Owned before.memory.heap address := by
  unfold processBlocks at opens
  obtain ⟨process, allocated, allocRun, allocOpens, made⟩ := (opens.less (by omega :
    room + 1031 + elfBlocks header filename names item + blocksFor sizeofProcess ≤ _)).kzalloc
      (by decide : Roundable sizeofProcess)
  have allocatedSame := made.same
  obtain ⟨cleared, clearedSame⟩ : ∃ cleared, allocated.setProcess process (fun _ => Process.zero) = cleared := ⟨_, rfl⟩
  have clearedOpens : OpensFiles image header (room + 1031 + elfBlocks header filename names item) count i cleared :=
    clearedSame ▸ allocOpens.congr rfl rfl rfl rfl
  have clearedBeside : Unharmed before cleared :=
    clearedSame ▸ (made.apart.congr rfl rfl : Apart before (allocated.setProcess process _)).unharmed
  obtain ⟨ptr, loaded, loadRun, loadedOpens, unharmed, same, has, elf, newImage⟩ :=
    leads.loadElf path short program process clearedOpens
  obtain ⟨fresh, owner⟩ := made.owner (by decide)
  have owned : Owned loaded.memory.heap process := unharmed.owned _ (clearedSame ▸ owner)
  have stays : StaysLoaded before loaded := by
    refine ⟨clearedBeside.trans unharmed, fun other inUse => ?_, fun other inUse => ?_⟩
    · have different : other ≠ process := by
        rintro rfl
        exact fresh inUse
      rw [same, ← clearedSame, allocatedSame]
      show Function.update (Function.update before.processRecords process _) process _ other = _
      rw [Function.update_of_ne different, Function.update_of_ne different]
    · rw [same, ← clearedSame, allocatedSame]
      exact ⟨rfl, rfl⟩
  obtain ⟨res, after, restRun, accepted, afterOpens, inPlace, newTask, afterStays, processes, separate⟩ :=
    loadedOpens.loadRest has elf owned program fits stays fresh (fun k bound inUse =>
      newImage k (clusterFile_length ▸ bound) (clearedBeside.owned _ inUse)) processLoadData filename slot
  have listed : loaded.processes = before.processes := by
    rw [same, ← clearedSame, allocatedSame]
    rfl
  refine ⟨res, process, after, ?_, accepted, made.nonnull, fresh, afterOpens, inPlace, newTask, afterStays,
    listed ▸ processes, separate⟩
  obtain ⟨bound, empty⟩ := processGetFreeSlot_free free
  have notTaken : processGet before slot = 0 := by
    unfold processGet
    rw [if_neg (by omega)]
    exact empty
  have alloc : (kernelBelow processLoadData).kzalloc .process sizeofProcess before = (.ok process, allocated) := allocRun
  have data : (kernelBelow processLoadData).processLoadData filename process cleared = (.ok 0, loaded) := loadRun
  have out : (kernelBelow processLoadData).processLoadOut process res after = (.ok (), after) := by
    unfold Below.processLoadOut
    rw [kernelBelow_kernel, read_bind, if_neg (fun failed => absurd failed.1 (by omega))]
    rfl
  unfold Below.processLoad
  rw [kernelBelow_kernel, read_bind, free, if_neg (by omega)]
  unfold Below.processLoadForSlot
  rw [kernelBelow_kernel, read_bind, if_neg (not_not_intro notTaken), bind_ok alloc, if_neg made.nonnull,
    kernelBelow_kernel, update_bind, clearedSame, bind_ok data, if_neg (by decide), bind_ok restRun]
  dsimp only
  rw [bind_ok out]
  rfl

end Program

end PeachOS
