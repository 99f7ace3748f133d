import PeachOS.Lib.WriteLog
import PeachOS.ProcessSpaces
import PeachOS.SystemCalls

/-! Where the system call that hands a program its arguments stores them. The program's pointer
is translated by its own page tables, and stored through with the rights of the kernel. -/

namespace PeachOS
open Program ByteMemory WriteLog

def taskVirtualAddressToPhysical (kernel : Kernel) (task virtualAddress : Addr) : Addr :=
  pagingGetPhysicalAddress kernel.memory.bytes
    (directoryEntry kernel.memory.bytes (kernel.tasks task).pageDirectory) virtualAddress

/-- A call of the current task, whose pointers its own page directory translates. -/
def Kernel.translating (kernel : Kernel) (caller : Caller) : Caller :=
  { caller with physical := taskVirtualAddressToPhysical kernel kernel.currentTask }

/-- The stores of `process_get_arguments` through `&arguments->argc` and `&arguments->argv`. -/
def processGetArgumentsStores (record : Process) (arguments : Addr) : List (Addr × Byte) :=
  storesFrom arguments (wordBytes record.arguments.argc) ++
    storesFrom (arguments + 4) (wordBytes record.arguments.argv)

/-- The stores of `isr80h_command8_get_program_arguments` for the pointer of the current task. -/
def command8Stores (kernel : Kernel) (pointer : Addr) : List (Addr × Byte) :=
  processGetArgumentsStores (kernel.processRecords (kernel.tasks kernel.currentTask).process)
    (taskVirtualAddressToPhysical kernel kernel.currentTask pointer)

abbrev userWritable : Word := pagingIsPresent ||| pagingIsWriteable ||| pagingAccessFromAll

/-- A page that a program may write to: its directory's entry and its table's entry both say so. -/
def MayWrite (bytes : Bytes) (directory page : Addr) : Prop :=
  load32 bytes (slot directory (directoryIndex page)) &&& userWritable = userWritable ∧
    pagingGet bytes directory page &&& userWritable = userWritable

/-- A frame that some page of the directory shows to the program as its own to write. -/
def OwnFrame (bytes : Bytes) (directory frame : Addr) : Prop :=
  ∃ page, PageAligned page ∧ MayWrite bytes directory page ∧ frameOf (pagingGet bytes directory page) = frame

def Kernel.currentDirectory (kernel : Kernel) : Addr :=
  directoryEntry kernel.memory.bytes (kernel.tasks kernel.currentTask).pageDirectory

/-- Memory that the current task's program may write itself. -/
def ProgramMemory (kernel : Kernel) (address : Addr) : Prop :=
  OwnFrame kernel.memory.bytes kernel.currentDirectory (frameOf address)

/-- The frame that the pointer's page is mapped to is the program's own, and so is the next frame of memory
where the eight bytes go beyond the page. -/
def PointsToOwn (kernel : Kernel) (pointer : Addr) : Prop :=
  OwnFrame kernel.memory.bytes kernel.currentDirectory
      (frameOf (pagingGet kernel.memory.bytes kernel.currentDirectory (frameOf pointer))) ∧
    (pagingPageSize - 8 < pointer.toNat % pagingPageSize → OwnFrame kernel.memory.bytes kernel.currentDirectory
      (frameOf (pagingGet kernel.memory.bytes kernel.currentDirectory (frameOf pointer)) +
        BitVec.ofNat 32 pagingPageSize))

section Stores
variable (kernel : Kernel) (pointer : Addr)

theorem mem_processGetArgumentsStores {record : Process} {arguments target : Addr} :
    target ∈ (processGetArgumentsStores record arguments).map Prod.fst ↔
      ∃ j < 8, target = arguments + BitVec.ofNat 32 j := by
  unfold processGetArgumentsStores
  have next : arguments + 4 = arguments + BitVec.ofNat 32 (wordBytes record.arguments.argc).length := rfl
  rw [next, ← storesFrom_append, address_mem_storesFrom]
  rfl

theorem frameOf_offset {frame : Addr} (aligned : PageAligned frame) {offset : Nat} (small : offset < 2 * pagingPageSize) :
    frameOf (frame + BitVec.ofNat 32 offset) =
      if offset < pagingPageSize then frame else frame + BitVec.ofNat 32 pagingPageSize := by
  unfold PageAligned at aligned
  unfold pagingPageSize at *
  apply BitVec.eq_of_toNat_eq
  have bound := frame.isLt
  rw [frameOf_toNat, BitVec.toNat_add, BitVec.toNat_ofNat]
  split
  · omega
  · rw [BitVec.toNat_add, BitVec.toNat_ofNat]
    omega

theorem argument_byte_iff {j : Nat} (bound : j < 8) :
    ProgramMemory kernel (taskVirtualAddressToPhysical kernel kernel.currentTask pointer + BitVec.ofNat 32 j) ↔
      OwnFrame kernel.memory.bytes kernel.currentDirectory
        (if pointer.toNat % pagingPageSize + j < pagingPageSize
          then frameOf (pagingGet kernel.memory.bytes kernel.currentDirectory (frameOf pointer))
          else frameOf (pagingGet kernel.memory.bytes kernel.currentDirectory (frameOf pointer)) +
            BitVec.ofNat 32 pagingPageSize) := by
  have small : pointer.toNat % pagingPageSize < pagingPageSize := Nat.mod_lt _ (by decide)
  unfold ProgramMemory
  have physical : taskVirtualAddressToPhysical kernel kernel.currentTask pointer = _ :=
    pagingGetPhysicalAddress_eq kernel.memory.bytes kernel.currentDirectory pointer
  rw [physical, BitVec.add_assoc, ← BitVec.ofNat_add,
    frameOf_offset (frameOf_aligned _) (by unfold pagingPageSize at *; omega)]

theorem command8Stores_own_iff : (∀ store ∈ command8Stores kernel pointer, ProgramMemory kernel store.1) ↔
    PointsToOwn kernel pointer := by
  have all : (∀ store ∈ command8Stores kernel pointer, ProgramMemory kernel store.1) ↔ ∀ j < 8,
      ProgramMemory kernel (taskVirtualAddressToPhysical kernel kernel.currentTask pointer + BitVec.ofNat 32 j) := by
    rw [← @List.forall_mem_map _ _ Prod.fst _ (ProgramMemory kernel)]
    constructor
    · exact fun own j bound => own _ (mem_processGetArgumentsStores.mpr ⟨j, bound, rfl⟩)
    · intro own target member
      obtain ⟨j, bound, rfl⟩ := mem_processGetArgumentsStores.mp member
      exact own j bound
  rw [all]
  unfold PointsToOwn
  constructor
  · intro own
    have first := (argument_byte_iff kernel pointer (by decide : 0 < 8)).mp (own 0 (by decide))
    have last := (argument_byte_iff kernel pointer (by decide : 7 < 8)).mp (own 7 (by decide))
    rw [Nat.add_zero, if_pos (Nat.mod_lt pointer.toNat (by decide : 0 < pagingPageSize))] at first
    refine ⟨first, fun beyond => ?_⟩
    rwa [if_neg (by unfold pagingPageSize at *; omega)] at last
  · intro ⟨first, next⟩ j bound
    rw [argument_byte_iff kernel pointer bound]
    split
    · exact first
    · exact next (by unfold pagingPageSize at *; omega)

end Stores

section Runs
variable {load : List Byte → Addr → KernelProg Int} {caller : Caller} {kernel after : Kernel}

theorem Kernel.pagingSwitch_ok {chunk : Addr} {result : Unit}
    (run : Kernel.pagingSwitch chunk kernel = (.ok result, after)) :
    after = { kernel with pageDirectory := directoryEntry kernel.memory.bytes chunk } := by
  unfold Kernel.pagingSwitch at run
  split at run
  · cases run
  · exact (Prod.mk.inj run).2.symm

theorem taskGetStackItem_ok {task : Addr} {index : Nat} {item : Word}
    (run : (kernelBelow load).taskGetStackItem caller task index kernel = (.ok item, after)) :
    item = caller.stackItem index ∧ ∃ directory, after = { kernel with pageDirectory := directory } := by
  unfold Below.taskGetStackItem at run
  split at run
  · cases run
  · obtain ⟨_, middle, page, rest⟩ := bind_eq_ok run
    obtain ⟨_, last, back, result⟩ := bind_eq_ok rest
    have shown := @Kernel.pagingSwitch_ok kernel middle _ _ page
    have returned := Kernel.pagingSwitch_ok back
    obtain ⟨same, rfl⟩ := Prod.mk.inj result
    rw [shown] at returned
    exact ⟨(Except.ok.inj same).symm, _, returned⟩

theorem taskCurrentProcess_ok {process : Addr} (run : taskCurrentProcess kernel = (.ok process, after)) :
    process = (kernel.tasks kernel.currentTask).process ∧ after = kernel := by
  unfold taskCurrentProcess at run
  rw [read_bind] at run
  split at run
  · cases run
  · obtain ⟨same, rfl⟩ := Prod.mk.inj run
    exact ⟨(Except.ok.inj same).symm, rfl⟩

theorem replay_processGetArgumentsStores (bytes : Bytes) (record : Process) (arguments : Addr) :
    replay bytes (processGetArgumentsStores record arguments) =
      store32 (store32 bytes arguments record.arguments.argc) (arguments + 4) record.arguments.argv := by
  unfold processGetArgumentsStores
  rw [replay_append, replay_storesFrom, replay_storesFrom, storeBytes_wordBytes, storeBytes_wordBytes]

theorem isr80hCommand8GetProgramArguments_run {ended : CommandEnd}
    (run : (kernelBelow load).isr80hCommand8GetProgramArguments (kernel.translating caller) kernel = (.ok ended, after)) :
    after.memory.bytes = replay kernel.memory.bytes (command8Stores kernel (caller.stackItem 0)) := by
  unfold Below.isr80hCommand8GetProgramArguments at run
  obtain ⟨process, first, owner, afterOwner⟩ := bind_eq_ok run
  obtain ⟨rfl, rfl⟩ := taskCurrentProcess_ok owner
  obtain ⟨current, second, task, afterTask⟩ := bind_eq_ok afterOwner
  obtain ⟨same, rfl⟩ := Prod.mk.inj task
  obtain rfl := Except.ok.inj same
  obtain ⟨item, third, stack, afterStack⟩ := bind_eq_ok afterTask
  obtain ⟨rfl, directory, rfl⟩ := taskGetStackItem_ok stack
  dsimp only at afterStack
  split at afterStack
  · cases afterStack
  · obtain ⟨_, rfl⟩ := Prod.mk.inj afterStack
    exact (replay_processGetArgumentsStores _ _ _).symm

/-- The call keeps to the program's memory exactly for the pointers that lead there, and then it changes
nothing else. -/
theorem isr80hCommand8GetProgramArguments_confined (load : List Byte → Addr → KernelProg Int) (caller : Caller)
    (kernel : Kernel) :
    ((∀ store ∈ command8Stores kernel (caller.stackItem 0), ProgramMemory kernel store.1) ↔
      PointsToOwn kernel (caller.stackItem 0)) ∧
    (PointsToOwn kernel (caller.stackItem 0) → ∀ ended after,
      (kernelBelow load).isr80hCommand8GetProgramArguments (kernel.translating caller) kernel = (.ok ended, after) →
        ∀ address, ¬ProgramMemory kernel address → after.memory.bytes address = kernel.memory.bytes address) := by
  have own := command8Stores_own_iff kernel (caller.stackItem 0)
  refine ⟨own, fun leads ended after run address foreign => ?_⟩
  rw [isr80hCommand8GetProgramArguments_run run, replay]
  cases last : lastWrite (command8Stores kernel (caller.stackItem 0)) address with
  | none => rfl
  | some value => exact absurd (own.mpr leads _ (lastWrite_mem last)) foreign

end Runs

/-- Page tables that show one frame of the heap to the program as its own, at its load address. -/
def programBytes : Bytes :=
  (pagingMap spaceBytes (heapPage 1025) peachosProgramVirtualAddress (heapPage 1026) userWritable).2

theorem programBytes_flat : FlatMap programBytes (heapPage 1025) firstSpace.directory firstSpace.tables
    (Function.update (· ||| 0x05) peachosProgramVirtualAddress (heapPage 1026 ||| userWritable)) := by
  have aligned : PageAligned peachosProgramVirtualAddress := by decide
  unfold programBytes
  rw [pagingMap_eq aligned (heapPage_aligned (by decide)), spaceBytes_flat.paged.chunkWord]
  exact (spaceBytes_flat.set aligned _).2

def programKernel : Kernel :=
  { bootKernel with
    memory := ⟨pagedHeap 1027, programBytes⟩
    currentTask := 0x900000
    tasks := fun _ => { Task.zero with pageDirectory := heapPage 1025, process := 0x901000 } }

theorem readOnly_page {page : Addr} (aligned : PageAligned page) : (page ||| 0x05) &&& userWritable ≠ userWritable := by
  rw [← frameOf_of_aligned aligned]
  intro same
  have writable := congrArg (fun entry => entry.getLsbD 1) same
  unfold frameOf at writable
  simp at writable

/-- A program passes an address of the kernel's code. -/
theorem isr80hCommand8GetProgramArguments_escapes : ¬∀ pointer, ∀ store ∈ command8Stores programKernel pointer,
    ProgramMemory programKernel store.1 := by
  intro own
  have flat := programBytes_flat
  have directory : programKernel.currentDirectory = firstSpace.directory := flat.paged.chunkWord
  have leads := ((command8Stores_own_iff programKernel 0x100000).mp (own 0x100000)).1
  have frame : frameOf (0x100000 : Addr) = 0x100000 := by decide
  have code : pagingGet programBytes firstSpace.directory 0x100000 = 0x100005 := by
    rw [flat.entry _ (by decide), Function.update_of_ne (by decide)]
    rfl
  rw [directory, frame] at leads
  change OwnFrame programBytes firstSpace.directory (frameOf (pagingGet programBytes firstSpace.directory 0x100000)) at leads
  rw [code] at leads
  obtain ⟨page, aligned, ⟨_, writable⟩, same⟩ := leads
  rw [flat.entry page aligned] at writable same
  by_cases program : page = peachosProgramVirtualAddress
  · rw [program, Function.update_self] at same
    exact absurd same (by decide)
  · rw [Function.update_of_ne program] at writable
    exact readOnly_page aligned writable

end PeachOS
