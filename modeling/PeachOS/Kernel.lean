import PeachOS.Fat16Read
import PeachOS.Paging

/-! The kernel's records and its state. A record is kept under the address it was
allocated at; page tables, program images and stacks are bytes of `memory`. -/

namespace PeachOS
open Program

abbrev peachosProgramVirtualAddress : Addr := 0x400000
abbrev peachosUserProgramStackSize : Nat := 1024 * 16
abbrev peachosProgramVirtualStackAddressStart : Addr := 0x3FF000
abbrev peachosProgramVirtualStackAddressEnd : Addr := 0x3FF000 - 1024 * 16
abbrev peachosMaxProgramAllocations : Nat := 1024
abbrev peachosMaxProcesses : Nat := 12
abbrev peachosMaxPath : Nat := 108
abbrev userDataSegment : Word := 0x23
abbrev userCodeSegment : Word := 0x1b

/-- `ISERR(value)`: an error code in the place of a pointer. -/
def isErr (value : Addr) : Bool := value.toInt < 0

abbrev processFiletypeElf : Byte := 0
abbrev processFiletypeBinary : Byte := 1

structure ProcessAllocation where
  ptr : Addr
  size : Word
  deriving DecidableEq

structure KeyboardBuffer where
  buffer : Nat → Byte
  tail : Word
  head : Word

structure ProcessArguments where
  argc : Word
  argv : Addr
  deriving DecidableEq

/-- `ptr` is also the union's `elf_file`. -/
structure Process where
  id : BitVec 16
  filename : List Byte
  task : Addr
  allocations : Nat → ProcessAllocation
  filetype : Byte
  ptr : Addr
  stack : Addr
  size : Word
  keyboard : KeyboardBuffer
  arguments : ProcessArguments
  shell : Addr

/-- A record after `memset` to zero. -/
def Process.zero : Process where
  id := 0
  filename := []
  task := 0
  allocations := fun _ => ⟨0, 0⟩
  filetype := 0
  ptr := 0
  stack := 0
  size := 0
  keyboard := ⟨fun _ => 0, 0, 0⟩
  arguments := ⟨0, 0⟩
  shell := 0

structure Task where
  pageDirectory : Addr
  registers : Registers
  process : Addr
  next : Addr
  prev : Addr

def Registers.zero : Registers := ⟨0, 0, 0, 0, 0, 0, 0, 0, 0, 0, 0, 0⟩

def Task.zero : Task := ⟨0, Registers.zero, 0, 0, 0⟩

structure ElfFile where
  elfMemory : Addr
  virtualBaseAddress : Addr
  virtualEndAddress : Addr
  physicalBaseAddress : Addr
  physicalEndAddress : Addr

structure Terminal where
  terminalRow : HalfWord
  terminalCol : HalfWord
  deriving DecidableEq

/-- `process` is the first of the two entries of the array; nothing reads the other one. -/
structure Shell where
  shellId : Int
  videoMem : Addr
  terminal : Addr
  process : Addr

/-- A video buffer: its 2048 cells, then the memory after it. -/
abbrev VideoMem := Nat → HalfWord

/-- The globals of `shell.c` and `video.c`, and the screen at `0xB8000`. The table of
shells is a map from signed indices, for the indices that are not checked. -/
structure Screen where
  shells : Int → Addr
  currentShell : Addr
  shellRecords : Addr → Shell
  terminals : Addr → Terminal
  videoMems : Addr → VideoMem
  vga : VideoMem
  terminalRow : HalfWord
  terminalCol : HalfWord
  backspace : Bool

def Screen.blank : Screen where
  shells := fun _ => 0
  currentShell := 0
  shellRecords := fun _ => ⟨0, 0, 0, 0⟩
  terminals := fun _ => ⟨0, 0⟩
  videoMems := fun _ _ => 0
  vga := fun _ => 0
  terminalRow := 0
  terminalCol := 0
  backspace := false

structure PathRoot where
  driveNo : Int
  first : Addr
  deriving DecidableEq

structure PathPart where
  part : Addr
  next : Addr
  deriving DecidableEq

inductive FatItemType where
  | directory
  | file
  deriving DecidableEq

/-- `item` is also the union's `directory`. -/
structure FatItem where
  item : Addr
  itemType : FatItemType
  deriving DecidableEq

structure FatFileDescriptor where
  item : Addr
  pos : Word
  deriving DecidableEq

/-- There is one file system and one disk: `filesystem` says whether the field is set, and
`disk` is the index of the disk, if it is. -/
structure FileDescriptor where
  index : Int
  filesystem : Bool
  privateData : Addr
  disk : Option Nat
  deriving DecidableEq

/-- What a block of the file layer holds. The characters of a path part and the table of a
directory are bytes of `memory`. -/
inductive FileRecord where
  | pathRoot (root : PathRoot)
  | pathPart (part : PathPart)
  | pathString
  | fatItem (item : FatItem)
  | fatDirectory (directory : FatDirectory)
  | fatDirectoryItem (item : FatDirectoryItem)
  | fatDirectoryTable
  | fatFileDescriptor (descriptor : FatFileDescriptor)
  | fileDescriptor (descriptor : FileDescriptor)
  deriving DecidableEq

/-- `pageDirectory` is the directory in `cr3`, `fileDescriptors` the table of `file.c`. -/
structure Kernel where
  memory : Memory
  disk : Disk
  elfFiles : Addr → ElfFile
  tasks : Addr → Task
  taskHead : Addr
  taskTail : Addr
  currentTask : Addr
  processRecords : Addr → Process
  processes : Nat → Addr
  currentProcess : Addr
  pageDirectory : Addr
  screen : Screen
  files : Addr → Option FileRecord
  fileDescriptors : Nat → Addr

/-- A kernel that has made no record yet. -/
def Kernel.blank (memory : Memory) (disk : Disk) : Kernel where
  memory := memory
  disk := disk
  elfFiles := fun _ => ⟨0, 0, 0, 0, 0⟩
  tasks := fun _ => Task.zero
  taskHead := 0
  taskTail := 0
  currentTask := 0
  processRecords := fun _ => Process.zero
  processes := fun _ => 0
  currentProcess := 0
  pageDirectory := 0
  screen := Screen.blank
  files := fun _ => none
  fileDescriptors := fun _ => 0

abbrev KernelProg (α : Type) : Type := Prog Kernel Stop α

def Kernel.setMemory (kernel : Kernel) (memory : Memory) : Kernel := { kernel with memory := memory }

def Kernel.setTask (kernel : Kernel) (ptr : Addr) (change : Task → Task) : Kernel :=
  { kernel with tasks := Function.update kernel.tasks ptr (change (kernel.tasks ptr)) }

def Kernel.setProcess (kernel : Kernel) (ptr : Addr) (change : Process → Process) : Kernel :=
  { kernel with processRecords :=
      Function.update kernel.processRecords ptr (change (kernel.processRecords ptr)) }

@[simp] theorem Kernel.setMemory_memory (kernel : Kernel) (memory : Memory) :
    (kernel.setMemory memory).memory = memory := rfl

@[simp] theorem Kernel.setTask_memory (kernel : Kernel) (ptr : Addr) (change : Task → Task) :
    (kernel.setTask ptr change).memory = kernel.memory := rfl

@[simp] theorem Kernel.setProcess_memory (kernel : Kernel) (ptr : Addr)
    (change : Process → Process) : (kernel.setProcess ptr change).memory = kernel.memory := rfl

theorem Kernel.setTask_tasks (kernel : Kernel) (ptr other : Addr) (change : Task → Task) :
    (kernel.setTask ptr change).tasks other =
      if other = ptr then change (kernel.tasks ptr) else kernel.tasks other :=
  Function.update_apply _ _ _ _

theorem Kernel.setProcess_records (kernel : Kernel) (ptr other : Addr)
    (change : Process → Process) : (kernel.setProcess ptr change).processRecords other =
      if other = ptr then change (kernel.processRecords ptr) else kernel.processRecords other :=
  Function.update_apply _ _ _ _

/-- `kzalloc` of the kernel. A `memset` that runs over the top of the address space
wipes the kernel itself, and has no behaviour here. -/
def Kernel.kzalloc (size : Word) : KernelProg Addr := fun kernel =>
  let (ptr, memory) := PeachOS.kzalloc size kernel.memory
  if ptr ≠ 0 ∧ 2 ^ 32 < ptr.toNat + size.toNat then (.error .fault, kernel.setMemory memory)
  else (.ok ptr, kernel.setMemory memory)

def Kernel.kfree (ptr : Addr) : KernelProg Unit :=
  update (fun kernel => kernel.setMemory (PeachOS.kfree ptr kernel.memory))

/-- A call of `paging.c` on the bytes of memory. -/
def Kernel.onBytes (call : ByteMemory.Bytes → Int × ByteMemory.Bytes) : KernelProg Int :=
  fun kernel => (.ok (call kernel.memory.bytes).1,
    kernel.setMemory { kernel.memory with bytes := (call kernel.memory.bytes).2 })

def Kernel.pagingNew4gb (flags : BitVec 8) : KernelProg Addr := fun kernel =>
  match PeachOS.pagingNew4gb flags kernel.memory with
  | none => (.error .fault, kernel)
  | some (chunk, memory) => (.ok chunk, kernel.setMemory memory)

def Kernel.pagingFree4gb (chunk : Addr) : KernelProg Unit :=
  if chunk = 0 then fault
  else update (fun kernel => kernel.setMemory (PeachOS.pagingFree4gb chunk kernel.memory))

def Kernel.pagingSwitch (chunk : Addr) : KernelProg Unit :=
  if chunk = 0 then fault
  else update (fun kernel =>
    { kernel with pageDirectory := directoryEntry kernel.memory.bytes chunk })

end PeachOS
