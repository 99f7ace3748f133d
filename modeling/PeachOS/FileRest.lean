import PeachOS.File

/-! What the file layer leaves alone: the tasks, the processes, the images and the screen. It changes the memory, the disk,
its own records and the table of descriptors only. -/

namespace PeachOS
open Program Search

/-- What can be said of a kernel without its memory, its disk, its records of files and its table of descriptors. -/
def FileFree (held : Kernel → Prop) : Prop :=
  ∀ kernel memory disk files table, held kernel →
    held { kernel with memory := memory, disk := disk, files := files, fileDescriptors := table }

section Records
variable {α : Type} {held : Kernel → Prop} (free : FileFree held)
include free

theorem FileFree.onDisk (call : Prog Disk Stop α) : Preserves held (Kernel.onDisk call) := by
  intro before result after kept run
  unfold Kernel.onDisk at run
  split at run
  · cases run
    exact free before before.memory _ before.files before.fileDescriptors kept
  · cases run

theorem FileFree.setMemory {change : Kernel → Memory} :
    Preserves held (update (fun kernel => kernel.setMemory (change kernel)) : KernelProg Unit) :=
  Preserves.update (fun kernel kept => free kernel _ kernel.disk kernel.files kernel.fileDescriptors kept)

theorem FileFree.setFiles {change : Kernel → Addr → Option FileRecord} :
    Preserves held (update (fun kernel => kernel.setFiles (change kernel)) : KernelProg Unit) :=
  Preserves.update (fun kernel kept => free kernel kernel.memory kernel.disk _ kernel.fileDescriptors kept)

theorem FileFree.kzalloc (size : Word) : Preserves held (Kernel.kzalloc size) := by
  intro before result after kept run
  unfold Kernel.kzalloc at run
  dsimp only at run
  split at run
  · cases run
  · cases run
    exact free before _ before.disk before.files before.fileDescriptors kept

theorem FileFree.newRecord (size : Word) (record : FileRecord) : Preserves held (Kernel.newRecord size record) := by
  unfold Kernel.newRecord
  refine Preserves.bind (free.kzalloc _) ?_
  intro ptr
  refine Preserves.ite (Preserves.pure _) ?_
  refine Preserves.bind free.setFiles ?_
  intro _
  exact Preserves.pure _

omit free in
theorem preserves_record (select : FileRecord → Option α) (ptr : Addr) : Preserves held (Kernel.record select ptr) := by
  intro before result after kept run
  rw [(Kernel.record_ok run).1]
  exact kept

theorem FileFree.writeRecord (select : FileRecord → Option α) (ptr : Addr) (record : FileRecord) :
    Preserves held (Kernel.writeRecord select ptr record) := by
  unfold Kernel.writeRecord
  refine Preserves.bind (preserves_record _ _) ?_
  intro _
  exact free.setFiles

theorem FileFree.freeRecord (select : FileRecord → Option α) (ptr : Addr) :
    Preserves held (Kernel.freeRecord select ptr) := by
  intro before result after kept run
  have moved := free before (PeachOS.kfree ptr before.memory) before.disk
  rcases Kernel.freeRecord_ok run with ⟨rfl, rfl⟩ | ⟨_, _, _, _, rfl⟩ | ⟨_, rfl, _⟩
  · exact moved before.files before.fileDescriptors kept
  · exact moved (Function.update before.files ptr none) before.fileDescriptors kept
  · exact moved before.files before.fileDescriptors kept

end Records

section Path
variable {held : Kernel → Prop} (free : FileFree held)
include free

theorem FileFree.copyLoop (part : Addr) (i : Nat) (path : List Byte) :
    Preserves held (pathparserCopyLoop part i path) := by
  induction path generalizing i with
  | nil => exact Preserves.pure _
  | cons c path ih =>
    unfold pathparserCopyLoop
    refine Preserves.ite (Preserves.pure _) ?_
    apply Preserves.bind
    · unfold pathparserSetChar
      refine Preserves.bind (preserves_record _ _) ?_
      intro _
      exact free.setMemory
    · intro _
      exact ih _

theorem FileFree.parsePathPart (lastPart : Addr) (path : List Byte) :
    Preserves held (pathparserParsePathPart lastPart path) := by
  unfold pathparserParsePathPart
  apply Preserves.bind
  · unfold pathparserGetPathPart
    refine Preserves.bind (free.newRecord _ _) ?_
    intro resultPathPart
    refine Preserves.bind (free.copyLoop _ _ _) ?_
    intro copied
    refine Preserves.ite ?_ (Preserves.pure _)
    refine Preserves.bind (free.freeRecord _ _) ?_
    intro _
    exact Preserves.pure _
  · intro result
    refine Preserves.ite (Preserves.pure _) ?_
    refine Preserves.bind (free.newRecord _ _) ?_
    intro made
    refine Preserves.bind (free.writeRecord _ _ _) ?_
    intro _
    refine Preserves.ite ?_ (Preserves.pure _)
    refine Preserves.bind (preserves_record _ _) ?_
    intro last
    refine Preserves.bind (free.writeRecord _ _ _) ?_
    intro _
    exact Preserves.pure _

theorem FileFree.parseLoop (fuel : Nat) (part : Addr) (path : List Byte) :
    Preserves held (pathparserParseLoop fuel part path) := by
  induction fuel generalizing part path with
  | zero => exact Preserves.stop _
  | succ fuel ih =>
    unfold pathparserParseLoop
    refine Preserves.ite (Preserves.pure _) ?_
    refine Preserves.bind (free.parsePathPart _ _) ?_
    intro result
    exact ih _ _

theorem FileFree.parse (path : List Byte) : Preserves held (pathparserParse path) := by
  unfold pathparserParse
  refine Preserves.ite (Preserves.pure _) ?_
  refine Preserves.ite (Preserves.pure _) ?_
  apply Preserves.bind
  · unfold pathparserCreateRoot
    refine Preserves.bind (free.newRecord _ _) ?_
    intro pathR
    refine Preserves.bind (free.writeRecord _ _ _) ?_
    intro _
    exact Preserves.pure _
  · intro pathRoot
    refine Preserves.ite (Preserves.pure _) ?_
    refine Preserves.bind (free.parsePathPart _ _) ?_
    intro first
    refine Preserves.ite (Preserves.pure _) ?_
    refine Preserves.bind (preserves_record _ _) ?_
    intro root
    refine Preserves.bind (free.writeRecord _ _ _) ?_
    intro _
    refine Preserves.bind (free.parsePathPart _ _) ?_
    intro second
    refine Preserves.bind (free.parseLoop _ _ _) ?_
    intro _
    exact Preserves.pure _

end Path

section Fat16
variable {held : Kernel → Prop} (free : FileFree held)
include free

theorem FileFree.freeDirectory (directory : Addr) : Preserves held (fat16FreeDirectory directory) := by
  unfold fat16FreeDirectory
  refine Preserves.ite (Preserves.pure _) ?_
  refine Preserves.bind (preserves_record _ _) ?_
  intro record
  refine Preserves.ite ?_ (free.freeRecord _ _)
  refine Preserves.bind (free.freeRecord _ _) ?_
  intro _
  exact free.freeRecord _ _

theorem FileFree.itemFree (item : Addr) : Preserves held (fat16FatItemFree item) := by
  unfold fat16FatItemFree
  refine Preserves.bind (preserves_record _ _) ?_
  intro record
  cases record.itemType with
  | directory =>
    refine Preserves.bind (free.freeDirectory _) ?_
    intro _
    exact free.freeRecord _ _
  | file =>
    refine Preserves.bind (free.freeRecord _ _) ?_
    intro _
    exact free.freeRecord _ _

theorem FileFree.readTable (cluster : Int) (size : Word) (table : Addr) :
    Preserves held (fat16ReadTable cluster size table) := by
  unfold fat16ReadTable Kernel.fat16ReadInternal
  refine Preserves.ite (Preserves.pure _) ?_
  refine Preserves.bind (Preserves.read _) ?_
  intro bytes
  refine Preserves.bind (free.onDisk _) ?_
  intro result
  refine Preserves.bind free.setMemory ?_
  intro _
  exact Preserves.pure _

theorem FileFree.loadDirectory (item : FatDirectoryItem) : Preserves held (fat16LoadFatDirectory item) := by
  unfold fat16LoadFatDirectory
  refine Preserves.bind (free.onDisk _) ?_
  intro fatPrivate
  refine Preserves.ite (Preserves.pure _) ?_
  refine Preserves.bind (free.newRecord _ _) ?_
  intro directory
  refine Preserves.ite (Preserves.pure _) ?_
  refine Preserves.bind (free.onDisk _) ?_
  intro totalItems
  refine Preserves.bind (free.writeRecord _ _ _) ?_
  intro _
  refine Preserves.bind (free.newRecord _ _) ?_
  intro table
  refine Preserves.bind (free.writeRecord _ _ _) ?_
  intro _
  refine Preserves.bind (free.readTable _ _ _) ?_
  intro res
  refine Preserves.ite ?_ (Preserves.pure _)
  refine Preserves.bind (free.freeDirectory _) ?_
  intro _
  exact Preserves.pure _

theorem FileFree.newFatItem (item : FatDirectoryItem) : Preserves held (fat16NewFatItemForDirectoryItem item) := by
  unfold fat16NewFatItemForDirectoryItem
  refine Preserves.bind (free.newRecord _ _) ?_
  intro fItem
  refine Preserves.ite (Preserves.pure _) ?_
  apply Preserves.ite
  · refine Preserves.bind (free.loadDirectory _) ?_
    intro directory
    refine Preserves.bind (free.writeRecord _ _ _) ?_
    intro _
    exact Preserves.pure _
  · refine Preserves.bind (free.writeRecord _ _ _) ?_
    intro _
    apply Preserves.bind
    · unfold fat16CloneDirectoryItem
      exact Preserves.ite (Preserves.pure _) (free.newRecord _ _)
    · intro clone
      refine Preserves.bind (free.writeRecord _ _ _) ?_
      intro _
      exact Preserves.pure _

theorem FileFree.findItemLoop (directory : FatDirectory) (name : Addr) (remaining i : Nat) (fItem : Addr) :
    Preserves held (fat16FindItemLoop directory name remaining i fItem) := by
  induction remaining generalizing i fItem with
  | zero => exact Preserves.pure _
  | succ remaining ih =>
    unfold fat16FindItemLoop
    refine Preserves.bind (Preserves.read _) ?_
    intro bytes
    refine Preserves.bind (preserves_record _ _) ?_
    intro _
    refine Preserves.ite ?_ (ih _ _)
    refine Preserves.bind (free.newFatItem _) ?_
    intro found
    exact ih _ _

theorem FileFree.entryLoop (fuel : Nat) (part item : Addr) :
    Preserves held (fat16GetDirectoryEntryLoop fuel part item) := by
  induction fuel generalizing part item with
  | zero => exact Preserves.stop _
  | succ fuel ih =>
    unfold fat16GetDirectoryEntryLoop
    refine Preserves.ite (Preserves.pure _) ?_
    refine Preserves.bind (preserves_record _ _) ?_
    intro record
    refine Preserves.ite (Preserves.pure _) ?_
    refine Preserves.bind (preserves_record _ _) ?_
    intro directory
    refine Preserves.bind (preserves_record _ _) ?_
    intro next
    refine Preserves.bind (free.findItemLoop _ _ _ _ _) ?_
    intro found
    refine Preserves.bind (free.itemFree _) ?_
    intro _
    exact ih _ _

theorem FileFree.fat16Open (path : Addr) (mode : FileMode) : Preserves held (fat16Open path mode) := by
  unfold PeachOS.fat16Open fat16GetDirectoryEntry
  refine Preserves.ite (Preserves.pure _) ?_
  refine Preserves.bind (free.newRecord _ _) ?_
  intro descriptor
  refine Preserves.ite (Preserves.pure _) ?_
  apply Preserves.bind
  · refine Preserves.bind (free.onDisk _) ?_
    intro fatPrivate
    refine Preserves.bind (preserves_record _ _) ?_
    intro part
    refine Preserves.bind (free.findItemLoop _ _ _ _ _) ?_
    intro rootItem
    exact Preserves.ite (Preserves.pure _) (free.entryLoop _ _ _)
  · intro item
    refine Preserves.bind (free.writeRecord _ _ _) ?_
    intro _
    refine Preserves.ite ?_ (Preserves.pure _)
    refine Preserves.bind (free.freeRecord _ _) ?_
    intro _
    exact Preserves.pure _

theorem FileFree.fopenPath (rootPath : Addr) (modeStr : List Byte) : Preserves held (fopenPath rootPath modeStr) := by
  unfold PeachOS.fopenPath
  refine Preserves.ite (Preserves.pure _) ?_
  refine Preserves.bind (preserves_record _ _) ?_
  intro root
  refine Preserves.ite (Preserves.pure _) ?_
  cases diskGet root.driveNo with
  | none => exact Preserves.pure _
  | some disk =>
    refine Preserves.bind (Preserves.read _) ?_
    intro filesystem
    refine Preserves.ite (Preserves.pure _) ?_
    refine Preserves.ite (Preserves.pure _) ?_
    refine Preserves.bind (free.fat16Open _ _) ?_
    intro privateData
    exact Preserves.ite (Preserves.pure _) (Preserves.pure _)

theorem FileFree.newDescriptor : Preserves held fileNewDescriptor := by
  unfold fileNewDescriptor
  refine Preserves.bind (Preserves.read _) ?_
  intro table
  cases firstIndex peachosMaxFileDescriptors (fun i => table i == 0) with
  | none => exact Preserves.pure _
  | some i =>
    refine Preserves.bind (free.newRecord _ _) ?_
    intro desc
    refine Preserves.bind (free.writeRecord _ _ _) ?_
    intro _
    apply Preserves.bind
    · apply Preserves.update
      intro kernel kept
      exact free kernel kernel.memory kernel.disk kernel.files _ kept
    · intro _
      exact Preserves.pure _

theorem FileFree.fopen (filename modeStr : List Byte) : Preserves held (fopen filename modeStr) := by
  unfold PeachOS.fopen fopenDescriptor fopenPrivateData
  apply Preserves.bind
  · apply Preserves.bind
    · refine Preserves.bind (free.parse _) ?_
      intro rootPath
      exact free.fopenPath _ _
    · intro opened
      unfold fopenRegister
      cases opened with
      | error res => exact Preserves.pure _
      | ok made =>
        refine Preserves.bind free.newDescriptor ?_
        intro result
        refine Preserves.ite (Preserves.pure _) ?_
        refine Preserves.bind (preserves_record _ _) ?_
        intro record
        refine Preserves.bind (free.writeRecord _ _ _) ?_
        intro _
        exact Preserves.pure _
  · intro res
    exact Preserves.ite (Preserves.pure _) (Preserves.pure _)

end Fat16

/-- Where two kernels differ in what the file layer works on, at most. -/
def SameRest (before after : Kernel) : Prop :=
  after = { before with
    memory := after.memory
    disk := after.disk
    files := after.files
    fileDescriptors := after.fileDescriptors }

theorem fopen_rest {filename modeStr : List Byte} {res : Int} {before after : Kernel}
    (run : fopen filename modeStr before = (.ok res, after)) : SameRest before after := by
  have free : FileFree (SameRest before) := by
    intro kernel memory disk files table same
    unfold SameRest at *
    rw [same]
  exact free.fopen filename modeStr before res after rfl run

end PeachOS
