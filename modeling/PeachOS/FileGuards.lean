import PeachOS.File

/-! The file layer below `fopen` and `fclose` works on records of its own: it leaves roots
of paths, file descriptors and the table of descriptors alone. -/

namespace PeachOS
open Program ByteMemory

/-- The records that the file system does not touch. -/
def FileRecord.Anchor : FileRecord → Prop
  | .pathRoot _ => True
  | .fileDescriptor _ => True
  | _ => False

theorem unguarded : ∀ (_ : Addr) (record : FileRecord), False → FileRecord.Anchor record :=
  fun _ _ impossible => impossible.elim

/-- The kind of record that `select` picks is none of those. -/
def Foreign {α : Type} (select : FileRecord → Option α) : Prop :=
  ∀ record, FileRecord.Anchor record → select record = none

theorem foreign_pathPart : Foreign FileRecord.asPathPart := by
  rintro (_ | _) anchor <;> first | rfl | exact anchor.elim

theorem foreign_pathString : Foreign FileRecord.asPathString := by
  rintro (_ | _) anchor <;> first | rfl | exact anchor.elim

theorem foreign_fatItem : Foreign FileRecord.asFatItem := by
  rintro (_ | _) anchor <;> first | rfl | exact anchor.elim

theorem foreign_fatDirectory : Foreign FileRecord.asFatDirectory := by
  rintro (_ | _) anchor <;> first | rfl | exact anchor.elim

theorem foreign_fatDirectoryItem : Foreign FileRecord.asFatDirectoryItem := by
  rintro (_ | _) anchor <;> first | rfl | exact anchor.elim

theorem foreign_fatDirectoryTable : Foreign FileRecord.asFatDirectoryTable := by
  rintro (_ | _) anchor <;> first | rfl | exact anchor.elim

theorem foreign_fatFileDescriptor : Foreign FileRecord.asFatFileDescriptor := by
  rintro (_ | _) anchor <;> first | rfl | exact anchor.elim

section Guards
variable {α : Type} {guarded : Set Addr} {kind : Addr → FileRecord → Prop}
  {tables : Set (Nat → Addr)}

theorem Guards.congr {before after : Kernel} (guards : Guards guarded kind tables before)
    (heap : after.memory.heap = before.memory.heap) (files : after.files = before.files)
    (table : after.fileDescriptors = before.fileDescriptors) :
    Guards guarded kind tables after where
  sound := heap ▸ guards.sound
  recorded := heap ▸ files ▸ guards.recorded
  held := heap ▸ guards.held
  kept := files ▸ guards.kept
  table := table ▸ guards.table

theorem Guards.onDisk (call : Prog Disk Stop α) :
    Preserves (Guards guarded kind tables) (Kernel.onDisk call) := by
  intro before result after guards run
  unfold Kernel.onDisk at run
  split at run
  · cases run
    exact guards.congr rfl rfl rfl
  · cases run

theorem Guards.fat16ReadInternal (cluster offset total : Int) (out : Addr) :
    Preserves (Guards guarded kind tables) (Kernel.fat16ReadInternal cluster offset total out) := by
  unfold Kernel.fat16ReadInternal
  apply Preserves.bind
  · exact Preserves.read _
  · intro bytes
    apply Preserves.bind
    · exact Guards.onDisk _
    · rintro ⟨res, stored⟩
      apply Preserves.bind
      · apply Preserves.update
        intro kernel guards
        exact guards.congr rfl rfl rfl
      · intro _
        exact Preserves.pure _

theorem Guards.readTable (cluster : Int) (directorySize : Word) (table : Addr) :
    Preserves (Guards guarded kind tables) (fat16ReadTable cluster directorySize table) := by
  unfold fat16ReadTable
  apply Preserves.ite
  · exact Preserves.pure _
  · exact Guards.fat16ReadInternal _ _ _ _

section Anchored
variable (anchored : ∀ ptr record, kind ptr record → FileRecord.Anchor record)
include anchored

theorem Guards.write {select : FileRecord → Option α} (foreign : Foreign select) (ptr : Addr)
    (record : FileRecord) :
    Preserves (Guards guarded kind tables) (Kernel.writeRecord select ptr record) :=
  Guards.writeRecord (fun ptr record isKind => foreign record (anchored ptr record isKind))

theorem Guards.free {select : FileRecord → Option α} (foreign : Foreign select) (ptr : Addr) :
    Preserves (Guards guarded kind tables) (Kernel.freeRecord select ptr) :=
  Guards.freeRecord (fun ptr record isKind => foreign record (anchored ptr record isKind))

omit anchored in
theorem Guards.copyLoop (str : Addr) (i : Nat) (path : List Byte) :
    Preserves (Guards guarded kind tables) (pathparserCopyLoop str i path) := by
  induction path generalizing i with
  | nil => exact Preserves.pure _
  | cons c path ih =>
    unfold pathparserCopyLoop
    apply Preserves.ite
    · exact Preserves.pure _
    · unfold pathparserSetChar
      apply Preserves.bind
      · apply Preserves.bind
        · exact Guards.record _ _
        · intro _
          apply Preserves.update
          intro kernel guards
          exact guards.congr rfl rfl rfl
      · intro _
        exact ih (i + 1)

theorem Guards.getPathPart (path : List Byte) :
    Preserves (Guards guarded kind tables) (pathparserGetPathPart path) := by
  unfold pathparserGetPathPart
  apply Preserves.bind (Guards.newRecord _ _)
  intro str
  apply Preserves.bind (Guards.copyLoop _ _ _)
  rintro ⟨i, rest⟩
  apply Preserves.ite
  · apply Preserves.bind (Guards.free anchored foreign_pathString _)
    intro _
    exact Preserves.pure _
  · exact Preserves.pure _

theorem Guards.parsePathPart (last : Addr) (path : List Byte) :
    Preserves (Guards guarded kind tables) (pathparserParsePathPart last path) := by
  unfold pathparserParsePathPart
  apply Preserves.bind (Guards.getPathPart anchored _)
  rintro ⟨str, rest⟩
  apply Preserves.ite
  · exact Preserves.pure _
  · apply Preserves.bind (Guards.newRecord _ _)
    intro part
    apply Preserves.bind (Guards.write anchored foreign_pathPart _ _)
    intro _
    apply Preserves.ite
    · apply Preserves.bind (Guards.record _ _)
      intro record
      apply Preserves.bind (Guards.write anchored foreign_pathPart _ _)
      intro _
      exact Preserves.pure _
    · exact Preserves.pure _

theorem Guards.parseLoop (fuel : Nat) (part : Addr) (path : List Byte) :
    Preserves (Guards guarded kind tables) (pathparserParseLoop fuel part path) := by
  induction fuel generalizing part path with
  | zero => exact Preserves.stop _
  | succ fuel ih =>
    unfold pathparserParseLoop
    apply Preserves.ite
    · exact Preserves.pure _
    · apply Preserves.bind (Guards.parsePathPart anchored _ _)
      rintro ⟨next, rest⟩
      exact ih next rest

theorem Guards.freeDirectory (directory : Addr) :
    Preserves (Guards guarded kind tables) (fat16FreeDirectory directory) := by
  unfold fat16FreeDirectory
  apply Preserves.ite
  · exact Preserves.pure _
  · apply Preserves.bind (Guards.record _ _)
    intro record
    apply Preserves.ite
    · apply Preserves.bind (Guards.free anchored foreign_fatDirectoryTable _)
      intro _
      exact Guards.free anchored foreign_fatDirectory _
    · exact Guards.free anchored foreign_fatDirectory _

theorem Guards.itemFree (item : Addr) :
    Preserves (Guards guarded kind tables) (fat16FatItemFree item) := by
  unfold fat16FatItemFree
  apply Preserves.bind (Guards.record _ _)
  rintro ⟨target, itemType⟩
  cases itemType with
  | directory =>
    apply Preserves.bind (Guards.freeDirectory anchored _)
    intro _
    exact Guards.free anchored foreign_fatItem _
  | file =>
    apply Preserves.bind (Guards.free anchored foreign_fatDirectoryItem _)
    intro _
    exact Guards.free anchored foreign_fatItem _

theorem Guards.loadDirectory (item : FatDirectoryItem) :
    Preserves (Guards guarded kind tables) (fat16LoadFatDirectory item) := by
  unfold fat16LoadFatDirectory
  apply Preserves.bind (Guards.onDisk _)
  intro fatPrivate
  apply Preserves.ite
  · exact Preserves.pure _
  · apply Preserves.bind (Guards.newRecord _ _)
    intro directory
    apply Preserves.ite
    · exact Preserves.pure _
    · apply Preserves.bind (Guards.onDisk _)
      intro total
      apply Preserves.bind (Guards.write anchored foreign_fatDirectory _ _)
      intro _
      apply Preserves.bind (Guards.newRecord _ _)
      intro table
      apply Preserves.bind (Guards.write anchored foreign_fatDirectory _ _)
      intro _
      apply Preserves.bind (Guards.readTable _ _ _)
      intro res
      apply Preserves.ite
      · apply Preserves.bind (Guards.freeDirectory anchored _)
        intro _
        exact Preserves.pure _
      · exact Preserves.pure _

theorem Guards.newFatItem (item : FatDirectoryItem) :
    Preserves (Guards guarded kind tables) (fat16NewFatItemForDirectoryItem item) := by
  unfold fat16NewFatItemForDirectoryItem
  apply Preserves.bind (Guards.newRecord _ _)
  intro fItem
  apply Preserves.ite
  · exact Preserves.pure _
  · apply Preserves.ite
    · apply Preserves.bind (Guards.loadDirectory anchored _)
      intro directory
      apply Preserves.bind (Guards.write anchored foreign_fatItem _ _)
      intro _
      exact Preserves.pure _
    · apply Preserves.bind (Guards.write anchored foreign_fatItem _ _)
      intro _
      apply Preserves.bind
      · unfold fat16CloneDirectoryItem
        apply Preserves.ite
        · exact Preserves.pure _
        · exact Guards.newRecord _ _
      · intro clone
        apply Preserves.bind (Guards.write anchored foreign_fatItem _ _)
        intro _
        exact Preserves.pure _

theorem Guards.findItem (directory : FatDirectory) (name : Addr) :
    Preserves (Guards guarded kind tables) (fat16FindItemInDirectory directory name) := by
  have loop : ∀ remaining i fItem, Preserves (Guards guarded kind tables)
      (fat16FindItemLoop directory name remaining i fItem) := by
    intro remaining
    induction remaining with
    | zero => exact fun _ _ => Preserves.pure _
    | succ remaining ih =>
      intro i fItem
      unfold fat16FindItemLoop
      apply Preserves.bind
      · exact Preserves.read _
      · intro bytes
        apply Preserves.bind (Guards.record _ _)
        intro _
        apply Preserves.ite
        · apply Preserves.bind (Guards.newFatItem anchored _)
          intro found
          exact ih _ _
        · exact ih _ _
  exact loop _ _ _

theorem Guards.directoryEntry (path : Addr) :
    Preserves (Guards guarded kind tables) (fat16GetDirectoryEntry path) := by
  have loop : ∀ fuel nextPart currentItem, Preserves (Guards guarded kind tables)
      (fat16GetDirectoryEntryLoop fuel nextPart currentItem) := by
    intro fuel
    induction fuel with
    | zero => exact fun _ _ => Preserves.stop _
    | succ fuel ih =>
      intro nextPart currentItem
      unfold fat16GetDirectoryEntryLoop
      apply Preserves.ite
      · exact Preserves.pure _
      · apply Preserves.bind (Guards.record _ _)
        intro item
        apply Preserves.ite
        · exact Preserves.pure _
        · apply Preserves.bind (Guards.record _ _)
          intro directory
          apply Preserves.bind (Guards.record _ _)
          intro part
          apply Preserves.bind (Guards.findItem anchored _ _)
          intro tmpItem
          apply Preserves.bind (Guards.itemFree anchored _)
          intro _
          exact ih _ _
  unfold fat16GetDirectoryEntry
  apply Preserves.bind (Guards.onDisk _)
  intro fatPrivate
  apply Preserves.bind (Guards.record _ _)
  intro part
  apply Preserves.bind (Guards.findItem anchored _ _)
  intro rootItem
  apply Preserves.ite
  · exact Preserves.pure _
  · exact loop _ _ _

theorem Guards.fat16Open (path : Addr) (mode : FileMode) :
    Preserves (Guards guarded kind tables) (fat16Open path mode) := by
  unfold PeachOS.fat16Open
  apply Preserves.ite
  · exact Preserves.pure _
  · apply Preserves.bind (Guards.newRecord _ _)
    intro descriptor
    apply Preserves.ite
    · exact Preserves.pure _
    · apply Preserves.bind (Guards.directoryEntry anchored _)
      intro item
      apply Preserves.bind (Guards.write anchored foreign_fatFileDescriptor _ _)
      intro _
      apply Preserves.ite
      · apply Preserves.bind (Guards.free anchored foreign_fatFileDescriptor _)
        intro _
        exact Preserves.pure _
      · exact Preserves.pure _

theorem Guards.fat16Close (privateData : Addr) :
    Preserves (Guards guarded kind tables) (fat16Close privateData) := by
  unfold PeachOS.fat16Close fat16FreeFileDescriptor
  apply Preserves.bind
  · apply Preserves.bind (Guards.record _ _)
    intro record
    apply Preserves.bind (Guards.itemFree anchored _)
    intro _
    exact Guards.free anchored foreign_fatFileDescriptor _
  · intro _
    exact Preserves.pure _

end Anchored

end Guards

end PeachOS
