import PeachOS.Fat16Open
import PeachOS.Lib.Logged

/-! `fat16_open` and `fat16_close` with a log of their calls of `kzalloc` and `kfree`. Without
the log they are the programs of the driver. -/

namespace PeachOS
open Program

/-- An address that `kzalloc` returned, or that `kfree` was given. -/
abbrev HeapEvent : Type := Event Addr

abbrev LoggedKernel (α : Type) : Type := Logged Kernel Stop HeapEvent α

def NoneRefused (log : List HeapEvent) : Prop := Event.alloc 0 ∉ log

instance (log : List HeapEvent) : Decidable (NoneRefused log) := inferInstanceAs (Decidable (_ ∉ _))

def loggedNewRecord (size : Word) (record : FileRecord) : LoggedKernel Addr :=
  Logged.note Event.alloc (Kernel.newRecord size record)

def loggedFreeRecord {α : Type} (select : FileRecord → Option α) (ptr : Addr) : LoggedKernel Unit :=
  Logged.note (fun _ => Event.free ptr) (Kernel.freeRecord select ptr)

def loggedFreeDirectory (directory : Addr) : LoggedKernel Unit := do
  if directory = 0 then pure ()
  else
    let record ← Kernel.record FileRecord.asFatDirectory directory
    if record.item ≠ 0 then loggedFreeRecord FileRecord.asFatDirectoryTable record.item
    loggedFreeRecord FileRecord.asFatDirectory directory

def loggedItemFree (item : Addr) : LoggedKernel Unit := do
  let record ← Kernel.record FileRecord.asFatItem item
  match record.itemType with
  | .directory => loggedFreeDirectory record.item
  | .file => loggedFreeRecord FileRecord.asFatDirectoryItem record.item
  loggedFreeRecord FileRecord.asFatItem item

def loggedLoadDirectory (item : FatDirectoryItem) : LoggedKernel Addr := do
  let fatPrivate ← Kernel.onDisk fsPrivate
  if item.itemAttribute &&& fatFileSubdirectory = 0 then pure 0
  else
    let directory ← loggedNewRecord 16 (.fatDirectory ⟨0, 0, 0, 0⟩)
    if directory = 0 then pure 0
    else
      let cluster := (fat16GetFirstCluster item).toInt
      let clusterSector := fat16ClusterToSector fatPrivate cluster
      let totalItems ← Kernel.onDisk (fat16GetTotalItemsForDirectory (BitVec.ofInt 32 clusterSector))
      Kernel.writeRecord FileRecord.asFatDirectory directory (.fatDirectory ⟨0, totalItems, 0, 0⟩)
      let directorySize := BitVec.ofInt 32 (totalItems * fatDirectoryItemSize)
      let table ← loggedNewRecord directorySize .fatDirectoryTable
      Kernel.writeRecord FileRecord.asFatDirectory directory (.fatDirectory ⟨table, totalItems, 0, 0⟩)
      let res ← fat16ReadTable cluster directorySize table
      if res ≠ 0 then loggedFreeDirectory directory
      pure directory

def loggedNewFatItem (item : FatDirectoryItem) : LoggedKernel Addr := do
  let fItem ← loggedNewRecord 8 (.fatItem ⟨0, .directory⟩)
  if fItem = 0 then pure 0
  else if item.itemAttribute &&& fatFileSubdirectory ≠ 0 then
    let directory ← loggedLoadDirectory item
    Kernel.writeRecord FileRecord.asFatItem fItem (.fatItem ⟨directory, .directory⟩)
    pure fItem
  else
    Kernel.writeRecord FileRecord.asFatItem fItem (.fatItem ⟨0, .file⟩)
    let clone ← loggedNewRecord (BitVec.ofNat 32 fatDirectoryItemSize) (.fatDirectoryItem item)
    Kernel.writeRecord FileRecord.asFatItem fItem (.fatItem ⟨clone, .file⟩)
    pure fItem

def loggedFindLoop (directory : FatDirectory) (name : Addr) :
    (remaining i : Nat) → (fItem : Addr) → LoggedKernel Addr
  | 0, _, fItem => pure fItem
  | remaining + 1, i, fItem => do
      let bytes ← (read (fun kernel => kernel.memory.bytes) : KernelProg ByteMemory.Bytes)
      let item := fatDirectoryItemAt bytes (directory.item + BitVec.ofNat 32 (i * fatDirectoryItemSize))
      let _ ← Kernel.record FileRecord.asPathString name
      if istrncmp (fat16GetFullRelativeFilename item) (ByteMemory.loadBytes bytes name peachosMaxPath)
          peachosMaxPath = 0 then
        let found ← loggedNewFatItem item
        loggedFindLoop directory name remaining (i + 1) found
      else loggedFindLoop directory name remaining (i + 1) fItem

def loggedFindItem (directory : FatDirectory) (name : Addr) : LoggedKernel Addr :=
  loggedFindLoop directory name directory.total.toNat 0 0

def loggedEntryLoop : (fuel : Nat) → (nextPart currentItem : Addr) → LoggedKernel Addr
  | 0, _, _ => liftM (fault : KernelProg Addr)
  | fuel + 1, nextPart, currentItem =>
      if nextPart = 0 then pure currentItem
      else do
        let item ← Kernel.record FileRecord.asFatItem currentItem
        if item.itemType ≠ .directory then pure 0
        else
          let directory ← Kernel.record FileRecord.asFatDirectory item.item
          let part ← Kernel.record FileRecord.asPathPart nextPart
          let tmpItem ← loggedFindItem directory part.part
          loggedItemFree currentItem
          loggedEntryLoop fuel part.next tmpItem

def loggedDirectoryEntry (path : Addr) : LoggedKernel Addr := do
  let fatPrivate ← Kernel.onDisk fsPrivate
  let part ← Kernel.record FileRecord.asPathPart path
  let rootItem ← loggedFindItem fatPrivate.rootDirectory part.part
  if rootItem = 0 then pure 0
  else loggedEntryLoop peachosMaxPath part.next rootItem

def loggedOpen (path : Addr) (mode : FileMode) : LoggedKernel Addr := do
  if mode ≠ .read then pure (errorPtr (- ERDONLY))
  else
    let descriptor ← loggedNewRecord 8 (.fatFileDescriptor ⟨0, 0⟩)
    if descriptor = 0 then pure (errorPtr (- ENOMEM))
    else
      let item ← loggedDirectoryEntry path
      Kernel.writeRecord FileRecord.asFatFileDescriptor descriptor (.fatFileDescriptor ⟨item, 0⟩)
      if item = 0 then do
        loggedFreeRecord FileRecord.asFatFileDescriptor descriptor
        pure (errorPtr (- EIO))
      else pure descriptor

def loggedFreeFileDescriptor (desc : Addr) : LoggedKernel Unit := do
  let record ← Kernel.record FileRecord.asFatFileDescriptor desc
  loggedItemFree record.item
  loggedFreeRecord FileRecord.asFatFileDescriptor desc

def loggedClose (privateData : Addr) : LoggedKernel Int := do
  loggedFreeFileDescriptor privateData
  pure 0

section Forget

theorem forget_newRecord (size : Word) (record : FileRecord) :
    (loggedNewRecord size record).forget = Kernel.newRecord size record := forget_note _ _

theorem forget_freeRecord {α : Type} (select : FileRecord → Option α) (ptr : Addr) :
    (loggedFreeRecord select ptr).forget = Kernel.freeRecord select ptr := forget_note _ _

theorem forget_freeDirectory (directory : Addr) :
    (loggedFreeDirectory directory).forget = fat16FreeDirectory directory := by
  unfold loggedFreeDirectory fat16FreeDirectory
  simp [forget_freeRecord]

theorem forget_itemFree (item : Addr) : (loggedItemFree item).forget = fat16FatItemFree item := by
  unfold loggedItemFree fat16FatItemFree
  rw [forget_bind, forget_lift]
  congr 1
  funext record
  cases record.itemType with
  | directory => simp [forget_freeRecord, forget_freeDirectory]
  | file => simp [forget_freeRecord]

theorem forget_loadDirectory (item : FatDirectoryItem) :
    (loggedLoadDirectory item).forget = fat16LoadFatDirectory item := by
  unfold loggedLoadDirectory fat16LoadFatDirectory
  simp [forget_newRecord, forget_freeDirectory]

theorem forget_newFatItem (item : FatDirectoryItem) :
    (loggedNewFatItem item).forget = fat16NewFatItemForDirectoryItem item := by
  unfold loggedNewFatItem fat16NewFatItemForDirectoryItem
  simp [forget_newRecord, forget_loadDirectory, fat16CloneDirectoryItem]

theorem forget_findLoop (directory : FatDirectory) (name : Addr) (remaining i : Nat) (fItem : Addr) :
    (loggedFindLoop directory name remaining i fItem).forget = fat16FindItemLoop directory name remaining i fItem := by
  induction remaining generalizing i fItem with
  | zero => rfl
  | succ remaining ih =>
    unfold loggedFindLoop fat16FindItemLoop
    simp [forget_newFatItem, ih]

theorem forget_findItem (directory : FatDirectory) (name : Addr) :
    (loggedFindItem directory name).forget = fat16FindItemInDirectory directory name :=
  forget_findLoop directory name _ _ _

theorem forget_entryLoop (fuel : Nat) (nextPart currentItem : Addr) :
    (loggedEntryLoop fuel nextPart currentItem).forget = fat16GetDirectoryEntryLoop fuel nextPart currentItem := by
  induction fuel generalizing nextPart currentItem with
  | zero => exact forget_lift _
  | succ fuel ih =>
    unfold loggedEntryLoop fat16GetDirectoryEntryLoop
    simp [forget_findItem, forget_itemFree, ih]

theorem forget_directoryEntry (path : Addr) : (loggedDirectoryEntry path).forget = fat16GetDirectoryEntry path := by
  unfold loggedDirectoryEntry fat16GetDirectoryEntry
  simp [forget_findItem, forget_entryLoop]

theorem forget_open (path : Addr) (mode : FileMode) : (loggedOpen path mode).forget = fat16Open path mode := by
  unfold loggedOpen fat16Open
  simp [forget_newRecord, forget_directoryEntry, forget_freeRecord]

theorem forget_close (privateData : Addr) : (loggedClose privateData).forget = fat16Close privateData := by
  unfold loggedClose fat16Close loggedFreeFileDescriptor fat16FreeFileDescriptor
  simp [forget_itemFree, forget_freeRecord]

end Forget

end PeachOS
