import PeachOS.PathParser

/-! The rest of `fs/fat/fat16.c`: the search for a path in the directories of the volume,
and the calls on an open file. -/

namespace PeachOS
open Program ByteMemory

abbrev fatFileReadOnly : Byte := 0x01
abbrev fatFileSubdirectory : Byte := 0x10

inductive FileMode where
  | read
  | write
  | append
  | invalid
  deriving DecidableEq

/-- `other` stands for every number that is none of the three. -/
inductive FileSeekMode where
  | seekSet
  | seekCur
  | seekEnd
  | other
  deriving DecidableEq

abbrev fileStatReadOnly : Word := 1

structure FileStat where
  flags : Word
  filesize : Word
  deriving DecidableEq

/-- `ERROR(value)`: an error code in the place of a pointer. -/
def errorPtr (value : Int) : Addr := BitVec.ofInt 32 value

/-- A call that works on the disk and its record only. -/
def Kernel.onDisk {α : Type} (call : Prog Disk Stop α) : KernelProg α := fun kernel =>
  match call kernel.disk with
  | (.ok result, disk) => (.ok result, { kernel with disk := disk })
  | (.error stop, disk) => (.error stop, { kernel with disk := disk })

/-- `diskstreamer_seek` and `diskstreamer_read` on the directory stream. -/
def directorySeek (pos : Int) : Prog Disk Stop Unit := do
  let fatPrivate ← fsPrivate
  match fatPrivate.directoryStream with
  | none => fault
  | some stream => update (Disk.withPrivate · (fun volume =>
      { volume with directoryStream := some (diskstreamerSeek stream pos) }))

def directoryRead (total : Int) : Prog Disk Stop (Int × List Byte) := do
  let fatPrivate ← fsPrivate
  match fatPrivate.directoryStream with
  | none => fault
  | some stream =>
      streamReadAt (some stream) (fun stream volume => { volume with directoryStream := some stream })
        stream.pos total

abbrev fatDirectoryItemSize : Nat := 32

def fat16CountItemsLoop : (fuel : Nat) → (i : Int) → Prog Disk Stop Int
  | 0, _ => fault
  | fuel + 1, i => do
      let (res, item) ← directoryRead fatDirectoryItemSize
      if res ≠ 0 then pure (- EIO)
      else if item.headD 0 = 0x00 then pure i
      else if item.headD 0 = 0xE5 then fat16CountItemsLoop fuel i
      else fat16CountItemsLoop fuel (i + 1)

/-- Each round advances the stream by an item, and a position is an `int`. -/
def fat16GetTotalItemsForDirectory (directoryStartSector : Word) : Prog Disk Stop Int := do
  let sectorSize ← read Disk.sectorSize
  directorySeek (directoryStartSector * BitVec.ofInt 32 sectorSize).toInt
  fat16CountItemsLoop (2 ^ 26 + 1) 0

/-- With `remaining` bytes of the field left. -/
def fat16ToProperString : (remaining : Nat) → List Byte → List Byte
  | remaining + 1, c :: rest =>
      if c = 0x00 ∨ c = 0x20 then [] else c :: fat16ToProperString remaining rest
  | _, _ => []

def fat16GetFullRelativeFilename (item : FatDirectoryItem) : List Byte :=
  fat16ToProperString 8 item.filename ++
    (if item.ext.headD 0 ≠ 0x00 ∧ item.ext.headD 0 ≠ 0x20 then 0x2E :: fat16ToProperString 3 item.ext
      else [])

/-- `struct fat_directory_item` at `ptr`. -/
def fatDirectoryItemAt (bytes : Bytes) (ptr : Addr) : FatDirectoryItem where
  filename := loadBytes bytes ptr 8
  ext := loadBytes bytes (ptr + 8) 3
  itemAttribute := bytes (ptr + 11)
  high16BitsFirstCluster := load16 bytes (ptr + 20)
  low16BitsFirstCluster := load16 bytes (ptr + 26)
  filesize := load32 bytes (ptr + 28)

/-- The copy is a record of its own. -/
def fat16CloneDirectoryItem (item : FatDirectoryItem) (size : Nat) : KernelProg Addr := do
  if size < fatDirectoryItemSize then pure 0
  else Kernel.newRecord (BitVec.ofNat 32 size) (.fatDirectoryItem item)

def fat16FreeDirectory (directory : Addr) : KernelProg Unit := do
  if directory = 0 then pure ()
  else
    let record ← Kernel.record FileRecord.asFatDirectory directory
    if record.item ≠ 0 then Kernel.freeRecord FileRecord.asFatDirectoryTable record.item
    Kernel.freeRecord FileRecord.asFatDirectory directory

def fat16FatItemFree (item : Addr) : KernelProg Unit := do
  let record ← Kernel.record FileRecord.asFatItem item
  match record.itemType with
  | .directory => fat16FreeDirectory record.item
  | .file => Kernel.freeRecord FileRecord.asFatDirectoryItem record.item
  Kernel.freeRecord FileRecord.asFatItem item

/-- `fat16_read_internal` into memory. -/
def Kernel.fat16ReadInternal (startingCluster offset total : Int) (out : Addr) : KernelProg Int := do
  let bytes ← read (fun kernel => kernel.memory.bytes)
  let (res, bytes) ← Kernel.onDisk (PeachOS.fat16ReadInternal startingCluster offset total out bytes)
  update (fun kernel => kernel.setMemory { kernel.memory with bytes := bytes })
  pure res

/-- The table of a directory is read into the memory that was allocated for it, if it was. -/
def fat16ReadTable (cluster : Int) (directorySize : Word) (table : Addr) : KernelProg Int :=
  if table = 0 then pure (- ENOMEM)
  else Kernel.fat16ReadInternal cluster 0x00 directorySize.toInt table

/-- When the table of the directory cannot be read, the directory is freed and its address
is returned all the same. -/
def fat16LoadFatDirectory (item : FatDirectoryItem) : KernelProg Addr := do
  let fatPrivate ← Kernel.onDisk fsPrivate
  if item.itemAttribute &&& fatFileSubdirectory = 0 then pure 0
  else
    let directory ← Kernel.newRecord 16 (.fatDirectory ⟨0, 0, 0, 0⟩)
    if directory = 0 then pure 0
    else
      let cluster := (fat16GetFirstCluster item).toInt
      let clusterSector := fat16ClusterToSector fatPrivate cluster
      let totalItems ← Kernel.onDisk (fat16GetTotalItemsForDirectory (BitVec.ofInt 32 clusterSector))
      Kernel.writeRecord FileRecord.asFatDirectory directory (.fatDirectory ⟨0, totalItems, 0, 0⟩)
      let directorySize := BitVec.ofInt 32 (totalItems * fatDirectoryItemSize)
      let table ← Kernel.newRecord directorySize .fatDirectoryTable
      Kernel.writeRecord FileRecord.asFatDirectory directory (.fatDirectory ⟨table, totalItems, 0, 0⟩)
      let res ← fat16ReadTable cluster directorySize table
      if res ≠ 0 then fat16FreeDirectory directory
      pure directory

def fat16NewFatItemForDirectoryItem (item : FatDirectoryItem) : KernelProg Addr := do
  let fItem ← Kernel.newRecord 8 (.fatItem ⟨0, .directory⟩)
  if fItem = 0 then pure 0
  else if item.itemAttribute &&& fatFileSubdirectory ≠ 0 then
    let directory ← fat16LoadFatDirectory item
    Kernel.writeRecord FileRecord.asFatItem fItem (.fatItem ⟨directory, .directory⟩)
    pure fItem
  else
    Kernel.writeRecord FileRecord.asFatItem fItem (.fatItem ⟨0, .file⟩)
    let clone ← fat16CloneDirectoryItem item fatDirectoryItemSize
    Kernel.writeRecord FileRecord.asFatItem fItem (.fatItem ⟨clone, .file⟩)
    pure fItem

/-- The loop does not stop at the first match. -/
def fat16FindItemLoop (directory : FatDirectory) (name : Addr) :
    (remaining i : Nat) → (fItem : Addr) → KernelProg Addr
  | 0, _, fItem => pure fItem
  | remaining + 1, i, fItem => do
      let bytes ← read (fun kernel => kernel.memory.bytes)
      let item := fatDirectoryItemAt bytes (directory.item + BitVec.ofNat 32 (i * fatDirectoryItemSize))
      let _ ← Kernel.record FileRecord.asPathString name
      if istrncmp (fat16GetFullRelativeFilename item) (loadBytes bytes name peachosMaxPath)
          peachosMaxPath = 0 then
        let found ← fat16NewFatItemForDirectoryItem item
        fat16FindItemLoop directory name remaining (i + 1) found
      else fat16FindItemLoop directory name remaining (i + 1) fItem

def fat16FindItemInDirectory (directory : FatDirectory) (name : Addr) : KernelProg Addr :=
  fat16FindItemLoop directory name directory.total.toNat 0 0

/-- The loop of `fat16_get_directory_entry`, a round for each part after the first. -/
def fat16GetDirectoryEntryLoop : (fuel : Nat) → (nextPart currentItem : Addr) → KernelProg Addr
  | 0, _, _ => fault
  | fuel + 1, nextPart, currentItem =>
      if nextPart = 0 then pure currentItem
      else do
        let item ← Kernel.record FileRecord.asFatItem currentItem
        if item.itemType ≠ .directory then pure 0
        else
          let directory ← Kernel.record FileRecord.asFatDirectory item.item
          let part ← Kernel.record FileRecord.asPathPart nextPart
          let tmpItem ← fat16FindItemInDirectory directory part.part
          fat16FatItemFree currentItem
          fat16GetDirectoryEntryLoop fuel part.next tmpItem

/-- A path has fewer parts than characters. -/
def fat16GetDirectoryEntry (path : Addr) : KernelProg Addr := do
  let fatPrivate ← Kernel.onDisk fsPrivate
  let part ← Kernel.record FileRecord.asPathPart path
  let rootItem ← fat16FindItemInDirectory fatPrivate.rootDirectory part.part
  if rootItem = 0 then pure 0
  else fat16GetDirectoryEntryLoop peachosMaxPath part.next rootItem

def fat16Open (path : Addr) (mode : FileMode) : KernelProg Addr := do
  if mode ≠ .read then pure (errorPtr (- ERDONLY))
  else
    let descriptor ← Kernel.newRecord 8 (.fatFileDescriptor ⟨0, 0⟩)
    if descriptor = 0 then pure (errorPtr (- ENOMEM))
    else
      let item ← fat16GetDirectoryEntry path
      Kernel.writeRecord FileRecord.asFatFileDescriptor descriptor (.fatFileDescriptor ⟨item, 0⟩)
      if item = 0 then do
        Kernel.freeRecord FileRecord.asFatFileDescriptor descriptor
        pure (errorPtr (- EIO))
      else pure descriptor

def fat16FreeFileDescriptor (desc : Addr) : KernelProg Unit := do
  let record ← Kernel.record FileRecord.asFatFileDescriptor desc
  fat16FatItemFree record.item
  Kernel.freeRecord FileRecord.asFatFileDescriptor desc

def fat16Close (privateData : Addr) : KernelProg Int := do
  fat16FreeFileDescriptor privateData
  pure 0

/-- The result, and what goes out through `stat`, which holds `stat` before. -/
def fat16Stat (privateData : Addr) (stat : FileStat) : KernelProg (Int × FileStat) := do
  let descriptor ← Kernel.record FileRecord.asFatFileDescriptor privateData
  let descItem ← Kernel.record FileRecord.asFatItem descriptor.item
  if descItem.itemType ≠ .file then pure (- EINVARG, stat)
  else
    let ritem ← Kernel.record FileRecord.asFatDirectoryItem descItem.item
    let flags := if ritem.itemAttribute &&& fatFileReadOnly ≠ 0 then fileStatReadOnly else 0
    pure (0, ⟨flags, ritem.filesize⟩)

/-- `fat16_read` into memory. The position of the descriptor is read and not moved on. -/
def Kernel.fat16Read (descriptor : Addr) (size nmemb : Word) (out : Addr) : KernelProg Int := do
  let fatDesc ← Kernel.record FileRecord.asFatFileDescriptor descriptor
  let descItem ← Kernel.record FileRecord.asFatItem fatDesc.item
  let item ← Kernel.record FileRecord.asFatDirectoryItem descItem.item
  let bytes ← read (fun kernel => kernel.memory.bytes)
  let (res, bytes) ← Kernel.onDisk (PeachOS.fat16Read item fatDesc.pos size nmemb out bytes)
  update (fun kernel => kernel.setMemory { kernel.memory with bytes := bytes })
  pure res

/-- The bound is on the argument, whatever the mode. -/
def fat16Seek (privateData : Addr) (offset : Word) (seekMode : FileSeekMode) : KernelProg Int := do
  let desc ← Kernel.record FileRecord.asFatFileDescriptor privateData
  let descItem ← Kernel.record FileRecord.asFatItem desc.item
  if descItem.itemType ≠ .file then pure (- EINVARG)
  else
    let ritem ← Kernel.record FileRecord.asFatDirectoryItem descItem.item
    if ritem.filesize.toNat ≤ offset.toNat then pure (- EIO)
    else
      match seekMode with
      | .seekSet =>
          Kernel.writeRecord FileRecord.asFatFileDescriptor privateData
            (.fatFileDescriptor { desc with pos := offset })
          pure 0
      | .seekEnd => pure (- EUNIMP)
      | .seekCur =>
          Kernel.writeRecord FileRecord.asFatFileDescriptor privateData
            (.fatFileDescriptor { desc with pos := desc.pos + offset })
          pure 0
      | .other => pure (- EINVARG)

end PeachOS
