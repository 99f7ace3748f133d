import PeachOS.File

/-! What no call on a file changes of a mounted disk: its bytes, its header and its root
directory. The streams move, and nothing else of the volume does. -/

namespace PeachOS
open Program ByteMemory Search

/-- The disk without its streams. -/
def Disk.streamless (disk : Disk) : Disk := disk.withPrivate (fun volume =>
  { volume with clusterReadStream := none, fatReadStream := none, directoryStream := none })

/-- The call changes nothing of the disk but its streams. -/
def KeepsVolume {α : Type} (call : Prog Disk Stop α) : Prop :=
  ∀ volume, Preserves (fun disk => disk.streamless = volume) call

def KernelKeepsVolume {α : Type} (call : KernelProg α) : Prop :=
  ∀ volume, Preserves (fun kernel => kernel.disk.streamless = volume) call

section Disk
variable {α β : Type} {call : Prog Disk Stop α} {next : α → Prog Disk Stop β}

theorem KeepsVolume.pure (result : α) : KeepsVolume (pure result : Prog Disk Stop α) :=
  fun _ => Preserves.pure result

theorem KeepsVolume.stop (reason : Stop) : KeepsVolume (stop reason : Prog Disk Stop α) :=
  fun _ => Preserves.stop reason

theorem KeepsVolume.read (part : Disk → α) : KeepsVolume (read part) := fun _ => Preserves.read part

theorem KeepsVolume.ite {condition : Prop} [Decidable condition] {other : Prog Disk Stop α}
    (yes : KeepsVolume call) (no : KeepsVolume other) :
    KeepsVolume (if condition then call else other) :=
  fun volume => Preserves.ite (yes volume) (no volume)

theorem KeepsVolume.bind (first : KeepsVolume call) (rest : ∀ result, KeepsVolume (next result)) :
    KeepsVolume (call >>= next) :=
  fun volume => Preserves.bind (first volume) (fun result => rest result volume)

theorem KeepsVolume.moved {change : FatPrivate → FatPrivate} (streams : ∀ volume,
    (change volume).header = volume.header ∧ (change volume).rootDirectory = volume.rootDirectory) :
    KeepsVolume (update (Disk.withPrivate · change)) := by
  intro volume
  apply Preserves.update
  intro disk same
  rw [← same]
  unfold Disk.streamless Disk.withPrivate
  dsimp only
  cases disk.fsPrivate with
  | none => rfl
  | some fatPrivate =>
    obtain ⟨header, root⟩ := streams fatPrivate
    dsimp only [Option.map_some]
    rw [header, root]

theorem keepsVolume_fsPrivate : KeepsVolume fsPrivate := by
  unfold fsPrivate
  refine KeepsVolume.bind (KeepsVolume.read _) ?_
  intro found
  cases found with
  | none => exact KeepsVolume.stop _
  | some fatPrivate => exact KeepsVolume.pure _

theorem keepsVolume_streamReadAt (stream : Option DiskStream) {keep : DiskStream → FatPrivate → FatPrivate}
    (streams : ∀ stream volume, (keep stream volume).header = volume.header ∧
      (keep stream volume).rootDirectory = volume.rootDirectory) (pos total : Int) :
    KeepsVolume (streamReadAt stream keep pos total) := by
  unfold streamReadAt
  cases stream with
  | none => exact KeepsVolume.stop _
  | some stream =>
    refine KeepsVolume.bind (KeepsVolume.read _) ?_
    intro image
    split
    · exact KeepsVolume.stop _
    · apply KeepsVolume.bind (KeepsVolume.moved (streams _))
      intro _
      exact KeepsVolume.pure _

theorem keepsVolume_fatReadAt (fatPrivate : FatPrivate) (pos total : Int) :
    KeepsVolume (fatReadAt fatPrivate pos total) := by
  apply keepsVolume_streamReadAt
  intro stream volume
  exact ⟨rfl, rfl⟩

theorem keepsVolume_clusterReadAt (fatPrivate : FatPrivate) (pos total : Int) :
    KeepsVolume (clusterReadAt fatPrivate pos total) := by
  apply keepsVolume_streamReadAt
  intro stream volume
  exact ⟨rfl, rfl⟩

theorem keepsVolume_getFatEntry (cluster : Int) : KeepsVolume (fat16GetFatEntry cluster) := by
  unfold fat16GetFatEntry
  apply KeepsVolume.bind keepsVolume_fsPrivate
  intro fatPrivate
  apply KeepsVolume.ite
  · exact KeepsVolume.pure _
  · refine KeepsVolume.bind (KeepsVolume.read _) ?_
    intro sectorSize
    apply KeepsVolume.bind (keepsVolume_fatReadAt _ _ _)
    intro result
    exact KeepsVolume.ite (KeepsVolume.pure _) (KeepsVolume.pure _)

theorem keepsVolume_clusterLoop (remaining : Nat) (cluster : Int) :
    KeepsVolume (fat16GetClusterForOffsetLoop remaining cluster) := by
  induction remaining generalizing cluster with
  | zero => exact KeepsVolume.pure _
  | succ remaining ih =>
    unfold fat16GetClusterForOffsetLoop
    apply KeepsVolume.bind (keepsVolume_getFatEntry _)
    intro entry
    exact KeepsVolume.ite (KeepsVolume.pure _) (KeepsVolume.ite (KeepsVolume.pure _) (KeepsVolume.ite
      (KeepsVolume.pure _) (KeepsVolume.ite (KeepsVolume.pure _) (ih entry))))

theorem keepsVolume_clusterForOffset (cluster offset : Int) :
    KeepsVolume (fat16GetClusterForOffset cluster offset) := by
  unfold fat16GetClusterForOffset
  apply KeepsVolume.bind keepsVolume_fsPrivate
  intro fatPrivate
  refine KeepsVolume.bind (KeepsVolume.read _) ?_
  intro size
  exact KeepsVolume.ite (KeepsVolume.stop _) (keepsVolume_clusterLoop _ _)

theorem keepsVolume_readInternal (fuel : Nat) (cluster offset total : Int) (out : Addr) (bytes : Bytes) :
    KeepsVolume (fat16ReadInternalFromStream fuel cluster offset total out bytes) := by
  induction fuel generalizing offset total out bytes with
  | zero => exact KeepsVolume.stop _
  | succ fuel ih =>
    unfold fat16ReadInternalFromStream
    apply KeepsVolume.bind keepsVolume_fsPrivate
    intro fatPrivate
    refine KeepsVolume.bind (KeepsVolume.read _) ?_
    intro disk
    apply KeepsVolume.bind (keepsVolume_clusterForOffset _ _)
    intro clusterToUse
    refine KeepsVolume.ite (KeepsVolume.pure _) ?_
    apply KeepsVolume.bind (keepsVolume_clusterReadAt _ _ _)
    intro result
    exact KeepsVolume.ite (KeepsVolume.pure _) (KeepsVolume.ite (ih _ _ _ _) (KeepsVolume.pure _))

theorem keepsVolume_readLoop (item : FatDirectoryItem) (size : Word) (remaining : Nat) (offset : Word)
    (out : Addr) (bytes : Bytes) : KeepsVolume (fat16ReadLoop item size remaining offset out bytes) := by
  induction remaining generalizing offset out bytes with
  | zero => exact KeepsVolume.pure _
  | succ remaining ih =>
    unfold fat16ReadLoop fat16ReadInternal
    apply KeepsVolume.bind (keepsVolume_readInternal _ _ _ _ _ _)
    intro result
    exact KeepsVolume.ite (KeepsVolume.pure _) (ih _ _ _)

theorem keepsVolume_read (item : FatDirectoryItem) (pos size nmemb : Word) (out : Addr) (bytes : Bytes) :
    KeepsVolume (fat16Read item pos size nmemb out bytes) := by
  unfold fat16Read
  apply KeepsVolume.bind (keepsVolume_readLoop _ _ _ _ _ _)
  intro result
  exact KeepsVolume.ite (KeepsVolume.pure _) (KeepsVolume.pure _)

theorem keepsVolume_directorySeek (pos : Int) : KeepsVolume (directorySeek pos) := by
  unfold directorySeek
  apply KeepsVolume.bind keepsVolume_fsPrivate
  intro fatPrivate
  cases fatPrivate.directoryStream with
  | none => exact KeepsVolume.stop _
  | some stream => exact KeepsVolume.moved (fun _ => ⟨rfl, rfl⟩)

theorem keepsVolume_directoryRead (total : Int) : KeepsVolume (directoryRead total) := by
  unfold directoryRead
  apply KeepsVolume.bind keepsVolume_fsPrivate
  intro fatPrivate
  cases fatPrivate.directoryStream with
  | none => exact KeepsVolume.stop _
  | some stream =>
    apply keepsVolume_streamReadAt
    intro stream volume
    exact ⟨rfl, rfl⟩

theorem keepsVolume_countItems (fuel : Nat) (i : Int) : KeepsVolume (fat16CountItemsLoop fuel i) := by
  induction fuel generalizing i with
  | zero => exact KeepsVolume.stop _
  | succ fuel ih =>
    unfold fat16CountItemsLoop
    apply KeepsVolume.bind (keepsVolume_directoryRead _)
    intro result
    exact KeepsVolume.ite (KeepsVolume.pure _) (KeepsVolume.ite (KeepsVolume.pure _)
      (KeepsVolume.ite (ih i) (ih (i + 1))))

theorem keepsVolume_totalItems (sector : Word) : KeepsVolume (fat16GetTotalItemsForDirectory sector) := by
  unfold fat16GetTotalItemsForDirectory
  refine KeepsVolume.bind (KeepsVolume.read _) ?_
  intro sectorSize
  apply KeepsVolume.bind (keepsVolume_directorySeek _)
  intro _
  exact keepsVolume_countItems _ _

end Disk

section Kernel
variable {α β : Type} {call : KernelProg α} {next : α → KernelProg β}

theorem KernelKeepsVolume.pure (result : α) : KernelKeepsVolume (pure result : KernelProg α) :=
  fun _ => Preserves.pure result

theorem KernelKeepsVolume.stop (reason : Stop) : KernelKeepsVolume (stop reason : KernelProg α) :=
  fun _ => Preserves.stop reason

theorem KernelKeepsVolume.read (part : Kernel → α) : KernelKeepsVolume (read part) :=
  fun _ => Preserves.read part

theorem KernelKeepsVolume.ite {condition : Prop} [Decidable condition] {other : KernelProg α}
    (yes : KernelKeepsVolume call) (no : KernelKeepsVolume other) :
    KernelKeepsVolume (if condition then call else other) :=
  fun volume => Preserves.ite (yes volume) (no volume)

theorem KernelKeepsVolume.bind (first : KernelKeepsVolume call) (rest : ∀ result, KernelKeepsVolume (next result)) :
    KernelKeepsVolume (call >>= next) :=
  fun volume => Preserves.bind (first volume) (fun result => rest result volume)

theorem KernelKeepsVolume.update {change : Kernel → Kernel} (same : ∀ kernel, (change kernel).disk = kernel.disk) :
    KernelKeepsVolume (update change) := by
  intro volume
  apply Preserves.update
  intro kernel held
  rw [same kernel]
  exact held

theorem KernelKeepsVolume.of_disk (same : ∀ before result after, call before = (.ok result, after) →
    after.disk = before.disk) : KernelKeepsVolume call := by
  intro volume before result after held run
  rw [same before result after run]
  exact held

theorem KeepsVolume.ofDisk {call : Prog Disk Stop α} (keeps : KeepsVolume call) :
    KernelKeepsVolume (Kernel.onDisk call) := by
  intro volume before result after held run
  unfold Kernel.onDisk at run
  split at run
  next same =>
    cases run
    exact keeps volume _ _ _ held same
  · cases run

theorem keepsVolume_newRecord (size : Word) (record : FileRecord) :
    KernelKeepsVolume (Kernel.newRecord size record) :=
  KernelKeepsVolume.of_disk (fun _ _ _ run => Kernel.newRecord_disk run)

theorem keepsVolume_writeRecord (select : FileRecord → Option α) (ptr : Addr) (record : FileRecord) :
    KernelKeepsVolume (Kernel.writeRecord select ptr record) := by
  apply KernelKeepsVolume.of_disk
  intro before result after run
  rw [(Kernel.writeRecord_ok run).1]
  rfl

theorem keepsVolume_freeRecord (select : FileRecord → Option α) (ptr : Addr) :
    KernelKeepsVolume (Kernel.freeRecord select ptr) := by
  apply KernelKeepsVolume.of_disk
  intro before result after run
  rcases Kernel.freeRecord_ok run with ⟨_, rfl⟩ | ⟨_, _, _, _, rfl⟩ | ⟨_, rfl, _⟩
  · rfl
  · rfl
  · rfl

theorem keepsVolume_record (select : FileRecord → Option α) (ptr : Addr) :
    KernelKeepsVolume (Kernel.record select ptr) := by
  apply KernelKeepsVolume.of_disk
  intro before result after run
  rw [(Kernel.record_ok run).1]

end Kernel

section Fat16

theorem keepsVolume_readTable (cluster : Int) (size : Word) (table : Addr) :
    KernelKeepsVolume (fat16ReadTable cluster size table) := by
  unfold fat16ReadTable Kernel.fat16ReadInternal
  refine KernelKeepsVolume.ite (KernelKeepsVolume.pure _) ?_
  refine KernelKeepsVolume.bind (KernelKeepsVolume.read _) ?_
  intro bytes
  apply KernelKeepsVolume.bind (keepsVolume_readInternal _ _ _ _ _ _).ofDisk
  intro result
  apply KernelKeepsVolume.bind
  · exact KernelKeepsVolume.update (fun _ => rfl)
  · intro _
    exact KernelKeepsVolume.pure _

theorem keepsVolume_freeDirectory (directory : Addr) : KernelKeepsVolume (fat16FreeDirectory directory) := by
  unfold fat16FreeDirectory
  refine KernelKeepsVolume.ite (KernelKeepsVolume.pure _) ?_
  apply KernelKeepsVolume.bind (keepsVolume_record _ _)
  intro record
  apply KernelKeepsVolume.ite
  · apply KernelKeepsVolume.bind (keepsVolume_freeRecord _ _)
    intro _
    exact keepsVolume_freeRecord _ _
  · exact keepsVolume_freeRecord _ _

theorem keepsVolume_loadDirectory (item : FatDirectoryItem) :
    KernelKeepsVolume (fat16LoadFatDirectory item) := by
  unfold fat16LoadFatDirectory
  apply KernelKeepsVolume.bind keepsVolume_fsPrivate.ofDisk
  intro fatPrivate
  refine KernelKeepsVolume.ite (KernelKeepsVolume.pure _) ?_
  apply KernelKeepsVolume.bind (keepsVolume_newRecord _ _)
  intro directory
  refine KernelKeepsVolume.ite (KernelKeepsVolume.pure _) ?_
  apply KernelKeepsVolume.bind (keepsVolume_totalItems _).ofDisk
  intro totalItems
  apply KernelKeepsVolume.bind (keepsVolume_writeRecord _ _ _)
  intro _
  apply KernelKeepsVolume.bind (keepsVolume_newRecord _ _)
  intro table
  apply KernelKeepsVolume.bind (keepsVolume_writeRecord _ _ _)
  intro _
  apply KernelKeepsVolume.bind (keepsVolume_readTable _ _ _)
  intro res
  apply KernelKeepsVolume.ite
  · apply KernelKeepsVolume.bind (keepsVolume_freeDirectory _)
    intro _
    exact KernelKeepsVolume.pure _
  · exact KernelKeepsVolume.pure _

theorem keepsVolume_newFatItem (item : FatDirectoryItem) :
    KernelKeepsVolume (fat16NewFatItemForDirectoryItem item) := by
  unfold fat16NewFatItemForDirectoryItem
  apply KernelKeepsVolume.bind (keepsVolume_newRecord _ _)
  intro fItem
  refine KernelKeepsVolume.ite (KernelKeepsVolume.pure _) ?_
  apply KernelKeepsVolume.ite
  · apply KernelKeepsVolume.bind (keepsVolume_loadDirectory _)
    intro directory
    apply KernelKeepsVolume.bind (keepsVolume_writeRecord _ _ _)
    intro _
    exact KernelKeepsVolume.pure _
  · apply KernelKeepsVolume.bind (keepsVolume_writeRecord _ _ _)
    intro _
    apply KernelKeepsVolume.bind
    · unfold fat16CloneDirectoryItem
      exact KernelKeepsVolume.ite (KernelKeepsVolume.pure _) (keepsVolume_newRecord _ _)
    · intro clone
      apply KernelKeepsVolume.bind (keepsVolume_writeRecord _ _ _)
      intro _
      exact KernelKeepsVolume.pure _

theorem keepsVolume_findItem (directory : FatDirectory) (name : Addr) :
    KernelKeepsVolume (fat16FindItemInDirectory directory name) := by
  have loop : ∀ remaining i fItem, KernelKeepsVolume (fat16FindItemLoop directory name remaining i fItem) := by
    intro remaining
    induction remaining with
    | zero => exact fun _ _ => KernelKeepsVolume.pure _
    | succ remaining ih =>
      intro i fItem
      unfold fat16FindItemLoop
      refine KernelKeepsVolume.bind (KernelKeepsVolume.read _) ?_
      intro bytes
      apply KernelKeepsVolume.bind (keepsVolume_record _ _)
      intro _
      apply KernelKeepsVolume.ite
      · apply KernelKeepsVolume.bind (keepsVolume_newFatItem _)
        intro found
        exact ih _ _
      · exact ih _ _
  exact loop _ _ _

theorem keepsVolume_itemFree (item : Addr) : KernelKeepsVolume (fat16FatItemFree item) := by
  unfold fat16FatItemFree
  apply KernelKeepsVolume.bind (keepsVolume_record _ _)
  intro record
  cases record.itemType with
  | directory =>
    apply KernelKeepsVolume.bind (keepsVolume_freeDirectory _)
    intro _
    exact keepsVolume_freeRecord _ _
  | file =>
    apply KernelKeepsVolume.bind (keepsVolume_freeRecord _ _)
    intro _
    exact keepsVolume_freeRecord _ _

theorem keepsVolume_directoryEntry (path : Addr) : KernelKeepsVolume (fat16GetDirectoryEntry path) := by
  have loop : ∀ fuel part item, KernelKeepsVolume (fat16GetDirectoryEntryLoop fuel part item) := by
    intro fuel
    induction fuel with
    | zero => exact fun _ _ => KernelKeepsVolume.stop _
    | succ fuel ih =>
      intro part item
      unfold fat16GetDirectoryEntryLoop
      refine KernelKeepsVolume.ite (KernelKeepsVolume.pure _) ?_
      apply KernelKeepsVolume.bind (keepsVolume_record _ _)
      intro record
      refine KernelKeepsVolume.ite (KernelKeepsVolume.pure _) ?_
      apply KernelKeepsVolume.bind (keepsVolume_record _ _)
      intro directory
      apply KernelKeepsVolume.bind (keepsVolume_record _ _)
      intro next
      apply KernelKeepsVolume.bind (keepsVolume_findItem _ _)
      intro found
      apply KernelKeepsVolume.bind (keepsVolume_itemFree _)
      intro _
      exact ih _ _
  unfold fat16GetDirectoryEntry
  apply KernelKeepsVolume.bind keepsVolume_fsPrivate.ofDisk
  intro fatPrivate
  apply KernelKeepsVolume.bind (keepsVolume_record _ _)
  intro part
  apply KernelKeepsVolume.bind (keepsVolume_findItem _ _)
  intro rootItem
  exact KernelKeepsVolume.ite (KernelKeepsVolume.pure _) (loop _ _ _)

theorem keepsVolume_open (path : Addr) (mode : FileMode) : KernelKeepsVolume (fat16Open path mode) := by
  unfold fat16Open
  refine KernelKeepsVolume.ite (KernelKeepsVolume.pure _) ?_
  apply KernelKeepsVolume.bind (keepsVolume_newRecord _ _)
  intro descriptor
  refine KernelKeepsVolume.ite (KernelKeepsVolume.pure _) ?_
  apply KernelKeepsVolume.bind (keepsVolume_directoryEntry _)
  intro item
  apply KernelKeepsVolume.bind (keepsVolume_writeRecord _ _ _)
  intro _
  apply KernelKeepsVolume.ite
  · apply KernelKeepsVolume.bind (keepsVolume_freeRecord _ _)
    intro _
    exact KernelKeepsVolume.pure _
  · exact KernelKeepsVolume.pure _

theorem keepsVolume_close (privateData : Addr) : KernelKeepsVolume (fat16Close privateData) := by
  unfold fat16Close fat16FreeFileDescriptor
  apply KernelKeepsVolume.bind
  · apply KernelKeepsVolume.bind (keepsVolume_record _ _)
    intro record
    apply KernelKeepsVolume.bind (keepsVolume_itemFree _)
    intro _
    exact keepsVolume_freeRecord _ _
  · intro _
    exact KernelKeepsVolume.pure _

theorem keepsVolume_stat (privateData : Addr) (stat : FileStat) : KernelKeepsVolume (fat16Stat privateData stat) := by
  unfold fat16Stat
  apply KernelKeepsVolume.bind (keepsVolume_record _ _)
  intro descriptor
  apply KernelKeepsVolume.bind (keepsVolume_record _ _)
  intro item
  refine KernelKeepsVolume.ite (KernelKeepsVolume.pure _) ?_
  apply KernelKeepsVolume.bind (keepsVolume_record _ _)
  intro entry
  exact KernelKeepsVolume.pure _

theorem keepsVolume_fileRead (descriptor : Addr) (size nmemb : Word) (out : Addr) :
    KernelKeepsVolume (Kernel.fat16Read descriptor size nmemb out) := by
  unfold Kernel.fat16Read
  apply KernelKeepsVolume.bind (keepsVolume_record _ _)
  intro fatDesc
  apply KernelKeepsVolume.bind (keepsVolume_record _ _)
  intro descItem
  apply KernelKeepsVolume.bind (keepsVolume_record _ _)
  intro item
  refine KernelKeepsVolume.bind (KernelKeepsVolume.read _) ?_
  intro bytes
  apply KernelKeepsVolume.bind (keepsVolume_read _ _ _ _ _ _).ofDisk
  intro result
  apply KernelKeepsVolume.bind
  · exact KernelKeepsVolume.update (fun _ => rfl)
  · intro _
    exact KernelKeepsVolume.pure _

theorem keepsVolume_seek (privateData : Addr) (offset : Word) (seekMode : FileSeekMode) :
    KernelKeepsVolume (fat16Seek privateData offset seekMode) := by
  unfold fat16Seek
  apply KernelKeepsVolume.bind (keepsVolume_record _ _)
  intro desc
  apply KernelKeepsVolume.bind (keepsVolume_record _ _)
  intro item
  refine KernelKeepsVolume.ite (KernelKeepsVolume.pure _) ?_
  apply KernelKeepsVolume.bind (keepsVolume_record _ _)
  intro entry
  refine KernelKeepsVolume.ite (KernelKeepsVolume.pure _) ?_
  have sought : ∀ record, KernelKeepsVolume (do
      Kernel.writeRecord FileRecord.asFatFileDescriptor privateData record
      pure (0 : Int)) := by
    intro record
    apply KernelKeepsVolume.bind (keepsVolume_writeRecord _ _ _)
    intro _
    exact KernelKeepsVolume.pure _
  cases seekMode with
  | seekSet => exact sought _
  | seekCur => exact sought _
  | seekEnd => exact KernelKeepsVolume.pure _
  | other => exact KernelKeepsVolume.pure _

end Fat16

section Path

theorem keepsVolume_copyLoop (part : Addr) (i : Nat) (path : List Byte) :
    KernelKeepsVolume (pathparserCopyLoop part i path) := by
  induction path generalizing i with
  | nil => exact KernelKeepsVolume.pure _
  | cons c path ih =>
    unfold pathparserCopyLoop
    refine KernelKeepsVolume.ite (KernelKeepsVolume.pure _) ?_
    apply KernelKeepsVolume.bind
    · unfold pathparserSetChar
      apply KernelKeepsVolume.bind (keepsVolume_record _ _)
      intro _
      exact KernelKeepsVolume.update (fun _ => rfl)
    · intro _
      exact ih _

theorem keepsVolume_parsePathPart (lastPart : Addr) (path : List Byte) :
    KernelKeepsVolume (pathparserParsePathPart lastPart path) := by
  have part : KernelKeepsVolume (pathparserGetPathPart path) := by
    unfold pathparserGetPathPart
    apply KernelKeepsVolume.bind (keepsVolume_newRecord _ _)
    intro resultPathPart
    apply KernelKeepsVolume.bind (keepsVolume_copyLoop _ _ _)
    intro copied
    apply KernelKeepsVolume.ite
    · apply KernelKeepsVolume.bind (keepsVolume_freeRecord _ _)
      intro _
      exact KernelKeepsVolume.pure _
    · exact KernelKeepsVolume.pure _
  unfold pathparserParsePathPart
  apply KernelKeepsVolume.bind part
  intro result
  refine KernelKeepsVolume.ite (KernelKeepsVolume.pure _) ?_
  apply KernelKeepsVolume.bind (keepsVolume_newRecord _ _)
  intro made
  apply KernelKeepsVolume.bind (keepsVolume_writeRecord _ _ _)
  intro _
  apply KernelKeepsVolume.ite
  · apply KernelKeepsVolume.bind (keepsVolume_record _ _)
    intro last
    apply KernelKeepsVolume.bind (keepsVolume_writeRecord _ _ _)
    intro _
    exact KernelKeepsVolume.pure _
  · exact KernelKeepsVolume.pure _

theorem keepsVolume_parse (path : List Byte) : KernelKeepsVolume (pathparserParse path) := by
  have loop : ∀ fuel part path, KernelKeepsVolume (pathparserParseLoop fuel part path) := by
    intro fuel
    induction fuel with
    | zero => exact fun _ _ => KernelKeepsVolume.stop _
    | succ fuel ih =>
      intro part path
      unfold pathparserParseLoop
      refine KernelKeepsVolume.ite (KernelKeepsVolume.pure _) ?_
      apply KernelKeepsVolume.bind (keepsVolume_parsePathPart _ _)
      intro result
      exact ih _ _
  unfold pathparserParse
  refine KernelKeepsVolume.ite (KernelKeepsVolume.pure _) ?_
  refine KernelKeepsVolume.ite (KernelKeepsVolume.pure _) ?_
  apply KernelKeepsVolume.bind
  · unfold pathparserCreateRoot
    apply KernelKeepsVolume.bind (keepsVolume_newRecord _ _)
    intro pathR
    apply KernelKeepsVolume.bind (keepsVolume_writeRecord _ _ _)
    intro _
    exact KernelKeepsVolume.pure _
  · intro pathRoot
    refine KernelKeepsVolume.ite (KernelKeepsVolume.pure _) ?_
    apply KernelKeepsVolume.bind (keepsVolume_parsePathPart _ _)
    intro first
    refine KernelKeepsVolume.ite (KernelKeepsVolume.pure _) ?_
    apply KernelKeepsVolume.bind (keepsVolume_record _ _)
    intro root
    apply KernelKeepsVolume.bind (keepsVolume_writeRecord _ _ _)
    intro _
    apply KernelKeepsVolume.bind (keepsVolume_parsePathPart _ _)
    intro second
    apply KernelKeepsVolume.bind (loop _ _ _)
    intro _
    exact KernelKeepsVolume.pure _

end Path

section Calls

theorem keepsVolume_fopen (filename modeStr : List Byte) : KernelKeepsVolume (fopen filename modeStr) := by
  have path : ∀ rootPath, KernelKeepsVolume (fopenPath rootPath modeStr) := by
    intro rootPath
    unfold fopenPath
    refine KernelKeepsVolume.ite (KernelKeepsVolume.pure _) ?_
    apply KernelKeepsVolume.bind (keepsVolume_record _ _)
    intro root
    refine KernelKeepsVolume.ite (KernelKeepsVolume.pure _) ?_
    cases diskGet root.driveNo with
    | none => exact KernelKeepsVolume.pure _
    | some disk =>
      refine KernelKeepsVolume.bind (KernelKeepsVolume.read _) ?_
      intro filesystem
      refine KernelKeepsVolume.ite (KernelKeepsVolume.pure _) ?_
      refine KernelKeepsVolume.ite (KernelKeepsVolume.pure _) ?_
      apply KernelKeepsVolume.bind (keepsVolume_open _ _)
      intro privateData
      exact KernelKeepsVolume.ite (KernelKeepsVolume.pure _) (KernelKeepsVolume.pure _)
  have descriptor : KernelKeepsVolume fileNewDescriptor := by
    unfold fileNewDescriptor
    refine KernelKeepsVolume.bind (KernelKeepsVolume.read _) ?_
    intro table
    cases firstIndex peachosMaxFileDescriptors (fun i => table i == 0) with
    | none => exact KernelKeepsVolume.pure _
    | some i =>
      apply KernelKeepsVolume.bind (keepsVolume_newRecord _ _)
      intro desc
      apply KernelKeepsVolume.bind (keepsVolume_writeRecord _ _ _)
      intro _
      apply KernelKeepsVolume.bind
      · exact KernelKeepsVolume.update (fun _ => rfl)
      · intro _
        exact KernelKeepsVolume.pure _
  have register : ∀ opened, KernelKeepsVolume (fopenRegister opened) := by
    intro opened
    unfold fopenRegister
    cases opened with
    | error res => exact KernelKeepsVolume.pure _
    | ok made =>
      apply KernelKeepsVolume.bind descriptor
      intro result
      refine KernelKeepsVolume.ite (KernelKeepsVolume.pure _) ?_
      apply KernelKeepsVolume.bind (keepsVolume_record _ _)
      intro record
      apply KernelKeepsVolume.bind (keepsVolume_writeRecord _ _ _)
      intro _
      exact KernelKeepsVolume.pure _
  unfold fopen fopenDescriptor fopenPrivateData
  apply KernelKeepsVolume.bind
  · apply KernelKeepsVolume.bind
    · apply KernelKeepsVolume.bind (keepsVolume_parse _)
      intro rootPath
      exact path _
    · intro opened
      exact register _
  · intro res
    exact KernelKeepsVolume.ite (KernelKeepsVolume.pure _) (KernelKeepsVolume.pure _)

theorem keepsVolume_descriptor {α : Type} {call : FileDescriptor → KernelProg α} {refused : KernelProg α}
    (fd : Int) (refuses : KernelKeepsVolume refused) (keeps : ∀ record, KernelKeepsVolume (call record)) :
    KernelKeepsVolume (do
      let desc ← read (fileGetDescriptor · fd)
      if desc = 0 then refused
      else
        let record ← Kernel.record FileRecord.asFileDescriptor desc
        if !record.filesystem then fault else call record) := by
  refine KernelKeepsVolume.bind (KernelKeepsVolume.read _) ?_
  intro desc
  apply KernelKeepsVolume.ite refuses
  apply KernelKeepsVolume.bind (keepsVolume_record _ _)
  intro record
  exact KernelKeepsVolume.ite (KernelKeepsVolume.stop _) (keeps record)

theorem keepsVolume_fstat (fd : Int) (stat : FileStat) : KernelKeepsVolume (fstat fd stat) :=
  keepsVolume_descriptor fd (KernelKeepsVolume.pure _) (fun _ => keepsVolume_stat _ _)

theorem keepsVolume_fseek (fd offset : Int) (whence : FileSeekMode) : KernelKeepsVolume (fseek fd offset whence) :=
  keepsVolume_descriptor fd (KernelKeepsVolume.pure _) (fun _ => keepsVolume_seek _ _ _)

theorem keepsVolume_fread (ptr : Addr) (size nmemb : Word) (fd : Int) : KernelKeepsVolume (fread ptr size nmemb fd) :=
  KernelKeepsVolume.ite (KernelKeepsVolume.pure _)
    (keepsVolume_descriptor fd (KernelKeepsVolume.pure _) (fun _ => keepsVolume_fileRead _ _ _ _))

theorem keepsVolume_fclose (fd : Int) : KernelKeepsVolume (fclose fd) := by
  unfold fclose
  refine KernelKeepsVolume.bind (KernelKeepsVolume.read _) ?_
  intro desc
  refine KernelKeepsVolume.ite (KernelKeepsVolume.pure _) ?_
  apply KernelKeepsVolume.bind (keepsVolume_record _ _)
  intro record
  refine KernelKeepsVolume.ite (KernelKeepsVolume.stop _) ?_
  apply KernelKeepsVolume.bind (keepsVolume_close _)
  intro res
  have freed : KernelKeepsVolume (fileFreeDescriptor desc) := by
    unfold fileFreeDescriptor
    apply KernelKeepsVolume.bind (keepsVolume_record _ _)
    intro record
    refine KernelKeepsVolume.ite (KernelKeepsVolume.stop _) ?_
    apply KernelKeepsVolume.bind
    · exact KernelKeepsVolume.update (fun _ => rfl)
    · intro _
      exact keepsVolume_freeRecord _ _
  apply KernelKeepsVolume.ite
  · apply KernelKeepsVolume.bind freed
    intro _
    exact KernelKeepsVolume.pure _
  · exact KernelKeepsVolume.pure _

end Calls

end PeachOS
