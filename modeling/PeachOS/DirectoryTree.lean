import PeachOS.Tidy

/-! The items that the driver makes for the entries of a volume's directories. While the heap has room every one is made,
and a directory is loaded as it is on the disk. -/

namespace PeachOS
open Program ByteMemory

section Names
variable {wanted other : List Byte} {item : FatDirectoryItem} {entries : List FatDirectoryItem}

theorem Named.congr (same : lowered wanted = lowered other) : Named wanted item ↔ Named other item := by
  unfold Named
  rw [istrncmp_zero, istrncmp_zero, same]

theorem namedEntry_congr (same : lowered wanted = lowered other) :
    namedEntry entries wanted = namedEntry entries other := by
  unfold namedEntry
  congr 1
  funext item
  exact decide_eq_decide.mpr (and_congr_right fun _ => Named.congr same)

theorem InReach.congr (same : lowered wanted = lowered other) (reach : InReach entries wanted) :
    InReach entries other :=
  fun i item here named => reach i item here ((Named.congr same).mpr named)

theorem lowered_padded (part : List Byte) (count : Nat) : lowered (part ++ List.replicate count 0) = lowered part := by
  induction part with
  | nil => cases count <;> rfl
  | cons c rest ih =>
    by_cases terminator : c = 0
    · rw [terminator, List.cons_append, lowered_zero, lowered_zero]
    · rw [List.cons_append, lowered_cons terminator, lowered_cons terminator, ih]

end Names

/-- A directory in a data cluster. -/
structure InCluster (header : FatHeader) (item : FatDirectoryItem) (cluster : Nat) : Prop where
  directory : item.itemAttribute &&& fatFileSubdirectory ≠ 0
  first : (fat16GetFirstCluster item).toInt = cluster
  data : 2 ≤ cluster
  low : clusterPos header cluster + clusterSize header < 2 ^ 31

/-- A tidy kernel with a volume. -/
structure Ready (tables : Set (Nat → Addr)) (image : Image) (header : FatHeader) (room : Nat) (kernel : Kernel) : Prop
    extends Tidy tables room kernel where
  volume : Volume kernel.disk image header
  directories : HasDirectory kernel.disk

section Disk
variable {α : Type} {stream : Option DiskStream}

theorem hasDirectory_streamReadAt {keep : DiskStream → FatPrivate → FatPrivate}
    (others : ∀ stream volume, (keep stream volume).directoryStream = volume.directoryStream) (pos total : Int) :
    Preserves HasDirectory (streamReadAt stream keep pos total) := by
  unfold streamReadAt
  cases stream with
  | none => exact Preserves.stop _
  | some stream =>
    refine Preserves.bind (Preserves.read _) (fun image => ?_)
    split
    next => exact Preserves.stop _
    next res out moved _ =>
      refine Preserves.bind (Preserves.update ?_) (fun _ => Preserves.pure _)
      rintro disk ⟨fatPrivate, place, here, directory⟩
      exact ⟨_, place, withPrivate_some here (keep moved), (others moved fatPrivate).trans directory⟩

theorem hasDirectory_fsPrivate : Preserves HasDirectory fsPrivate := by
  unfold fsPrivate
  refine Preserves.bind (Preserves.read _) (fun found => ?_)
  cases found with
  | none => exact Preserves.stop _
  | some fatPrivate => exact Preserves.pure _

theorem hasDirectory_clusterLoop (remaining : Nat) (cluster : Int) :
    Preserves HasDirectory (fat16GetClusterForOffsetLoop remaining cluster) := by
  induction remaining generalizing cluster with
  | zero => exact Preserves.pure _
  | succ remaining ih =>
    have entry : ∀ cluster, Preserves HasDirectory (fat16GetFatEntry cluster) := by
      intro cluster
      unfold fat16GetFatEntry fatReadAt
      refine Preserves.bind hasDirectory_fsPrivate (fun fatPrivate => .ite (.pure _) ?_)
      refine Preserves.bind (Preserves.read _) (fun sectorSize => ?_)
      refine Preserves.bind (hasDirectory_streamReadAt ?_ _ _) (fun _ => .ite (.pure _) (.pure _))
      exact fun _ _ => rfl
    unfold fat16GetClusterForOffsetLoop
    refine Preserves.bind (entry _) (fun entry => .ite (.pure _) (.ite (.pure _) ?_))
    exact .ite (.pure _) (.ite (.pure _) (ih entry))

theorem hasDirectory_readInternal (fuel : Nat) (cluster offset total : Int) (out : Addr) (bytes : Bytes) :
    Preserves HasDirectory (fat16ReadInternalFromStream fuel cluster offset total out bytes) := by
  induction fuel generalizing offset total out bytes with
  | zero => exact Preserves.stop _
  | succ fuel ih =>
    have lookup : Preserves HasDirectory (fat16GetClusterForOffset cluster offset) := by
      unfold fat16GetClusterForOffset
      refine Preserves.bind hasDirectory_fsPrivate (fun fatPrivate => ?_)
      exact Preserves.bind (Preserves.read _) (fun size => .ite (.stop _) (hasDirectory_clusterLoop _ _))
    unfold fat16ReadInternalFromStream clusterReadAt
    refine Preserves.bind hasDirectory_fsPrivate (fun fatPrivate => ?_)
    refine Preserves.bind (Preserves.read _) (fun disk => ?_)
    refine Preserves.bind lookup (fun clusterToUse => .ite (.pure _) ?_)
    refine Preserves.bind (hasDirectory_streamReadAt ?_ _ _) (fun _ => .ite (.pure _) (.ite (ih _ _ _ _) (.pure _)))
    exact fun _ _ => rfl

end Disk

section Ready
variable {α : Type} {tables : Set (Nat → Addr)} {image : Image} {header : FatHeader} {kernel after : Kernel}
  {room : Nat} {ptr : Addr} {size : Word} {select : FileRecord → Option α}

theorem Ready.less {fewer : Nat} (ready : Ready tables image header room kernel) (less : fewer ≤ room) :
    Ready tables image header fewer kernel :=
  ⟨ready.toTidy.less less, ready.volume, ready.directories⟩

theorem Ready.exact (ready : Ready tables image header room kernel) :
    Ready {kernel.fileDescriptors} image header room kernel :=
  ⟨ready.toTidy.exact, ready.volume, ready.directories⟩

theorem Ready.alongside {base : Kernel} (ready : Ready tables image header room kernel) (apart : Apart base kernel) :
    Alongside tables base kernel := ⟨apart, ready.recorded, ready.volume.sector⟩

/-- A record that was made, with its bytes in its own chain. -/
structure MadeRecord (kernel after : Kernel) (size : Word) (record : FileRecord) (ptr : Addr) : Prop where
  apart : Apart kernel after
  new : NewRecord kernel after size record ptr
  owned : ∀ i < size.toNat, OwnedBy after.memory.heap ptr (ptr + BitVec.ofNat 32 i)
  disk : after.disk = kernel.disk

theorem Ready.newRecord (ready : Ready tables image header (room + blocksFor size) kernel)
    (roundable : Roundable size) (record : FileRecord) : ∃ ptr after,
      Kernel.newRecord size record kernel = (.ok ptr, after) ∧ Ready tables image header room after ∧
      MadeRecord kernel after size record ptr := by
  obtain ⟨start, after, run, low, marks, tidy⟩ := ready.toTidy.newRecord roundable record
  have disk := Kernel.newRecord_disk run
  have nonnull := ready.freeEnd.kernel.nonnull marks.bound
  obtain ⟨apart, null | new⟩ := (Apart.refl ready.sound).newRecord run
  · exact absurd null.1 nonnull
  · refine ⟨_, after, run, ⟨tidy, ?_, ?_⟩, apart, new, ?_, disk⟩
    · rw [disk]
      exact ready.volume
    · rw [disk]
      exact ready.directories
    · exact fun i inside => marks.ownedBy ready.sound (by omega) inside

theorem Ready.writeRecord (ready : Ready tables image header room kernel) (select : FileRecord → Option α)
    {old : FileRecord} {value : α} (here : kernel.files ptr = some old) (selected : select old = some value)
    (record : FileRecord) : Kernel.writeRecord select ptr record kernel =
        (.ok (), kernel.setFiles (Function.update kernel.files ptr (some record))) ∧
      Ready tables image header room (kernel.setFiles (Function.update kernel.files ptr (some record))) := by
  have run := Kernel.writeRecord_run select here selected record
  exact ⟨run, ready.toTidy.wrote run, ready.volume, ready.directories⟩

theorem Ready.onDisk (ready : Ready tables image header room kernel) {call : Prog Disk Stop α} {result : α} {disk : Disk}
    (run : call kernel.disk = (.ok result, disk)) (volume : Volume disk image header) (directories : HasDirectory disk) :
    Kernel.onDisk call kernel = (.ok result, kernel.setDisk disk) ∧
      Ready tables image header room (kernel.setDisk disk) ∧ Apart kernel (kernel.setDisk disk) := by
  have whole := Kernel.onDisk_ok run
  exact ⟨whole, ⟨ready.toTidy.congr rfl rfl rfl, volume, directories⟩, (Apart.refl ready.sound).onDisk whole⟩

theorem Ready.freeRecord (ready : Ready tables image header room kernel) (select : FileRecord → Option α)
    {record : FileRecord} {value : α} (here : kernel.files ptr = some record) (selected : select record = some value) :
    ∃ after, Kernel.freeRecord select ptr kernel = (.ok (), after) ∧ Ready tables image header room after ∧
      after.memory.bytes = kernel.memory.bytes := by
  obtain ⟨after, run, _⟩ := Kernel.freeRecord_run select here selected
  have same : after.disk = kernel.disk ∧ after.memory.bytes = kernel.memory.bytes := by
    rcases Kernel.freeRecord_ok run with ⟨_, rfl⟩ | ⟨_, _, _, _, rfl⟩ | ⟨_, rfl, _⟩ <;> exact ⟨rfl, rfl⟩
  refine ⟨after, run, ⟨ready.toTidy.freed run, ?_, ?_⟩, same.2⟩
  · rw [same.1]
    exact ready.volume
  · rw [same.1]
    exact ready.directories

theorem Ready.newSmall (ready : Ready tables image header (room + 1) kernel) (roundable : Roundable size)
    (single : blocksFor size = 1) (record : FileRecord) : ∃ ptr after,
      Kernel.newRecord size record kernel = (.ok ptr, after) ∧ Ready tables image header room after ∧
      MadeRecord kernel after size record ptr := by
  rw [← single] at ready
  exact ready.newRecord roundable record

/-- How many blocks the table of a directory in a cluster takes at most. -/
def tableBlocks (header : FatHeader) : Nat := (clusterSize header + 4095) / heapBlockSize

/-- A directory that was loaded, with its table. -/
structure MadeDirectory (kernel after : Kernel) (directory : Addr) (record : FatDirectory)
    (entries : List FatDirectoryItem) : Prop where
  here : after.files directory = some (.fatDirectory record)
  table : after.files record.item = some .fatDirectoryTable
  held : HeldAt after.memory.heap directory
  heldTable : HeldAt after.memory.heap record.item
  new : ¬HeldAt kernel.memory.heap directory
  newTable : ¬HeldAt kernel.memory.heap record.item
  owned : ∀ i < liveTotal entries * fatDirectoryItemSize,
    OwnedBy after.memory.heap record.item (record.item + BitVec.ofNat 32 i)
  loaded : LoadedDirectory after record entries

/-- A directory whose entries are counted, and that has no table. -/
structure CountedDirectory (kernel after : Kernel) (directory : Addr) (total : Nat) : Prop where
  nonnull : directory ≠ 0
  here : after.files directory = some (.fatDirectory ⟨0, total, 0, 0⟩)
  held : HeldAt after.memory.heap directory
  new : ¬HeldAt kernel.memory.heap directory
  kept : ∀ {ptr}, HeldAt kernel.memory.heap ptr → HeldAt after.memory.heap ptr

theorem Ready.countDirectory (ready : Ready tables image header (room + 1) kernel) {sector pos total count : Nat}
    (place : sector * peachosSectorSize = pos) (entries : Entries image pos count) (few : count ≤ 2 ^ 26)
    (live : liveCount image pos count = total) : ∃ directory first second after,
      Kernel.newRecord 16 (.fatDirectory ⟨0, 0, 0, 0⟩) kernel = (.ok directory, first) ∧
      Kernel.onDisk (fat16GetTotalItemsForDirectory (BitVec.ofInt 32 sector)) first = (.ok (total : Int), second) ∧
      Kernel.writeRecord FileRecord.asFatDirectory directory (.fatDirectory ⟨0, total, 0, 0⟩) second = (.ok (), after) ∧
      Ready tables image header room after ∧ CountedDirectory kernel after directory total := by
  obtain ⟨directory, first, allocated, firstReady, made⟩ :=
    ready.newSmall (show Roundable 16 by decide) (by decide) (.fatDirectory ⟨0, 0, 0, 0⟩)
  obtain ⟨held, here⟩ := made.new.own (by decide)
  have counting := fat16GetTotalItems_run firstReady.directories firstReady.volume.content firstReady.volume.sector
    place entries few
  rw [live] at counting
  obtain ⟨counted, secondReady, secondApart⟩ := firstReady.onDisk counting (firstReady.volume.onDirectory _)
    (firstReady.directories.onDirectory _)
  obtain ⟨second, secondSame⟩ : ∃ second, first.setDisk (first.disk.onDirectory
    (pos + fatDirectoryItemSize * (count + 1))) = second := ⟨_, rfl⟩
  rw [secondSame] at counted secondReady secondApart
  have hereSecond : second.files directory = some (.fatDirectory ⟨0, 0, 0, 0⟩) := by
    rw [← secondSame]
    exact here
  obtain ⟨entered, thirdReady⟩ := secondReady.writeRecord FileRecord.asFatDirectory hereSecond rfl
    (.fatDirectory ⟨0, total, 0, 0⟩)
  have kept : ∀ {ptr}, HeldAt first.memory.heap ptr → HeldAt second.memory.heap ptr := by
    intro ptr
    rw [← secondSame]
    exact id
  exact ⟨directory, first, second, _, allocated, counted, entered, thirdReady, made.new.nonnull, Function.update_self ..,
    kept held, made.new.fresh, fun before => kept (made.apart.heldAt before)⟩

theorem word_toInt {n : Nat} (small : n < 2 ^ 31) : (BitVec.ofNat 32 n).toInt = n := by
  have bytes : (BitVec.ofNat 32 n).toNat = n := by
    rw [BitVec.toNat_ofNat, Nat.mod_eq_of_lt (by omega)]
  rw [BitVec.toInt_eq_toNat_of_lt (by omega), bytes]

theorem clusterSize_lt (header : FatHeader) : clusterSize header < 2 ^ 18 := by
  have bound := header.sectorsPerCluster.isLt
  unfold clusterSize peachosSectorSize
  omega

/-- The table of a counted directory, which is not read yet. -/
structure MadeTable (kernel after : Kernel) (directory table : Addr) (total : Nat) : Prop where
  nonnull : table ≠ 0
  here : after.files directory = some (.fatDirectory ⟨table, total, 0, 0⟩)
  hereTable : after.files table = some .fatDirectoryTable
  held : HeldAt after.memory.heap directory
  heldTable : HeldAt after.memory.heap table
  new : ¬HeldAt kernel.memory.heap table
  owned : ∀ i < total * fatDirectoryItemSize, OwnedBy after.memory.heap table (table + BitVec.ofNat 32 i)

theorem Ready.makeTable (ready : Ready tables image header (room + tableBlocks header) kernel) {directory : Addr}
    {total : Nat} (here : kernel.files directory = some (.fatDirectory ⟨0, total, 0, 0⟩))
    (held : HeldAt kernel.memory.heap directory) (some' : 0 < total)
    (within : total * fatDirectoryItemSize ≤ clusterSize header) :
    ∃ table first after,
      Kernel.newRecord (BitVec.ofNat 32 (total * fatDirectoryItemSize)) .fatDirectoryTable kernel = (.ok table, first) ∧
      Kernel.writeRecord FileRecord.asFatDirectory directory (.fatDirectory ⟨table, total, 0, 0⟩) first = (.ok (), after) ∧
      Ready tables image header room after ∧ MadeTable kernel after directory table total := by
  have positive : 0 < total * fatDirectoryItemSize := Nat.mul_pos some' (by decide)
  have small := clusterSize_lt header
  have bytes : (BitVec.ofNat 32 (total * fatDirectoryItemSize)).toNat = total * fatDirectoryItemSize := by
    rw [BitVec.toNat_ofNat, Nat.mod_eq_of_lt (by omega)]
  have roundable : Roundable (BitVec.ofNat 32 (total * fatDirectoryItemSize)) := by
    unfold Roundable
    omega
  have blocks : blocksFor (BitVec.ofNat 32 (total * fatDirectoryItemSize)) ≤ tableBlocks header := by
    unfold blocksFor tableBlocks
    rw [bytes]
    exact Nat.div_le_div_right (by omega)
  obtain ⟨table, first, allocated, firstReady, made⟩ :=
    (ready.less (by omega : room + blocksFor (BitVec.ofNat 32 (total * fatDirectoryItemSize)) ≤ _)).newRecord
      roundable .fatDirectoryTable
  obtain ⟨heldTable, hereTable⟩ := made.new.own (by omega)
  have hereFirst : first.files directory = some (.fatDirectory ⟨0, total, 0, 0⟩) := by
    rw [made.apart.files directory held]
    exact here
  obtain ⟨completed, afterReady⟩ := firstReady.writeRecord FileRecord.asFatDirectory hereFirst rfl
    (.fatDirectory ⟨table, total, 0, 0⟩)
  have different : table ≠ directory := fun same => made.new.fresh (same ▸ held)
  refine ⟨table, first, _, allocated, completed, afterReady, made.new.nonnull, Function.update_self .., ?_,
    made.apart.heldAt held, heldTable, made.new.fresh, ?_⟩
  · exact (Function.update_of_ne different _ _).trans hereTable
  · intro i bound
    exact made.owned i (by rw [bytes]; exact bound)

theorem Ready.readTable (ready : Ready tables image header room kernel) {item : FatDirectoryItem} {cluster size : Nat}
    (inCluster : InCluster header item cluster) (within : size ≤ clusterSize header) {table : Addr}
    (nonnull : table ≠ 0) : ∃ disk,
      fat16ReadTable cluster (BitVec.ofNat 32 size) table kernel = (.ok 0, (kernel.setDisk disk).setMemory
        { kernel.memory with
          bytes := storeBytes kernel.memory.bytes table (diskBytes image (clusterPos header cluster) size) }) ∧
      Volume disk image header ∧ HasDirectory disk := by
  obtain ⟨disk, volume, reading⟩ := fat16ReadInternal_first ready.volume inCluster.data
    (clusterSize_pos ready.volume) within (by have inClusterLow := inCluster.low; omega) table kernel.memory.bytes
  rw [Nat.add_zero] at reading
  have directories := hasDirectory_readInternal _ _ _ _ _ _ _ _ _ ready.directories reading
  obtain ⟨read, _, _⟩ := ready.onDisk reading volume directories
  have small := clusterSize_lt header
  have signed := word_toInt (show size < 2 ^ 31 by omega)
  refine ⟨disk, ?_, volume, directories⟩
  unfold fat16ReadTable Kernel.fat16ReadInternal
  rw [if_neg nonnull, read_bind, signed]
  exact (bind_ok read).trans rfl

theorem InCluster.sector {disk : Disk} {fatPrivate : FatPrivate} {item : FatDirectoryItem} {cluster : Nat}
    (inCluster : InCluster header item cluster) (volume : Volume disk image header)
    (loaded : disk.fsPrivate = some fatPrivate) : fat16ClusterToSector fatPrivate cluster =
      ((dataStartSector header + (cluster - 2) * header.sectorsPerCluster.toNat : Nat) : Int) := by
  obtain ⟨_, here, known, ending, _⟩ := volume.loaded
  cases loaded.symm.trans here
  unfold fat16ClusterToSector
  rw [ending, known]
  push_cast [Nat.cast_sub inCluster.data]
  rfl

theorem entries_few {count : Nat} (inside : count * fatDirectoryItemSize ≤ clusterSize header) : count ≤ 2 ^ 26 :=
  (Nat.le_mul_of_pos_right count (by decide)).trans (inside.trans (by have := clusterSize_lt header; omega))

/-- What `fat16_load_fat_directory` makes of a directory in a cluster. -/
theorem Ready.loadDirectory (ready : Ready tables image header (room + tableBlocks header + 1) kernel)
    {item : FatDirectoryItem} {cluster count : Nat} (inCluster : InCluster header item cluster)
    (entries : Entries image (clusterPos header cluster) count)
    (some' : 0 < liveCount image (clusterPos header cluster) count)
    (inside : count * fatDirectoryItemSize ≤ clusterSize header) : ∃ directory record after,
      fat16LoadFatDirectory item kernel = (.ok directory, after) ∧ Ready tables image header room after ∧
      MadeDirectory kernel after directory record (diskEntries image (clusterPos header cluster) count) := by
  obtain ⟨fatPrivate, loaded, _⟩ := ready.volume.loaded
  have looked : Kernel.onDisk fsPrivate kernel = (.ok fatPrivate, kernel) := by
    unfold Kernel.onDisk fsPrivate
    rw [read_bind, loaded]
    rfl
  have small := clusterSize_lt header
  have position := inCluster.sector ready.volume loaded
  have few := entries_few inside
  obtain ⟨total, live⟩ : ∃ total, liveCount image (clusterPos header cluster) count = total := ⟨_, rfl⟩
  have fewer := liveCount_le image (clusterPos header cluster) count
  rw [live] at some' fewer
  have within : total * fatDirectoryItemSize ≤ clusterSize header := (Nat.mul_le_mul_right _ fewer).trans inside
  obtain ⟨directory, first, second, third, allocated, counted, entered, thirdReady, made⟩ :=
    ready.countDirectory (rfl : _ = clusterPos header cluster) entries few live
  obtain ⟨table, fourth, fifth, tableAllocated, completed, fifthReady, madeTable⟩ :=
    thirdReady.makeTable made.here made.held some' within
  obtain ⟨disk, tableRun, volume, directories⟩ := fifthReady.readTable inCluster within madeTable.nonnull
  have request : BitVec.ofInt 32 ((total : Int) * (fatDirectoryItemSize : Nat)) =
      BitVec.ofNat 32 (total * fatDirectoryItemSize) := by
    rw [← Int.natCast_mul, BitVec.ofInt_natCast]
  obtain ⟨stored, storedSame⟩ : ∃ stored, storeBytes fifth.memory.bytes table (diskBytes image
    (clusterPos header cluster) (total * fatDirectoryItemSize)) = stored := ⟨_, rfl⟩
  rw [storedSame] at tableRun
  have run : fat16LoadFatDirectory item kernel = (.ok directory,
      (fifth.setDisk disk).setMemory { fifth.memory with bytes := stored }) := by
    unfold fat16LoadFatDirectory
    rw [bind_ok looked, if_neg inCluster.directory, bind_ok allocated, if_neg made.nonnull, inCluster.first]
    dsimp only
    rw [position, bind_ok counted, bind_ok entered, request, bind_ok tableAllocated, bind_ok completed, bind_ok tableRun]
    rfl
  refine ⟨directory, ⟨table, total, 0, 0⟩, _, run, ⟨fifthReady.toTidy.congr rfl rfl rfl, volume, directories⟩, ?_⟩
  constructor
  case here => exact madeTable.here
  case table => exact madeTable.hereTable
  case held => exact madeTable.held
  case heldTable => exact madeTable.heldTable
  case new => exact made.new
  case newTable => exact fun held => madeTable.new (made.kept held)
  case owned =>
    rw [liveTotal_disk, live]
    exact madeTable.owned
  case loaded =>
    refine LoadedDirectory.of_disk entries (congrArg Nat.cast live.symm) ?_ ?_
    · rw [live]
      intro i bound
      change stored (table + BitVec.ofNat 32 i) = _
      rw [← storedSame, storeBytes_inside _ _ _ (by rw [diskBytes_length]; omega)
        (by rw [diskBytes_length]; exact bound), diskBytes_getD image _ bound]
    · rw [live]
      exact fun i bound => (madeTable.owned i bound).owned

/-- An item of a directory, with the directory and its table, all made since `base`. -/
structure DirectoryItem (base kernel : Kernel) (item target : Addr) (directory : FatDirectory)
    (entries : List FatDirectoryItem) : Prop where
  node : kernel.files item = some (.fatItem ⟨target, .directory⟩)
  heldItem : HeldAt kernel.memory.heap item
  newItem : ¬HeldAt base.memory.heap item
  directory : MadeDirectory base kernel target directory entries

theorem MadeDirectory.mono {base other : Kernel} {directory : Addr} {record : FatDirectory} {entries : List FatDirectoryItem}
    (made : MadeDirectory other kernel directory record entries)
    (kept : ∀ {ptr}, HeldAt base.memory.heap ptr → HeldAt other.memory.heap ptr) :
    MadeDirectory base kernel directory record entries :=
  ⟨made.here, made.table, made.held, made.heldTable, fun held => made.new (kept held),
    fun held => made.newTable (kept held), made.owned, made.loaded⟩

theorem MadeDirectory.write {base : Kernel} {directory : Addr} {record : FatDirectory} {entries : List FatDirectoryItem}
    (made : MadeDirectory base kernel directory record entries) (node : FileRecord) (apart : directory ≠ ptr)
    (apartTable : record.item ≠ ptr) :
    MadeDirectory base (kernel.setFiles (Function.update kernel.files ptr (some node))) directory record entries where
  here := (Function.update_of_ne apart _ _).trans made.here
  table := (Function.update_of_ne apartTable _ _).trans made.table
  held := made.held
  heldTable := made.heldTable
  new := made.new
  newTable := made.newTable
  owned := made.owned
  loaded := ⟨made.loaded.marked, made.loaded.total, made.loaded.slots, made.loaded.owned⟩

theorem Ready.newDirectory (ready : Ready tables image header (room + tableBlocks header + 2) kernel)
    {item : FatDirectoryItem} {cluster count : Nat} (inCluster : InCluster header item cluster)
    (entries : Entries image (clusterPos header cluster) count)
    (some' : 0 < liveCount image (clusterPos header cluster) count)
    (inside : count * fatDirectoryItemSize ≤ clusterSize header) : ∃ fItem target directory after,
      fat16NewFatItemForDirectoryItem item kernel = (.ok fItem, after) ∧ Ready tables image header room after ∧
      Apart kernel after ∧
      DirectoryItem kernel after fItem target directory (diskEntries image (clusterPos header cluster) count) := by
  obtain ⟨fItem, first, allocated, firstReady, made⟩ :=
    ready.newSmall (show Roundable 8 by decide) (by decide) (.fatItem ⟨0, .directory⟩)
  obtain ⟨heldItem, node⟩ := made.new.own (by decide)
  obtain ⟨target, directory, second, loaded, secondReady, madeDirectory⟩ :=
    firstReady.loadDirectory inCluster entries some' inside
  have sector := (firstReady.alongside (Apart.refl firstReady.sound)).nonneg
  obtain ⟨secondApart, _⟩ := (Apart.refl firstReady.sound).loadDirectory firstReady.recorded sector loaded
  have nodeKept : second.files fItem = some (.fatItem ⟨0, .directory⟩) := by
    rw [secondApart.files fItem heldItem]
    exact node
  obtain ⟨written, thirdReady⟩ := secondReady.writeRecord FileRecord.asFatItem nodeKept rfl (.fatItem ⟨target, .directory⟩)
  have whole := made.apart.trans secondApart
  refine ⟨fItem, target, directory, _, ?_, thirdReady, whole.writeRecord made.new.fresh written,
    Function.update_self .., secondApart.heldAt heldItem, made.new.fresh, ?_⟩
  · unfold fat16NewFatItemForDirectoryItem
    rw [bind_ok allocated, if_neg made.new.nonnull, if_pos inCluster.directory, bind_ok loaded, bind_ok written]
    rfl
  · refine (madeDirectory.mono (fun held => made.apart.heldAt held)).write _ ?_ ?_
    · exact fun same => madeDirectory.new (same ▸ heldItem)
    · exact fun same => madeDirectory.newTable (same ▸ heldItem)

/-- A file that was found since `base`, with the records it consists of. -/
structure FoundFile (base kernel : Kernel) (fItem clone : Addr) (item : FatDirectoryItem) : Prop where
  file : FileItem kernel fItem clone item
  held : HeldAt kernel.memory.heap fItem
  heldClone : HeldAt kernel.memory.heap clone
  new : ¬HeldAt base.memory.heap fItem
  newClone : ¬HeldAt base.memory.heap clone

theorem Ready.newFile (ready : Ready tables image header (room + 2) kernel) {item : FatDirectoryItem}
    (file : item.itemAttribute &&& fatFileSubdirectory = 0) : ∃ fItem clone after,
      fat16NewFatItemForDirectoryItem item kernel = (.ok fItem, after) ∧ Ready tables image header room after ∧
      Apart kernel after ∧ FoundFile kernel after fItem clone item := by
  obtain ⟨fItem, first, allocated, firstReady, made⟩ :=
    ready.newSmall (show Roundable 8 by decide) (by decide) (.fatItem ⟨0, .directory⟩)
  obtain ⟨heldItem, node⟩ := made.new.own (by decide)
  obtain ⟨written, secondReady⟩ := firstReady.writeRecord FileRecord.asFatItem node rfl (.fatItem ⟨0, .file⟩)
  obtain ⟨second, secondSame⟩ : ∃ second, first.setFiles (Function.update first.files fItem
    (some (.fatItem ⟨0, .file⟩))) = second := ⟨_, rfl⟩
  rw [secondSame] at written secondReady
  have secondApart := made.apart.writeRecord made.new.fresh written
  have heldSecond : HeldAt second.memory.heap fItem := secondSame ▸ heldItem
  have nodeSecond : second.files fItem = some (.fatItem ⟨0, .file⟩) := by
    rw [← secondSame]
    exact Function.update_self ..
  obtain ⟨clone, third, cloned, thirdReady, madeClone⟩ :=
    secondReady.newSmall (show Roundable 32 by decide) (by decide) (.fatDirectoryItem item)
  obtain ⟨heldClone, entry⟩ := madeClone.new.own (by decide)
  have nodeThird : third.files fItem = some (.fatItem ⟨0, .file⟩) := by
    rw [madeClone.apart.files fItem heldSecond]
    exact nodeSecond
  obtain ⟨completed, fourthReady⟩ := thirdReady.writeRecord FileRecord.asFatItem nodeThird rfl (.fatItem ⟨clone, .file⟩)
  have different : clone ≠ fItem := fun same => madeClone.new.fresh (same ▸ heldSecond)
  refine ⟨fItem, clone, _, ?_, fourthReady, (secondApart.trans madeClone.apart).writeRecord made.new.fresh completed,
    ⟨Function.update_self .., (Function.update_of_ne different _ _).trans entry⟩, madeClone.apart.heldAt heldSecond,
    heldClone, made.new.fresh, fun held => madeClone.new.fresh (secondApart.heldAt held)⟩
  unfold fat16NewFatItemForDirectoryItem
  rw [bind_ok allocated, if_neg made.new.nonnull, if_neg (not_not.mpr file), bind_ok written]
  exact (bind_ok cloned).trans ((bind_ok completed).trans rfl)

/-- A live entry that is in reach is the only one in the table that goes by its name. -/
theorem LoadedDirectory.slot {directory : FatDirectory} {entries : List FatDirectoryItem} {wanted : List Byte}
    {item : FatDirectoryItem} (loaded : LoadedDirectory kernel directory entries) (distinct : DistinctNames entries)
    (found : namedEntry entries wanted = some item) (reach : InReach entries wanted) : ∃ i < liveTotal entries,
      slotItem kernel directory i = item ∧ Named wanted item ∧
      ∀ j < liveTotal entries, j ≠ i → ¬Named wanted (slotItem kernel directory j) := by
  obtain ⟨i, here, live, named⟩ := namedEntry_some found
  have bound := (reach i item here named).2 live
  refine ⟨i, bound, Option.some.inj ((loaded.slots i bound).symm.trans here), named, ?_⟩
  intro j high other also
  have entry := loaded.slots j high
  by_cases deleted : (slotItem kernel directory j).Deleted
  · have outside := (reach j _ entry also).1 deleted
    omega
  · exact other (distinct.unique entry here deleted live also named)

/-- The lookup of a name whose live entry is in reach makes the item of that entry. -/
theorem LoadedDirectory.find {directory : FatDirectory} {entries : List FatDirectoryItem} {name : Addr}
    {item : FatDirectoryItem} (loaded : LoadedDirectory kernel directory entries)
    (alongside : Alongside tables kernel kernel) (distinct : DistinctNames entries) (string : NameAt kernel name)
    (found : namedEntry entries (nameAt kernel name) = some item) (reach : InReach entries (nameAt kernel name)) :
    fat16FindItemInDirectory directory name kernel = fat16NewFatItemForDirectoryItem item kernel := by
  obtain ⟨i, bound, slot, named, others⟩ := loaded.slot distinct found reach
  unfold fat16FindItemInDirectory
  rw [loaded.total, Int.toNat_natCast, ← slot]
  exact alongside.findLoop_one ⟨loaded.owned, string⟩ _ 0 (by omega) 0 (Nat.zero_le i) (by omega)
    (slot.symm ▸ named) (fun j _ high => others j (by omega))

theorem LoadedDirectory.find_none {directory : FatDirectory} {entries : List FatDirectoryItem} {name : Addr}
    (loaded : LoadedDirectory kernel directory entries) (alongside : Alongside tables kernel kernel)
    (string : NameAt kernel name) (absent : namedEntry entries (nameAt kernel name) = none)
    (reach : InReach entries (nameAt kernel name)) : fat16FindItemInDirectory directory name kernel = (.ok 0, kernel) := by
  unfold fat16FindItemInDirectory
  rw [loaded.total, Int.toNat_natCast]
  refine alongside.findLoop_none ⟨loaded.owned, string⟩ _ 0 (by omega) 0 (fun j _ high named => ?_)
  have entry := loaded.slots j (by omega)
  have outside := (reach j _ entry named).1 (namedEntry_none absent entry named)
  omega

section Free
variable {base : Kernel} {directory : FatDirectory} {entries : List FatDirectoryItem} {target item : Addr}

theorem MadeDirectory.freed (made : MadeDirectory base kernel target directory entries)
    (ready : Ready tables image header room kernel) (run : Kernel.freeRecord select ptr kernel = (.ok (), after))
    (bytes : after.memory.bytes = kernel.memory.bytes) (apart : target ≠ ptr) (apartTable : directory.item ≠ ptr) :
    MadeDirectory base after target directory entries := by
  obtain ⟨held, here⟩ := Kernel.freeRecord_other ready.recorded run apart made.held
  obtain ⟨heldTable, table⟩ := Kernel.freeRecord_other ready.recorded run apartTable made.heldTable
  have owned : ∀ i < liveTotal entries * fatDirectoryItemSize,
      OwnedBy after.memory.heap directory.item (directory.item + BitVec.ofNat 32 i) :=
    fun i bound => Kernel.freeRecord_ownedBy ready.recorded (made.owned i bound) apartTable run
  have slots : ∀ i, slotItem after directory i = slotItem kernel directory i := by
    intro i
    unfold slotItem
    rw [bytes]
  refine ⟨here.trans made.here, table.trans made.table, held, heldTable, made.new, made.newTable, owned,
    made.loaded.marked, made.loaded.total, fun i bound => ?_, fun i bound => (owned i bound).owned⟩
  rw [slots]
  exact made.loaded.slots i bound

theorem DirectoryItem.own (parent : DirectoryItem base kernel item target directory entries) :
    OwnItem base kernel item where
  fresh := parent.newItem
  held := fun _ => ⟨parent.heldItem, _, parent.node⟩
  target := by
    intro record here
    cases parent.node.symm.trans here
    exact parent.directory.new
  table := by
    intro record other here entry
    cases parent.node.symm.trans here
    cases parent.directory.here.symm.trans entry
    exact ⟨parent.directory.held, parent.directory.newTable⟩

theorem Ready.itemFree (ready : Ready tables image header room kernel)
    (parent : DirectoryItem base kernel item target directory entries) (apart : Apart base kernel) : ∃ after,
      fat16FatItemFree item kernel = (.ok (), after) ∧ Ready tables image header room after ∧ Apart base after ∧
      (∀ other, HeldAt kernel.memory.heap other → other ≠ item → other ≠ target → other ≠ directory.item →
        HeldAt after.memory.heap other ∧ after.files other = kernel.files other) ∧
      ∀ (later : Kernel) (child : Addr) (record : FatDirectory) (listed : List FatDirectoryItem),
        MadeDirectory later kernel child record listed → child ≠ item → child ≠ target → child ≠ directory.item →
        record.item ≠ item → record.item ≠ target → record.item ≠ directory.item →
        MadeDirectory later after child record listed := by
  have made := parent.directory
  have kernelHeap := ready.freeEnd.kernel
  have nonnull : ∀ {ptr : Addr}, HeldAt kernel.memory.heap ptr → ptr ≠ 0 := by
    intro ptr held null
    exact not_heldAt_null kernel kernelHeap (null ▸ held)
  have targetTable : target ≠ directory.item := fun same => by
    have record := made.here
    rw [same, made.table] at record
    cases record
  have itemTable : item ≠ directory.item := fun same => by
    have record := parent.node
    rw [same, made.table] at record
    cases record
  have itemTarget : item ≠ target := fun same => by
    have record := parent.node
    rw [same, made.here] at record
    cases record
  obtain ⟨first, freedTable, firstReady, firstBytes⟩ :=
    ready.freeRecord FileRecord.asFatDirectoryTable made.table (rfl : _ = some ())
  obtain ⟨heldTarget, hereTarget⟩ := Kernel.freeRecord_other ready.recorded freedTable targetTable made.held
  obtain ⟨heldItem, hereItem⟩ := Kernel.freeRecord_other ready.recorded freedTable itemTable parent.heldItem
  obtain ⟨second, freedDirectory, secondReady, secondBytes⟩ :=
    firstReady.freeRecord FileRecord.asFatDirectory (hereTarget.trans made.here) rfl
  obtain ⟨heldLast, hereLast⟩ := Kernel.freeRecord_other firstReady.recorded freedDirectory itemTarget heldItem
  obtain ⟨third, freedItem, thirdReady, thirdBytes⟩ :=
    secondReady.freeRecord FileRecord.asFatItem (hereLast.trans (hereItem.trans parent.node)) rfl
  have run : fat16FatItemFree item kernel = (.ok (), third) := by
    have released : fat16FreeDirectory target kernel = (.ok (), second) := by
      unfold fat16FreeDirectory
      rw [if_neg (nonnull made.held), bind_ok (Kernel.record_run made.here (rfl : FileRecord.asFatDirectory _ = some _)),
        if_pos (nonnull made.heldTable)]
      exact (bind_ok freedTable).trans freedDirectory
    unfold fat16FatItemFree
    rw [bind_ok (Kernel.record_run parent.node (rfl : FileRecord.asFatItem _ = some _))]
    exact (bind_ok released).trans freedItem
  have alongside := (ready.alongside apart).itemFree parent.own run
  refine ⟨third, run, thirdReady, alongside.apart, ?_, ?_⟩
  · intro other held notItem notTarget notTable
    obtain ⟨firstHeld, firstHere⟩ := Kernel.freeRecord_other ready.recorded freedTable notTable held
    obtain ⟨secondHeld, secondHere⟩ := Kernel.freeRecord_other firstReady.recorded freedDirectory notTarget firstHeld
    obtain ⟨thirdHeld, thirdHere⟩ := Kernel.freeRecord_other secondReady.recorded freedItem notItem secondHeld
    exact ⟨thirdHeld, thirdHere.trans (secondHere.trans firstHere)⟩
  · intro later child record listed child' notItem notTarget notTable tableItem tableTarget tableTable
    exact ((child'.freed ready freedTable firstBytes notTable tableTable).freed firstReady freedDirectory secondBytes
      notTarget tableTarget).freed secondReady freedItem thirdBytes notItem tableItem

end Free

end Ready

end PeachOS
