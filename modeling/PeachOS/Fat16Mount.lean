import PeachOS.DirectoryEntries
import PeachOS.Fat16Layout

/-! A disk with a root directory of a page at most is mounted, and which boot sectors the
driver then follows. -/

namespace PeachOS
open Program ByteMemory

/-- `root_dir_sector_pos` times the size of a sector. -/
def BootSector.drivenRootPos (boot : BootSector) : Nat :=
  (boot.fatSectors + boot.reservedSectors) * peachosSectorSize

/-- A disk that can be mounted: the signature, and a root directory that ends and whose
table fits into a page. -/
structure Mountable (image : Image) : Prop where
  signature : image 38 = peachosFat16Signature
  positive : 0 < (bootSector image).rootDirEntries
  page : (bootSector image).rootSize ≤ 4096
  entries : ∃ count ≤ 2 ^ 26, Entries image (bootSector image).drivenRootPos count
  low : (bootSector image).drivenRootPos + (bootSector image).rootSize < 2 ^ 31

/-- So many blocks are free. -/
structure Spare (kernel : Kernel) (count : Nat) : Prop where
  heap : KernelHeap kernel.memory.heap
  room : count ≤ (freeBlocks kernel.memory.heap).card

section Mount
variable {before : Kernel} {image : Image} {count : Nat}

theorem Spare.kzalloc (spare : Spare before (count + 1)) (size : Word) (roundable : Roundable size)
    (single : blocksFor size = 1) : ∃ ptr memory,
      Kernel.kzalloc size before = (.ok ptr, before.setMemory memory) ∧ ptr ≠ 0 ∧
        Spare (before.setMemory memory) count := by
  have room := spare.room
  obtain ⟨ptr, memory, allocated, allocates⟩ :=
    Kernel.kzalloc_page spare.heap size roundable single (by omega)
  have short : size.toNat ≤ 4096 := by
    unfold blocksFor heapBlockSize at single
    omega
  have left := (allocates .pathString).room
  exact ⟨ptr, memory, allocated, (allocates .pathString).nonnull,
    ((allocates .pathString).extends spare.heap short).kernel, by
      change (freeBlocks memory.heap).card + 1 = _ at left
      show count ≤ (freeBlocks memory.heap).card
      omega⟩

theorem Spare.newRecord (spare : Spare before (count + 1)) (size : Word) (roundable : Roundable size)
    (single : blocksFor size = 1) (record : FileRecord) : ∃ ptr memory files,
      Kernel.newRecord size record before = (.ok ptr, (before.setMemory memory).setFiles files) ∧
        ptr ≠ 0 ∧ Spare (before.setMemory memory) count := by
  obtain ⟨ptr, memory, allocated, nonnull, left⟩ := spare.kzalloc size roundable single
  exact ⟨ptr, memory, placeRecord before.files ptr size record,
    (bind_ok allocated).trans (congrFun (if_neg nonnull) _), nonnull, left⟩

theorem Spare.diskstreamerNew (spare : Spare before (count + 1)) : ∃ ptr memory,
    diskstreamerNew 0 before = (.ok (some (ptr, ⟨0, 0⟩)), before.setMemory memory) ∧
      Spare (before.setMemory memory) count := by
  obtain ⟨ptr, memory, allocated, nonnull, left⟩ := spare.kzalloc sizeofDiskStream (by decide) (by decide)
  refine ⟨ptr, memory, ?_, left⟩
  exact (bind_ok allocated).trans (congrFun (if_neg nonnull) _)

theorem Spare.fat16InitPrivate (spare : Spare before (count + 3)) : ∃ memory,
    fat16InitPrivate 0 before = (.ok ⟨⟨0, 0, 0, 0, 0, 0⟩, ⟨0, 0, 0, 0⟩, some ⟨0, 0⟩, some ⟨0, 0⟩,
      some ⟨0, 0⟩⟩, before.setMemory memory) ∧ Spare (before.setMemory memory) count := by
  obtain ⟨_, first, cluster, spare⟩ := spare.diskstreamerNew
  obtain ⟨_, second, fat, spare⟩ := spare.diskstreamerNew
  obtain ⟨_, third, directory, spare⟩ := spare.diskstreamerNew
  refine ⟨third, ?_, spare⟩
  unfold PeachOS.fat16InitPrivate
  rw [bind_ok cluster, bind_ok fat, bind_ok directory]
  rfl

theorem Kernel.onDisk_ok {α : Type} {call : Prog Disk Stop α} {result : α} {disk : Disk}
    (run : call before.disk = (.ok result, disk)) :
    Kernel.onDisk call before = (.ok result, before.setDisk disk) := by
  unfold Kernel.onDisk
  rw [run]
  rfl

theorem fat16GetTotalItems_run {disk : Disk} {pos sector : Nat} (directory : HasDirectory disk)
    (content : disk.image = image) (size : disk.sectorSize = peachosSectorSize)
    (position : sector * peachosSectorSize = pos) (entries : Entries image pos count)
    (enough : count ≤ 2 ^ 26) : fat16GetTotalItemsForDirectory (BitVec.ofInt 32 sector) disk =
      (.ok (liveCount image pos count : Int),
        disk.onDirectory (pos + fatDirectoryItemSize * (count + 1))) := by
  have low : pos < 2 ^ 31 := by
    have bound := entries.low
    omega
  have product : (sector : Int) * disk.sectorSize = pos := by
    rw [size, ← position]
    push_cast
    rfl
  have start : (BitVec.ofInt 32 sector * BitVec.ofInt 32 disk.sectorSize).toInt = pos := by
    have same : directoryStartPos disk sector = fat16SectorToAbsolute disk.sectorSize sector :=
      directoryStartPos_eq (by omega) (by omega)
    unfold directoryStartPos fat16SectorToAbsolute at same
    rw [same, product]
  unfold fat16GetTotalItemsForDirectory
  rw [read_bind, start]
  refine (bind_ok (directorySeek_run directory pos)).trans ?_
  rw [fat16CountItemsLoop_run directory (content ▸ entries) _ (by omega), Int.zero_add, content]

theorem fat16ReadRoot_run (directory : HasDirectory before.disk)
    (size : before.disk.sectorSize = peachosSectorSize) {sector total : Nat} (dir : Addr)
    (low : sector * peachosSectorSize + total < 2 ^ 31) : fat16ReadRoot sector total dir before =
      (.ok 0, (before.setDisk (before.disk.onDirectory (sector * peachosSectorSize + total))).setMemory
        { before.memory with
          bytes := storeBytes before.memory.bytes dir
            (diskBytes before.disk.image (sector * peachosSectorSize) total) }) := by
  have position : fat16SectorToAbsolute before.disk.sectorSize sector =
      (sector * peachosSectorSize : Nat) := by
    unfold fat16SectorToAbsolute
    rw [size]
    push_cast
    rfl
  have seek := Kernel.onDisk_ok (directorySeek_run directory (sector * peachosSectorSize))
  have read : Kernel.onDisk (directoryRead total)
      (before.setDisk (before.disk.onDirectory (sector * peachosSectorSize))) =
        (.ok (0, diskBytes before.disk.image (sector * peachosSectorSize) total),
          before.setDisk (before.disk.onDirectory (sector * peachosSectorSize + total))) :=
    Kernel.onDisk_ok (directoryRead_run directory low)
  unfold fat16ReadRoot
  rw [read_bind, position]
  refine (bind_ok seek).trans ((bind_ok read).trans ?_)
  rfl

theorem Spare.fat16GetRootDirectory {fatPrivate : FatPrivate} (spare : Spare before (count + 1))
    (mountable : Mountable image) (content : before.disk.image = image)
    (size : before.disk.sectorSize = peachosSectorSize) (here : before.disk.fsPrivate = some fatPrivate)
    (directory : fatPrivate.directoryStream = some ⟨0, 0⟩)
    (header : fatPrivate.header = fatHeaderOf (diskBytes image 0 sizeofFatH)) :
    (fat16GetRootDirectory before).1 = .ok 0 := by
  obtain ⟨reserved, _, copies, roots⟩ := fatHeaderOf_image image
  obtain ⟨items, enough, entries⟩ := mountable.entries
  have positive := mountable.positive
  have page := mountable.page
  have low := mountable.low
  generalize bootSector image = boot at *
  have streams : HasDirectory before.disk := ⟨fatPrivate, 0, here, directory⟩
  have sectors : ((fatPrivate.header.fatCopies.toNat * fatPrivate.header.sectorsPerFat.toNat +
      fatPrivate.header.reservedSectors.toNat : Int)) =
      (boot.fatSectors + boot.reservedSectors : Nat) := by
    rw [header, ← copies, ← reserved]
    push_cast
    rfl
  have bytes : (fatPrivate.header.rootDirEntries.toNat * (fatDirectoryItemSize : Int)) =
      (boot.rootSize : Nat) := by
    unfold BootSector.rootSize
    rw [header, ← roots]
    push_cast
    rfl
  have request : (BitVec.ofInt 32 (boot.rootSize : Nat)).toNat = boot.rootSize := by
    rw [BitVec.ofInt_natCast, BitVec.toNat_ofNat]
    omega
  have some' : 0 < boot.rootSize := Nat.mul_pos positive (by decide)
  have counted := fat16GetTotalItems_run streams content size
    (rfl : _ = boot.drivenRootPos) entries enough
  have room : Spare (before.setDisk (before.disk.onDirectory (boot.drivenRootPos +
      fatDirectoryItemSize * (items + 1)))) (count + 1) := ⟨spare.heap, spare.room⟩
  obtain ⟨dir, memory, files, allocated, nonnull, _⟩ := room.newRecord
    (BitVec.ofInt 32 (boot.rootSize : Nat))
    (by unfold Roundable; omega) (by unfold blocksFor heapBlockSize; omega) .fatDirectoryTable
  have looked : fsPrivate before.disk = (.ok fatPrivate, before.disk) := by
    unfold fsPrivate
    rw [read_bind, here]
    rfl
  have filled := @fat16ReadRoot_run
    (((before.setDisk (before.disk.onDirectory (boot.drivenRootPos +
      fatDirectoryItemSize * (items + 1)))).setMemory memory).setFiles files)
    (streams.onDirectory _) size (boot.fatSectors + boot.reservedSectors)
    boot.rootSize dir low
  unfold PeachOS.fat16GetRootDirectory
  rw [bind_ok (Kernel.onDisk_ok looked), read_bind]
  show ((if before.disk.sectorSize = 0 then fault else _ : KernelProg Int) before).1 = _
  rw [if_neg (by rw [size]; decide), sectors, bytes, bind_ok (Kernel.onDisk_ok counted), bind_ok allocated,
    if_neg nonnull]
  rw [bind_ok filled, if_neg (fun nonzero => nonzero rfl)]
  rfl

theorem Spare.fat16ResolveHeader {fatPrivate : FatPrivate} (spare : Spare before (count + 1))
    (mountable : Mountable before.disk.image) (size : before.disk.sectorSize = peachosSectorSize)
    (here : before.disk.fsPrivate = some fatPrivate)
    (directory : fatPrivate.directoryStream = some ⟨0, 0⟩) :
    (fat16ResolveHeader ⟨0, 0⟩ before).1 = .ok 0 := by
  have read : diskstreamerRead before.disk.image ⟨0, 0⟩ sizeofFatH = _ :=
    diskstreamerRead_bytes before.disk.image 0 sizeofFatH (by decide)
  have signature : (fatHeaderOf (diskBytes before.disk.image 0 sizeofFatH)).signature =
      peachosFat16Signature := mountable.signature
  unfold PeachOS.fat16ResolveHeader
  rw [read_bind, read]
  dsimp only
  rw [if_neg (fun nonzero => nonzero rfl)]
  unfold Kernel.changeVolume
  rw [update_bind, signature, if_neg (fun different => different rfl)]
  have loaded : Spare (before.setDisk (before.disk.withPrivate (fun volume => { volume with
      header := fatHeaderOf (diskBytes before.disk.image 0 sizeofFatH) }))) (count + 1) :=
    ⟨spare.heap, spare.room⟩
  have root := run_of_result (loaded.fat16GetRootDirectory mountable rfl size
    (withPrivate_some here _) directory rfl)
  rw [bind_ok root]
  rfl

theorem Spare.fat16Resolve (spare : Spare before 6) (mountable : Mountable before.disk.image)
    (size : before.disk.sectorSize = peachosSectorSize) : (fat16Resolve before).1 = .ok 0 := by
  obtain ⟨ptr, memory, allocated, nonnull, spare⟩ :=
    spare.kzalloc sizeofFatPrivate (by decide) (by decide)
  obtain ⟨first, made, spare⟩ := spare.fat16InitPrivate
  have entered : Spare ((before.setMemory first).setDisk { before.disk with
      fsPrivate := some ⟨⟨0, 0, 0, 0, 0, 0⟩, ⟨0, 0, 0, 0⟩, some ⟨0, 0⟩, some ⟨0, 0⟩, some ⟨0, 0⟩⟩,
      filesystem := true }) 2 := ⟨spare.heap, spare.room⟩
  obtain ⟨streamer, second, streamed, spare⟩ := entered.diskstreamerNew
  have header := run_of_result (spare.fat16ResolveHeader mountable size rfl rfl)
  have resolved : (fat16ResolveStream ((before.setMemory first).setDisk { before.disk with
      fsPrivate := some ⟨⟨0, 0, 0, 0, 0, 0⟩, ⟨0, 0, 0, 0⟩, some ⟨0, 0⟩, some ⟨0, 0⟩, some ⟨0, 0⟩⟩,
      filesystem := true })).1 = .ok 0 := by
    unfold fat16ResolveStream
    rw [bind_ok streamed]
    dsimp only
    rw [bind_ok header]
    rfl
  unfold PeachOS.fat16Resolve
  rw [bind_ok allocated, if_neg nonnull, bind_ok made, update_bind]
  exact congrArg Prod.fst (bind_ok (run_of_result resolved))

end Mount

section Layout
variable {before after : Kernel}

/-- The driver's positions on a disk that it has mounted are those of the FAT16 layout if and
only if the boot sector is one that it serves. -/
theorem fat16Resolve_layout (sector : before.disk.sectorSize = peachosSectorSize)
    (run : fat16Resolve before = (.ok 0, after)) :
    ∃ fatPrivate, after.disk.fsPrivate = some fatPrivate ∧
      (UsesLayout after.disk fatPrivate (bootSector before.disk.image) ↔
        (bootSector before.disk.image).Served) := by
  obtain ⟨_, fatPrivate, here, mounts⟩ := fat16Resolve_mounts sector run
  exact ⟨fatPrivate, here, mounts.usesLayout⟩

theorem fat16Resolve_volume (sector : before.disk.sectorSize = peachosSectorSize)
    (run : fat16Resolve before = (.ok 0, after)) (entries : 16 ∣ (bootSector before.disk.image).rootDirEntries)
    (clusters : 0 < (bootSector before.disk.image).sectorsPerCluster) :
    Volume after.disk before.disk.image (fatHeaderOf (diskBytes before.disk.image 0 sizeofFatH)) := by
  obtain ⟨mounting, fatPrivate, here, mounts⟩ := fat16Resolve_mounts sector run
  obtain ⟨reserved, cluster, copies, roots⟩ := fatHeaderOf_image before.disk.image
  obtain ⟨other, otherHere, known, clusterStream, fatStream⟩ := mounting.loaded
  obtain rfl : fatPrivate = other := Option.some.inj (here.symm.trans otherHere)
  refine ⟨mounting.content, mounting.sector, by rw [cluster]; exact clusters, ?_,
    fatPrivate, here, known, ?_, ⟨0, clusterStream⟩, ⟨0, fatStream⟩⟩
  · rw [roots]
    exact Nat.mod_eq_zero_of_dvd entries
  · rw [mounts.rootEnd]
    unfold dataStartSector BootSector.rootSize
    rw [reserved, copies, roots, Nat.add_comm (bootSector before.disk.image).fatSectors]

end Layout

/-- A boot sector for a disk of 16 sectors with one FAT of one sector, clusters of one sector and
`entries` entries in its root directory. -/
def bootImage (entries : Byte) : Image := fun pos =>
  [0xEB, 0x3C, 0x90, 0x20, 0x20, 0x20, 0x20, 0x20, 0x20, 0x20, 0x20, 0, 2, 1, 1, 0, 1, entries, 0,
    16, 0, 0xF8, 1, 0, 0, 0, 0, 0, 0, 0, 0, 0, 0, 0, 0, 0, 0x80, 0, 0x29].getD pos 0

def bootable (entries : Byte) : Kernel := Kernel.blank bootMemory ⟨bootImage entries, 512, false, none⟩

theorem bootable_fat16Resolve {entries : Byte} (positive : 0 < entries.toNat) (page : entries.toNat ≤ 128) :
    ∃ after, fat16Resolve (bootable entries) = (.ok 0, after) := by
  have spare : Spare (bootable entries) 6 :=
    ⟨bootMemory_kernel.1, bootMemory_kernel.2.symm ▸ by decide⟩
  have count : (bootSector (bootImage entries)).rootDirEntries = entries.toNat := rfl
  have reserved : (bootSector (bootImage entries)).reservedSectors = 1 := rfl
  have fats : (bootSector (bootImage entries)).fatSectors = 1 := rfl
  have start : (bootSector (bootImage entries)).drivenRootPos = 1024 := by
    unfold BootSector.drivenRootPos
    rw [reserved, fats]
    rfl
  have mountable : Mountable (bootImage entries) := by
    refine ⟨rfl, by rw [count]; exact positive, ?_, ⟨0, by decide, rfl, ?_, by rw [start]; decide⟩, ?_⟩
    · unfold BootSector.rootSize fatDirectoryItemSize
      omega
    · intro i impossible
      omega
    · unfold BootSector.rootSize fatDirectoryItemSize
      omega
  exact ⟨_, run_of_result (spare.fat16Resolve mountable rfl)⟩

/-- With one entry in the root directory, the first cluster is where the root directory is. -/
theorem fat16Resolve_overlaps : ∃ after fatPrivate,
    fat16Resolve (bootable 1) = (.ok 0, after) ∧ after.disk.fsPrivate = some fatPrivate ∧
      (bootSector (bootable 1).disk.image).HasCluster 2 ∧
      fat16ClusterToSector fatPrivate 2 = fatPrivate.rootDirectory.sectorPos ∧
      ¬UsesLayout after.disk fatPrivate (bootSector (bootable 1).disk.image) := by
  obtain ⟨after, run⟩ := @bootable_fat16Resolve 1 (by decide) (by decide)
  obtain ⟨_, fatPrivate, here, mounts⟩ := fat16Resolve_mounts rfl run
  have second : (bootSector (bootable 1).disk.image).HasCluster 2 := by
    unfold BootSector.HasCluster
    decide
  refine ⟨after, fatPrivate, run, here, second, ?_, ?_⟩
  · have empty : (bootSector (bootable 1).disk.image).rootSize / peachosSectorSize = 0 := rfl
    unfold fat16ClusterToSector
    rw [mounts.rootEnd, mounts.rootStart, empty, Nat.add_zero, Int.sub_self, Int.zero_mul, Int.add_zero]
  · rw [mounts.usesLayout]
    intro served
    exact absurd (served.cluster 2 second).1 (by decide)

/-- With sixteen entries everything is where the layout has it, up to the last cluster. -/
theorem fat16Resolve_layout_sixteen : ∃ after, fat16Resolve (bootable 16) = (.ok 0, after) ∧
    ∃ fatPrivate, after.disk.fsPrivate = some fatPrivate ∧
      (bootSector (bootable 16).disk.image).HasCluster 14 ∧
      UsesLayout after.disk fatPrivate (bootSector (bootable 16).disk.image) := by
  obtain ⟨after, run⟩ := @bootable_fat16Resolve 16 (by decide) (by decide)
  obtain ⟨fatPrivate, here, layout⟩ := fat16Resolve_layout rfl run
  refine ⟨after, run, fatPrivate, here, by unfold BootSector.HasCluster; decide, layout.mpr ?_⟩
  refine ⟨Or.inl rfl, by decide, ?_⟩
  intro cluster has
  -- the clusters end with the sixteen sectors of the disk
  have last : 3 + (cluster - 2) * 1 + 1 ≤ 16 := has.2.2
  refine ⟨by decide, ?_, Or.inl rfl⟩
  show (3 + (cluster - 2) * 1) * 512 < 2 ^ 31
  omega

end PeachOS
