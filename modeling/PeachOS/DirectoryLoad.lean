import PeachOS.DirectoryLookup
import PeachOS.Fat16Mount

/-! The directories that the driver loads, the root directory and those below it, have the
first entries of the disk in their tables. -/

namespace PeachOS
open Program ByteMemory

section Count
variable {disk left : Disk} {pos : Nat} {total : Int}

theorem fat16GetTotalItems_ok {sector : Int} (directory : HasDirectory disk)
    (size : disk.sectorSize = peachosSectorSize) (position : sector * peachosSectorSize = pos)
    (low : pos < 2 ^ 31)
    (run : fat16GetTotalItemsForDirectory (BitVec.ofInt 32 sector) disk = (.ok total, left)) :
    ∃ count, Entries disk.image pos count ∧ total = liveCount disk.image pos count ∧
      left = disk.onDirectory (pos + fatDirectoryItemSize * (count + 1)) := by
  have product : sector * disk.sectorSize = pos := by rw [size, position]
  have start : (BitVec.ofInt 32 sector * BitVec.ofInt 32 disk.sectorSize).toInt = pos := by
    have same : directoryStartPos disk sector = fat16SectorToAbsolute disk.sectorSize sector :=
      directoryStartPos_eq (by omega) (by omega)
    unfold directoryStartPos fat16SectorToAbsolute at same
    rw [same, product]
  unfold fat16GetTotalItemsForDirectory at run
  rw [read_bind, start, bind_ok (directorySeek_run directory pos)] at run
  obtain ⟨count, entries, sum, rest⟩ := fat16CountItemsLoop_ok directory _ _ run
  exact ⟨count, entries, sum.trans (Int.zero_add _), rest⟩

end Count

section Root
variable {before after : Kernel} {image : Image} {header : FatHeader}

/-- Where the driver has the root directory. -/
def rootPosition (header : FatHeader) : Nat :=
  (header.fatCopies.toNat * header.sectorsPerFat.toNat + header.reservedSectors.toNat) * peachosSectorSize

theorem fat16GetRootDirectory_loaded (mounting : Mounting image header before.disk)
    (directory : HasDirectory before.disk) (sound : Sound before.memory.heap)
    (low : rootPosition header + header.rootDirEntries.toNat * fatDirectoryItemSize < 2 ^ 31)
    (run : fat16GetRootDirectory before = (.ok 0, after)) :
    ∃ fatPrivate count, after.disk.fsPrivate = some fatPrivate ∧
      Entries image (rootPosition header) count ∧
      (count ≤ header.rootDirEntries.toNat →
        fatPrivate.rootDirectory.item.toNat + count * fatDirectoryItemSize ≤
          heapAddress.toNat + heapSizeBytes →
        LoadedDirectory after fatPrivate.rootDirectory (diskEntries image (rootPosition header) count)) := by
  obtain ⟨fatPrivate, first, looked, steps⟩ := bind_eq_ok run
  obtain ⟨same, unmoved⟩ := mounting.looked looked
  rw [unmoved, read_bind, mounting.sector, if_neg (by decide), same] at steps
  obtain ⟨totalItems, counted, countRun, steps⟩ := bind_eq_ok steps
  obtain ⟨countRun, countedSame⟩ := Kernel.onDisk_eq_ok countRun
  have sectors : (header.fatCopies.toNat * header.sectorsPerFat.toNat + header.reservedSectors.toNat : Int) =
      (header.fatCopies.toNat * header.sectorsPerFat.toNat + header.reservedSectors.toNat : Nat) := by
    push_cast
    rfl
  have bytes : (header.rootDirEntries.toNat * (fatDirectoryItemSize : Int)) =
      (header.rootDirEntries.toNat * fatDirectoryItemSize : Nat) := by
    push_cast
    rfl
  rw [sectors] at countRun steps
  rw [bytes] at steps
  have position : ((header.fatCopies.toNat * header.sectorsPerFat.toNat + header.reservedSectors.toNat : Nat) :
      Int) * peachosSectorSize = (rootPosition header : Nat) := by
    unfold rootPosition
    push_cast
    rfl
  obtain ⟨count, entries, total, left⟩ :=
    fat16GetTotalItems_ok directory mounting.sector position (by omega) countRun
  rw [mounting.content] at entries total
  have countedSound : Sound counted.memory.heap := by
    rw [countedSame]
    exact sound
  obtain ⟨dir, placed, allocated, steps⟩ := bind_eq_ok steps
  obtain ⟨_, null | new⟩ := (Apart.refl countedSound).newRecord allocated
  · rw [if_pos null.1] at steps
    cases steps
  · rw [if_neg new.nonnull] at steps
    have placedDisk : placed.disk = before.disk.onDirectory (rootPosition header +
        fatDirectoryItemSize * (count + 1)) := (Kernel.newRecord_disk allocated).trans left
    have placedDirectory : HasDirectory placed.disk := by
      rw [placedDisk]
      exact directory.onDirectory _
    have placedSector : placed.disk.sectorSize = peachosSectorSize := by
      rw [placedDisk]
      exact mounting.sector
    have placedImage : placed.disk.image = image := by
      rw [placedDisk]
      exact mounting.content
    have filled := fat16ReadRoot_run placedDirectory placedSector dir low
    rw [bind_ok filled, if_neg (fun nonzero => nonzero rfl)] at steps
    obtain ⟨volume, _, here, _⟩ := placedDirectory.onDirectory (rootPosition header +
      header.rootDirEntries.toNat * fatDirectoryItemSize)
    cases steps
    refine ⟨_, count, withPrivate_some here _, entries, fun inside within => ?_⟩
    have request : (BitVec.ofInt 32 (header.rootDirEntries.toNat * fatDirectoryItemSize : Nat)).toNat =
        header.rootDirEntries.toNat * fatDirectoryItemSize := by
      rw [BitVec.ofInt_natCast, BitVec.toNat_ofNat]
      omega
    have fewer := liveCount_le image (rootPosition header) count
    have covered : liveCount image (rootPosition header) count * fatDirectoryItemSize ≤
        header.rootDirEntries.toNat * fatDirectoryItemSize := Nat.mul_le_mul_right _ (by omega)
    have shorter : liveCount image (rootPosition header) count * fatDirectoryItemSize ≤
        count * fatDirectoryItemSize := Nat.mul_le_mul_right _ fewer
    apply LoadedDirectory.of_disk entries total
    · intro i bound
      have stored := storeBytes_inside placed.memory.bytes dir (diskBytes image (rootPosition header)
        (header.rootDirEntries.toNat * fatDirectoryItemSize)) (by rw [diskBytes_length]; omega)
        (by rw [diskBytes_length]; omega : i < _)
      rw [diskBytes_getD image _ (by omega)] at stored
      rw [← stored, ← placedImage]
      rfl
    · intro i bound
      exact new.owned i (by rw [request]; omega) (by dsimp only at within; omega)

end Root

section Below
variable {before after : Kernel} {image : Image} {header : FatHeader} {tables : Set (Nat → Addr)}

theorem Volume.onDirectory {disk : Disk} (volume : Volume disk image header) (pos : Nat) :
    Volume (disk.onDirectory pos) image header where
  content := volume.content
  sector := volume.sector
  clusters := volume.clusters
  rootEntries := volume.rootEntries
  loaded := by
    obtain ⟨fatPrivate, here, rest⟩ := volume.loaded
    exact ⟨_, withPrivate_some here _, rest⟩

theorem fat16LoadFatDirectory_loaded (volume : Volume before.disk image header)
    (directories : HasDirectory before.disk) (recorded : Recorded tables before) {item : FatDirectoryItem}
    {cluster : Nat} (first : (fat16GetFirstCluster item).toInt = cluster) (data : 2 ≤ cluster)
    (low : clusterPos header cluster + clusterSize header < 2 ^ 31) {directory : Addr} {record : FatDirectory}
    (run : fat16LoadFatDirectory item before = (.ok directory, after))
    (here : after.files directory = some (.fatDirectory record)) :
    ∃ count, Entries image (clusterPos header cluster) count ∧
      (count * fatDirectoryItemSize ≤ clusterSize header →
        record.item.toNat + count * fatDirectoryItemSize ≤ heapAddress.toNat + heapSizeBytes →
        LoadedDirectory after record (diskEntries image (clusterPos header cluster) count)) := by
  obtain ⟨fatPrivate, loaded, known, ending, _⟩ := volume.loaded
  have looked : Kernel.onDisk fsPrivate before = (.ok fatPrivate, before) := by
    unfold Kernel.onDisk fsPrivate
    rw [read_bind, loaded]
    rfl
  have absent : ∀ {kernel : Kernel}, Recorded tables kernel → kernel.files 0 ≠ some (.fatDirectory record) := by
    intro kernel recorded null
    rw [recorded.null] at null
    cases null
  unfold fat16LoadFatDirectory at run
  rw [bind_ok looked] at run
  split at run
  · cases run
    exact absurd here (absent recorded)
  obtain ⟨made, second, allocated, steps⟩ := bind_eq_ok run
  have secondRecorded := Guards.newRecord _ _ _ _ _ recorded allocated
  obtain ⟨secondApart, null | new⟩ := (Apart.refl recorded.sound).newRecord allocated
  · rw [if_pos null.1] at steps
    cases steps
    exact absurd here (absent secondRecorded)
  rw [if_neg new.nonnull] at steps
  dsimp only at steps
  rw [first] at steps
  have secondDisk := Kernel.newRecord_disk allocated
  have position : fat16ClusterToSector fatPrivate cluster * (peachosSectorSize : Nat) =
      (clusterPos header cluster : Nat) := by
    unfold fat16ClusterToSector clusterPos
    rw [ending, known]
    push_cast [Nat.cast_sub data]
    ring
  obtain ⟨totalItems, third, countRun, steps⟩ := bind_eq_ok steps
  obtain ⟨countRun, thirdSame⟩ := Kernel.onDisk_eq_ok countRun
  rw [secondDisk] at countRun
  obtain ⟨count, entries, total, left⟩ :=
    fat16GetTotalItems_ok directories volume.sector position (by omega) countRun
  rw [volume.content] at entries total
  refine ⟨count, entries, fun inside within => ?_⟩
  have thirdSound : Sound third.memory.heap := by
    rw [thirdSame]
    exact secondApart.sound
  obtain ⟨_, fourth, entered, steps⟩ := bind_eq_ok steps
  obtain ⟨fourthSame, _⟩ := Kernel.writeRecord_ok entered
  obtain ⟨table, fifth, tableMade, steps⟩ := bind_eq_ok steps
  obtain ⟨_, sixth, completed, steps⟩ := bind_eq_ok steps
  obtain ⟨sixthSame, _⟩ := Kernel.writeRecord_ok completed
  have fourthSound : Sound fourth.memory.heap := by
    rw [fourthSame]
    exact thirdSound
  have fewer := liveCount_le image (clusterPos header cluster) count
  have shorter : liveCount image (clusterPos header cluster) count * fatDirectoryItemSize ≤
      count * fatDirectoryItemSize := Nat.mul_le_mul_right _ fewer
  have bytes : totalItems * (fatDirectoryItemSize : Nat) =
      (liveCount image (clusterPos header cluster) count * fatDirectoryItemSize : Nat) := by
    rw [total]
    push_cast
    rfl
  have request : (BitVec.ofInt 32 (totalItems * (fatDirectoryItemSize : Nat))).toNat =
      liveCount image (clusterPos header cluster) count * fatDirectoryItemSize := by
    rw [bytes, BitVec.ofInt_natCast, BitVec.toNat_ofNat]
    omega
  have gone : ∀ {res : Int} {seventh : Kernel}, res ≠ 0 → (if res ≠ 0 then do
      fat16FreeDirectory made
      pure made else pure made : KernelProg Addr) seventh = (.ok directory, after) → False := by
    intro res seventh failed rest
    rw [if_pos failed] at rest
    obtain ⟨_, eighth, freed, last⟩ := bind_eq_ok rest
    cases last
    rw [fat16FreeDirectory_gone new.nonnull freed] at here
    cases here
  obtain ⟨res, seventh, readRun, steps⟩ := bind_eq_ok steps
  by_cases failed : res ≠ 0
  · exact (gone failed steps).elim
  rw [if_neg failed] at steps
  cases steps
  obtain ⟨_, null | tableNew⟩ := (Apart.refl fourthSound).newRecord tableMade
  · rw [null.1] at readRun
    cases readRun
    exact absurd (by decide) failed
  unfold fat16ReadTable at readRun
  rw [if_neg tableNew.nonnull] at readRun
  have sixthDisk : sixth.disk = before.disk.onDirectory (clusterPos header cluster +
      fatDirectoryItemSize * (count + 1)) := by
    rw [sixthSame]
    show fifth.disk = _
    rw [Kernel.newRecord_disk tableMade, fourthSame]
    exact left
  have sixthVolume : Volume sixth.disk image header := by
    rw [sixthDisk]
    exact volume.onDirectory _
  have size : (BitVec.ofInt 32 (totalItems * (fatDirectoryItemSize : Nat))).toInt =
      (liveCount image (clusterPos header cluster) count * fatDirectoryItemSize : Nat) := by
    rw [BitVec.toInt_eq_toNat_of_lt (by omega), request]
  obtain ⟨leftDisk, _, read⟩ := fat16ReadInternal_first sixthVolume data
    (clusterSize_pos sixthVolume) (by omega : liveCount image (clusterPos header cluster) count *
      fatDirectoryItemSize ≤ clusterSize header) (by omega) table sixth.memory.bytes
  unfold Kernel.fat16ReadInternal at readRun
  rw [read_bind, size] at readRun
  have seventhSame := readRun.symm.trans (bind_ok (Kernel.onDisk_ok read))
  have stored : after.memory.bytes = storeBytes sixth.memory.bytes table (diskBytes image
      (clusterPos header cluster + 0) (liveCount image (clusterPos header cluster) count *
        fatDirectoryItemSize)) :=
    congrArg (fun result => result.2.memory.bytes) seventhSame
  have heap : after.memory.heap = fifth.memory.heap :=
    (congrArg (fun result => result.2.memory.heap) seventhSame).trans
      (congrArg (fun kernel => kernel.memory.heap) sixthSame)
  have files : after.files = sixth.files := congrArg (fun result => result.2.files) seventhSame
  have entry : some (FileRecord.fatDirectory ⟨table, totalItems, 0, 0⟩) = some (.fatDirectory record) := by
    rw [← here, files, sixthSame]
    exact (Function.update_self directory _ fifth.files).symm
  cases entry
  apply LoadedDirectory.of_disk entries total
  · intro i bound
    rw [stored, storeBytes_inside _ _ _ (by rw [diskBytes_length]; omega)
      (by rw [diskBytes_length]; exact bound), diskBytes_getD image _ bound, Nat.add_zero]
  · intro i bound
    rw [heap]
    exact tableNew.owned i (by rw [request]; exact bound) (by dsimp only at within; omega)

end Below

/-- The string `a` in the second block, and a table in the first. -/
def directoryKernel (table : List Byte) : Kernel := { Kernel.blank
  ⟨heapMarkBlocksTaken singleKernel.memory.heap 1 1,
    storeBytes (storeBytes (fun _ => 0) heapAddress table) (heapAddress + 4096) [0x61]⟩ singleDisk with
  files := fun ptr =>
    if ptr = heapAddress then some .fatDirectoryTable
    else if ptr = heapAddress + 4096 then some .pathString else none }

section Concrete
variable (table : List Byte)

theorem directoryKernel_paged : Paged (directoryKernel table).memory.heap 2 :=
  pagedHeap_paged (by decide : 2 ≤ 25600)

theorem directoryKernel_address :
    heapAddress = heapBlockToAddress (directoryKernel table).memory.heap (0 : Nat) ∧
      heapAddress + 4096 = heapBlockToAddress (directoryKernel table).memory.heap (1 : Nat) := by
  have paged := directoryKernel_paged table
  rw [← paged.address 0, ← paged.address 1]
  decide

theorem directoryKernel_placed {ptr : Addr} {record : FileRecord}
    (here : (directoryKernel table).files ptr = some record) : HeldAt (directoryKernel table).memory.heap ptr := by
  have held := (directoryKernel_paged table).held
  unfold directoryKernel at here
  dsimp only at here
  split at here
  next same => exact ⟨0, same.trans (directoryKernel_address table).1, held 0 (by decide)⟩
  · split at here
    next same => exact ⟨1, same.trans (directoryKernel_address table).2, held 1 (by decide)⟩
    · cases here

theorem directoryKernel_recorded : Recorded {fun _ => 0} (directoryKernel table) where
  sound := (directoryKernel_paged table).sound
  recorded := by
    intro ptr record here
    obtain ⟨block, place, held⟩ := directoryKernel_placed table here
    exact ⟨block, place, held.clean⟩
  held := fun _ member => member.elim
  kept := fun _ member => member.elim
  table := rfl

theorem directoryKernel_room : 0 < (freeBlocks (directoryKernel table).memory.heap).card :=
  (directoryKernel_paged table).room (by decide)

theorem directoryKernel_name : NameAt (directoryKernel table) (heapAddress + 4096) where
  held := ⟨1, (directoryKernel_address table).2, (directoryKernel_paged table).held 1 (by decide)⟩
  string := by
    have apart : ¬(heapAddress + 4096 : Addr) = heapAddress := by decide
    unfold directoryKernel
    dsimp only
    rw [if_neg apart, if_pos rfl]

theorem directoryKernel_owned {i : Nat} (bound : i < 4096) :
    Owned (directoryKernel table).memory.heap (heapAddress + BitVec.ofNat 32 i) := by
  refine ⟨0, 0, ((directoryKernel_paged table).held 0 (by decide)).chained, ?_⟩
  rw [frameOf_within (by decide) bound]
  exact (directoryKernel_address table).1

end Concrete

def deletedFile : FatDirectoryItem :=
  { singleFile with filename := [0xE5, 0x20, 0x20, 0x20, 0x20, 0x20, 0x20, 0x20] }

/-- The one entry of a directory is found. -/
theorem fat16FindItemInDirectory_single :
    fat16FindItemInDirectory ⟨heapAddress, 1, 2, 3⟩ (heapAddress + 4096) (directoryKernel singleTable) =
      lookUp [singleFile] (nameAt (directoryKernel singleTable) (heapAddress + 4096))
        (directoryKernel singleTable) ↔
      InReach [singleFile] (nameAt (directoryKernel singleTable) (heapAddress + 4096)) ∨
        (freeBlocks (directoryKernel singleTable).memory.heap).card = 0 := by
  apply fat16FindItemInDirectory_lookUp (directoryKernel_recorded singleTable) rfl _ _
    (directoryKernel_name singleTable)
  · refine ⟨?_, rfl, ?_, ?_⟩
    · intro item member
      rw [List.mem_singleton.mp member]
      decide
    · intro i bound
      obtain rfl : i = 0 := Nat.lt_one_iff.mp bound
      decide +kernel
    · intro i bound
      have total : liveTotal [singleFile] = 1 := by decide
      rw [total] at bound
      exact directoryKernel_owned singleTable (by unfold fatDirectoryItemSize at bound; omega)
  · exact List.pairwise_singleton _ _

/-- A file behind a deleted one is not found. -/
theorem fat16FindItemInDirectory_hides : ∃ kernel directory name entries, Recorded {fun _ => 0} kernel ∧
    kernel.disk.sectorSize = peachosSectorSize ∧ LoadedDirectory kernel directory entries ∧
      DistinctNames entries ∧ NameAt kernel name ∧ namedEntry entries (nameAt kernel name) = some singleFile ∧
      fat16FindItemInDirectory directory name kernel = (.ok 0, kernel) ∧
      fat16FindItemInDirectory directory name kernel ≠ lookUp entries (nameAt kernel name) kernel := by
  let table := singleTable.set 0 0xE5 ++ singleTable
  have recorded := directoryKernel_recorded table
  have loaded : LoadedDirectory (directoryKernel table) ⟨heapAddress, 1, 2, 3⟩ [deletedFile, singleFile] := by
    refine ⟨?_, rfl, ?_, ?_⟩
    · decide
    · intro i bound
      obtain rfl : i = 0 := Nat.lt_one_iff.mp bound
      decide +kernel
    · intro i bound
      have total : liveTotal [deletedFile, singleFile] = 1 := by decide
      rw [total] at bound
      exact directoryKernel_owned table (by unfold fatDirectoryItemSize at bound; omega)
  have named := directoryKernel_name table
  have found : namedEntry [deletedFile, singleFile] (nameAt (directoryKernel table) (heapAddress + 4096)) =
      some singleFile := by decide +kernel
  have alongside : Alongside {fun _ => 0} (directoryKernel table) (directoryKernel table) :=
    ⟨Apart.refl recorded.sound, recorded, rfl⟩
  have missed : fat16FindItemInDirectory ⟨heapAddress, 1, 2, 3⟩ (heapAddress + 4096) (directoryKernel table) =
      (.ok 0, directoryKernel table) := by
    apply alongside.findLoop_none ⟨loaded.owned, named⟩ _ 0 le_rfl
    intro j _ high
    obtain rfl : j = 0 := Nat.lt_one_iff.mp high
    decide +kernel
  have distinct : DistinctNames [deletedFile, singleFile] := by
    unfold DistinctNames
    decide
  refine ⟨directoryKernel table, _, _, _, recorded, rfl, loaded, distinct, named, found, missed, ?_⟩
  rw [missed]
  unfold lookUp
  rw [found]
  intro same
  exact (alongside.newFatItem_nonnull (directoryKernel_room table) same.symm).1 rfl

end PeachOS
