import PeachOS.ClusterReads

/-! The bytes of a file, which are those of the clusters of its chain below the file's size, and the
places on the disk that the driver takes for them: it looks for the entry of a cluster at the product
of the FAT's position and the entry's offset. -/

namespace PeachOS
open Program

/-- Where the driver looks for the entry of a cluster, as a word. -/
def entryProduct (header : FatHeader) (cluster : Nat) : Nat :=
  header.reservedSectors.toNat * peachosSectorSize * (2 * cluster) % 2 ^ 32

def productEntry (image : Image) (header : FatHeader) (cluster : Nat) : Nat :=
  (image (entryProduct header cluster)).toNat + 256 * (image (entryProduct header cluster + 1)).toNat

/-- The cluster `ahead` entries after `cluster`, as the driver takes the entries. -/
def productWalk (image : Image) (header : FatHeader) : (ahead : Nat) → (cluster : Nat) → Option Nat
  | 0, cluster => some cluster
  | ahead + 1, cluster =>
      if entryProduct header cluster + 2 < 2 ^ 31 ∧ ¬EntryRefused (productEntry image header cluster : Nat) then
        productWalk image header ahead (productEntry image header cluster)
      else none

/-- Where the bytes of a cluster start, for any number. -/
def clusterPlace (header : FatHeader) (cluster : Nat) : Int :=
  (dataStartSector header + ((cluster : Int) - 2) * header.sectorsPerCluster.toNat) * peachosSectorSize

/-- The place on the disk that the driver takes for byte `offset` of a file. -/
def productPlace (image : Image) (header : FatHeader) (first : Nat) (offset : Int) : Option Int :=
  (productWalk image header (offset.tdiv (clusterSize header)).toNat first).map
    (fun cluster => clusterPlace header cluster + offset.tmod (clusterSize header))

/-- The file has the first `count` bytes of the cluster. -/
def HasStart (header : FatHeader) (item : FatDirectoryItem) (chain : List Nat) (cluster count : Nat) : Prop :=
  ∃ index, chain[index]? = some cluster ∧ index * clusterSize header + count ≤ item.filesize.toNat

section Chain
variable {image : Image} {header : FatHeader} {item : FatDirectoryItem} {chain : List Nat}

theorem HasStart.less {cluster count less : Nat} (has : HasStart header item chain cluster count)
    (fewer : less ≤ count) : HasStart header item chain cluster less := by
  obtain ⟨index, here, below⟩ := has
  exact ⟨index, here, by omega⟩

end Chain

section Driver
variable {disk other : Disk} {image : Image} {header : FatHeader} {fatPrivate : FatPrivate}

theorem Volume.moved (volume : Volume disk image header) (same : other.rewind = disk.rewind) :
    Volume other image header := by
  obtain ⟨fatPrivate, loaded, header', ending, ⟨pos, stream⟩, pos', fatStream⟩ := volume.loaded
  have readable : Readable disk fatPrivate := ⟨loaded, volume.sector, header' ▸ volume.clusters, pos, stream⟩
  obtain ⟨moved, still, rewound⟩ := readable.moved same
  have content : other.rewind.image = disk.rewind.image := congrArg Disk.image same
  have root : moved.rewind.rootDirectory = fatPrivate.rewind.rootDirectory :=
    congrArg FatPrivate.rootDirectory rewound
  have fat : moved.rewind.fatReadStream = fatPrivate.rewind.fatReadStream :=
    congrArg FatPrivate.fatReadStream rewound
  have streams : moved.fatReadStream.map DiskStream.rewind = some ⟨0, 0⟩ := by
    rw [show moved.fatReadStream.map DiskStream.rewind = _ from fat]
    unfold FatPrivate.rewind
    rw [fatStream]
    rfl
  obtain ⟨⟨place, number⟩, opened, equal⟩ := Option.map_eq_some_iff.mp streams
  obtain rfl : number = 0 := congrArg DiskStream.disk equal
  refine ⟨content.trans volume.content, still.sector, volume.clusters, volume.rootEntries, moved, still.mounted,
    (header_rewind rewound).trans header', ?_, still.stream, place, opened⟩
  rw [← ending]
  exact congrArg FatDirectory.endingSectorPos root

theorem Volume.fat16GetFatEntry (volume : Volume disk image header) (cluster : Nat) :
    (fat16GetFatEntry cluster disk).1 =
      if entryProduct header cluster + 2 < 2 ^ 31 then .ok (productEntry image header cluster : Nat)
      else .error .fault := by
  obtain ⟨fatPrivate, loaded, same, _, _, pos, stream⟩ := volume.loaded
  have word : (fat16GetFirstFatSector fatPrivate * BitVec.ofInt 32 disk.sectorSize *
      BitVec.ofInt 32 ((cluster : Int) * peachosFat16FatEntrySize)).toNat = entryProduct header cluster := by
    unfold fat16GetFirstFatSector entryProduct
    have entry : (cluster : Int) * peachosFat16FatEntrySize = ((2 * cluster : Nat) : Int) := by
      unfold peachosFat16FatEntrySize
      omega
    rw [volume.sector, same, entry, BitVec.toNat_mul, BitVec.toNat_mul, BitVec.ofInt_natCast,
      BitVec.ofInt_natCast, BitVec.toNat_ofNat, BitVec.toNat_ofNat, BitVec.toNat_setWidth, Nat.mod_mul_mod,
      Nat.mul_mod_mod, Nat.mod_eq_of_lt (show header.reservedSectors.toNat < 2 ^ 32 by omega),
      Nat.mod_eq_of_lt (show peachosSectorSize < 2 ^ 32 by decide)]
  have position : fatEntryPosition disk fatPrivate cluster = if entryProduct header cluster < 2 ^ 31 then
      (entryProduct header cluster : Int) else entryProduct header cluster - 2 ^ 32 := by
    unfold fatEntryPosition
    rw [BitVec.toInt_eq_toNat_cond, word]
    split <;> split <;> omega
  have read : diskstreamerRead disk.image (diskstreamerSeek ⟨pos, 0⟩ (fatEntryPosition disk fatPrivate cluster))
      (2 : Nat) = _ := diskstreamerRead_place disk.image _ 2
  rw [fat16GetFatEntry_run cluster loaded, stream]
  dsimp only
  by_cases low : entryProduct header cluster + 2 < 2 ^ 31
  · have here : 0 ≤ fatEntryPosition disk fatPrivate cluster ∧
        fatEntryPosition disk fatPrivate cluster + (2 : Nat) < 2 ^ 31 := by omega
    have bytes : diskBytes disk.image (fatEntryPosition disk fatPrivate cluster).toNat 2 =
        [image (entryProduct header cluster), image (entryProduct header cluster + 1)] := by
      rw [position, if_pos (by omega), Int.toNat_natCast, volume.content]
      rfl
    rw [if_pos here, bytes] at read
    rw [if_pos low, show (2 : Int) = (2 : Nat) from rfl, read]
    rfl
  · rw [if_neg (by omega)] at read
    rw [if_neg low, show (2 : Int) = (2 : Nat) from rfl, read]

theorem Volume.clusterLoop (volume : Volume disk image header) (ahead cluster : Nat) (found : Int) :
    (fat16GetClusterForOffsetLoop ahead cluster disk).1 = .ok found ∧ 0 ≤ found ↔
      ∃ number, productWalk image header ahead cluster = some number ∧ found = (number : Nat) := by
  induction ahead generalizing cluster disk with
  | zero =>
    constructor
    · rintro ⟨same, _⟩
      exact ⟨cluster, rfl, (Except.ok.inj same).symm⟩
    · rintro ⟨number, same, rfl⟩
      cases same
      exact ⟨rfl, Int.natCast_nonneg _⟩
  | succ ahead ih =>
    have entry := volume.fat16GetFatEntry cluster
    rw [productWalk]
    by_cases low : entryProduct header cluster + 2 < 2 ^ 31
    · rw [if_pos low] at entry
      obtain ⟨stops, goes⟩ := fat16GetClusterForOffsetLoop_step ahead entry
      by_cases refused : EntryRefused (productEntry image header cluster : Nat)
      · rw [stops refused, if_neg (not_and_not_right.mpr (fun _ => refused))]
        constructor
        · rintro ⟨same, passed⟩
          rw [← Except.ok.inj same] at passed
          exact absurd passed (by decide)
        · rintro ⟨number, impossible, _⟩
          cases impossible
      · rw [goes refused, if_pos ⟨low, refused⟩]
        exact ih (volume.moved (Unmoved.fat16GetFatEntry _ disk).2) _
    · rw [if_neg low] at entry
      have failed : fat16GetClusterForOffsetLoop (ahead + 1) cluster disk = _ := bind_error (run_of_result entry)
      rw [failed, if_neg (fun both => low both.1)]
      constructor
      · rintro ⟨impossible, _⟩
        cases impossible
      · rintro ⟨number, impossible, _⟩
        cases impossible

theorem clusterStart_place (volume : Volume disk image header) (loaded : disk.fsPrivate = some fatPrivate)
    (cluster : Nat) : clusterStart fatPrivate cluster = clusterPlace header cluster := by
  obtain ⟨volume', here, same, ending, _⟩ := volume.loaded
  obtain rfl : fatPrivate = volume' := Option.some.inj (loaded.symm.trans here)
  unfold clusterStart fat16ClusterToSector clusterPlace
  rw [same, ending]

theorem Volume.pieceAt_iff (volume : Volume disk image header) (loaded : disk.fsPrivate = some fatPrivate)
    {first count : Nat} {offset start : Int} : PieceAt disk fatPrivate first offset count start ↔
      0 ≤ start ∧ start + count < 2 ^ 31 ∧ productPlace image header first offset = some start := by
  have same : fatPrivate.header = header := by
    obtain ⟨_, here, same, _⟩ := volume.loaded
    cases loaded.symm.trans here
    exact same
  have positive := clusterSize_pos volume
  have lookup : ∀ found, (fat16GetClusterForOffset first offset disk).1 = .ok found ∧ 0 ≤ found ↔
      ∃ number, productWalk image header (offset.tdiv (clusterSize header)).toNat first = some number ∧
        found = (number : Nat) := by
    intro found
    unfold fat16GetClusterForOffset
    rw [bind_ok (fsPrivate_run loaded), read_bind, sizeOfClusterBytes_eq volume same, if_neg (by omega)]
    exact volume.clusterLoop _ _ _
  unfold PieceAt productPlace
  rw [same, Option.map_eq_some_iff]
  constructor
  · rintro ⟨low, high, found, run, passed, place⟩
    obtain ⟨number, walk, rfl⟩ := (lookup found).mp ⟨run, passed⟩
    rw [clusterStart_place volume loaded] at place
    exact ⟨low, high, number, walk, place.symm⟩
  · rintro ⟨low, high, number, walk, place⟩
    obtain ⟨run, passed⟩ := (lookup number).mpr ⟨number, walk, rfl⟩
    rw [← clusterStart_place volume loaded] at place
    exact ⟨low, high, number, run, passed, place.symm⟩

end Driver

end PeachOS
