import Mathlib.Data.List.Chain
import Mathlib.Tactic.Ring
import PeachOS.Fat16Read

/-! What a file on a FAT16 volume holds, and when `fat16_read` returns it. -/

namespace PeachOS
open Program ByteMemory

/-- The first sector of the data region: after the reserved sectors, the FATs and the
root directory, whose entries are 32 bytes each. -/
def dataStartSector (header : FatHeader) : Nat :=
  header.reservedSectors.toNat + header.fatCopies.toNat * header.sectorsPerFat.toNat +
    header.rootDirEntries.toNat * 32 / peachosSectorSize

def clusterSize (header : FatHeader) : Nat := header.sectorsPerCluster.toNat * peachosSectorSize

def clusterPos (header : FatHeader) (cluster : Nat) : Nat :=
  (dataStartSector header + (cluster - 2) * header.sectorsPerCluster.toNat) * peachosSectorSize

/-- The entry of a cluster in the first FAT, which starts after the reserved sectors. -/
def fatEntry (image : Image) (header : FatHeader) (cluster : Nat) : Nat :=
  let pos := header.reservedSectors.toNat * peachosSectorSize + 2 * cluster
  (image pos).toNat + 256 * (image (pos + 1)).toNat

/-- A disk that `fat16_resolve` accepted, wherever its streams stand. -/
structure Volume (disk : Disk) (image : Image) (header : FatHeader) : Prop where
  content : disk.image = image
  sector : disk.sectorSize = peachosSectorSize
  clusters : 0 < header.sectorsPerCluster.toNat
  rootEntries : header.rootDirEntries.toNat % 16 = 0
  loaded : ∃ fatPrivate, disk.fsPrivate = some fatPrivate ∧ fatPrivate.header = header ∧
    fatPrivate.rootDirectory.endingSectorPos = dataStartSector header ∧
    (∃ pos, fatPrivate.clusterReadStream = some ⟨pos, 0⟩) ∧
    ∃ pos, fatPrivate.fatReadStream = some ⟨pos, 0⟩

/-- The file of `item`: a chain of data clusters in the first FAT, long enough for the
file's size. -/
structure ClusterChain (image : Image) (header : FatHeader) (item : FatDirectoryItem)
    (chain : List Nat) : Prop where
  first : chain.head? = some (fat16GetFirstCluster item).toNat
  data : ∀ cluster ∈ chain, 2 ≤ cluster
  linked : chain.IsChain (fun cluster next => fatEntry image header cluster = next)
  ended : ∀ cluster, chain.getLast? = some cluster → 0xFFF8 ≤ fatEntry image header cluster
  size : item.filesize.toNat ≤ chain.length * clusterSize header

/-- A file with every byte position below 2³¹. -/
structure FileChain (image : Image) (header : FatHeader) (item : FatDirectoryItem)
    (chain : List Nat) : Prop extends ClusterChain image header item chain where
  sizeLow : item.filesize.toNat < 2 ^ 31
  low : ∀ cluster ∈ chain, clusterPos header cluster + clusterSize header < 2 ^ 31

/-- The data of the clusters, one after the other. -/
def fileData (image : Image) (header : FatHeader) (chain : List Nat) : List Byte :=
  chain.flatMap (fun cluster => diskBytes image (clusterPos header cluster) (clusterSize header))

/-- `fat16_read` returns `nmemb` and puts out the bytes of the file from `pos` on. -/
def ReadsFile (disk : Disk) (header : FatHeader) (item : FatDirectoryItem) (chain : List Nat)
    (pos size nmemb : Word) (out : Addr) (bytes : Bytes) : Prop :=
  ∃ after left, fat16Read item pos size nmemb out bytes disk =
      (.ok ((nmemb.toNat : Int), after), left) ∧
    loadBytes after out (size.toNat * nmemb.toNat) =
      ((fileData disk.image header chain).drop pos.toNat).take (size.toNat * nmemb.toNat) ∧
    ∀ address, size.toNat * nmemb.toNat ≤ (address - out).toNat → after address = bytes address

/-- Every item starts in the first cluster and is no longer than a cluster, and a read
that leaves the first cluster goes on in the cluster right after it. -/
structure WithinFirstCluster (header : FatHeader) (chain : List Nat) (pos size nmemb : Nat) :
    Prop where
  starts : pos + size * (nmemb - 1) < clusterSize header
  short : size ≤ clusterSize header
  adjacent : pos + size * nmemb ≤ clusterSize header ∨
    ∃ cluster rest, chain = cluster :: (cluster + 1) :: rest

theorem diskBytes_drop_take (image : Image) (pos offset count total : Nat)
    (inside : offset + count ≤ total) (rest : List Byte) :
    ((diskBytes image pos total ++ rest).drop offset).take count =
      diskBytes image (pos + offset) count := by
  have split : diskBytes image pos total = diskBytes image pos offset ++
      (diskBytes image (pos + offset) count ++
        diskBytes image (pos + offset + count) (total - offset - count)) := by
    rw [diskBytes_append, diskBytes_append]
    congr 1
    omega
  rw [split, List.append_assoc, List.append_assoc,
    List.drop_left' (diskBytes_length image pos offset),
    List.take_left' (diskBytes_length image (pos + offset) count)]

section Volume
variable {disk : Disk} {image : Image} {header : FatHeader}

theorem clusterPos_succ {cluster : Nat} (data : 2 ≤ cluster) :
    clusterPos header (cluster + 1) = clusterPos header cluster + clusterSize header := by
  unfold clusterPos clusterSize
  rw [show cluster + 1 - 2 = cluster - 2 + 1 by omega, Nat.succ_mul, ← Nat.add_assoc, Nat.add_mul]

theorem sizeOfClusterBytes_eq (volume : Volume disk image header) {fatPrivate : FatPrivate}
    (same : fatPrivate.header = header) :
    sizeOfClusterBytes disk fatPrivate = (clusterSize header : Nat) := by
  unfold sizeOfClusterBytes clusterSize
  rw [same, volume.sector, Int.natCast_mul]

theorem clusterSize_pos (volume : Volume disk image header) : 0 < clusterSize header :=
  Nat.mul_pos volume.clusters (by decide)

theorem Volume.keep (volume : Volume disk image header) (stream : DiskStream)
    (onDisk : stream.disk = 0) : Volume (disk.withPrivate (fun fatPrivate =>
      { fatPrivate with clusterReadStream := some stream })) image header where
  content := volume.content
  sector := volume.sector
  clusters := volume.clusters
  rootEntries := volume.rootEntries
  loaded := by
    obtain ⟨fatPrivate, loaded, same, ending, _, fatStream⟩ := volume.loaded
    refine ⟨{ fatPrivate with clusterReadStream := some stream }, ?_, same, ending,
      ⟨stream.pos, by rw [← onDisk]⟩, fatStream⟩
    rw [Disk.withPrivate, loaded]
    rfl

/-- No entry of the FAT is looked up for an offset in the first cluster. -/
theorem fat16GetClusterForOffset_first (volume : Volume disk image header) (cluster : Int)
    {offset : Nat} (inside : offset < clusterSize header) :
    fat16GetClusterForOffset cluster offset disk = (.ok cluster, disk) := by
  obtain ⟨fatPrivate, loaded, same, _⟩ := volume.loaded
  have positive := clusterSize_pos volume
  have ahead : ((offset : Int).tdiv (clusterSize header : Nat)).toNat = 0 := by
    rw [← Int.ofNat_tdiv, Int.toNat_natCast, Nat.div_eq_of_lt inside]
  have private_run : fsPrivate disk = (.ok fatPrivate, disk) := by
    simp only [fsPrivate, read_bind, loaded, pure_run]
  rw [fat16GetClusterForOffset, bind_ok private_run, read_bind,
    sizeOfClusterBytes_eq volume same, if_neg (by omega), ahead]
  rfl

theorem fat16ReadInternal_first (volume : Volume disk image header) {cluster offset total : Nat}
    (data : 2 ≤ cluster) (inside : offset < clusterSize header) (short : total ≤ clusterSize header)
    (low : clusterPos header cluster + offset + total < 2 ^ 31) (out : Addr) (bytes : Bytes) :
    ∃ left, Volume left image header ∧ fat16ReadInternal cluster offset total out bytes disk =
      (.ok (0, storeBytes bytes out (diskBytes image (clusterPos header cluster + offset) total)),
        left) := by
  obtain ⟨fatPrivate, loaded, same, ending, ⟨streamPos, stream⟩, _⟩ := volume.loaded
  have private_run : fsPrivate disk = (.ok fatPrivate, disk) := by
    simp only [fsPrivate, read_bind, loaded, pure_run]
  have remainder : (offset : Int).tmod (clusterSize header : Nat) = offset := by
    rw [← Int.ofNat_tmod, Nat.mod_eq_of_lt inside]
  have position : fat16ClusterToSector fatPrivate cluster * disk.sectorSize + offset =
      ((clusterPos header cluster + offset : Nat) : Int) := by
    unfold fat16ClusterToSector clusterPos
    rw [ending, same, volume.sector]
    push_cast [Nat.cast_sub data]
    ring
  let moved : DiskStream := ⟨((clusterPos header cluster + offset : Nat) : Int) + total, 0⟩
  have clusterRead : clusterReadAt fatPrivate ((clusterPos header cluster + offset : Nat) : Int)
      (total : Int) disk = (.ok (0, diskBytes image (clusterPos header cluster + offset) total),
        disk.withPrivate (fun fatPrivate => { fatPrivate with clusterReadStream := some moved })) := by
    simp only [clusterReadAt, streamReadAt, stream, read_bind, diskstreamerSeek,
      diskstreamerRead_bytes _ _ _ low, volume.content, update_bind, pure_run, moved]
  refine ⟨_, volume.keep moved rfl, ?_⟩
  rw [fat16ReadInternal, Int.toNat_natCast, fat16ReadInternalFromStream, bind_ok private_run,
    read_bind, bind_ok (fat16GetClusterForOffset_first volume cluster inside), if_neg (by omega)]
  simp only [id_eq, sizeOfClusterBytes_eq volume same, remainder, position]
  rw [if_neg (by omega), bind_ok clusterRead]
  simp

theorem fat16ReadLoop_first {item : FatDirectoryItem} {cluster : Nat} {size : Word}
    (first : (fat16GetFirstCluster item).toInt = cluster) (data : 2 ≤ cluster)
    (short : size.toNat ≤ clusterSize header) (remaining offset : Nat) (offsetWord : Word)
    (offsetSame : offsetWord.toNat = offset)
    (starts : offset + size.toNat * (remaining - 1) < clusterSize header)
    (low : clusterPos header cluster + offset + size.toNat * remaining < 2 ^ 31)
    (volume : Volume disk image header) (out : Addr) (bytes : Bytes) :
    ∃ left, fat16ReadLoop item size remaining offsetWord out bytes disk =
      (.ok (0, storeBytes bytes out
        (diskBytes image (clusterPos header cluster + offset) (size.toNat * remaining))), left) := by
  induction remaining generalizing disk offset offsetWord out bytes with
  | zero => exact ⟨disk, rfl⟩
  | succ remaining ih =>
    have product : size.toNat * (remaining + 1) = size.toNat + size.toNat * remaining := by
      rw [Nat.mul_succ, Nat.add_comm]
    have offsetInt : offsetWord.toInt = offset := by
      rw [BitVec.toInt_eq_toNat_of_lt (by omega), offsetSame]
    have sizeInt : size.toInt = size.toNat := BitVec.toInt_eq_toNat_of_lt (by omega)
    obtain ⟨middle, middleVolume, chunk⟩ := fat16ReadInternal_first volume data
      (by omega : offset < clusterSize header) short (by omega) out bytes
    rw [fat16ReadLoop, first, offsetInt, sizeInt, bind_ok chunk]
    simp only
    rw [if_neg (by decide), product, ← diskBytes_append, storeBytes_append, diskBytes_length,
      BitVec.ofNat_toNat, BitVec.setWidth_eq, Nat.add_assoc]
    cases remaining with
    | zero => exact ⟨middle, rfl⟩
    | succ remaining =>
      have next : size.toNat * (remaining + 1 + 1 - 1) = size.toNat + size.toNat * (remaining + 1 - 1) := by
        rw [Nat.add_sub_cancel, Nat.add_sub_cancel, Nat.mul_succ, Nat.add_comm]
      have landed : (offsetWord + size).toNat = offset + size.toNat := by
        rw [BitVec.toNat_add, offsetSame]
        omega
      exact ih (offset + size.toNat) (offsetWord + size) landed
        (by omega) (by omega) middleVolume _ _

end Volume

theorem fileData_start {image : Image} {header : FatHeader} {item : FatDirectoryItem}
    {chain : List Nat} {pos size nmemb : Nat} (file : FileChain image header item chain)
    (inside : WithinFirstCluster header chain pos size nmemb) (inFile : pos + size * nmemb ≤ item.filesize.toNat)
    (positive : 0 < size * nmemb) :
    let cluster := (fat16GetFirstCluster item).toNat
    2 ≤ cluster ∧ clusterPos header cluster + pos + size * nmemb < 2 ^ 31 ∧
      ((fileData image header chain).drop pos).take (size * nmemb) =
        diskBytes image (clusterPos header cluster + pos) (size * nmemb) := by
  have first := file.first
  rcases inside.adjacent with fits | ⟨cluster, rest, chainEq⟩
  · cases chain with
    | nil => simp at first
    | cons cluster rest =>
      rw [List.head?_cons, Option.some.injEq] at first
      have member : cluster ∈ cluster :: rest := List.mem_cons_self
      have low := file.low cluster member
      rw [← first]
      refine ⟨file.data cluster member, by omega, ?_⟩
      rw [fileData, List.flatMap_cons, diskBytes_drop_take _ _ _ _ _ fits]
  · subst chainEq
    rw [List.head?_cons, Option.some.injEq] at first
    have data := file.data cluster (by simp)
    have low := file.low (cluster + 1) (by simp)
    rw [clusterPos_succ data] at low
    have reach : pos + size * nmemb ≤ clusterSize header + clusterSize header := by
      have starts := inside.starts
      have short := inside.short
      cases nmemb with
      | zero => omega
      | succ count =>
        rw [Nat.add_sub_cancel] at starts
        rw [Nat.mul_succ]
        omega
    rw [← first]
    refine ⟨data, by omega, ?_⟩
    rw [fileData, List.flatMap_cons, List.flatMap_cons, clusterPos_succ data, ← List.append_assoc,
      diskBytes_append, diskBytes_drop_take _ _ _ _ _ reach]

/-- A read that needs no entry of the FAT returns the file's bytes. -/
theorem fat16Read_first_cluster {disk : Disk} {image : Image} {header : FatHeader}
    {item : FatDirectoryItem} {chain : List Nat} {pos size nmemb : Word} (out : Addr) (bytes : Bytes)
    (volume : Volume disk image header) (file : FileChain image header item chain)
    (sizePositive : 0 < size.toNat) (nmembPositive : 0 < nmemb.toNat)
    (inFile : pos.toNat + size.toNat * nmemb.toNat ≤ item.filesize.toNat)
    (inside : WithinFirstCluster header chain pos.toNat size.toNat nmemb.toNat) :
    ReadsFile disk header item chain pos size nmemb out bytes := by
  have positive := Nat.mul_pos sizePositive nmembPositive
  obtain ⟨data, low, slice⟩ := fileData_start file inside inFile positive
  have sizeLow := file.sizeLow
  have clusterSmall : (fat16GetFirstCluster item).toNat < 2 ^ 16 := by
    unfold fat16GetFirstCluster
    rw [BitVec.toNat_setWidth]
    have := (item.high16BitsFirstCluster ||| item.low16BitsFirstCluster).isLt
    omega
  have first : (fat16GetFirstCluster item).toInt = (fat16GetFirstCluster item).toNat :=
    BitVec.toInt_eq_toNat_of_lt (by omega)
  have nmembSmall : nmemb.toNat ≤ size.toNat * nmemb.toNat := Nat.le_mul_of_pos_left _ sizePositive
  have nmembInt : nmemb.toInt = nmemb.toNat := BitVec.toInt_eq_toNat_of_lt (by omega)
  obtain ⟨left, loop⟩ := fat16ReadLoop_first first data inside.short nmemb.toNat pos.toNat pos rfl
    inside.starts low volume out bytes
  have length : (diskBytes image (clusterPos header (fat16GetFirstCluster item).toNat + pos.toNat)
      (size.toNat * nmemb.toNat)).length = size.toNat * nmemb.toNat := diskBytes_length _ _ _
  refine ⟨storeBytes bytes out (diskBytes image
    (clusterPos header (fat16GetFirstCluster item).toNat + pos.toNat) (size.toNat * nmemb.toNat)),
    left, ?_, ?_, fun address outside => ?_⟩
  · rw [fat16Read, bind_ok loop]
    simp only
    rw [if_neg (by decide), nmembInt]
    rfl
  · have stored := loadBytes_storeBytes bytes out
      (diskBytes image (clusterPos header (fat16GetFirstCluster item).toNat + pos.toNat)
        (size.toNat * nmemb.toNat)) (by omega)
    rw [length] at stored
    rw [stored, volume.content, slice]
  · exact storeBytes_outside _ _ _ (by omega) (by omega)

/-- A volume with one-sector clusters. Its file lies in clusters 2 and 4. -/
def splitHeader : FatHeader where
  sectorsPerCluster := 1
  reservedSectors := 1
  fatCopies := 1
  rootDirEntries := 16
  sectorsPerFat := 1
  signature := 0x29

def splitImage : Image := fun pos =>
  if pos = 516 then 4 else if pos = 520 ∨ pos = 521 then 0xFF else 0

def splitDisk : Disk where
  image := splitImage
  sectorSize := 512
  filesystem := true
  fsPrivate := some ⟨splitHeader, ⟨0x01000000, 1, 2, 3⟩, some ⟨0, 0⟩, some ⟨0, 0⟩, some ⟨0, 0⟩⟩

def splitFile : FatDirectoryItem where
  filename := [0x41]
  ext := []
  itemAttribute := 0
  high16BitsFirstCluster := 0
  low16BitsFirstCluster := 2
  filesize := 1024

theorem splitDisk_volume : Volume splitDisk splitImage splitHeader where
  content := rfl
  sector := rfl
  clusters := by decide
  rootEntries := by decide
  loaded := ⟨_, rfl, rfl, by decide, ⟨0, rfl⟩, ⟨0, rfl⟩⟩

theorem splitFile_chain : FileChain splitImage splitHeader splitFile [2, 4] where
  first := by decide
  data := by decide
  linked := .cons_cons (by decide) (.singleton _)
  ended := by
    intro cluster last
    obtain rfl : 4 = cluster := by simpa using last
    decide
  size := by decide
  sizeLow := by decide
  low := by decide

theorem fat16Read_first_cluster_split :
    ReadsFile splitDisk splitHeader splitFile [2, 4] 100 4 3 0x02000000 (fun _ => 0) :=
  fat16Read_first_cluster 0x02000000 (fun _ => 0) splitDisk_volume splitFile_chain (by decide)
    (by decide) (by decide) ⟨by decide, by decide, Or.inl (by decide)⟩

/-- The second cluster of a file is looked for at the product of the FAT's position and
the entry's offset, not at their sum: the byte at 512 is not found. -/
theorem fat16Read_second_cluster_fails :
    Volume splitDisk splitImage splitHeader ∧ FileChain splitImage splitHeader splitFile [2, 4] ∧
      512 + 1 * 1 ≤ splitFile.filesize.toNat ∧
      ¬ReadsFile splitDisk splitHeader splitFile [2, 4] 512 1 1 0x02000000 (fun _ => 0) := by
  refine ⟨splitDisk_volume, splitFile_chain, by decide, ?_⟩
  rintro ⟨after, left, run, _⟩
  have failed : (match fat16Read splitFile 512 1 1 0x02000000 (fun _ => 0) splitDisk with
      | (.ok (res, _), _) => res
      | (.error _, _) => 0) = - EIO := by decide +kernel
  rw [run] at failed
  have different : ((1 : Word).toNat : Int) ≠ - EIO := by decide
  exact different failed

end PeachOS
