import PeachOS.Fat16File
import PeachOS.Fat16Resolve
import PeachOS.PathParts

/-! Where a FAT16 volume has its FAT, its root directory and its clusters, and where the
driver looks for them once it has mounted the disk. -/

namespace PeachOS
open Program ByteMemory

/-- The fields of a boot sector that say where everything is. -/
structure BootSector where
  bytesPerSector : Nat
  sectorsPerCluster : Nat
  reservedSectors : Nat
  fatCopies : Nat
  rootDirEntries : Nat
  sectorsPerFat : Nat
  totalSectors : Nat
  deriving DecidableEq

def BootSector.fatSectors (boot : BootSector) : Nat := boot.fatCopies * boot.sectorsPerFat

def BootSector.rootSize (boot : BootSector) : Nat := boot.rootDirEntries * fatDirectoryItemSize

/-- The sectors of the root directory, the last one perhaps not full. -/
def BootSector.rootSectors (boot : BootSector) : Nat :=
  (boot.rootSize + boot.bytesPerSector - 1) / boot.bytesPerSector

def BootSector.fatPos (boot : BootSector) : Nat := boot.reservedSectors * boot.bytesPerSector

def BootSector.rootPos (boot : BootSector) : Nat :=
  (boot.reservedSectors + boot.fatSectors) * boot.bytesPerSector

def BootSector.clusterSector (boot : BootSector) (cluster : Nat) : Nat :=
  boot.reservedSectors + boot.fatSectors + boot.rootSectors + (cluster - 2) * boot.sectorsPerCluster

def BootSector.clusterPos (boot : BootSector) (cluster : Nat) : Nat :=
  boot.clusterSector cluster * boot.bytesPerSector

/-- A data cluster of the volume: its last sector is one of the volume's. The driver's cluster
numbers are of type `int`. -/
def BootSector.HasCluster (boot : BootSector) (cluster : Nat) : Prop :=
  2 ≤ cluster ∧ cluster < 2 ^ 31 ∧ boot.clusterSector cluster + boot.sectorsPerCluster ≤ boot.totalSectors

def imageWord (image : Image) (pos : Nat) : Nat := (image pos).toNat + 256 * (image (pos + 1)).toNat

/-- The number of sectors is in the field of two bytes, or in the one of four. -/
def totalSectors (image : Image) : Nat :=
  if imageWord image 19 = 0 then imageWord image 32 + 2 ^ 16 * imageWord image 34 else imageWord image 19

def bootSector (image : Image) : BootSector where
  bytesPerSector := imageWord image 11
  sectorsPerCluster := (image 13).toNat
  reservedSectors := imageWord image 14
  fatCopies := (image 16).toNat
  rootDirEntries := imageWord image 17
  sectorsPerFat := imageWord image 22
  totalSectors := totalSectors image

/-- A result of `int` arithmetic, which has none outside the range of an `int`. -/
def checkedInt (value : Int) : Option Int :=
  if - 2 ^ 31 ≤ value ∧ value < 2 ^ 31 then some value else none

/-- `starting_pos` for an offset in a cluster, with the steps of `fat16_cluster_to_sector`. -/
def fat16StartingPos (fatPrivate : FatPrivate) (sectorSize cluster offsetFromCluster : Int) : Option Int := do
  let ahead ← checkedInt (cluster - 2)
  let sectors ← checkedInt (ahead * fatPrivate.header.sectorsPerCluster.toNat)
  let startingSector ← checkedInt (fatPrivate.rootDirectory.endingSectorPos + sectors)
  let start ← checkedInt (startingSector * sectorSize)
  checkedInt (start + offsetFromCluster)

/-- `fat_table_position` of `fat16_get_fat_entry`. -/
def fatTablePosition (disk : Disk) (fatPrivate : FatPrivate) : Word :=
  fat16GetFirstFatSector fatPrivate * BitVec.ofInt 32 disk.sectorSize

/-- `directory_start_pos` of `fat16_get_total_items_for_directory`. -/
def directoryStartPos (disk : Disk) (sector : Int) : Int :=
  (BitVec.ofInt 32 sector * BitVec.ofInt 32 disk.sectorSize).toInt

/-- The driver looks for everything where the layout has it. -/
structure UsesLayout (disk : Disk) (fatPrivate : FatPrivate) (boot : BootSector) : Prop where
  fat : (fatTablePosition disk fatPrivate).toNat = boot.fatPos
  root : checkedInt (fat16SectorToAbsolute disk.sectorSize fatPrivate.rootDirectory.sectorPos) =
    some (boot.rootPos : Int)
  cluster : ∀ cluster, boot.HasCluster cluster →
    fat16StartingPos fatPrivate disk.sectorSize cluster 0 = some (boot.clusterPos cluster : Int)
  counted : ∀ cluster, boot.HasCluster cluster →
    directoryStartPos disk (fat16ClusterToSector fatPrivate (cluster : Nat)) = boot.clusterPos cluster
  apart : ∀ cluster, boot.HasCluster cluster →
    fat16SectorToAbsolute disk.sectorSize fatPrivate.rootDirectory.sectorPos + boot.rootSize ≤
      fat16SectorToAbsolute disk.sectorSize (fat16ClusterToSector fatPrivate (cluster : Nat))

/-- Sectors of 512 bytes, a root directory of whole sectors, and all positions below 2 GiB. With
sectors of another size the FAT and the root directory are served at the start of the disk only,
and clusters where they do not differ. -/
structure BootSector.Served (boot : BootSector) : Prop where
  size : boot.bytesPerSector = peachosSectorSize ∨ boot.reservedSectors = 0 ∧ boot.fatSectors = 0
  root : boot.rootPos < 2 ^ 31
  cluster : ∀ cluster, boot.HasCluster cluster →
    16 ∣ boot.rootDirEntries ∧ boot.clusterPos cluster < 2 ^ 31 ∧
      (boot.bytesPerSector = peachosSectorSize ∨
        boot.bytesPerSector ∣ boot.rootSize ∧ (cluster - 2) * boot.sectorsPerCluster = 0)

/-- The first sector of a cluster, where the driver has it. -/
def BootSector.drivenSector (boot : BootSector) (cluster : Nat) : Nat :=
  boot.fatSectors + boot.reservedSectors + boot.rootSize / peachosSectorSize +
    (cluster - 2) * boot.sectorsPerCluster

/-- What `fat16_resolve` leaves behind for a boot sector. -/
structure Mounts (boot : BootSector) (disk : Disk) (fatPrivate : FatPrivate) : Prop where
  sector : disk.sectorSize = peachosSectorSize
  reserved : fatPrivate.header.reservedSectors.toNat = boot.reservedSectors
  clusters : fatPrivate.header.sectorsPerCluster.toNat = boot.sectorsPerCluster
  rootStart : fatPrivate.rootDirectory.sectorPos = (boot.fatSectors + boot.reservedSectors : Nat)
  rootEnd : fatPrivate.rootDirectory.endingSectorPos =
    (boot.fatSectors + boot.reservedSectors + boot.rootSize / peachosSectorSize : Nat)

section Checked
variable {fatPrivate : FatPrivate} {sectorSize cluster offset pos : Int}

@[simp] theorem checkedInt_eq_some {value result : Int} : checkedInt value = some result ↔
    (- 2 ^ 31 ≤ value ∧ value < 2 ^ 31) ∧ value = result := by
  unfold checkedInt
  by_cases fits : - 2 ^ 31 ≤ value ∧ value < 2 ^ 31
  · rw [if_pos fits, Option.some_inj]
    exact (and_iff_right fits).symm
  · rw [if_neg fits]
    exact ⟨fun impossible => absurd impossible.symm (Option.some_ne_none result), fun within => absurd within.1 fits⟩

theorem fat16StartingPos_eq_some :
    fat16StartingPos fatPrivate sectorSize cluster offset = some pos ↔
      (- 2 ^ 31 ≤ cluster - 2 ∧ cluster - 2 < 2 ^ 31) ∧
      (- 2 ^ 31 ≤ (cluster - 2) * fatPrivate.header.sectorsPerCluster.toNat ∧
        (cluster - 2) * fatPrivate.header.sectorsPerCluster.toNat < 2 ^ 31) ∧
      (- 2 ^ 31 ≤ fat16ClusterToSector fatPrivate cluster ∧ fat16ClusterToSector fatPrivate cluster < 2 ^ 31) ∧
      (- 2 ^ 31 ≤ fat16ClusterToSector fatPrivate cluster * sectorSize ∧
        fat16ClusterToSector fatPrivate cluster * sectorSize < 2 ^ 31) ∧
      (- 2 ^ 31 ≤ fat16ClusterToSector fatPrivate cluster * sectorSize + offset ∧
        fat16ClusterToSector fatPrivate cluster * sectorSize + offset < 2 ^ 31) ∧
      fat16ClusterToSector fatPrivate cluster * sectorSize + offset = pos := by
  unfold fat16StartingPos fat16ClusterToSector
  simp only [Option.bind_eq_bind, Option.bind_eq_some_iff, checkedInt_eq_some]
  constructor
  · rintro ⟨_, ⟨first, rfl⟩, _, ⟨second, rfl⟩, _, ⟨third, rfl⟩, _, ⟨fourth, rfl⟩, fifth, rfl⟩
    exact ⟨first, second, third, fourth, fifth, rfl⟩
  · rintro ⟨first, second, third, fourth, fifth, rfl⟩
    exact ⟨_, ⟨first, rfl⟩, _, ⟨second, rfl⟩, _, ⟨third, rfl⟩, _, ⟨fourth, rfl⟩, fifth, rfl⟩

theorem fat16StartingPos_iff (ending : 0 ≤ fatPrivate.rootDirectory.endingSectorPos) (data : 2 ≤ cluster)
    (number : cluster < 2 ^ 31) (inside : 0 ≤ offset) :
    fat16StartingPos fatPrivate (peachosSectorSize : Nat) cluster offset = some pos ↔
      fat16ClusterToSector fatPrivate cluster * (peachosSectorSize : Nat) + offset = pos ∧ pos < 2 ^ 31 := by
  have ahead : 0 ≤ (cluster - 2) * (fatPrivate.header.sectorsPerCluster.toNat : Int) :=
    Int.mul_nonneg (by omega) (by omega)
  have sector : fat16ClusterToSector fatPrivate cluster = fatPrivate.rootDirectory.endingSectorPos +
      (cluster - 2) * (fatPrivate.header.sectorsPerCluster.toNat : Int) := rfl
  rw [fat16StartingPos_eq_some]
  constructor
  · rintro ⟨_, _, _, _, low, rfl⟩
    exact ⟨rfl, low.2⟩
  · rintro ⟨rfl, low⟩
    rw [sector] at low ⊢
    generalize (cluster - 2) * (fatPrivate.header.sectorsPerCluster.toNat : Int) = sectors at *
    unfold peachosSectorSize at low ⊢
    exact ⟨⟨by omega, by omega⟩, ⟨by omega, by omega⟩, ⟨by omega, by omega⟩, ⟨by omega, by omega⟩,
      ⟨by omega, by omega⟩, rfl⟩

end Checked

section Layout
variable {boot : BootSector} {disk : Disk} {fatPrivate : FatPrivate} {cluster : Nat}

theorem Mounts.fatPos (mounts : Mounts boot disk fatPrivate) :
    (fatTablePosition disk fatPrivate).toNat = boot.reservedSectors * peachosSectorSize := by
  have small := fatPrivate.header.reservedSectors.isLt
  have size : (BitVec.ofInt 32 ((peachosSectorSize : Nat) : Int)).toNat = peachosSectorSize := rfl
  unfold fatTablePosition fat16GetFirstFatSector
  rw [mounts.sector, ← mounts.reserved, BitVec.toNat_mul, BitVec.toNat_setWidth, size]
  unfold peachosSectorSize
  omega

theorem Mounts.rootPos (mounts : Mounts boot disk fatPrivate) :
    fat16SectorToAbsolute disk.sectorSize fatPrivate.rootDirectory.sectorPos =
      ((boot.fatSectors + boot.reservedSectors) * peachosSectorSize : Nat) := by
  unfold fat16SectorToAbsolute
  rw [mounts.sector, mounts.rootStart]
  push_cast
  rfl

theorem Mounts.clusterPos (mounts : Mounts boot disk fatPrivate) {cluster : Nat} (data : 2 ≤ cluster) :
    fat16SectorToAbsolute disk.sectorSize (fat16ClusterToSector fatPrivate (cluster : Nat)) =
      (boot.drivenSector cluster * peachosSectorSize : Nat) := by
  unfold fat16SectorToAbsolute fat16ClusterToSector BootSector.drivenSector
  rw [mounts.sector, mounts.rootEnd, mounts.clusters]
  push_cast [Nat.cast_sub data]
  ring

theorem directoryStartPos_eq {sector : Int} (low : 0 ≤ sector * disk.sectorSize)
    (high : sector * disk.sectorSize < 2 ^ 31) :
    directoryStartPos disk sector = fat16SectorToAbsolute disk.sectorSize sector := by
  unfold directoryStartPos fat16SectorToAbsolute
  rw [← BitVec.ofInt_mul, BitVec.toInt_ofInt]
  rw [Int.bmod_eq_of_le (by omega) (by omega)]

theorem rootSectors_whole (positive : 0 < boot.bytesPerSector) {sectors : Nat}
    (whole : boot.rootSize = sectors * boot.bytesPerSector) : boot.rootSectors = sectors := by
  unfold BootSector.rootSectors
  rw [whole, Nat.add_sub_assoc positive, Nat.mul_comm, Nat.mul_add_div positive,
    Nat.div_eq_of_lt (by omega), Nat.add_zero]

theorem rootSectors_same (entries : 16 ∣ boot.rootDirEntries)
    (size : boot.bytesPerSector = peachosSectorSize ∨ boot.bytesPerSector ∣ boot.rootSize) :
    boot.rootSize / peachosSectorSize * peachosSectorSize = boot.rootSize ∧
      boot.rootSectors * boot.bytesPerSector = boot.rootSize := by
  obtain ⟨sectors, entries⟩ := entries
  have whole : boot.rootSize = sectors * peachosSectorSize := by
    unfold BootSector.rootSize peachosSectorSize fatDirectoryItemSize
    omega
  refine ⟨by rw [whole, Nat.mul_div_cancel _ (by decide)], ?_⟩
  cases size with
  | inl equal =>
    rw [← equal] at whole
    rw [rootSectors_whole (by rw [equal]; decide) whole, ← whole]
  | inr divides =>
    obtain ⟨sectors', divided⟩ := divides
    rw [Nat.mul_comm] at divided
    by_cases zero : boot.bytesPerSector = 0
    · rw [zero, Nat.mul_zero, divided, zero, Nat.mul_zero]
    · rw [rootSectors_whole (Nat.pos_of_ne_zero zero) divided, ← divided]

theorem zero_of_multiples {first second count : Nat} (different : first ≠ second)
    (same : count * second = count * first) : count = 0 := by
  by_contra nonzero
  exact different (Nat.eq_of_mul_eq_mul_left (Nat.pos_of_ne_zero nonzero) same).symm

theorem driven_root
    (size : boot.bytesPerSector = peachosSectorSize ∨ boot.reservedSectors = 0 ∧ boot.fatSectors = 0) :
    (boot.fatSectors + boot.reservedSectors) * peachosSectorSize =
      (boot.reservedSectors + boot.fatSectors) * boot.bytesPerSector := by
  cases size with
  | inl size => rw [size, Nat.add_comm]
  | inr nothing => rw [nothing.1, nothing.2, Nat.zero_mul, Nat.zero_mul]

theorem BootSector.HasCluster.second {cluster : Nat} (has : boot.HasCluster cluster) : boot.HasCluster 2 := by
  obtain ⟨data, _, last⟩ := has
  refine ⟨le_rfl, by decide, le_trans ?_ last⟩
  unfold BootSector.clusterSector
  rw [Nat.sub_self, Nat.zero_mul, Nat.add_zero]
  exact Nat.add_le_add_right (Nat.le_add_right _ _) _

theorem Mounts.startingPos (mounts : Mounts boot disk fatPrivate) {pos : Nat} (data : 2 ≤ cluster)
    (number : cluster < 2 ^ 31) : fat16StartingPos fatPrivate disk.sectorSize cluster 0 = some (pos : Int) ↔
      boot.drivenSector cluster * peachosSectorSize = pos ∧ pos < 2 ^ 31 := by
  have ending : 0 ≤ fatPrivate.rootDirectory.endingSectorPos := by
    rw [mounts.rootEnd]
    exact Int.natCast_nonneg _
  have place := mounts.clusterPos data
  unfold fat16SectorToAbsolute at place
  rw [mounts.sector] at place ⊢
  rw [fat16StartingPos_iff ending (by omega) (by omega) (Int.le_refl 0), place, Int.add_zero]
  exact and_congr Nat.cast_inj (by exact_mod_cast Iff.rfl)

theorem Mounts.starts_iff (mounts : Mounts boot disk fatPrivate) :
    ((fatTablePosition disk fatPrivate).toNat = boot.fatPos ∧
      checkedInt (fat16SectorToAbsolute disk.sectorSize fatPrivate.rootDirectory.sectorPos) =
        some (boot.rootPos : Int)) ↔
      (boot.bytesPerSector = peachosSectorSize ∨ boot.reservedSectors = 0 ∧ boot.fatSectors = 0) ∧
        boot.rootPos < 2 ^ 31 := by
  rw [mounts.fatPos, mounts.rootPos, checkedInt_eq_some]
  unfold BootSector.fatPos BootSector.rootPos
  constructor
  · rintro ⟨fat, ⟨_, low⟩, root⟩
    have root : (boot.fatSectors + boot.reservedSectors) * peachosSectorSize =
        (boot.reservedSectors + boot.fatSectors) * boot.bytesPerSector := by exact_mod_cast root
    refine ⟨?_, by rw [← root]; exact_mod_cast low⟩
    by_cases same : boot.bytesPerSector = peachosSectorSize
    · exact Or.inl same
    · have reserved := zero_of_multiples same fat
      have sectors := zero_of_multiples same (root.trans (by rw [Nat.add_comm]))
      exact Or.inr ⟨reserved, by omega⟩
  · rintro ⟨size, low⟩
    have fat : boot.reservedSectors * peachosSectorSize = boot.reservedSectors * boot.bytesPerSector := by
      cases size with
      | inl size => rw [size]
      | inr nothing => rw [nothing.1, Nat.zero_mul, Nat.zero_mul]
    have root := driven_root size
    rw [root]
    exact ⟨fat, ⟨by omega, by exact_mod_cast low⟩, rfl⟩

/-- Where the root directory has whole sectors and comes right after the FATs for both, they agree
on a cluster. -/
theorem driven_cluster
    (size : boot.bytesPerSector = peachosSectorSize ∨ boot.reservedSectors = 0 ∧ boot.fatSectors = 0)
    (entries : 16 ∣ boot.rootDirEntries)
    (same : boot.bytesPerSector = peachosSectorSize ∨
      boot.bytesPerSector ∣ boot.rootSize ∧ (cluster - 2) * boot.sectorsPerCluster = 0) :
    boot.drivenSector cluster * peachosSectorSize = boot.clusterPos cluster := by
  obtain ⟨driven, laid⟩ := rootSectors_same entries (same.imp_right And.left)
  have offset : (cluster - 2) * boot.sectorsPerCluster * peachosSectorSize =
      (cluster - 2) * boot.sectorsPerCluster * boot.bytesPerSector := by
    cases same with
    | inl size => rw [size]
    | inr nothing => rw [nothing.2, Nat.zero_mul, Nat.zero_mul]
  unfold BootSector.drivenSector BootSector.clusterPos BootSector.clusterSector
  calc
    _ = (boot.fatSectors + boot.reservedSectors) * peachosSectorSize +
        boot.rootSize / peachosSectorSize * peachosSectorSize +
          (cluster - 2) * boot.sectorsPerCluster * peachosSectorSize := by rw [Nat.add_mul, Nat.add_mul]
    _ = (boot.reservedSectors + boot.fatSectors) * boot.bytesPerSector +
        boot.rootSectors * boot.bytesPerSector +
          (cluster - 2) * boot.sectorsPerCluster * boot.bytesPerSector := by
      rw [driven, offset, driven_root size, laid]
    _ = _ := by rw [← Nat.add_mul, ← Nat.add_mul]

theorem Mounts.apart_iff (mounts : Mounts boot disk fatPrivate) (data : 2 ≤ cluster) :
    fat16SectorToAbsolute disk.sectorSize fatPrivate.rootDirectory.sectorPos + boot.rootSize ≤
      fat16SectorToAbsolute disk.sectorSize (fat16ClusterToSector fatPrivate (cluster : Nat)) ↔
    boot.rootSize ≤ (boot.rootSize / peachosSectorSize + (cluster - 2) * boot.sectorsPerCluster) *
      peachosSectorSize := by
  rw [mounts.rootPos, mounts.clusterPos data]
  unfold BootSector.drivenSector
  rw [Nat.add_assoc, Nat.add_mul (boot.fatSectors + boot.reservedSectors), Int.natCast_add,
    Int.add_le_add_iff_left, Int.ofNat_le]

/-- What agreement on the first two clusters says of the root directory and the cluster sizes. -/
theorem UsesLayout.clusters (uses : UsesLayout disk fatPrivate boot) (mounts : Mounts boot disk fatPrivate)
    (size : boot.bytesPerSector = peachosSectorSize ∨ boot.reservedSectors = 0 ∧ boot.fatSectors = 0)
    (has : boot.HasCluster cluster) : 16 ∣ boot.rootDirEntries ∧ boot.clusterPos cluster < 2 ^ 31 ∧
      (boot.bytesPerSector = peachosSectorSize ∨
        boot.bytesPerSector ∣ boot.rootSize ∧ (cluster - 2) * boot.sectorsPerCluster = 0) := by
  have second := ((mounts.startingPos le_rfl (by decide)).mp (uses.cluster 2 has.second)).1
  obtain ⟨here, low⟩ := (mounts.startingPos has.1 has.2.1).mp (uses.cluster cluster has)
  have apart := (mounts.apart_iff le_rfl).mp (uses.apart 2 has.second)
  rw [Nat.sub_self, Nat.zero_mul, Nat.add_zero] at apart
  have whole := le_antisymm apart (Nat.div_mul_le_self _ _)
  have entries : 16 ∣ boot.rootDirEntries := by
    unfold BootSector.rootSize peachosSectorSize fatDirectoryItemSize at whole
    omega
  refine ⟨entries, low, ?_⟩
  by_cases same : boot.bytesPerSector = peachosSectorSize
  · exact Or.inl same
  · right
    have root := driven_root size
    unfold BootSector.drivenSector BootSector.clusterPos BootSector.clusterSector at second here
    rw [Nat.sub_self, Nat.zero_mul, Nat.add_zero, Nat.add_zero, Nat.add_mul, root,
      Nat.add_mul (boot.reservedSectors + boot.fatSectors)] at second
    have rootSame := Nat.add_left_cancel second
    rw [Nat.add_mul, Nat.add_mul, root, rootSame, ← Nat.add_mul _ boot.rootSectors,
      Nat.add_mul (boot.reservedSectors + boot.fatSectors + boot.rootSectors)] at here
    refine ⟨⟨boot.rootSectors, ?_⟩, zero_of_multiples same (Nat.add_left_cancel here)⟩
    rw [whole, rootSame, Nat.mul_comm]

/-- The driver and the layout agree on everything if and only if the boot sector is one that
the driver serves. -/
theorem Mounts.usesLayout (mounts : Mounts boot disk fatPrivate) :
    UsesLayout disk fatPrivate boot ↔ boot.Served := by
  constructor
  · intro uses
    obtain ⟨size, root⟩ := mounts.starts_iff.mp ⟨uses.fat, uses.root⟩
    exact ⟨size, root, fun cluster has => uses.clusters mounts size has⟩
  · intro served
    obtain ⟨fat, root⟩ := mounts.starts_iff.mpr ⟨served.size, served.root⟩
    have agrees : ∀ cluster, boot.HasCluster cluster →
        boot.drivenSector cluster * peachosSectorSize = boot.clusterPos cluster := by
      intro cluster has
      obtain ⟨entries, _, same⟩ := served.cluster cluster has
      exact driven_cluster served.size entries same
    refine ⟨fat, root, ?_, ?_, ?_⟩
    · intro cluster has
      exact (mounts.startingPos has.1 has.2.1).mpr ⟨agrees cluster has, (served.cluster cluster has).2.1⟩
    · intro cluster has
      have low := (served.cluster cluster has).2.1
      have place := mounts.clusterPos has.1
      rw [agrees cluster has] at place
      unfold fat16SectorToAbsolute at place
      rw [directoryStartPos_eq (by rw [place]; exact Int.natCast_nonneg _) (by rw [place]; exact_mod_cast low)]
      exact place
    · intro cluster has
      obtain ⟨entries, _, same⟩ := served.cluster cluster has
      rw [mounts.apart_iff has.1, Nat.add_mul, (rootSectors_same entries (same.imp_right And.left)).1]
      exact Nat.le_add_right _ _

end Layout

theorem imageWord_eq (image : Image) (pos : Nat) :
    (image (pos + 1) ++ image pos : BitVec 16).toNat = imageWord image pos := by
  have low := (image pos).isLt
  unfold imageWord
  rw [BitVec.toNat_append, ← Nat.shiftLeft_add_eq_or_of_lt low, Nat.shiftLeft_eq]
  omega

theorem fatHeaderOf_image (image : Image) :
    (fatHeaderOf (diskBytes image 0 sizeofFatH)).reservedSectors.toNat = (bootSector image).reservedSectors ∧
      (fatHeaderOf (diskBytes image 0 sizeofFatH)).sectorsPerCluster.toNat =
        (bootSector image).sectorsPerCluster ∧
      (fatHeaderOf (diskBytes image 0 sizeofFatH)).fatCopies.toNat *
        (fatHeaderOf (diskBytes image 0 sizeofFatH)).sectorsPerFat.toNat = (bootSector image).fatSectors ∧
      (fatHeaderOf (diskBytes image 0 sizeofFatH)).rootDirEntries.toNat =
        (bootSector image).rootDirEntries := by
  have byte : ∀ i < 62, (diskBytes image 0 sizeofFatH).getD i 0 = image i := by
    intro i bound
    have here := diskBytes_getD image 0 (show i < sizeofFatH from bound)
    rwa [Nat.zero_add] at here
  unfold fatHeaderOf
  dsimp only
  rw [byte 14 (by decide), byte 15 (by decide), byte 13 (by decide), byte 16 (by decide),
    byte 22 (by decide), byte 23 (by decide), byte 17 (by decide), byte 18 (by decide)]
  unfold BootSector.fatSectors bootSector
  exact ⟨imageWord_eq image 14, rfl, congrArg _ (imageWord_eq image 22), imageWord_eq image 17⟩

/-- A disk that is being mounted: its header is known, and two of its streams are new. -/
structure Mounting (image : Image) (header : FatHeader) (disk : Disk) : Prop where
  content : disk.image = image
  sector : disk.sectorSize = peachosSectorSize
  loaded : ∃ fatPrivate, disk.fsPrivate = some fatPrivate ∧ fatPrivate.header = header ∧
    fatPrivate.clusterReadStream = some ⟨0, 0⟩ ∧ fatPrivate.fatReadStream = some ⟨0, 0⟩

section Mounting
variable {image : Image} {header : FatHeader} {α : Type}

theorem withPrivate_some {disk : Disk} {fatPrivate : FatPrivate} (here : disk.fsPrivate = some fatPrivate)
    (change : FatPrivate → FatPrivate) : (disk.withPrivate change).fsPrivate = some (change fatPrivate) := by
  unfold Disk.withPrivate
  rw [here]
  rfl

theorem Mounting.changed {disk : Disk} (mounting : Mounting image header disk)
    {change : FatPrivate → FatPrivate} (kept : ∀ volume, (change volume).header = volume.header ∧
      (change volume).clusterReadStream = volume.clusterReadStream ∧
      (change volume).fatReadStream = volume.fatReadStream) :
    Mounting image header (disk.withPrivate change) where
  content := mounting.content
  sector := mounting.sector
  loaded := by
    obtain ⟨fatPrivate, here, known, cluster, fat⟩ := mounting.loaded
    obtain ⟨sameHeader, sameCluster, sameFat⟩ := kept fatPrivate
    exact ⟨change fatPrivate, withPrivate_some here change, sameHeader.trans known,
      sameCluster.trans cluster, sameFat.trans fat⟩

theorem Mounting.fsPrivate : Preserves (Mounting image header) fsPrivate := by
  unfold PeachOS.fsPrivate
  refine Preserves.bind (Preserves.read _) ?_
  intro found
  cases found with
  | none => exact Preserves.stop _
  | some fatPrivate => exact Preserves.pure _

theorem Mounting.directorySeek (pos : Int) : Preserves (Mounting image header) (directorySeek pos) := by
  unfold PeachOS.directorySeek
  apply Preserves.bind Mounting.fsPrivate
  intro fatPrivate
  cases fatPrivate.directoryStream with
  | none => exact Preserves.stop _
  | some stream =>
    apply Preserves.update
    intro disk mounting
    exact mounting.changed (fun _ => ⟨rfl, rfl, rfl⟩)

theorem Mounting.directoryRead (total : Int) : Preserves (Mounting image header) (directoryRead total) := by
  unfold PeachOS.directoryRead streamReadAt
  apply Preserves.bind Mounting.fsPrivate
  intro fatPrivate
  cases fatPrivate.directoryStream with
  | none => exact Preserves.stop _
  | some stream =>
    refine Preserves.bind (Preserves.read _) ?_
    intro content
    dsimp only
    split
    · exact Preserves.stop _
    · apply Preserves.bind
      · apply Preserves.update
        intro disk mounting
        exact mounting.changed (fun _ => ⟨rfl, rfl, rfl⟩)
      · intro _
        exact Preserves.pure _

theorem Mounting.countItems (fuel : Nat) (i : Int) :
    Preserves (Mounting image header) (fat16CountItemsLoop fuel i) := by
  induction fuel generalizing i with
  | zero => exact Preserves.stop _
  | succ fuel ih =>
    unfold fat16CountItemsLoop
    apply Preserves.bind (Mounting.directoryRead _)
    intro result
    apply Preserves.ite
    · exact Preserves.pure _
    · apply Preserves.ite
      · exact Preserves.pure _
      · apply Preserves.ite
        · exact ih i
        · exact ih (i + 1)

theorem Mounting.totalItems (sector : Word) :
    Preserves (Mounting image header) (fat16GetTotalItemsForDirectory sector) := by
  unfold fat16GetTotalItemsForDirectory
  refine Preserves.bind (Preserves.read _) ?_
  intro size
  apply Preserves.bind (Mounting.directorySeek _)
  intro _
  exact Mounting.countItems _ _

theorem Mounting.onDisk {call : Prog Disk Stop α} (kept : Preserves (Mounting image header) call) :
    Preserves (fun kernel => Mounting image header kernel.disk) (Kernel.onDisk call) := by
  intro before result after mounting run
  unfold Kernel.onDisk at run
  split at run
  next same =>
    cases run
    exact kept _ _ _ mounting same
  next => cases run

theorem Mounting.readRoot (rootDirSectorPos rootDirSize : Int) (dir : Addr) :
    Preserves (fun kernel => Mounting image header kernel.disk)
      (fat16ReadRoot rootDirSectorPos rootDirSize dir) := by
  unfold fat16ReadRoot
  refine Preserves.bind (Preserves.read _) ?_
  intro sectorSize
  apply Preserves.bind (Mounting.onDisk (Mounting.directorySeek _))
  intro _
  apply Preserves.bind (Mounting.onDisk (Mounting.directoryRead _))
  intro result
  apply Preserves.bind
  · apply Preserves.update
    intro kernel mounting
    exact mounting
  · intro _
    exact Preserves.pure _

end Mounting

theorem Kernel.onDisk_eq_ok {α : Type} {call : Prog Disk Stop α} {result : α} {before after : Kernel}
    (run : Kernel.onDisk call before = (.ok result, after)) :
    call before.disk = (.ok result, after.disk) ∧ after = before.setDisk after.disk := by
  unfold Kernel.onDisk at run
  split at run
  next same =>
    cases run
    exact ⟨same, rfl⟩
  · cases run

theorem fat16ReadRoot_keeps {pos size res : Int} {dir : Addr} {before after : Kernel}
    (run : fat16ReadRoot pos size dir before = (.ok res, after)) :
    after.memory.heap = before.memory.heap ∧ after.files = before.files ∧
      after.fileDescriptors = before.fileDescriptors := by
  unfold fat16ReadRoot at run
  rw [read_bind] at run
  obtain ⟨_, first, sought, steps⟩ := bind_eq_ok run
  obtain ⟨_, second, readRun, steps⟩ := bind_eq_ok steps
  cases steps
  rw [(Kernel.onDisk_eq_ok readRun).2, (Kernel.onDisk_eq_ok sought).2]
  exact ⟨rfl, rfl, rfl⟩

theorem Kernel.fsPrivate_ok {fatPrivate : FatPrivate} {before after : Kernel}
    (run : Kernel.onDisk fsPrivate before = (.ok fatPrivate, after)) :
    before.disk.fsPrivate = some fatPrivate ∧ after = before := by
  obtain ⟨looked, same⟩ := Kernel.onDisk_eq_ok run
  unfold fsPrivate at looked
  rw [read_bind] at looked
  cases here : before.disk.fsPrivate with
  | none =>
    rw [here] at looked
    cases looked
  | some volume =>
    rw [here] at looked
    obtain ⟨found, disk⟩ := Prod.mk.inj looked
    rw [← disk] at same
    exact ⟨congrArg some (Except.ok.inj found), same⟩

theorem Mounting.looked {image : Image} {header : FatHeader} {fatPrivate : FatPrivate} {before after : Kernel}
    (mounting : Mounting image header before.disk)
    (run : Kernel.onDisk PeachOS.fsPrivate before = (.ok fatPrivate, after)) :
    fatPrivate.header = header ∧ after = before := by
  obtain ⟨volume, here, known, _⟩ := mounting.loaded
  obtain ⟨found, unmoved⟩ := Kernel.fsPrivate_ok run
  obtain rfl : volume = fatPrivate := Option.some.inj (here.symm.trans found)
  exact ⟨known, unmoved⟩

section Resolve
variable {before after : Kernel} {image : Image} {header : FatHeader} {res : Int}

theorem diskstreamerNew_ok {result : Option (Addr × DiskStream)}
    (run : diskstreamerNew 0 before = (.ok result, after)) :
    after.disk = before.disk ∧ ∃ ptr, result = some (ptr, ⟨0, 0⟩) := by
  obtain ⟨streamer, middle, allocated, rest⟩ := bind_eq_ok (show (Kernel.kzalloc sizeofDiskStream >>=
    fun streamer => if streamer = 0 then fault else pure (some (streamer, ⟨0, 0⟩)) :
      KernelProg (Option (Addr × DiskStream))) before = (.ok result, after) from run)
  split at rest
  · cases rest
  · cases rest
    exact ⟨Kernel.kzalloc_disk allocated, streamer, rfl⟩

theorem fat16InitPrivate_ok {fatPrivate : FatPrivate}
    (run : fat16InitPrivate 0 before = (.ok fatPrivate, after)) :
    after.disk = before.disk ∧ fatPrivate.clusterReadStream = some ⟨0, 0⟩ ∧
      fatPrivate.fatReadStream = some ⟨0, 0⟩ := by
  obtain ⟨cluster, first, firstRun, rest⟩ := bind_eq_ok run
  obtain ⟨fat, second, secondRun, rest⟩ := bind_eq_ok rest
  obtain ⟨directory, third, thirdRun, rest⟩ := bind_eq_ok rest
  obtain ⟨firstSame, _, rfl⟩ := diskstreamerNew_ok firstRun
  obtain ⟨secondSame, _, rfl⟩ := diskstreamerNew_ok secondRun
  obtain ⟨thirdSame, _, rfl⟩ := diskstreamerNew_ok thirdRun
  cases rest
  exact ⟨thirdSame.trans (secondSame.trans firstSame), rfl, rfl⟩

/-- `root_dir_sector_pos` of `fat16_get_root_directory`. -/
def rootSector (header : FatHeader) : Int :=
  header.fatCopies.toNat * header.sectorsPerFat.toNat + header.reservedSectors.toNat

theorem fat16GetRootDirectory_ok (mounting : Mounting image header before.disk)
    (run : fat16GetRootDirectory before = (.ok 0, after)) :
    Mounting image header after.disk ∧ ∃ fatPrivate dir total left,
      fat16GetTotalItemsForDirectory (BitVec.ofInt 32 (rootSector header)) before.disk = (.ok total, left) ∧
      after.disk.fsPrivate = some fatPrivate ∧
      fatPrivate.rootDirectory = ⟨dir, total, rootSector header, rootSector header +
        (header.rootDirEntries.toNat * (fatDirectoryItemSize : Int)).tdiv (peachosSectorSize : Nat)⟩ := by
  obtain ⟨fatPrivate, first, looked, steps⟩ := bind_eq_ok run
  obtain ⟨same, unmoved⟩ := mounting.looked looked
  rw [unmoved, read_bind, mounting.sector] at steps
  rw [if_neg (by decide), same] at steps
  obtain ⟨totalItems, counted, count, steps⟩ := bind_eq_ok steps
  have countedMounting := Mounting.onDisk (Mounting.totalItems _) _ _ _ mounting count
  obtain ⟨countRun, _⟩ := Kernel.onDisk_eq_ok count
  obtain ⟨dir, placed, allocated, steps⟩ := bind_eq_ok steps
  split at steps
  · cases steps
  obtain ⟨res, filled, readRun, steps⟩ := bind_eq_ok steps
  have placedMounting : Mounting image header placed.disk :=
    Kernel.newRecord_disk allocated ▸ countedMounting
  have filledMounting := Mounting.readRoot _ _ _ _ _ _ placedMounting readRun
  split at steps
  · obtain ⟨_, _, _, last⟩ := bind_eq_ok steps
    cases last
  · obtain ⟨volume, here, rest⟩ := filledMounting.loaded
    cases steps
    exact ⟨filledMounting.changed (fun _ => ⟨rfl, rfl, rfl⟩), _, dir, totalItems, counted.disk,
      countRun, withPrivate_some here _, rfl⟩

theorem fat16ResolveHeader_ok {fatPrivate : FatPrivate} (sector : before.disk.sectorSize = peachosSectorSize)
    (here : before.disk.fsPrivate = some fatPrivate)
    (cluster : fatPrivate.clusterReadStream = some ⟨0, 0⟩) (fat : fatPrivate.fatReadStream = some ⟨0, 0⟩)
    (run : fat16ResolveHeader ⟨0, 0⟩ before = (.ok 0, after)) :
    Mounting before.disk.image (fatHeaderOf (diskBytes before.disk.image 0 sizeofFatH)) after.disk ∧
      ∃ fatPrivate, after.disk.fsPrivate = some fatPrivate ∧
        Mounts (bootSector before.disk.image) after.disk fatPrivate := by
  have bytes : diskstreamerRead before.disk.image ⟨0, 0⟩ sizeofFatH = _ :=
    diskstreamerRead_bytes before.disk.image 0 sizeofFatH (by decide)
  unfold fat16ResolveHeader at run
  rw [read_bind, bytes] at run
  dsimp only at run
  rw [if_neg (by decide)] at run
  obtain ⟨reserved, clusters, copies, entries⟩ := fatHeaderOf_image before.disk.image
  generalize headerEq : fatHeaderOf (diskBytes before.disk.image 0 sizeofFatH) = header at *
  unfold Kernel.changeVolume at run
  rw [update_bind] at run
  split at run
  · cases run
  obtain ⟨res, last, rootRun, steps⟩ := bind_eq_ok run
  split at steps
  · cases steps
  next failed =>
    obtain rfl : res = 0 := not_not.mp failed
    cases steps
    have mounting : Mounting before.disk.image header
        (before.disk.withPrivate (fun volume => { volume with header := header })) :=
      ⟨rfl, sector, _, withPrivate_some here _, rfl, cluster, fat⟩
    obtain ⟨mounted, volume, _, _, _, _, found, directory⟩ := fat16GetRootDirectory_ok mounting rootRun
    obtain ⟨other, otherFound, known, _⟩ := mounted.loaded
    obtain rfl : volume = other := Option.some.inj (found.symm.trans otherFound)
    refine ⟨mounted, volume, found, mounted.sector, by rw [known, reserved], by rw [known, clusters], ?_, ?_⟩
    · rw [directory, ← copies, ← reserved]
      push_cast
      rfl
    · rw [directory, ← copies, ← reserved]
      unfold BootSector.rootSize rootSector
      rw [← entries]
      push_cast
      rfl

theorem fat16Resolve_mounts (sector : before.disk.sectorSize = peachosSectorSize)
    (run : fat16Resolve before = (.ok 0, after)) :
    Mounting before.disk.image (fatHeaderOf (diskBytes before.disk.image 0 sizeofFatH)) after.disk ∧
      ∃ fatPrivate, after.disk.fsPrivate = some fatPrivate ∧
        Mounts (bootSector before.disk.image) after.disk fatPrivate := by
  obtain ⟨ptr, first, allocated, steps⟩ := bind_eq_ok run
  split at steps
  · cases steps
  obtain ⟨fatPrivate, second, made, steps⟩ := bind_eq_ok steps
  obtain ⟨secondDisk, cluster, fat⟩ := fat16InitPrivate_ok made
  rw [update_bind] at steps
  obtain ⟨res, third, resolved, steps⟩ := bind_eq_ok steps
  obtain ⟨streamer, fourth, streamed, resolving⟩ := bind_eq_ok resolved
  obtain ⟨streamDisk, ptr', rfl⟩ := diskstreamerNew_ok streamed
  obtain ⟨res', fifth, headerRun, closing⟩ := bind_eq_ok resolving
  cases closing
  have diskSame : fourth.disk =
      { before.disk with fsPrivate := some fatPrivate, filesystem := true } := by
    rw [streamDisk]
    show { second.disk with fsPrivate := some fatPrivate, filesystem := true } = _
    rw [secondDisk, Kernel.kzalloc_disk allocated]
  by_cases negative : res < 0
  · rw [if_pos negative] at steps
    cases steps
    omega
  · rw [if_neg negative] at steps
    cases steps
    have mounted := fat16ResolveHeader_ok (by rw [diskSame]; exact sector) (by rw [diskSame]) cluster fat headerRun
    rw [diskSame] at mounted
    exact mounted

end Resolve

end PeachOS
