import PeachOS.ClusterReads
import PeachOS.Fat16Mount

/-! The position of a byte of a cluster as `fat16_read_internal_from_stream` computes it, in
`int` arithmetic. A volume may be larger than such a position reaches. -/

namespace PeachOS
open Program ByteMemory

/-- The stream is sought to the byte at `offset` in the cluster, and a read from there starts
with that byte of its sector. -/
structure SeeksByte (disk : Disk) (fatPrivate : FatPrivate) (cluster offset : Nat) : Prop where
  sought : fat16StartingPos fatPrivate disk.sectorSize cluster offset =
    some (fat16ClusterToSector fatPrivate cluster * peachosSectorSize + offset)
  read : ∀ stream total res out left, stream.disk = 0 → 0 < total →
    diskstreamerRead disk.image (diskstreamerSeek stream
      (fat16ClusterToSector fatPrivate cluster * peachosSectorSize + offset)) total = some (res, out, left) →
    out.head? = (diskReadSector disk.image (fat16ClusterToSector fatPrivate cluster +
      (offset / peachosSectorSize : Nat)).toNat)[offset % peachosSectorSize]?

section Position
variable {disk : Disk} {fatPrivate : FatPrivate}

theorem diskstreamerRead_head {image : Image} {sector : Int} {offset : Nat} {stream left : DiskStream}
    {total res : Int} {out : List Byte} (first : stream.disk = 0) (some' : 0 < total) (low : 0 ≤ sector)
    (run : diskstreamerRead image (diskstreamerSeek stream (sector * peachosSectorSize + offset)) total =
      some (res, out, left)) :
    out.head? = (diskReadSector image (sector + (offset / peachosSectorSize : Nat)).toNat)[offset %
      peachosSectorSize]? := by
  obtain ⟨sector, rfl⟩ := Int.eq_ofNat_of_zero_le low
  obtain ⟨total, rfl⟩ := Int.eq_ofNat_of_zero_le (Int.le_of_lt some')
  unfold diskstreamerSeek at run
  rw [first, diskstreamerRead_place] at run
  have within : offset % peachosSectorSize < peachosSectorSize := Nat.mod_lt _ (by decide)
  have place : ((sector : Int) * (peachosSectorSize : Nat) + offset).toNat =
      (sector + offset / peachosSectorSize) * peachosSectorSize + offset % peachosSectorSize := by
    unfold peachosSectorSize
    omega
  by_cases high : 0 ≤ (sector : Int) * (peachosSectorSize : Nat) + offset ∧
      (sector : Int) * (peachosSectorSize : Nat) + offset + total < 2 ^ 31
  · rw [if_pos high] at run
    have bytes := congrArg (fun result => result.2.1) (Option.some.inj run)
    dsimp only at bytes
    have lba : ((sector : Int) + (offset / peachosSectorSize : Nat)).toNat = sector + offset / peachosSectorSize := by
      rw [← Int.natCast_add]
      exact Int.toNat_natCast _
    unfold diskReadSector
    rw [← bytes, List.head?_eq_getElem?, diskBytes, List.getElem?_ofFn, dif_pos (by omega), List.getElem?_ofFn,
      dif_pos within, place, lba]
    simp only [Nat.add_zero]
  · rw [if_neg high] at run
    cases run

theorem seeksByte_iff {cluster offset : Nat} (size : disk.sectorSize = peachosSectorSize)
    (ending : 0 ≤ fatPrivate.rootDirectory.endingSectorPos) (data : 2 ≤ cluster)
    (inside : offset < clusterSize fatPrivate.header) : SeeksByte disk fatPrivate cluster offset ↔
      fat16ClusterToSector fatPrivate cluster * peachosSectorSize + offset < 2 ^ 31 := by
  have clusters : 0 < fatPrivate.header.sectorsPerCluster.toNat := by
    by_contra none'
    unfold clusterSize at inside
    rw [Nat.eq_zero_of_not_pos none', Nat.zero_mul] at inside
    exact absurd inside (Nat.not_lt_zero offset)
  have ahead : ((cluster : Int) - 2) * 1 ≤ (cluster - 2) * (fatPrivate.header.sectorsPerCluster.toNat : Int) :=
    Int.mul_le_mul_of_nonneg_left (by omega) (by omega)
  have sector : fat16ClusterToSector fatPrivate cluster = fatPrivate.rootDirectory.endingSectorPos +
      (cluster - 2) * (fatPrivate.header.sectorsPerCluster.toNat : Int) := rfl
  constructor
  · intro seeks
    have sought := seeks.sought
    rw [size, fat16StartingPos_eq_some] at sought
    exact sought.2.2.2.2.1.2
  · intro low
    have number : (cluster : Int) < 2 ^ 31 := by
      rw [sector] at low
      unfold peachosSectorSize at low
      omega
    refine ⟨?_, ?_⟩
    · rw [size, fat16StartingPos_iff ending (by omega) number (by omega)]
      exact ⟨rfl, low⟩
    · intro stream total res out left first some' run
      exact diskstreamerRead_head first some' (by omega) run

end Position

/-- Whatever sectors the header has, the byte at an offset in a data cluster is sought if and only
if it lies in the first 2 GiB of the disk. -/
theorem fat16Resolve_position {before after : Kernel} (sector : before.disk.sectorSize = peachosSectorSize)
    (run : fat16Resolve before = (.ok 0, after)) :
    ∃ fatPrivate, after.disk.fsPrivate = some fatPrivate ∧ ∀ cluster offset, 2 ≤ cluster →
      offset < (bootSector before.disk.image).sectorsPerCluster * peachosSectorSize →
      (SeeksByte after.disk fatPrivate cluster offset ↔
        (bootSector before.disk.image).drivenSector cluster * peachosSectorSize + offset < 2 ^ 31) := by
  obtain ⟨_, fatPrivate, here, mounts⟩ := fat16Resolve_mounts sector run
  refine ⟨fatPrivate, here, ?_⟩
  intro cluster offset data inside
  have position := mounts.clusterPos data
  unfold fat16SectorToAbsolute at position
  rw [mounts.sector] at position
  rw [seeksByte_iff mounts.sector (by rw [mounts.rootEnd]; exact Int.natCast_nonneg _) data
    (by unfold clusterSize; rw [mounts.clusters]; exact inside), position]
  exact_mod_cast Iff.rfl

/-- The boot sector of `boot.asm`: 7812500 sectors, in clusters of 128. -/
def bootAsmImage : Image := fun pos =>
  [0xEB, 0x3C, 0x90, 0x50, 0x45, 0x41, 0x43, 0x48, 0x4F, 0x53, 0x20, 0x00, 0x02, 0x80, 0xC8, 0x00, 0x02,
    0x40, 0x00, 0x00, 0x00, 0xF8, 0x00, 0x01, 0x20, 0x00, 0x40, 0x00, 0x00, 0x00, 0x00, 0x00, 0x94, 0x35,
    0x77, 0x00, 0x80, 0x00, 0x29].getD pos 0

def bootAsmKernel : Kernel := Kernel.blank bootMemory ⟨bootAsmImage, 512, false, none⟩

theorem bootAsmKernel_fat16Resolve : ∃ after, fat16Resolve bootAsmKernel = (.ok 0, after) := by
  have spare : Spare bootAsmKernel 6 := ⟨bootMemory_kernel.1, bootMemory_kernel.2.symm ▸ by decide⟩
  have entries : Entries bootAsmImage (bootSector bootAsmImage).drivenRootPos 0 :=
    ⟨by decide +kernel, fun i impossible => absurd impossible (Nat.not_lt_zero i), by decide +kernel⟩
  have mountable : Mountable bootAsmImage :=
    ⟨by decide, by decide, by decide, ⟨0, by decide, entries⟩, by decide +kernel⟩
  exact ⟨_, run_of_result (spare.fat16Resolve mountable rfl)⟩

theorem fat16Resolve_position_boot : ∃ after, fat16Resolve bootAsmKernel = (.ok 0, after) ∧
    ∃ fatPrivate, after.disk.fsPrivate = some fatPrivate ∧ ∀ cluster offset, 2 ≤ cluster →
      offset < (bootSector bootAsmImage).sectorsPerCluster * peachosSectorSize →
      (SeeksByte after.disk fatPrivate cluster offset ↔
        (bootSector bootAsmImage).drivenSector cluster * peachosSectorSize + offset < 2 ^ 31) := by
  obtain ⟨after, run⟩ := bootAsmKernel_fat16Resolve
  have image : bootAsmKernel.disk.image = bootAsmImage := rfl
  have size : bootAsmKernel.disk.sectorSize = peachosSectorSize := rfl
  have position := fat16Resolve_position size run
  rw [image] at position
  exact ⟨after, run, position⟩

/-- The first byte of cluster 32765 is beyond 2 GiB, though the volume goes on. -/
theorem fat16Resolve_overflows : ∃ after fatPrivate, fat16Resolve bootAsmKernel = (.ok 0, after) ∧
    after.disk.fsPrivate = some fatPrivate ∧ (bootSector bootAsmImage).bytesPerSector = 512 ∧
    (bootSector bootAsmImage).drivenSector 32765 + (bootSector bootAsmImage).sectorsPerCluster ≤
      totalSectors bootAsmImage ∧
    fat16StartingPos fatPrivate after.disk.sectorSize 32765 0 = none ∧
    ¬SeeksByte after.disk fatPrivate 32765 0 := by
  obtain ⟨after, run⟩ := bootAsmKernel_fat16Resolve
  obtain ⟨_, fatPrivate, here, mounts⟩ := fat16Resolve_mounts rfl run
  have position := mounts.clusterPos (by decide : 2 ≤ 32765)
  unfold fat16SectorToAbsolute at position
  have beyond : (bootSector bootAsmKernel.disk.image).drivenSector 32765 * peachosSectorSize = 2147522560 := by
    decide +kernel
  have overflow : fat16StartingPos fatPrivate after.disk.sectorSize (32765 : Nat) (0 : Nat) = none := by
    rw [Option.eq_none_iff_forall_ne_some]
    intro pos computed
    obtain ⟨_, _, _, fits, _⟩ := fat16StartingPos_eq_some.mp computed
    rw [position, beyond] at fits
    exact absurd fits.2 (by decide)
  refine ⟨after, fatPrivate, run, here, by decide, by decide +kernel, overflow, ?_⟩
  intro seeks
  have sought := seeks.sought
  rw [overflow] at sought
  cases sought

end PeachOS
