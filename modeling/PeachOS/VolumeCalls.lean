import PeachOS.Fat16Mount
import PeachOS.Lib.Run
import PeachOS.VolumeKept

/-! The size of a cluster in every state that the calls on a mounted disk reach. It is the
divisor of the lookups and the step of the reads, and comes from a byte that is not checked. -/

namespace PeachOS
open Program Transition

/-- A call on a file, or the load of a directory. -/
inductive FileCall where
  | fopen (filename modeStr : List Byte)
  | fclose (fd : Int)
  | fread (ptr : Addr) (size nmemb : Word) (fd : Int)
  | fseek (fd offset : Int) (whence : FileSeekMode)
  | fstat (fd : Int) (stat : FileStat)
  | loadDirectory (item : FatDirectoryItem)

def FileCall.run : FileCall → KernelProg Unit
  | .fopen filename modeStr => do
      let _ ← PeachOS.fopen filename modeStr
      pure ()
  | .fclose fd => do
      let _ ← PeachOS.fclose fd
      pure ()
  | .fread ptr size nmemb fd => do
      let _ ← PeachOS.fread ptr size nmemb fd
      pure ()
  | .fseek fd offset whence => do
      let _ ← PeachOS.fseek fd offset whence
      pure ()
  | .fstat fd stat => do
      let _ ← PeachOS.fstat fd stat
      pure ()
  | .loadDirectory item => do
      let _ ← fat16LoadFatDirectory item
      pure ()

def VolumeStep (before after : Kernel) : Prop := ∃ call : FileCall, call.run before = (.ok (), after)

/-- A lookup has something to divide by, and a read of something goes on by some of it. -/
structure Progresses (disk : Disk) (fatPrivate : FatPrivate) : Prop where
  divisor : 0 < sizeOfClusterBytes disk fatPrivate
  step : ∀ total, 0 < total →
    0 < (if total > sizeOfClusterBytes disk fatPrivate then sizeOfClusterBytes disk fatPrivate else total)

section Calls
variable {before after : Kernel}

theorem keepsVolume_fileCall (call : FileCall) : KernelKeepsVolume call.run := by
  have discarded : ∀ {α : Type} {program : KernelProg α}, KernelKeepsVolume program →
      KernelKeepsVolume (do
        let _ ← program
        pure ()) := by
    intro α program keeps
    apply KernelKeepsVolume.bind keeps
    intro _
    exact KernelKeepsVolume.pure _
  cases call with
  | fopen filename modeStr => exact discarded (keepsVolume_fopen _ _)
  | fclose fd => exact discarded (keepsVolume_fclose _)
  | fread ptr size nmemb fd => exact discarded (keepsVolume_fread _ _ _ _)
  | fseek fd offset whence => exact discarded (keepsVolume_fseek _ _ _)
  | fstat fd stat => exact discarded (keepsVolume_fstat _ _)
  | loadDirectory item => exact discarded (keepsVolume_loadDirectory _)

/-- No run of calls changes the volume. -/
theorem volume_kept (run : Run VolumeStep before after) : after.disk.streamless = before.disk.streamless := by
  have kept : ∀ first last, VolumeStep first last → last.disk.streamless = first.disk.streamless := by
    rintro first last ⟨call, step⟩
    exact keepsVolume_fileCall call first.disk.streamless first () last rfl step
  exact Run.unchanged kept run

theorem streamless_header {disk other : Disk} (same : other.streamless = disk.streamless)
    {fatPrivate : FatPrivate} (here : disk.fsPrivate = some fatPrivate) :
    other.sectorSize = disk.sectorSize ∧ ∃ volume, other.fsPrivate = some volume ∧
      volume.header = fatPrivate.header := by
  have sector : other.streamless.sectorSize = disk.streamless.sectorSize := congrArg Disk.sectorSize same
  have volumes : other.streamless.fsPrivate = disk.streamless.fsPrivate := congrArg Disk.fsPrivate same
  refine ⟨sector, ?_⟩
  unfold Disk.streamless Disk.withPrivate at volumes
  dsimp only at volumes
  rw [here, Option.map_some, Option.map_eq_some_iff] at volumes
  obtain ⟨volume, there, equal⟩ := volumes
  exact ⟨volume, there, (FatPrivate.mk.inj equal).1⟩

/-- In every state that the calls on a mounted disk reach the size of a cluster is positive, if
and only if the header has sectors for a cluster. -/
theorem fat16Resolve_progresses (sector : before.disk.sectorSize = peachosSectorSize)
    (run : fat16Resolve before = (.ok 0, after)) :
    (∀ now, Run VolumeStep after now → ∃ fatPrivate, now.disk.fsPrivate = some fatPrivate ∧
      Progresses now.disk fatPrivate) ↔ before.disk.image 13 ≠ 0 := by
  obtain ⟨_, fatPrivate, here, mounts⟩ := fat16Resolve_mounts sector run
  have clusters : fatPrivate.header.sectorsPerCluster.toNat = (before.disk.image 13).toNat := mounts.clusters
  have nonzero : before.disk.image 13 ≠ 0 ↔ 0 < fatPrivate.header.sectorsPerCluster.toNat := by
    rw [clusters, ← not_iff_not]
    simp [BitVec.toNat_eq]
  rw [nonzero]
  constructor
  · intro reached
    obtain ⟨volume, there, progresses⟩ := reached after .refl
    obtain rfl : fatPrivate = volume := Option.some.inj (here.symm.trans there)
    have divisor := progresses.divisor
    unfold sizeOfClusterBytes at divisor
    by_contra none'
    rw [Nat.eq_zero_of_not_pos none', Int.natCast_zero, Int.zero_mul] at divisor
    exact absurd divisor (by decide)
  · intro positive now calls
    obtain ⟨size, volume, there, header⟩ := streamless_header (volume_kept calls) here
    have divisor : 0 < sizeOfClusterBytes now.disk volume := by
      unfold sizeOfClusterBytes
      rw [header, size, mounts.sector]
      exact Int.mul_pos (by exact_mod_cast positive) (by decide)
    refine ⟨volume, there, divisor, ?_⟩
    intro total some'
    split
    · exact divisor
    · exact some'

end Calls

/-- A boot sector with no sectors in a cluster. -/
def hollowImage : Image := fun pos => if pos = 13 then 0 else bootImage 16 pos

def hollowKernel : Kernel := Kernel.blank bootMemory ⟨hollowImage, 512, false, none⟩

theorem hollowKernel_fat16Resolve : ∃ after, fat16Resolve hollowKernel = (.ok 0, after) := by
  have spare : Spare hollowKernel 6 := ⟨bootMemory_kernel.1, bootMemory_kernel.2.symm ▸ by decide⟩
  have entries : Entries hollowImage (bootSector hollowImage).drivenRootPos 0 :=
    ⟨by decide, fun i impossible => absurd impossible (Nat.not_lt_zero i), by decide⟩
  have mountable : Mountable hollowImage := ⟨by decide, by decide, by decide, ⟨0, by decide, entries⟩, by decide⟩
  exact ⟨_, run_of_result (spare.fat16Resolve mountable rfl)⟩

theorem fat16Resolve_progresses_sixteen : ∃ after, fat16Resolve (bootable 16) = (.ok 0, after) ∧
    ((∀ now, Run VolumeStep after now → ∃ fatPrivate, now.disk.fsPrivate = some fatPrivate ∧
      Progresses now.disk fatPrivate) ↔ (bootable 16).disk.image 13 ≠ 0) := by
  obtain ⟨after, run⟩ := @bootable_fat16Resolve 16 (by decide) (by decide)
  exact ⟨after, run, fat16Resolve_progresses rfl run⟩

/-- The disk is accepted, and every lookup of a cluster then divides by zero. -/
theorem fat16Resolve_hollow : ∃ after fatPrivate, fat16Resolve hollowKernel = (.ok 0, after) ∧
    after.disk.fsPrivate = some fatPrivate ∧ sizeOfClusterBytes after.disk fatPrivate = 0 ∧
    (∀ cluster offset, fat16GetClusterForOffset cluster offset after.disk = (.error .fault, after.disk)) ∧
    ¬∀ now, Run VolumeStep after now → ∃ fatPrivate, now.disk.fsPrivate = some fatPrivate ∧
      Progresses now.disk fatPrivate := by
  obtain ⟨after, run⟩ := hollowKernel_fat16Resolve
  obtain ⟨_, fatPrivate, here, mounts⟩ := fat16Resolve_mounts rfl run
  have none' : fatPrivate.header.sectorsPerCluster.toNat = 0 := mounts.clusters
  have zero : sizeOfClusterBytes after.disk fatPrivate = 0 := by
    unfold sizeOfClusterBytes
    rw [none', Int.natCast_zero, Int.zero_mul]
  refine ⟨after, fatPrivate, run, here, zero, ?_, ?_⟩
  · intro cluster offset
    have looked : fsPrivate after.disk = (.ok fatPrivate, after.disk) := by
      unfold fsPrivate
      rw [read_bind, here]
      rfl
    unfold fat16GetClusterForOffset
    rw [bind_ok looked, read_bind, if_pos zero]
    rfl
  · intro reached
    obtain ⟨volume, there, progresses⟩ := reached after .refl
    obtain rfl : fatPrivate = volume := Option.some.inj (here.symm.trans there)
    have divisor := progresses.divisor
    rw [zero] at divisor
    exact absurd divisor (by decide)

end PeachOS
