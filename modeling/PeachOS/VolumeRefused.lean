import PeachOS.Fat16Layout
import PeachOS.KernelOwners
import PeachOS.VolumeKept

/-! What `fat16_resolve` leaves of a disk that it turns down. -/

namespace PeachOS
open Program

/-- The fields of the disk that name its file system, and the live blocks, are as they were. -/
structure Untouched (before after : Kernel) : Prop where
  filesystem : after.disk.filesystem = before.disk.filesystem
  fsPrivate : after.disk.fsPrivate = before.disk.fsPrivate
  live : liveBlocks after.memory.heap = liveBlocks before.memory.heap

/-- A call after which the same is owned. -/
def KeepsOwned {α : Type} (base : Heap) (owned : Multiset Addr) (call : KernelProg α) : Prop :=
  Preserves (fun kernel => OwnsHeld base kernel.memory.heap owned) call

/-- A call that leaves a file system with the disk. -/
def KeepsFilesystem {α : Type} (call : KernelProg α) : Prop :=
  Preserves (fun kernel => kernel.disk.filesystem = true) call

section Filesystem
variable {α : Type}

theorem KernelKeepsVolume.filesystem {call : KernelProg α} (keeps : KernelKeepsVolume call) : KeepsFilesystem call := by
  intro before result after here run
  have same := keeps before.disk.streamless before result after rfl run
  have kept : after.disk.streamless.filesystem = before.disk.streamless.filesystem :=
    congrArg Disk.filesystem same
  exact kept.trans here

theorem keepsFilesystem_changeVolume (change : FatPrivate → FatPrivate) :
    KeepsFilesystem (Kernel.changeVolume change) :=
  Preserves.update (fun _ here => here)

theorem keepsFilesystem_readRoot (pos size : Int) (dir : Addr) : KeepsFilesystem (fat16ReadRoot pos size dir) := by
  unfold fat16ReadRoot
  refine Preserves.bind (Preserves.read _) ?_
  intro sectorSize
  apply Preserves.bind (keepsVolume_directorySeek _).ofDisk.filesystem
  intro _
  apply Preserves.bind (keepsVolume_directoryRead _).ofDisk.filesystem
  intro result
  refine Preserves.bind (Preserves.update (fun _ here => here)) ?_
  intro _
  exact Preserves.pure _

theorem keepsFilesystem_getRootDirectory : KeepsFilesystem fat16GetRootDirectory := by
  unfold fat16GetRootDirectory
  apply Preserves.bind keepsVolume_fsPrivate.ofDisk.filesystem
  intro fatPrivate
  refine Preserves.bind (Preserves.read _) ?_
  intro sectorSize
  refine Preserves.ite (Preserves.stop _) ?_
  apply Preserves.bind (keepsVolume_totalItems _).ofDisk.filesystem
  intro totalItems
  apply Preserves.bind (keepsVolume_newRecord _ _).filesystem
  intro dir
  refine Preserves.ite (Preserves.pure _) ?_
  apply Preserves.bind (keepsFilesystem_readRoot _ _ _)
  intro res
  apply Preserves.ite
  · apply Preserves.bind (keepsVolume_freeRecord _ _).filesystem
    intro _
    exact Preserves.pure _
  · apply Preserves.bind (keepsFilesystem_changeVolume _)
    intro _
    exact Preserves.pure _

theorem keepsFilesystem_resolveHeader (stream : DiskStream) : KeepsFilesystem (fat16ResolveHeader stream) := by
  unfold fat16ResolveHeader
  refine Preserves.bind (Preserves.read _) ?_
  intro image
  split
  · exact Preserves.stop _
  · refine Preserves.ite (Preserves.pure _) ?_
    apply Preserves.bind (keepsFilesystem_changeVolume _)
    intro _
    refine Preserves.ite (Preserves.pure _) ?_
    apply Preserves.bind keepsFilesystem_getRootDirectory
    intro res
    exact Preserves.ite (Preserves.pure _) (Preserves.pure _)

theorem keepsFilesystem_resolveStream : KeepsFilesystem fat16ResolveStream := by
  have streamer : KeepsFilesystem (diskstreamerNew 0) := by
    intro before result after here run
    rw [(diskstreamerNew_ok run).1]
    exact here
  unfold fat16ResolveStream
  apply Preserves.bind streamer
  intro made
  cases made with
  | none => exact Preserves.pure _
  | some stream =>
    apply Preserves.bind (keepsFilesystem_resolveHeader _)
    intro res
    refine Preserves.bind (Preserves.update (fun _ here => here)) ?_
    intro _
    exact Preserves.pure _

end Filesystem

section Refused
variable {base : Heap} {owned : Multiset Addr} {before after : Kernel}

theorem OwnsHeld.diskstreamerNew {result : Option (Addr × DiskStream)}
    (run : diskstreamerNew 0 before = (.ok result, after)) (owns : OwnsHeld base before.memory.heap owned) :
    ∃ ptr, result = some (ptr, ⟨0, 0⟩) ∧ OwnsHeld base after.memory.heap (ptr ::ₘ owned) := by
  obtain ⟨ptr, middle, allocated, rest⟩ := bind_eq_ok (show (Kernel.kzalloc sizeofDiskStream >>=
    fun streamer => if streamer = 0 then fault else pure (some (streamer, ⟨0, 0⟩)) :
      KernelProg (Option (Addr × DiskStream))) before = (.ok result, after) from run)
  split at rest
  · cases rest
  next nonnull =>
    cases rest
    exact ⟨ptr, rfl, owns.kzalloc (by decide) allocated nonnull⟩

theorem OwnsHeld.fat16InitPrivate {fatPrivate : FatPrivate}
    (owns : OwnsHeld base before.memory.heap owned)
    (run : fat16InitPrivate 0 before = (.ok fatPrivate, after)) : ∃ cluster fat directory,
      OwnsHeld base after.memory.heap (directory ::ₘ fat ::ₘ cluster ::ₘ owned) := by
  obtain ⟨_, first, clusterMade, steps⟩ := bind_eq_ok run
  obtain ⟨_, second, fatMade, steps⟩ := bind_eq_ok steps
  obtain ⟨_, third, directoryMade, steps⟩ := bind_eq_ok steps
  obtain ⟨cluster, rfl, firstOwns⟩ := owns.diskstreamerNew clusterMade
  obtain ⟨fat, rfl, secondOwns⟩ := firstOwns.diskstreamerNew fatMade
  obtain ⟨directory, rfl, thirdOwns⟩ := secondOwns.diskstreamerNew directoryMade
  cases steps
  exact ⟨cluster, fat, directory, thirdOwns⟩

theorem KeepsOwned.onDisk {α : Type} (call : Prog Disk Stop α) : KeepsOwned base owned (Kernel.onDisk call) := by
  intro kernel result last owns run
  rw [(Kernel.onDisk_eq_ok run).2]
  exact owns

theorem OwnsHeld.fat16GetRootDirectory {res : Int} (run : fat16GetRootDirectory before = (.ok res, after))
    (owns : OwnsHeld base before.memory.heap owned) (failed : res ≠ 0) :
    OwnsHeld base after.memory.heap owned := by
  obtain ⟨fatPrivate, first, looked, steps⟩ := bind_eq_ok run
  have firstOwns := KeepsOwned.onDisk _ _ _ _ owns looked
  rw [read_bind] at steps
  split at steps
  · cases steps
  obtain ⟨totalItems, second, counted, steps⟩ := bind_eq_ok steps
  have secondOwns := KeepsOwned.onDisk _ _ _ _ firstOwns counted
  obtain ⟨dir, third, allocated, steps⟩ := bind_eq_ok steps
  rcases Kernel.newRecord_ok secondOwns.sound.kernel allocated with null | ⟨start, rfl, nonnull, _, marks, _⟩
  · rw [if_pos null.1] at steps
    cases steps
    rw [null.2]
    exact secondOwns
  · rw [if_neg nonnull] at steps
    obtain ⟨readRes, fourth, readRun, steps⟩ := bind_eq_ok steps
    have memory : fourth.memory.heap = third.memory.heap := (fat16ReadRoot_keeps readRun).1
    split at steps
    · obtain ⟨_, fifth, freed, rest⟩ := bind_eq_ok steps
      cases rest
      rw [Kernel.freeRecord_heap freed, memory]
      exact secondOwns.discard marks
    · cases steps
      exact absurd rfl failed

theorem OwnsHeld.fat16ResolveHeader {res : Int} {stream : DiskStream} (owns : OwnsHeld base before.memory.heap owned)
    (run : fat16ResolveHeader stream before = (.ok res, after)) (failed : res ≠ 0) :
    OwnsHeld base after.memory.heap owned := by
  unfold PeachOS.fat16ResolveHeader at run
  rw [read_bind] at run
  generalize diskstreamerRead before.disk.image stream sizeofFatH = result at run
  obtain none | ⟨readRes, header, moved⟩ := result
  · cases run
  · dsimp only at run
    split at run
    · cases run
      exact owns
    · unfold Kernel.changeVolume at run
      rw [update_bind] at run
      split at run
      · cases run
        exact owns
      · obtain ⟨rootRes, middle, rootRun, steps⟩ := bind_eq_ok run
        split at steps
        next rootFailed =>
          cases steps
          exact OwnsHeld.fat16GetRootDirectory rootRun owns rootFailed
        · cases steps
          exact absurd rfl failed

/-- What a disk that is turned down is left with: a file system whose volume is gone, and on the
heap the three streams of the volume, but not its record or the stream of the header. -/
theorem fat16Resolve_refused {res : Int} (sound : Sound before.memory.heap) (ends : FreeEntriesEnd before.memory.heap)
    (run : fat16Resolve before = (.ok res, after)) (negative : res < 0) :
    after.disk.filesystem = true ∧ after.disk.fsPrivate = none ∧ ∃ streams, streams.card = 3 ∧
      OwnsHeld before.memory.heap after.memory.heap streams := by
  obtain ⟨ptr, first, allocated, steps⟩ := bind_eq_ok run
  split at steps
  · cases steps
  next nonnull =>
    have firstOwns := (OwnsHeld.refl sound ends).kzalloc (by decide) allocated nonnull
    obtain ⟨fatPrivate, second, started, steps⟩ := bind_eq_ok steps
    obtain ⟨cluster, fat, directory, secondOwns⟩ := firstOwns.fat16InitPrivate started
    rw [update_bind] at steps
    obtain ⟨streamRes, third, resolved, steps⟩ := bind_eq_ok steps
    have published := keepsFilesystem_resolveStream _ _ _ rfl resolved
    obtain rfl : streamRes = res := by
      split at steps
      · obtain ⟨_, _, _, rest⟩ := bind_eq_ok steps
        cases rest
        rfl
      · cases steps
        rfl
    rw [if_pos negative] at steps
    obtain ⟨stream, fourth, made, closing⟩ := bind_eq_ok resolved
    obtain ⟨streamer, rfl, fourthOwns⟩ := OwnsHeld.diskstreamerNew made secondOwns
    obtain ⟨headerRes, fifth, header, closing⟩ := bind_eq_ok closing
    obtain ⟨_, sixth, closed, last⟩ := bind_eq_ok closing
    cases last
    have fifthOwns := OwnsHeld.fat16ResolveHeader fourthOwns header (by omega)
    have sixthOwns := fifthOwns.kfree (Multiset.mem_cons_self _ _) closed
    rw [Multiset.erase_cons_head] at sixthOwns
    obtain ⟨_, seventh, freed, last⟩ := bind_eq_ok steps
    have lastOwns := sixthOwns.kfree (by simp : ptr ∈ _) freed
    have still : seventh.disk.filesystem = true := by
      cases freed
      exact published
    cases last
    refine ⟨still, rfl, _, ?_, lastOwns⟩
    rw [Multiset.card_erase_of_mem (by simp)]
    simp

/-- Whatever is on a disk that is turned down, the call does not leave it as it was. -/
theorem fat16Resolve_touches {res : Int} (sound : Sound before.memory.heap) (ends : FreeEntriesEnd before.memory.heap)
    (run : fat16Resolve before = (.ok res, after)) (negative : res < 0) : ¬Untouched before after := by
  intro untouched
  obtain ⟨_, _, streams, three, owns⟩ := fat16Resolve_refused sound ends run negative
  refine owns.leaked ?_ untouched.live
  intro none'
  rw [none'] at three
  cases three

end Refused

def zeroedKernel : Kernel := Kernel.blank bootMemory ⟨fun _ => 0, peachosSectorSize, false, none⟩

theorem zeroedKernel_fat16Resolve : ∃ after, fat16Resolve zeroedKernel = (.ok (- EFSNOTUS), after) := by
  have refused : (fat16Resolve zeroedKernel).1 = .ok (- EFSNOTUS) := by decide +kernel
  exact ⟨_, run_of_result refused⟩

theorem fat16Resolve_touches_zeroed : ∃ after, fat16Resolve zeroedKernel = (.ok (- EFSNOTUS), after) ∧
    ¬Untouched zeroedKernel after := by
  obtain ⟨after, run⟩ := zeroedKernel_fat16Resolve
  exact ⟨after, run, fat16Resolve_touches bootMemory_sound bootMemory_ends run (by decide)⟩

/-- A disk without the signature keeps the file system that turned it down, and its streams. -/
theorem fat16Resolve_turnedDown : ∃ before after, Sound before.memory.heap ∧ FreeEntriesEnd before.memory.heap ∧
    fat16Resolve before = (.ok (- EFSNOTUS), after) ∧ before.disk.filesystem = false ∧
      after.disk.filesystem = true ∧ 1 ∈ liveBlocks after.memory.heap ∧
      1 ∉ liveBlocks before.memory.heap ∧ ¬Untouched before after := by
  have refused : (fat16Resolve zeroedKernel).1 = .ok (- EFSNOTUS) := by decide +kernel
  have kept : (fat16Resolve zeroedKernel).2.disk.filesystem = true := by decide +kernel
  have taken : 1 < (fat16Resolve zeroedKernel).2.memory.heap.table.total ∧
      ¬EntryFree (fat16Resolve zeroedKernel).2.memory.heap.table.entries 1 := by decide +kernel
  have free : EntryFree zeroedKernel.memory.heap.table.entries 1 := bootMemory_free (by decide)
  refine ⟨zeroedKernel, _, bootMemory_sound, bootMemory_ends, run_of_result refused, rfl, kept, taken,
    fun live => live.2 free, fun untouched => ?_⟩
  rw [untouched.filesystem] at kept
  cases kept

end PeachOS
