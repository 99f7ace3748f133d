import PeachOS.FileCalls
import PeachOS.FileVolume
import PeachOS.HeapOwners

/-! The heap blocks that an open leaves behind when the file is closed again. -/

namespace PeachOS
open Program Search

/-- An open that returned zero left the live blocks as they were; one that returned a
descriptor is undone by closing it. -/
def Restores (before after : Kernel) (fd : Int) : Prop :=
  if fd = 0 then liveBlocks after.memory.heap = liveBlocks before.memory.heap
  else ∃ res last, fclose fd after = (.ok res, last) ∧
    liveBlocks last.memory.heap = liveBlocks before.memory.heap

def isRootAt (root : Addr) : Addr → FileRecord → Prop := orRoot (fun _ _ => False) root

section Leaks
variable {before after : Kernel} {filename modeStr : List Byte} {tables : Set (Nat → Addr)}

theorem isRootAt_anchored (root : Addr) :
    ∀ ptr record, isRootAt root ptr record → FileRecord.Anchor record :=
  orRoot_anchored unguarded root

theorem fopen_root (guards : Guards ∅ (fun _ _ => False) tables before)
    (accepted : ¬PathRejected filename) {fd : Int}
    (run : fopen filename modeStr before = (.ok fd, after)) :
    ∃ (block : Nat) (root : Addr) (tables' : Set (Nat → Addr)),
      root = heapBlockToAddress before.memory.heap block ∧
      block < before.memory.heap.table.total ∧
      EntryFree before.memory.heap.table.entries block ∧
      Guards {root} (isRootAt root) tables' after := by
  obtain ⟨res, last, opening, ending⟩ := bind_eq_ok run
  obtain ⟨opened, middle, started, rest⟩ := bind_eq_ok opening
  obtain ⟨root, first, parsed, path⟩ := bind_eq_ok started
  obtain ⟨block, address, bound, free, firstGuards⟩ :=
    pathparserParse_root unguarded guards accepted parsed
  rw [insert_empty_eq] at firstGuards
  have middleGuards := Guards.fopenPath (isRootAt_anchored root) _ _ _ _ _ firstGuards path
  have lastGuards : ∃ tables', Guards {root} (isRootAt root) tables' last := by
    rcases fopenRegister_ok middleGuards rest with ⟨rfl, _⟩ | ⟨_, _, _, _, _, _, _, new⟩
    · exact ⟨_, middleGuards⟩
    · exact ⟨_, new.guards⟩
  have same : after = last := by
    split at ending
    · cases ending
      rfl
    · cases ending
      rfl
  obtain ⟨tables', guarded⟩ := lastGuards
  exact ⟨block, root, tables', address, bound, free, same ▸ guarded⟩

theorem fclose_root {root : Addr} (guards : Guards {root} (isRootAt root) tables before) {fd res : Int}
    (run : fclose fd before = (.ok res, after)) :
    ∃ tables', Guards {root} (isRootAt root) tables' after := by
  rcases fclose_ok (isRootAt_anchored root) guards run with
    ⟨_, _, rfl⟩ | ⟨_, _, middle, descriptor, middleGuards, here, fewer⟩
  · exact ⟨_, guards⟩
  · refine ⟨_, fewer.mono ?_ (fun _ _ _ _ isKind => isKind)⟩
    intro ptr member
    refine ⟨member, ?_⟩
    intro same
    -- a descriptor is not the root of a path
    rw [Set.mem_singleton_iff] at same
    obtain ⟨record, there, isKind⟩ := middleGuards.kept ptr member
    rw [same, here] at there
    cases there
    rcases isKind with impossible | ⟨_, path, other⟩
    · exact impossible
    · cases other

theorem Guards.leaked {kind : Addr → FileRecord → Prop} {root : Addr} {block : Nat}
    (guards : Guards {root} kind tables after) (sound : Sound before.memory.heap)
    (address : root = heapBlockToAddress before.memory.heap block)
    (bound : block < before.memory.heap.table.total)
    (free : EntryFree before.memory.heap.table.entries block) :
    liveBlocks after.memory.heap ≠ liveBlocks before.memory.heap := by
  intro same
  obtain ⟨other, place, held⟩ := guards.held root (Set.mem_singleton root)
  have kernel := guards.sound.kernel
  have here := sound.kernel.address_toNat bound
  have there := kernel.address_toNat held.clean.bound
  rw [← place, address, here] at there
  obtain rfl : block = other := by omega
  have live : block ∈ liveBlocks after.memory.heap := ⟨held.clean.bound, held.taken⟩
  rw [same] at live
  exact live.2 free

theorem Restores.rejected (guards : Guards ∅ (fun _ _ => False) tables before) {fd : Int}
    (run : fopen filename modeStr before = (.ok fd, after)) (restores : Restores before after fd) :
    PathRejected filename := by
  by_contra accepted
  obtain ⟨block, root, _, address, bound, free, guarded⟩ := fopen_root guards accepted run
  unfold Restores at restores
  split at restores
  · exact guarded.leaked guards.sound address bound free restores
  · obtain ⟨res, last, closed, same⟩ := restores
    obtain ⟨_, stillGuarded⟩ := fclose_root guarded closed
    exact stillGuarded.leaked guards.sound address bound free same

/-- The only paths for which `fopen`, with the close of what it opened, gives back all it
allocates are those that it turns down at sight. -/
theorem fopen_restores_iff (guards : Guards ∅ (fun _ _ => False) tables before) {fd : Int}
    (run : fopen filename modeStr before = (.ok fd, after)) :
    Restores before after fd ↔ PathRejected filename := by
  constructor
  · exact Restores.rejected guards run
  · intro rejected
    have parsed : pathparserParse filename before = (.ok 0, before) :=
      pathparserParse_rejected rejected
    have started : fopenPrivateData filename modeStr before = (.ok (.error (- EINVARG)), before) :=
      (bind_ok parsed).trans rfl
    have opened : fopenDescriptor filename modeStr before = (.ok (- EINVARG), before) :=
      (bind_ok started).trans rfl
    have refused : fopen filename modeStr before = (.ok 0, before) := (bind_ok opened).trans rfl
    rw [refused] at run
    cases run
    unfold Restores
    rw [if_pos rfl]

theorem singleKernel_guards : Guards ∅ (fun _ _ => False) Set.univ singleKernel where
  sound := singleKernel_sound
  recorded := by
    intro ptr record here
    cases here
  held := by simp
  kept := by simp
  table := trivial

theorem fopen_restores_iff_single : ∃ after,
    fopen [0x30, 0x3A, slash, 0x61] [0x72] singleKernel = (.ok 1, after) ∧
      (Restores singleKernel after 1 ↔ PathRejected [0x30, 0x3A, slash, 0x61]) := by
  have free : freeSlot singleKernel = some 0 :=
    firstIndex_eq (by decide) rfl (fun j earlier => absurd earlier (Nat.not_lt_zero j))
  obtain ⟨_, _, _, after, _, run, _⟩ := fopen_single singleKernel_rootFile
    (by rw [singleKernel_room]; decide) free
  exact ⟨after, run, fopen_restores_iff singleKernel_guards run⟩

/-- Opening and closing the file of the volume costs heap blocks. -/
theorem fopen_leaks : ∃ after,
    fopen [0x30, 0x3A, slash, 0x61] [0x72] singleKernel = (.ok 1, after) ∧
      ¬Restores singleKernel after 1 := by
  have free : freeSlot singleKernel = some 0 :=
    firstIndex_eq (by decide) rfl (fun j earlier => absurd earlier (Nat.not_lt_zero j))
  obtain ⟨_, _, _, after, _, run, _⟩ := fopen_single singleKernel_rootFile
    (by rw [singleKernel_room]; decide) free
  refine ⟨after, run, fun restores => ?_⟩
  exact absurd (restores.rejected singleKernel_guards run) (by decide)

end Leaks

end PeachOS
