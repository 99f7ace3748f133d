import PeachOS.DirectoryLoad

/-! How far the root directory is looked through when it is loaded, and how many items it then
has. The count of its entries ends with a mark on the disk, its table has a size of its own. -/

namespace PeachOS
open Program ByteMemory

/-- The count of the root directory ends within as many entries as its table has, and so do
the items of the directory when it is loaded. -/
structure BoundedRoot (kernel : Kernel) (header : FatHeader) : Prop where
  ends : ∃ (total : Int) (pos looked : Nat), directoryStartPos kernel.disk (rootSector header) = pos ∧
    looked ≤ header.rootDirEntries.toNat ∧
    fat16GetTotalItemsForDirectory (BitVec.ofInt 32 (rootSector header)) kernel.disk =
      (.ok total, kernel.disk.onDirectory (pos + fatDirectoryItemSize * looked))
  inside : ∀ after fatPrivate, fat16GetRootDirectory kernel = (.ok 0, after) →
    after.disk.fsPrivate = some fatPrivate →
    fatPrivate.rootDirectory.total ≤ header.rootDirEntries.toNat

section Count
variable {disk left : Disk} {sector : Int} {total : Int}

theorem Disk.onDirectory_inj (directory : HasDirectory disk) {pos other : Nat}
    (same : disk.onDirectory pos = disk.onDirectory other) : pos = other := by
  obtain ⟨fatPrivate, _, here, _⟩ := directory
  have volumes := congrArg Disk.fsPrivate same
  unfold Disk.onDirectory at volumes
  rw [withPrivate_some here, withPrivate_some here] at volumes
  have streams := congrArg FatPrivate.directoryStream (Option.some.inj volumes)
  exact Int.ofNat_inj.mp (congrArg DiskStream.pos (Option.some.inj streams))

theorem Entries.unique {image : Image} {pos count other : Nat} (entries : Entries image pos count)
    (also : Entries image pos other) : count = other := by
  by_contra different
  cases Nat.lt_or_gt_of_ne different with
  | inl less => exact also.before count less entries.ended
  | inr more => exact entries.before other more also.ended

theorem fat16GetTotalItems_start (directory : HasDirectory disk) {pos : Nat}
    (start : directoryStartPos disk sector = pos) :
    fat16GetTotalItemsForDirectory (BitVec.ofInt 32 sector) disk =
      fat16CountItemsLoop (2 ^ 26 + 1) 0 (disk.onDirectory pos) := by
  unfold directoryStartPos at start
  unfold fat16GetTotalItemsForDirectory
  rw [read_bind, start, bind_ok (directorySeek_run directory pos)]

theorem fat16GetTotalItems_within (directory : HasDirectory disk) {pos entries : Nat}
    (start : directoryStartPos disk sector = pos) (few : entries ≤ 2 ^ 26) :
    (∃ total looked, looked ≤ entries ∧ fat16GetTotalItemsForDirectory (BitVec.ofInt 32 sector) disk =
        (.ok total, disk.onDirectory (pos + fatDirectoryItemSize * looked))) ↔
      ∃ count < entries, Entries disk.image pos count := by
  rw [fat16GetTotalItems_start directory start]
  constructor
  · rintro ⟨total, looked, bound, run⟩
    obtain ⟨count, found, _, left⟩ := fat16CountItemsLoop_ok directory _ _ run
    have same := Disk.onDirectory_inj directory left
    have item : 0 < fatDirectoryItemSize := by decide
    have ended : looked = count + 1 := Nat.eq_of_mul_eq_mul_left item (Nat.add_left_cancel same)
    exact ⟨count, by omega, found⟩
  · rintro ⟨count, bound, found⟩
    exact ⟨_, count + 1, bound, fat16CountItemsLoop_run directory found _ (by omega) 0⟩

end Count

section Root
variable {before after : Kernel} {image : Image} {header : FatHeader}

/-- The root directory is looked through within its table if and only if one of its entries is
the end mark. -/
theorem fat16GetRootDirectory_bounded (mounting : Mounting image header before.disk)
    (directory : HasDirectory before.disk) : BoundedRoot before header ↔
      ∃ pos count : Nat, directoryStartPos before.disk (rootSector header) = pos ∧
        count < header.rootDirEntries.toNat ∧ Entries image pos count := by
  have few : header.rootDirEntries.toNat ≤ 2 ^ 26 := by omega
  constructor
  · rintro ⟨⟨total, pos, looked, start, bound, run⟩, _⟩
    obtain ⟨count, less, entries⟩ :=
      (fat16GetTotalItems_within directory start few).mp ⟨total, looked, bound, run⟩
    exact ⟨pos, count, start, less, mounting.content ▸ entries⟩
  · rintro ⟨pos, count, start, less, entries⟩
    rw [← mounting.content] at entries
    obtain ⟨total, looked, bound, run⟩ :=
      (fat16GetTotalItems_within directory start few).mpr ⟨count, less, entries⟩
    refine ⟨⟨total, pos, looked, start, bound, run⟩, ?_⟩
    intro after fatPrivate loaded here
    obtain ⟨_, other, dir, counted, left, counting, otherHere, root⟩ := fat16GetRootDirectory_ok mounting loaded
    obtain rfl : fatPrivate = other := Option.some.inj (here.symm.trans otherHere)
    rw [root]
    rw [fat16GetTotalItems_start directory start] at counting
    obtain ⟨count', found, sum, _⟩ := fat16CountItemsLoop_ok directory _ _ counting
    obtain rfl := entries.unique found
    have fewer := liveCount_le before.disk.image pos count
    dsimp only
    omega

end Root

/-- A boot sector for `entries` entries of the root directory, which has two. -/
def crowdedImage (entries : Byte) : Image := fun pos => if pos = 1024 ∨ pos = 1056 then 0x41 else bootImage entries pos

def crowdedHeader (entries : Byte) : FatHeader := fatHeaderOf (diskBytes (crowdedImage entries) 0 sizeofFatH)

def crowdedKernel (entries : Byte) : Kernel := Kernel.blank bootMemory ⟨crowdedImage entries, 512, true,
  some ⟨crowdedHeader entries, ⟨0, 0, 0, 0⟩, some ⟨0, 0⟩, some ⟨0, 0⟩, some ⟨0, 0⟩⟩⟩

theorem crowdedKernel_mounting (entries : Byte) :
    Mounting (crowdedImage entries) (crowdedHeader entries) (crowdedKernel entries).disk :=
  ⟨rfl, rfl, _, rfl, rfl, rfl, rfl⟩

theorem crowdedKernel_directory (entries : Byte) : HasDirectory (crowdedKernel entries).disk := ⟨_, 0, rfl, rfl⟩

theorem crowdedKernel_start :
    directoryStartPos (crowdedKernel 1).disk (rootSector (crowdedHeader 1)) = (1024 : Nat) ∧
      directoryStartPos (crowdedKernel 16).disk (rootSector (crowdedHeader 16)) = (1024 : Nat) := by
  decide

theorem crowdedImage_entries (entries : Byte) : Entries (crowdedImage entries) 1024 2 where
  ended := rfl
  before := by
    intro i bound
    obtain rfl | rfl : i = 0 ∨ i = 1 := by omega
    · exact (by decide : (0x41 : Byte) ≠ 0)
    · exact (by decide : (0x41 : Byte) ≠ 0)
  low := by decide

/-- A table for 16 entries has room for the two. -/
theorem fat16GetRootDirectory_bounded_crowded : BoundedRoot (crowdedKernel 16) (crowdedHeader 16) :=
  (fat16GetRootDirectory_bounded (crowdedKernel_mounting 16) (crowdedKernel_directory 16)).mpr
    ⟨1024, 2, crowdedKernel_start.2, by decide, crowdedImage_entries 16⟩

/-- The directory has two items in a table for one. -/
theorem fat16GetRootDirectory_crowded : ∃ kernel image header after fatPrivate,
    Mounting image header kernel.disk ∧ HasDirectory kernel.disk ∧ header.rootDirEntries = 1 ∧
      fat16GetRootDirectory kernel = (.ok 0, after) ∧ after.disk.fsPrivate = some fatPrivate ∧
      fatPrivate.rootDirectory.total = 2 ∧ ¬BoundedRoot kernel header := by
  have one : (crowdedHeader 1).rootDirEntries = 1 := by decide
  have spare : Spare (crowdedKernel 1) (0 + 1) :=
    ⟨bootMemory_kernel.1, bootMemory_kernel.2.symm ▸ by decide⟩
  have mountable : Mountable (crowdedImage 1) :=
    ⟨by decide, by decide, by decide, ⟨2, by decide, crowdedImage_entries 1⟩, by decide⟩
  have run := run_of_result (spare.fat16GetRootDirectory mountable rfl rfl rfl rfl rfl)
  obtain ⟨_, fatPrivate, dir, total, left, counting, here, root⟩ :=
    fat16GetRootDirectory_ok (crowdedKernel_mounting 1) run
  have two : total = 2 := by
    rw [fat16GetTotalItems_start (crowdedKernel_directory 1) crowdedKernel_start.1] at counting
    obtain ⟨count, found, sum, _⟩ := fat16CountItemsLoop_ok (crowdedKernel_directory 1) _ _ counting
    obtain rfl := (crowdedImage_entries 1).unique found
    rw [sum]
    decide
  have items : fatPrivate.rootDirectory.total = 2 := by
    rw [root]
    exact two
  refine ⟨crowdedKernel 1, crowdedImage 1, crowdedHeader 1, _, fatPrivate, crowdedKernel_mounting 1,
    crowdedKernel_directory 1, one, run, here, items, ?_⟩
  intro bounded
  have inside := bounded.inside _ fatPrivate run here
  rw [items, one] at inside
  exact absurd inside (by decide)

end PeachOS
