import PeachOS.Fat16Mount
import PeachOS.FileCalls
import PeachOS.FileFrames
import PeachOS.FileVolume
import PeachOS.KernelOwners
import PeachOS.Lib.Run

/-! Runs of `fopen` and `fclose` over the table of file descriptors. -/

namespace PeachOS
open Program Search Transition

/-- A file that was opened: the number that `fopen` returned, and the descriptor it made. -/
structure OpenFile where
  fd : Int
  desc : Addr
  descriptor : FileDescriptor

/-- One call on the kernel with its open files. The opens are those that `allowed` allows. -/
inductive FileStep (allowed : Kernel → List Byte → List Byte → Prop) :
    Kernel × List OpenFile → Kernel × List OpenFile → Prop where
  | fails {before after : Kernel} {opened : List OpenFile} (filename modeStr : List Byte)
      (may : allowed before filename modeStr) (run : fopen filename modeStr before = (.ok 0, after)) :
      FileStep allowed (before, opened) (after, opened)
  | opens {before middle after : Kernel} {opened : List OpenFile} {disk : Nat} {privateData : Addr}
      {fd : Int} (filename modeStr : List Byte) (may : allowed before filename modeStr)
      (started : fopenPrivateData filename modeStr before = (.ok (.ok (disk, privateData)), middle))
      (run : fopen filename modeStr before = (.ok fd, after)) (nonzero : fd ≠ 0) :
      FileStep allowed (before, opened) (after,
        ⟨fd, after.fileDescriptors (fd - 1).toNat, ⟨fd, true, privateData, some disk⟩⟩ :: opened)
  | closes {before after : Kernel} {opened : List OpenFile} {res : Int} (fd : Int)
      (run : fclose fd before = (.ok res, after)) :
      FileStep allowed (before, opened)
        (after, if res = 0 then opened.filter (fun file => file.fd ≠ fd) else opened)

/-- Every number that was returned and not closed leads to the descriptor that was made
for it, no two are the same, and every other number is rejected. -/
structure Intact (kernel : Kernel) (opened : List OpenFile) : Prop where
  accepted : ∀ file ∈ opened, fileGetDescriptor kernel file.fd = file.desc ∧ file.desc ≠ 0 ∧
    kernel.files file.desc = some (.fileDescriptor file.descriptor)
  distinct : opened.Pairwise (fun left right => left.fd ≠ right.fd ∧ left.desc ≠ right.desc)
  rejected : ∀ fd, (∀ file ∈ opened, file.fd ≠ fd) → fileGetDescriptor kernel fd = 0
  closes : ∀ file ∈ opened, ∀ res after, fclose file.fd kernel = (.ok res, after) → res = 0 ∧
    after.fileDescriptors = Function.update kernel.fileDescriptors (file.fd - 1).toNat 0
  refuses : ∀ filename modeStr after, fopen filename modeStr kernel = (.ok 0, after) →
    after.fileDescriptors = kernel.fileDescriptors

/-- The last slot of the table is not the one that an open takes: another slot is free, or
none is, or the file system does not open the path in that mode. -/
def Numbered (before : Kernel) (filename modeStr : List Byte) : Prop :=
  freeSlot before = some (peachosMaxFileDescriptors - 1) → ∀ data after,
    fopenPrivateData filename modeStr before ≠ (.ok (.ok data), after)

/-- The descriptors that a table holds. -/
def descriptorsOf (table : Nat → Addr) : Set Addr := {ptr | ptr ≠ 0 ∧ ∃ i, table i = ptr}

def IsDescriptor (_ptr : Addr) (record : FileRecord) : Prop :=
  ∃ descriptor, record = .fileDescriptor descriptor

/-- The descriptors of `kernel`, as they are there. -/
def pinned (kernel : Kernel) (ptr : Addr) (record : FileRecord) : Prop :=
  kernel.files ptr = some record ∧ IsDescriptor ptr record

theorem pinned_anchored (kernel : Kernel) :
    ∀ ptr record, pinned kernel ptr record → FileRecord.Anchor record := by
  rintro ptr record ⟨_, descriptor, rfl⟩
  trivial

/-- Each slot of the table belongs to one open file, by its number. -/
structure FileTable (kernel : Kernel) (opened : List OpenFile) : Prop where
  guards : Guards (descriptorsOf kernel.fileDescriptors) IsDescriptor {kernel.fileDescriptors} kernel
  listed : ∀ file ∈ opened, ∃ i : Nat, i < peachosMaxFileDescriptors - 1 ∧ file.fd = i + 1 ∧
    file.desc ≠ 0 ∧ kernel.fileDescriptors i = file.desc ∧
    kernel.files file.desc = some (.fileDescriptor file.descriptor) ∧ file.descriptor.index = file.fd
  occupied : ∀ i, kernel.fileDescriptors i ≠ 0 → ∃ file ∈ opened, file.fd = i + 1
  distinct : opened.Pairwise (fun left right => left.fd ≠ right.fd)

section Table
variable {kernel after : Kernel} {opened : List OpenFile}

theorem FileTable.pin (table : FileTable kernel opened) :
    Guards (descriptorsOf kernel.fileDescriptors) (pinned kernel) {kernel.fileDescriptors} kernel :=
  table.guards.mono subset_rfl (fun _ _ _ here isKind => ⟨here, isKind⟩)

theorem pinned_file {guarded : Set Addr} {tables : Set (Nat → Addr)} {ptr : Addr}
    {descriptor : FileDescriptor} (guards : Guards guarded (pinned kernel) tables after)
    (member : ptr ∈ guarded) (here : kernel.files ptr = some (.fileDescriptor descriptor)) :
    after.files ptr = some (.fileDescriptor descriptor) := by
  obtain ⟨record, there, same, _⟩ := guards.kept ptr member
  rw [here] at same
  cases same
  exact there

theorem FileTable.slot (table : FileTable kernel opened) {i : Nat}
    (taken : kernel.fileDescriptors i ≠ 0) : i < peachosMaxFileDescriptors - 1 ∧
      ∃ file ∈ opened, file.fd = i + 1 ∧ kernel.fileDescriptors i = file.desc ∧
        kernel.files file.desc = some (.fileDescriptor file.descriptor) ∧
        file.descriptor.index = i + 1 := by
  obtain ⟨file, member, number⟩ := table.occupied i taken
  obtain ⟨j, bound, number', _, place, here, index⟩ := table.listed file member
  obtain rfl : i = j := by omega
  exact ⟨bound, file, member, number, place, here, by rw [index, number]⟩

theorem FileTable.injective (table : FileTable kernel opened) {i j : Nat}
    (taken : kernel.fileDescriptors i ≠ 0)
    (same : kernel.fileDescriptors i = kernel.fileDescriptors j) : i = j := by
  obtain ⟨_, left, _, _, leftPlace, leftHere, leftIndex⟩ := table.slot taken
  obtain ⟨_, right, _, _, rightPlace, rightHere, rightIndex⟩ := table.slot (same ▸ taken)
  have equal : left.desc = right.desc := leftPlace.symm.trans (same.trans rightPlace)
  rw [equal, rightHere] at leftHere
  have records := FileRecord.fileDescriptor.inj (Option.some.inj leftHere)
  rw [← records] at leftIndex
  omega

theorem FileTable.keep (table : FileTable kernel opened)
    (guards : Guards (descriptorsOf kernel.fileDescriptors) (pinned kernel)
      {kernel.fileDescriptors} after) : FileTable after opened := by
  have same : after.fileDescriptors = kernel.fileDescriptors := guards.table
  refine ⟨?_, ?_, ?_, table.distinct⟩
  · rw [same]
    exact guards.mono subset_rfl (fun _ _ _ _ isKind => isKind.2)
  · intro file member
    obtain ⟨i, bound, number, nonnull, place, here, index⟩ := table.listed file member
    refine ⟨i, bound, number, nonnull, same ▸ place, ?_, index⟩
    exact pinned_file guards ⟨nonnull, i, place⟩ here
  · rw [same]
    exact table.occupied

theorem descriptorsOf_update {table : Nat → Addr} {i : Nat} {desc : Addr} (free : table i = 0)
    (nonnull : desc ≠ 0) :
    descriptorsOf (Function.update table i desc) = insert desc (descriptorsOf table) := by
  ext ptr
  constructor
  · rintro ⟨there, j, rfl⟩
    by_cases same : j = i
    · rw [same, Function.update_self]
      exact Set.mem_insert _ _
    · rw [Function.update_of_ne same] at there ⊢
      exact Set.mem_insert_of_mem _ ⟨there, j, rfl⟩
  · rintro (rfl | ⟨there, j, rfl⟩)
    · exact ⟨nonnull, i, Function.update_self _ _ _⟩
    · refine ⟨there, j, Function.update_of_ne ?_ _ _⟩
      rintro rfl
      exact there free

theorem FileTable.open (table : FileTable kernel opened) {i : Nat} {desc privateData : Addr}
    {disk : Nat} (free : kernel.fileDescriptors i = 0) (bound : i < peachosMaxFileDescriptors - 1)
    (new : Registered (descriptorsOf kernel.fileDescriptors) (pinned kernel)
      kernel.fileDescriptors i desc ⟨i + 1, true, privateData, some disk⟩ after) :
    FileTable after (⟨i + 1, after.fileDescriptors i, ⟨i + 1, true, privateData, some disk⟩⟩ :: opened) := by
  have same : after.fileDescriptors = Function.update kernel.fileDescriptors i desc := new.guards.table
  obtain ⟨block, address, held⟩ := new.held
  refine ⟨?_, ?_, ?_, ?_⟩
  · rw [same, descriptorsOf_update free new.nonnull]
    exact (new.guards.mono subset_rfl (fun _ _ _ _ isKind => isKind.2)).insert address held new.file
      ⟨_, rfl⟩
  · rintro file (_ | ⟨_, member⟩)
    · refine ⟨i, bound, rfl, ?_, rfl, ?_, rfl⟩
      · simp only [same, Function.update_self]
        exact new.nonnull
      · simp only [same, Function.update_self]
        exact new.file
    · obtain ⟨j, jBound, number, nonnull, place, here, index⟩ := table.listed file member
      have other : j ≠ i := by
        rintro rfl
        exact nonnull (place.symm.trans free)
      refine ⟨j, jBound, number, nonnull, ?_, ?_, index⟩
      · rw [same, Function.update_of_ne other, place]
      · exact pinned_file new.guards ⟨nonnull, j, place⟩ here
  · intro j taken
    by_cases other : j = i
    · exact ⟨_, List.mem_cons_self .., by rw [other]⟩
    · rw [same, Function.update_of_ne other] at taken
      obtain ⟨file, member, number⟩ := table.occupied j taken
      exact ⟨file, List.mem_cons_of_mem _ member, number⟩
  · apply List.pairwise_cons.mpr
    refine ⟨?_, table.distinct⟩
    intro file member equal
    obtain ⟨j, _, number, nonnull, place, _, _⟩ := table.listed file member
    obtain rfl : j = i := by
      dsimp only at equal
      omega
    exact nonnull (place.symm.trans free)

theorem descriptorsOf_clear {table : Nat → Addr} {i : Nat}
    (injective : ∀ j, table j = table i → j = i) :
    descriptorsOf (Function.update table i 0) = descriptorsOf table \ {table i} := by
  ext ptr
  constructor
  · rintro ⟨there, j, rfl⟩
    have other : j ≠ i := by
      rintro rfl
      exact there (Function.update_self _ _ _)
    rw [Function.update_of_ne other] at there ⊢
    exact ⟨⟨there, j, rfl⟩, fun same => other (injective j same)⟩
  · rintro ⟨⟨there, j, rfl⟩, apart⟩
    refine ⟨there, j, Function.update_of_ne ?_ _ _⟩
    rintro rfl
    exact apart rfl

theorem FileTable.close (table : FileTable kernel opened) {i : Nat}
    (taken : kernel.fileDescriptors i ≠ 0)
    (guards : Guards (descriptorsOf kernel.fileDescriptors \ {kernel.fileDescriptors i})
      (pinned kernel) {Function.update kernel.fileDescriptors i 0} after) :
    FileTable after (opened.filter (fun file => file.fd ≠ (i : Int) + 1)) := by
  have same : after.fileDescriptors = Function.update kernel.fileDescriptors i 0 := guards.table
  have injective : ∀ j, kernel.fileDescriptors j = kernel.fileDescriptors i → j = i :=
    fun j equal => (table.injective taken equal.symm).symm
  refine ⟨?_, ?_, ?_, table.distinct.filter _⟩
  · rw [same, descriptorsOf_clear injective]
    exact guards.mono subset_rfl (fun _ _ _ _ isKind => isKind.2)
  · intro file member
    obtain ⟨member, apart⟩ := List.mem_filter.mp member
    obtain ⟨j, bound, number, nonnull, place, here, index⟩ := table.listed file member
    have other : j ≠ i := by
      rintro rfl
      simp [number] at apart
    refine ⟨j, bound, number, nonnull, ?_, ?_, index⟩
    · rw [same, Function.update_of_ne other, place]
    · apply pinned_file guards ⟨⟨nonnull, j, place⟩, ?_⟩ here
      intro equal
      rw [Set.mem_singleton_iff, ← place] at equal
      exact other (injective j equal)
  · intro j still
    have other : j ≠ i := by
      rintro rfl
      exact still (by rw [same, Function.update_self])
    rw [same, Function.update_of_ne other] at still
    obtain ⟨file, member, number⟩ := table.occupied j still
    refine ⟨file, List.mem_filter.mpr ⟨member, ?_⟩, number⟩
    simp only [number, ne_eq, decide_not, Bool.not_eq_eq_eq_not, Bool.not_true, decide_eq_false_iff_not]
    omega

end Table

section Steps
variable {kernel after : Kernel} {opened : List OpenFile} {filename modeStr : List Byte}

theorem FileTable.fails (table : FileTable kernel opened)
    (run : fopen filename modeStr kernel = (.ok 0, after)) :
    FileTable after opened ∧ after.fileDescriptors = kernel.fileDescriptors := by
  obtain ⟨_, _, _, ⟨_, guards, _⟩ | ⟨_, _, i, _, _, _, number, _⟩⟩ :=
    fopen_ok (pinned_anchored kernel) table.pin run
  · exact ⟨table.keep guards, guards.table⟩
  · omega

theorem freeSlot_some {i : Nat} (free : freeSlot kernel = some i) :
    i < peachosMaxFileDescriptors ∧ kernel.fileDescriptors i = 0 := by
  obtain ⟨bound, empty, _⟩ := firstIndex_some free
  exact ⟨bound, beq_iff_eq.mp empty⟩

theorem FileTable.closes (table : FileTable kernel opened) {fd res : Int}
    (run : fclose fd kernel = (.ok res, after)) :
    (fileGetDescriptor kernel fd = 0 ∧ res = - EIO ∧ after = kernel) ∨
    (res = 0 ∧ FileTable after (opened.filter (fun file => file.fd ≠ fd)) ∧
      after.fileDescriptors = Function.update kernel.fileDescriptors (fd - 1).toNat 0) := by
  rcases fclose_ok (pinned_anchored kernel) table.pin run with
    unchanged | ⟨taken, zero, middle, descriptor, middleGuards, here, guards⟩
  · exact Or.inl unchanged
  · right
    have inside : ¬(fd ≤ 0 ∨ (peachosMaxFileDescriptors : Int) ≤ fd) := by
      intro outside
      exact taken (if_pos outside)
    have lookup : fileGetDescriptor kernel fd = kernel.fileDescriptors (fd - 1).toNat := if_neg inside
    rw [lookup] at taken here guards
    obtain ⟨_, file, member, number, place, fileHere, index⟩ := table.slot taken
    have pinned' := pinned_file middleGuards ⟨taken, _, rfl⟩ (place ▸ fileHere)
    rw [pinned'] at here
    have same := FileRecord.fileDescriptor.inj (Option.some.inj here)
    have slot : (descriptor.index - 1).toNat = (fd - 1).toNat := by
      rw [← same, index]
      omega
    rw [slot] at guards
    have closed := table.close taken guards
    have number' : ((fd - 1).toNat : Int) + 1 = fd := by omega
    rw [number'] at closed
    exact ⟨zero, closed, guards.table⟩

theorem FileTable.step {before after : Kernel × List OpenFile} (table : FileTable before.1 before.2)
    (step : FileStep Numbered before after) : FileTable after.1 after.2 := by
  cases step with
  | fails filename modeStr may run => exact (table.fails run).1
  | opens filename modeStr may started run nonzero =>
    obtain ⟨opened, middle, started', ⟨zero, _⟩ | ⟨disk, privateData, i, desc, data, free, number, new⟩⟩ :=
      fopen_ok (pinned_anchored _) table.pin run
    · exact absurd zero nonzero
    · rw [started] at started'
      cases started'
      cases data
      obtain ⟨bound, empty⟩ := freeSlot_some free
      have below : i < peachosMaxFileDescriptors - 1 := by
        by_contra last
        have exact : i = peachosMaxFileDescriptors - 1 := by omega
        exact may (exact ▸ free) _ _ started
      have opened' := table.open empty below new
      have slot : (((i : Int) + 1) - 1).toNat = i := by omega
      simp only [number, slot]
      exact opened'
  | closes fd run =>
    rcases table.closes run with ⟨_, refused, same⟩ | ⟨zero, closed, _⟩
    · rw [if_neg (by rw [refused]; decide), same]
      exact table
    · rw [if_pos zero]
      exact closed

theorem FileTable.intact (table : FileTable kernel opened) : Intact kernel opened := by
  have found : ∀ file ∈ opened, fileGetDescriptor kernel file.fd = file.desc := by
    intro file member
    obtain ⟨i, bound, number, _, place, _, _⟩ := table.listed file member
    unfold fileGetDescriptor
    rw [number, if_neg (by omega), show ((i : Int) + 1 - 1).toNat = i by omega, place]
  refine ⟨?_, ?_, ?_, ?_, fun _ _ _ run => (table.fails run).2⟩
  · intro file member
    obtain ⟨_, _, _, nonnull, _, here, _⟩ := table.listed file member
    exact ⟨found file member, nonnull, here⟩
  · apply table.distinct.imp_of_mem
    intro left right leftIn rightIn apart
    refine ⟨apart, ?_⟩
    intro same
    obtain ⟨_, _, leftNumber, _, _, leftHere, leftIndex⟩ := table.listed left leftIn
    obtain ⟨_, _, rightNumber, _, _, rightHere, rightIndex⟩ := table.listed right rightIn
    rw [same, rightHere] at leftHere
    have records := FileRecord.fileDescriptor.inj (Option.some.inj leftHere)
    exact apart (by rw [← leftIndex, ← rightIndex, records])
  · intro fd outside
    unfold fileGetDescriptor
    split
    · rfl
    · by_contra taken
      obtain ⟨file, member, number⟩ := table.occupied _ taken
      exact outside file member (by omega)
  · intro file member res after run
    obtain ⟨_, _, _, nonnull, _, _, _⟩ := table.listed file member
    rcases table.closes run with ⟨null, _⟩ | ⟨zero, _, emptied⟩
    · exact absurd ((found file member).symm.trans null) nonnull
    · exact ⟨zero, emptied⟩

theorem FileTable.start (recorded : Recorded {kernel.fileDescriptors} kernel)
    (empty : ∀ i, kernel.fileDescriptors i = 0) : FileTable kernel [] where
  guards := by
    refine ⟨recorded.sound, recorded.recorded, ?_, ?_, rfl⟩
    · rintro ptr ⟨nonnull, i, rfl⟩
      exact absurd (empty i) nonnull
    · rintro ptr ⟨nonnull, i, rfl⟩
      exact absurd (empty i) nonnull
  listed := by simp
  occupied := fun i taken => absurd (empty i) taken
  distinct := List.Pairwise.nil

/-- From an empty table, runs whose opens never take the last slot. -/
theorem file_runs_intact {start final : Kernel} {opened : List OpenFile}
    (recorded : Recorded {start.fileDescriptors} start) (empty : ∀ i, start.fileDescriptors i = 0)
    (run : Run (FileStep Numbered) (start, []) (final, opened)) : Intact final opened := by
  have table := run.invariant (fun state => FileTable state.1 state.2)
    (fun _ _ held step => held.step step) (FileTable.start recorded empty)
  exact table.intact

end Steps

/-- A kernel before its disk is mounted. -/
structure Unmounted (table : Nat → Addr) (kernel : Kernel) : Prop where
  sound : Sound kernel.memory.heap
  fresh : ∀ ptr, kernel.files ptr = none
  descriptors : kernel.fileDescriptors = table

section Mounting
variable {table : Nat → Addr} {before after : Kernel} {streamer : Addr}

theorem Unmounted.setDisk (unmounted : Unmounted table before) (disk : Disk) :
    Unmounted table (before.setDisk disk) :=
  ⟨unmounted.sound, unmounted.fresh, unmounted.descriptors⟩

theorem Unmounted.onDisk {α : Type} (call : Prog Disk Stop α) :
    Preserves (Unmounted table) (Kernel.onDisk call) := by
  intro before result after unmounted run
  rw [(Kernel.onDisk_eq_ok run).2]
  exact unmounted.setDisk _

theorem Unmounted.kzalloc {size : Word} {ptr : Addr} (unmounted : Unmounted table before)
    (positive : 0 < mallocBlocks size) (run : Kernel.kzalloc size before = (.ok ptr, after)) :
    Unmounted table after ∧ (ptr ≠ 0 → HeldAt after.memory.heap ptr) := by
  rcases Kernel.kzalloc_marks unmounted.sound.kernel run with
    ⟨null, rfl⟩ | ⟨start, rfl, _, _, marks, same⟩
  · exact ⟨unmounted, fun nonnull => absurd null nonnull⟩
  · refine ⟨⟨marks.sound unmounted.sound, ?_, ?_⟩, fun _ =>
      ⟨start, (heapBlockToAddress_congr marks.saddr start).symm, marks.fresh unmounted.sound positive⟩⟩
    · intro ptr
      rw [same]
      exact unmounted.fresh ptr
    · rw [same]
      exact unmounted.descriptors

theorem Unmounted.diskstreamerNew {result : Option (Addr × DiskStream)} (unmounted : Unmounted table before)
    (run : diskstreamerNew 0 before = (.ok result, after)) :
    Unmounted table after ∧ ∃ ptr, result = some (ptr, ⟨0, 0⟩) ∧ HeldAt after.memory.heap ptr := by
  obtain ⟨ptr, middle, allocated, rest⟩ := bind_eq_ok (show (Kernel.kzalloc sizeofDiskStream >>=
    fun streamer => if streamer = 0 then fault else pure (some (streamer, ⟨0, 0⟩)) :
      KernelProg (Option (Addr × DiskStream))) before = (.ok result, after) from run)
  obtain ⟨kept, held⟩ := unmounted.kzalloc (by decide) allocated
  split at rest
  · cases rest
  next nonnull =>
    cases rest
    exact ⟨kept, ptr, rfl, held nonnull⟩

theorem Unmounted.fat16InitPrivate {fatPrivate : FatPrivate} (unmounted : Unmounted table before)
    (run : fat16InitPrivate 0 before = (.ok fatPrivate, after)) : Unmounted table after := by
  obtain ⟨_, first, cluster, steps⟩ := bind_eq_ok run
  obtain ⟨_, second, fat, steps⟩ := bind_eq_ok steps
  obtain ⟨_, third, directory, steps⟩ := bind_eq_ok steps
  have firstKept := (unmounted.diskstreamerNew cluster).1
  have secondKept := (firstKept.diskstreamerNew fat).1
  have thirdKept := (secondKept.diskstreamerNew directory).1
  cases steps
  exact thirdKept

theorem Unmounted.fat16GetRootDirectory (unmounted : Unmounted table before)
    (held : HeldAt before.memory.heap streamer) (run : fat16GetRootDirectory before = (.ok 0, after)) :
    Recorded {table} after ∧ HeldAt after.memory.heap streamer := by
  obtain ⟨fatPrivate, first, looked, steps⟩ := bind_eq_ok run
  have firstKept := Unmounted.onDisk _ _ _ _ unmounted looked
  rw [(Kernel.onDisk_eq_ok looked).2] at firstKept steps
  rw [read_bind] at steps
  split at steps
  · cases steps
  obtain ⟨totalItems, second, counted, steps⟩ := bind_eq_ok steps
  have secondKept := Unmounted.onDisk _ _ _ _ firstKept counted
  have secondHeld : HeldAt second.memory.heap streamer := by
    rw [(Kernel.onDisk_eq_ok counted).2]
    exact held
  obtain ⟨dir, third, allocated, steps⟩ := bind_eq_ok steps
  have recorded : Recorded {table} second := by
    refine ⟨secondKept.sound, ?_, ?_, ?_, secondKept.descriptors⟩
    · intro ptr record here
      rw [secondKept.fresh] at here
      cases here
    · exact fun _ impossible => impossible.elim
    · exact fun _ impossible => impossible.elim
  have thirdRecorded := Guards.newRecord _ _ _ _ _ recorded allocated
  split at steps
  · cases steps
  next nonnull =>
    rcases Kernel.newRecord_ok secondKept.sound.kernel allocated with
      ⟨null, _⟩ | ⟨start, _, _, _, marks, _⟩
    · exact absurd null nonnull
    · have thirdHeld := secondHeld.marks marks
      obtain ⟨res, fourth, filled, steps⟩ := bind_eq_ok steps
      obtain ⟨heap, files, descriptors⟩ := fat16ReadRoot_keeps filled
      split at steps
      · obtain ⟨_, _, _, last⟩ := bind_eq_ok steps
        cases last
      · cases steps
        exact ⟨thirdRecorded.congr heap files descriptors, heap ▸ thirdHeld⟩

theorem Unmounted.fat16ResolveHeader {stream : DiskStream} (unmounted : Unmounted table before)
    (held : HeldAt before.memory.heap streamer) (run : fat16ResolveHeader stream before = (.ok 0, after)) :
    Recorded {table} after ∧ HeldAt after.memory.heap streamer := by
  unfold PeachOS.fat16ResolveHeader at run
  rw [read_bind] at run
  generalize diskstreamerRead before.disk.image stream sizeofFatH = result at run
  obtain none | ⟨readRes, header, moved⟩ := result
  · cases run
  · dsimp only at run
    split at run
    · cases run
    · unfold Kernel.changeVolume at run
      rw [update_bind] at run
      split at run
      · cases run
      · obtain ⟨rootRes, middle, rootRun, steps⟩ := bind_eq_ok run
        split at steps
        · cases steps
        next succeeded =>
          obtain rfl : rootRes = 0 := not_not.mp succeeded
          cases steps
          have entered := unmounted.setDisk
            (before.disk.withPrivate (fun volume => { volume with header := fatHeaderOf header }))
          exact entered.fat16GetRootDirectory held rootRun

theorem fat16Resolve_recorded (unmounted : Unmounted table before)
    (run : fat16Resolve before = (.ok 0, after)) : Recorded {table} after := by
  obtain ⟨ptr, first, allocated, steps⟩ := bind_eq_ok run
  split at steps
  · cases steps
  have firstKept := (unmounted.kzalloc (by decide) allocated).1
  obtain ⟨fatPrivate, second, started, steps⟩ := bind_eq_ok steps
  have secondKept := firstKept.fat16InitPrivate started
  rw [update_bind] at steps
  obtain ⟨streamRes, third, resolved, steps⟩ := bind_eq_ok steps
  obtain ⟨stream, fourth, made, closing⟩ := bind_eq_ok resolved
  obtain ⟨fourthKept, streamer, rfl, fourthHeld⟩ := (secondKept.setDisk _).diskstreamerNew made
  obtain ⟨headerRes, fifth, header, closing⟩ := bind_eq_ok closing
  cases closing
  by_cases negative : streamRes < 0
  · rw [if_pos negative] at steps
    cases steps
    omega
  · rw [if_neg negative] at steps
    cases steps
    obtain ⟨recorded, block, rfl, streamHeld⟩ := fourthKept.fat16ResolveHeader fourthHeld header
    -- the stream of the header is released
    have frees := recorded.sound.heapFree_block streamHeld.clean.bound
    exact recorded.frees (frees.sound recorded.sound streamHeld.clean) frees.saddr
      (fun _ => frees.clean) (fun _ member => member.elim) (fun _ _ => id) (fun _ member => member.elim)

end Mounting

/-- A disk with the file `A` in the one entry of its root directory, before it is mounted. -/
def singleBoot : Kernel := Kernel.blank bootMemory
  ⟨fun pos => if pos < 1024 then bootImage 1 pos else singleTable.getD (pos - 1024) 0, 512, false, none⟩

/-- One open of the file on the disk that was mounted. -/
theorem file_runs_intact_single : ∃ mounted final opened,
    fat16Resolve singleBoot = (.ok 0, mounted) ∧ Run (FileStep Numbered) (mounted, []) (final, opened) ∧
      opened ≠ [] ∧ Intact final opened := by
  have resolved : (fat16Resolve singleBoot).1 = .ok 0 := by decide +kernel
  have run := run_of_result resolved
  have unmounted : Unmounted (fun _ => 0) singleBoot := ⟨bootMemory_sound, fun _ => rfl, rfl⟩
  have recorded := fat16Resolve_recorded unmounted run
  have opens : (fopen [0x30, 0x3A, slash, 0x61] [0x72] (fat16Resolve singleBoot).2).1 = .ok 1 := by
    decide +kernel
  have openRun := run_of_result opens
  generalize (fat16Resolve singleBoot).2 = mounted at run recorded openRun
  have table : mounted.fileDescriptors = fun _ => 0 := recorded.table
  have free : freeSlot mounted = some 0 := by
    apply firstIndex_eq (by decide)
    · rw [table]
      rfl
    · exact fun j earlier => absurd earlier (Nat.not_lt_zero j)
  have may : Numbered mounted [0x30, 0x3A, slash, 0x61] [0x72] := by
    intro last
    rw [free] at last
    exact absurd last (by decide)
  obtain ⟨_, _, started, ⟨zero, _⟩ | ⟨_, _, _, _, data, _⟩⟩ :=
    fopen_ok unguarded recorded openRun
  · exact absurd zero (by decide)
  · cases data
    have reached : Run (FileStep Numbered) (mounted, []) (_, _ :: []) :=
      .single (.opens _ _ may started openRun (by decide))
    exact ⟨mounted, _, _, run, reached, List.cons_ne_nil _ _,
      file_runs_intact (table ▸ recorded) (fun i => congrFun table i) reached⟩

/-- The opens of a run are unrestricted. -/
def AnyOpen (_before : Kernel) (_filename _modeStr : List Byte) : Prop := True

theorem fopen_repeated (count : Nat) (bound : count ≤ peachosMaxFileDescriptors) :
    ∃ final opened, Run (FileStep AnyOpen) (singleKernel, []) (final, opened) ∧
      RootFile final heapAddress singleFile ∧
      (freeBlocks final.memory.heap).card + 7 * count = 25599 ∧
      (∀ i, final.fileDescriptors i = 0 ↔ count ≤ i) ∧
      (0 < count → ∃ file ∈ opened, file.fd = count ∧ file.desc ≠ 0) := by
  induction count with
  | zero =>
    refine ⟨singleKernel, [], .refl, singleKernel_rootFile, ?_, ?_, ?_⟩
    · rw [singleKernel_room]
    · exact fun i => ⟨fun _ => Nat.zero_le i, fun _ => rfl⟩
    · exact fun impossible => absurd impossible (Nat.lt_irrefl 0)
  | succ count ih =>
    obtain ⟨middle, opened, run, volume, room, slots, _⟩ := ih (by omega)
    have free : freeSlot middle = some count := by
      apply firstIndex_eq (by omega)
      · exact beq_iff_eq.mpr ((slots count).mpr le_rfl)
      · intro j earlier
        rw [beq_eq_false_iff_ne]
        intro empty
        have := (slots j).mp empty
        omega
    obtain ⟨privateData, _, desc, after, started, run', volume', room', nonnull, table, _⟩ :=
      fopen_single volume (by unfold peachosMaxFileDescriptors at bound; omega) free
    have step : FileStep AnyOpen (middle, opened) (after, _) :=
      .opens _ _ trivial started run' (by omega)
    refine ⟨after, _, run.tail step, volume', by omega, ?_, ?_⟩
    · intro i
      rw [table]
      by_cases here : i = count
      · rw [here, Function.update_self]
        exact ⟨fun null => absurd null nonnull, fun impossible => absurd impossible (by omega)⟩
      · rw [Function.update_of_ne here, slots]
        omega
    · intro _
      refine ⟨_, List.mem_cons_self .., by push_cast; rfl, ?_⟩
      show after.fileDescriptors ((count : Int) + 1 - 1).toNat ≠ 0
      rw [show ((count : Int) + 1 - 1).toNat = count by omega, table, Function.update_self]
      exact nonnull

/-- The descriptor with number 512 that `fopen` returns for the last slot is rejected. -/
theorem file_runs_rejected : ∃ final opened,
    Run (FileStep AnyOpen) (singleKernel, []) (final, opened) ∧ ¬Intact final opened := by
  obtain ⟨final, opened, run, _, _, _, last⟩ :=
    fopen_repeated peachosMaxFileDescriptors le_rfl
  obtain ⟨file, member, number, nonnull⟩ := last (by decide)
  refine ⟨final, opened, run, fun intact => ?_⟩
  have accepted := (intact.accepted file member).1
  have rejected : fileGetDescriptor final file.fd = 0 := by
    rw [number]
    exact if_pos (Or.inr le_rfl)
  exact nonnull (accepted.symm.trans rejected)

end PeachOS
