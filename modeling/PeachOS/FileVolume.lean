import PeachOS.File
import PeachOS.PathParts

/-! Opening a file that the volume has: every record is allocated, and the descriptor goes
into the first free slot. -/

namespace PeachOS
open Program ByteMemory Search

/-- A volume with one file in its root directory, whose table is in a live block. -/
structure RootFile (kernel : Kernel) (table : Addr) (item : FatDirectoryItem) : Prop where
  heap : KernelHeap kernel.memory.heap
  filesystem : kernel.disk.filesystem = true
  root : ∃ volume, kernel.disk.fsPrivate = some volume ∧ volume.rootDirectory.item = table ∧
    volume.rootDirectory.total = 1
  live : Live kernel.memory.heap table
  entry : fatDirectoryItemAt kernel.memory.bytes table = item
  file : item.itemAttribute &&& fatFileSubdirectory = 0

theorem fatDirectoryItemAt_congr {before after : Bytes} {ptr : Addr}
    (same : ∀ i < 32, after (ptr + BitVec.ofNat 32 i) = before (ptr + BitVec.ofNat 32 i)) :
    fatDirectoryItemAt after ptr = fatDirectoryItemAt before ptr := by
  have shift : ∀ base i, ptr + BitVec.ofNat 32 base + BitVec.ofNat 32 i =
      ptr + BitVec.ofNat 32 (base + i) := by
    intro base i
    bv_omega
  have name : loadBytes after ptr 8 = loadBytes before ptr 8 :=
    loadBytes_congr (fun i bound => same i (by omega))
  have ext : loadBytes after (ptr + 8) 3 = loadBytes before (ptr + 8) 3 := by
    apply loadBytes_congr
    intro i bound
    have here := same (8 + i) (by omega)
    rw [← shift 8 i] at here
    exact here
  have high : load16 after (ptr + 20) = load16 before (ptr + 20) := by
    have first := same 20 (by omega)
    have second := same (20 + 1) (by omega)
    rw [← shift 20 1] at second
    exact congrArg₂ (· ++ ·) second first
  have low : load16 after (ptr + 26) = load16 before (ptr + 26) := by
    have first := same 26 (by omega)
    have second := same (26 + 1) (by omega)
    rw [← shift 26 1] at second
    exact congrArg₂ (· ++ ·) second first
  have size : load32 after (ptr + 28) = load32 before (ptr + 28) := by
    have first := same 28 (by omega)
    have second := same (28 + 1) (by omega)
    have third := same (28 + 2) (by omega)
    have fourth := same (28 + 3) (by omega)
    rw [← shift 28 1] at second
    rw [← shift 28 2] at third
    rw [← shift 28 3] at fourth
    exact congrArg₂ (· ++ ·) (congrArg₂ (· ++ ·) (congrArg₂ (· ++ ·) fourth third) second) first
  unfold fatDirectoryItemAt
  rw [name, ext, high, low, size]
  congr 1
  exact same 11 (by omega)

section RootFile
variable {before after : Kernel} {table : Addr} {item : FatDirectoryItem} {part : List Byte}

theorem RootFile.extends {changed : Set Addr} (volume : RootFile before table item)
    (extends' : Extends changed before after) (outside : table ∉ changed) :
    RootFile after table item where
  heap := extends'.kernel
  filesystem := extends'.disk ▸ volume.filesystem
  root := extends'.disk ▸ volume.root
  live := extends'.live table volume.live
  entry := by
    rw [← volume.entry]
    apply fatDirectoryItemAt_congr
    intro i bound
    exact extends'.bytes table volume.live outside _
      (frameOf_within (volume.live.aligned volume.heap) (by omega))
  file := volume.file

theorem RootFile.kzalloc (volume : RootFile before table item) (size : Word) (roundable : Roundable size)
    (single : blocksFor size = 1) (room : 0 < (freeBlocks before.memory.heap).card) :
    ∃ ptr memory, Kernel.kzalloc size before = (.ok ptr, before.setMemory memory) ∧ ptr ≠ 0 ∧
      RootFile (before.setMemory memory) table item ∧
      (freeBlocks memory.heap).card + 1 = (freeBlocks before.memory.heap).card := by
  obtain ⟨ptr, memory, allocated, allocates⟩ :=
    Kernel.kzalloc_page volume.heap size roundable single room
  have short : size.toNat ≤ 4096 := by
    unfold blocksFor heapBlockSize at single
    omega
  have extended := (allocates .pathString).extends volume.heap short
  have kept := volume.extends extended (by simp)
  exact ⟨ptr, memory, allocated, (allocates .pathString).nonnull,
    ⟨kept.heap, kept.filesystem, kept.root, kept.live, kept.entry, kept.file⟩,
    (allocates .pathString).room⟩

theorem Kernel.newRecord_written {α : Type} (select : FileRecord → Option α) {value : α}
    (kernel : KernelHeap before.memory.heap) (size : Word) (roundable : Roundable size)
    (single : blocksFor size = 1) (room : 0 < (freeBlocks before.memory.heap).card)
    (zero record : FileRecord) (selected : select zero = some value) :
    ∃ ptr middle, Kernel.newRecord size zero before = (.ok ptr, middle) ∧
      Kernel.writeRecord select ptr record middle =
        (.ok (), middle.setFiles (Function.update middle.files ptr (some record))) ∧
      Extends ∅ before (middle.setFiles (Function.update middle.files ptr (some record))) ∧
      ¬Live before.memory.heap ptr ∧ Live middle.memory.heap ptr ∧
      (freeBlocks middle.memory.heap).card + 1 = (freeBlocks before.memory.heap).card := by
  obtain ⟨ptr, middle, allocated, allocates⟩ :=
    Kernel.newRecord_page kernel size roundable single room zero
  have short : size.toNat ≤ 4096 := by
    unfold blocksFor heapBlockSize at single
    omega
  have positive : 0 < size.toNat := roundable.1
  have extended := allocates.extends kernel short
  have fresh := allocates.fresh kernel
  have written := Kernel.writeRecord_run select (allocates.file positive) selected record
  refine ⟨ptr, middle, allocated, written, ?_, fresh, allocates.live, allocates.room⟩
  apply extended.trans (Extends.write extended.kernel ptr record)
  intro other member live
  exact absurd ((Set.mem_singleton_iff.mp member) ▸ live) fresh

/-- The records of a file that was found: an item and its copy of the entry. -/
structure FileItem (kernel : Kernel) (fItem clone : Addr) (item : FatDirectoryItem) : Prop where
  node : kernel.files fItem = some (.fatItem ⟨clone, .file⟩)
  entry : kernel.files clone = some (.fatDirectoryItem item)

/-- A file that is open at position `pos`. -/
structure StreamFile (kernel : Kernel) (fd : Int) (privateData : Addr) (item : FatDirectoryItem)
    (pos : Word) : Prop where
  opened : ∃ record, fileGetDescriptor kernel fd ≠ 0 ∧
    kernel.files (fileGetDescriptor kernel fd) = some (.fileDescriptor record) ∧
    record.index = fd ∧ record.filesystem = true ∧ record.privateData = privateData
  file : ∃ fItem clone, kernel.files privateData = some (.fatFileDescriptor ⟨fItem, pos⟩) ∧
    FileItem kernel fItem clone item

theorem fat16NewFatItem_file (kernel : KernelHeap before.memory.heap)
    (room : 2 ≤ (freeBlocks before.memory.heap).card)
    (file : item.itemAttribute &&& fatFileSubdirectory = 0) :
    ∃ fItem clone after, fat16NewFatItemForDirectoryItem item before = (.ok fItem, after) ∧
      fItem ≠ 0 ∧ Extends ∅ before after ∧
      (freeBlocks after.memory.heap).card + 2 = (freeBlocks before.memory.heap).card ∧
      FileItem after fItem clone item ∧ Live after.memory.heap fItem ∧ Live after.memory.heap clone := by
  obtain ⟨fItem, first, allocated, written, extended, fresh, live, firstRoom⟩ :=
    Kernel.newRecord_written FileRecord.asFatItem kernel 8#32 (by decide) (by decide)
      (by omega) (.fatItem ⟨0, .directory⟩) (.fatItem ⟨0, .file⟩) rfl
  generalize secondEq : first.setFiles (Function.update first.files fItem
    (some (.fatItem ⟨0, .file⟩))) = second at written extended
  have heap : second.memory = first.memory := by
    rw [← secondEq]
    rfl
  have here : second.files fItem = some (.fatItem ⟨0, .file⟩) := by
    rw [← secondEq]
    exact Function.update_self _ _ _
  have nonnull : fItem ≠ 0 := (heap ▸ live : Live second.memory.heap fItem).nonnull extended.kernel
  obtain ⟨clone, third, cloned, allocates⟩ := Kernel.newRecord_page extended.kernel 32#32
    (by decide) (by decide) (by rw [heap]; omega) (.fatDirectoryItem item)
  have cloneExtends := allocates.extends extended.kernel (by decide)
  have there : third.files fItem = some (.fatItem ⟨0, .file⟩) :=
    (cloneExtends.files fItem (heap ▸ live) (by simp)).trans here
  have rewritten := Kernel.writeRecord_run FileRecord.asFatItem there rfl (.fatItem ⟨clone, .file⟩)
  have lastExtends := Extends.write cloneExtends.kernel fItem (.fatItem ⟨clone, .file⟩)
  have cloneRoom := allocates.room
  have secondLive : Live second.memory.heap fItem := heap ▸ live
  have different : clone ≠ fItem := fun same => allocates.fresh extended.kernel (same ▸ secondLive)
  refine ⟨fItem, clone, _, ?_, nonnull, (extended.trans cloneExtends (by simp)).trans lastExtends ?_, ?_,
    ⟨Function.update_self _ _ _, ?_⟩, cloneExtends.live fItem secondLive, allocates.live⟩
  · unfold fat16NewFatItemForDirectoryItem
    refine (bind_ok allocated).trans ((congrFun (if_neg nonnull) _).trans ?_)
    refine (congrFun (if_neg (not_not.mpr file)) _).trans ((bind_ok written).trans ?_)
    exact (bind_ok cloned).trans ((bind_ok rewritten).trans rfl)
  · intro ptr member alive
    exact absurd ((Set.mem_singleton_iff.mp member) ▸ alive) fresh
  · show (freeBlocks third.memory.heap).card + 2 = _
    rw [heap] at cloneRoom
    omega
  · exact (Function.update_of_ne different _ _).trans (allocates.file (by decide))

theorem fat16GetDirectoryEntry_file (volume : RootFile before table item)
    (room : 2 ≤ (freeBlocks before.memory.heap).card) {path str : Addr}
    (here : before.files path = some (.pathPart ⟨str, 0⟩)) (buffer : Buffer before str part)
    (named : istrncmp (fat16GetFullRelativeFilename item)
      (part ++ List.replicate (peachosMaxPath - part.length) 0) peachosMaxPath = 0) :
    ∃ fItem clone after, fat16GetDirectoryEntry path before = (.ok fItem, after) ∧
      fItem ≠ 0 ∧ Extends ∅ before after ∧
      (freeBlocks after.memory.heap).card + 2 = (freeBlocks before.memory.heap).card ∧
      FileItem after fItem clone item ∧ Live after.memory.heap fItem ∧ Live after.memory.heap clone := by
  obtain ⟨fatPrivate, private', tableAt, total⟩ := volume.root
  obtain ⟨fItem, clone, after, made, nonnull, extended, afterRoom, records⟩ :=
    fat16NewFatItem_file volume.heap room volume.file
  have looked : Kernel.onDisk fsPrivate before = (.ok fatPrivate, before) := by
    unfold Kernel.onDisk fsPrivate
    rw [read_bind, private']
    rfl
  have first : Kernel.record FileRecord.asPathPart path before = (.ok ⟨str, 0⟩, before) :=
    Kernel.record_run here rfl
  have name : Kernel.record FileRecord.asPathString str before = (.ok (), before) :=
    Kernel.record_run buffer.file rfl
  have found : fat16FindItemInDirectory fatPrivate.rootDirectory str before = (.ok fItem, after) := by
    have entry : fatDirectoryItemAt before.memory.bytes
        (fatPrivate.rootDirectory.item + BitVec.ofNat 32 (0 * fatDirectoryItemSize)) = item := by
      rw [tableAt, Nat.zero_mul, BitVec.add_zero]
      exact volume.entry
    unfold fat16FindItemInDirectory
    rw [total, show (1 : Int).toNat = 0 + 1 from rfl, fat16FindItemLoop, read_bind]
    rw [entry, bind_ok name, buffer.content, if_pos named]
    exact (bind_ok made).trans rfl
  refine ⟨fItem, clone, after, ?_, nonnull, extended, afterRoom, records⟩
  refine (bind_ok looked).trans ((bind_ok first).trans ((bind_ok found).trans ?_))
  exact (congrFun (if_neg nonnull) _).trans rfl

theorem fat16Open_file (volume : RootFile before table item)
    (room : 3 ≤ (freeBlocks before.memory.heap).card) {path str : Addr} (pathLive : Live before.memory.heap path)
    (here : before.files path = some (.pathPart ⟨str, 0⟩)) (buffer : Buffer before str part)
    (named : istrncmp (fat16GetFullRelativeFilename item)
      (part ++ List.replicate (peachosMaxPath - part.length) 0) peachosMaxPath = 0) :
    ∃ descriptor fItem clone after, fat16Open path .read before = (.ok descriptor, after) ∧
      isErr descriptor = false ∧ Extends ∅ before after ∧
      (freeBlocks after.memory.heap).card + 3 = (freeBlocks before.memory.heap).card ∧
      after.files descriptor = some (.fatFileDescriptor ⟨fItem, 0⟩) ∧ FileItem after fItem clone item ∧
      Live after.memory.heap descriptor ∧ Live after.memory.heap fItem ∧
      Live after.memory.heap clone := by
  obtain ⟨descriptor, first, allocated, allocates⟩ := Kernel.newRecord_page volume.heap 8#32
    (by decide) (by decide) (by omega) (.fatFileDescriptor ⟨0, 0⟩)
  have firstExtends := allocates.extends volume.heap (by decide)
  have firstRoom := allocates.room
  obtain ⟨fItem, clone, second, entry, itemNonnull, secondExtends, secondRoom, records, itemLive, cloneLive⟩ :=
    fat16GetDirectoryEntry_file (volume.extends firstExtends (by simp)) (by omega)
      ((firstExtends.files path pathLive (by simp)).trans here)
      (buffer.extends volume.heap firstExtends (by simp)) named
  have there : second.files descriptor = some (.fatFileDescriptor ⟨0, 0⟩) :=
    (secondExtends.files descriptor allocates.live (by simp)).trans (allocates.file (by decide))
  have written := Kernel.writeRecord_run FileRecord.asFatFileDescriptor there rfl
    (.fatFileDescriptor ⟨fItem, 0⟩)
  have lastExtends := Extends.write secondExtends.kernel descriptor (.fatFileDescriptor ⟨fItem, 0⟩)
  have itemOther : fItem ≠ descriptor := by
    intro same
    have kind := records.node
    rw [same, there] at kind
    cases kind
  have cloneOther : clone ≠ descriptor := by
    intro same
    have kind := records.entry
    rw [same, there] at kind
    cases kind
  refine ⟨descriptor, fItem, clone, _, ?_, ?_,
    (firstExtends.trans secondExtends (by simp)).trans lastExtends ?_, ?_, Function.update_self _ _ _,
    ⟨(Function.update_of_ne itemOther _ _).trans records.node,
      (Function.update_of_ne cloneOther _ _).trans records.entry⟩,
    secondExtends.live descriptor allocates.live, itemLive, cloneLive⟩
  · unfold fat16Open
    refine (congrFun (if_neg (by decide)) _).trans ((bind_ok allocated).trans ?_)
    refine (congrFun (if_neg allocates.nonnull) _).trans ((bind_ok entry).trans ?_)
    exact (bind_ok written).trans (congrFun (if_neg itemNonnull) _)
  · -- the heap lies in the lower half of the address space
    obtain ⟨block, bound, rfl, _⟩ := allocates.live
    have position := firstExtends.kernel.address_toNat bound
    have blocks := firstExtends.kernel.blocks
    unfold isErr
    rw [decide_eq_false_iff_not, BitVec.toInt_eq_toNat_of_lt (by omega)]
    omega
  · intro ptr member alive
    exact absurd ((Set.mem_singleton_iff.mp member) ▸ alive) (allocates.fresh volume.heap)
  · show (freeBlocks second.memory.heap).card + 3 = _
    omega

theorem fopen_file (volume : RootFile before table item)
    (room : 7 ≤ (freeBlocks before.memory.heap).card) {filename modeStr : List Byte}
    (fits : strlen filename ≤ peachosMaxPath) (valid : pathparserPathValidFormat filename = true)
    (drive : tonumericdigit (filename.getD 0 0) = 0) (rest : filename.drop 3 = part)
    (proper : Proper part) (short : part.length < peachosMaxPath)
    (mode : fileGetModeByString modeStr = .read)
    (named : istrncmp (fat16GetFullRelativeFilename item)
      (part ++ List.replicate (peachosMaxPath - part.length) 0) peachosMaxPath = 0)
    {i : Nat} (free : firstIndex peachosMaxFileDescriptors
      (fun i => before.fileDescriptors i == 0) = some i) :
    ∃ privateData middle desc after, fopenPrivateData filename modeStr before =
        (.ok (.ok (0, privateData)), middle) ∧
      fopen filename modeStr before = (.ok (i + 1), after) ∧ RootFile after table item ∧
      (freeBlocks after.memory.heap).card + 7 = (freeBlocks before.memory.heap).card ∧
      desc ≠ 0 ∧ after.fileDescriptors = Function.update before.fileDescriptors i desc ∧
      after.disk = before.disk ∧ (i < 511 → StreamFile after (i + 1) privateData item 0) := by
  have enough : 2 * ([] : List (List Byte)).length + 4 ≤ (freeBlocks before.memory.heap).card := by
    rw [List.length_nil]
    omega
  have printed : filename.drop 3 = printParts [] [part] := by
    rw [rest, printParts, List.append_nil]
  have fitting : (printParts [] [part]).length < peachosMaxPath := by
    rw [printParts, List.append_nil]
    exact short
  obtain ⟨root, first, node, parsed, rootFile, ⟨record, nodeLive, nodeFile, buffer, last⟩, rootLive,
      firstExtends, firstRoom⟩ :=
    pathparserParse_valid (Trailing.stops (Or.inl rfl)) volume.heap enough (by simpa using proper) fits valid
      printed fitting
  rw [drive] at rootFile
  obtain ⟨str, next⟩ := record
  obtain rfl : next = 0 := last
  have firstVolume := volume.extends firstExtends (by simp)
  rw [List.length_nil] at firstRoom
  obtain ⟨privateData, fItem, clone, second, opened, notErr, secondExtends, secondRoom, privateFile,
      records, privateLive, itemLive, cloneLive⟩ :=
    fat16Open_file firstVolume (by omega) nodeLive nodeFile buffer named
  have rootNonnull := rootLive.nonnull firstExtends.kernel
  have nodeNonnull := nodeLive.nonnull firstExtends.kernel
  have looked : Kernel.record FileRecord.asPathRoot root first = (.ok ⟨0, node⟩, first) :=
    Kernel.record_run rootFile rfl
  have started : fopenPrivateData filename modeStr before = (.ok (.ok (0, privateData)), second) := by
    refine (bind_ok parsed).trans ((congrFun (if_neg rootNonnull) _).trans ?_)
    refine (bind_ok looked).trans ((congrFun (if_neg nodeNonnull) _).trans ?_)
    show (if (!first.disk.filesystem) = true then _ else _ : KernelProg _) first = _
    rw [firstVolume.filesystem, mode]
    refine (congrFun (if_neg (by decide)) _).trans ((congrFun (if_neg (by decide)) _).trans ?_)
    refine (bind_ok opened).trans ((congrFun (if_neg ?_) _).trans rfl)
    rw [notErr]
    decide
  have secondVolume := firstVolume.extends secondExtends (by simp)
  have table : second.fileDescriptors = before.fileDescriptors :=
    secondExtends.descriptors.trans firstExtends.descriptors
  obtain ⟨desc, third, allocated, written, thirdExtends, fresh, live, thirdRoom⟩ :=
    Kernel.newRecord_written FileRecord.asFileDescriptor secondExtends.kernel 16#32 (by decide)
      (by decide) (by omega) (.fileDescriptor ⟨0, false, 0, none⟩)
      (.fileDescriptor ⟨i + 1, false, 0, none⟩) rfl
  generalize fourthEq : third.setFiles (Function.update third.files desc
    (some (.fileDescriptor ⟨i + 1, false, 0, none⟩))) = fourth at written thirdExtends
  have fourthHeap : fourth.memory = third.memory := by
    rw [← fourthEq]
    rfl
  have fourthFile : (fourth.setFileDescriptor i desc).files desc =
      some (.fileDescriptor ⟨i + 1, false, 0, none⟩) := by
    rw [← fourthEq]
    exact Function.update_self _ _ _
  have registered : fileNewDescriptor second = (.ok (0, desc), fourth.setFileDescriptor i desc) := by
    unfold fileNewDescriptor
    rw [read_bind, table, free]
    exact (bind_ok allocated).trans ((bind_ok written).trans rfl)
  have found : Kernel.record FileRecord.asFileDescriptor desc (fourth.setFileDescriptor i desc) =
      (.ok ⟨i + 1, false, 0, none⟩, fourth.setFileDescriptor i desc) := Kernel.record_run fourthFile rfl
  have stored := Kernel.writeRecord_run FileRecord.asFileDescriptor fourthFile rfl
    (.fileDescriptor ⟨i + 1, true, privateData, some 0⟩)
  generalize fifthEq : Kernel.setFiles _ _ = fifth at stored
  have result : fopenDescriptor filename modeStr before = (.ok ((i : Int) + 1), fifth) := by
    refine (bind_ok started).trans ((bind_ok registered).trans ?_)
    refine (congrFun (if_neg (by decide)) _).trans ((bind_ok found).trans ?_)
    exact (bind_ok stored).trans rfl
  have notNegative : ¬(i : Int) + 1 < 0 := by omega
  have fourthVolume := secondVolume.extends thirdExtends (by simp)
  refine ⟨privateData, second, desc, fifth, started,
    (bind_ok result).trans (congrFun (if_neg notNegative) _), ?_, ?_,
    (fourthHeap ▸ live : Live fourth.memory.heap desc).nonnull thirdExtends.kernel, ?_, ?_, ?_⟩
  · rw [← fifthEq]
    exact ⟨fourthVolume.heap, fourthVolume.filesystem, fourthVolume.root, fourthVolume.live,
      fourthVolume.entry, fourthVolume.file⟩
  · rw [← fifthEq]
    show (freeBlocks fourth.memory.heap).card + 7 = _
    rw [fourthHeap]
    omega
  · rw [← fifthEq]
    show Function.update fourth.fileDescriptors i desc = _
    rw [thirdExtends.descriptors, table]
  · rw [← fifthEq]
    exact thirdExtends.disk.trans (secondExtends.disk.trans firstExtends.disk)
  · intro low
    have nonnull := (fourthHeap ▸ live : Live fourth.memory.heap desc).nonnull thirdExtends.kernel
    have kept : ∀ ptr, Live second.memory.heap ptr → fifth.files ptr = second.files ptr := by
      intro ptr alive
      have other : ptr ≠ desc := fun same => fresh (same ▸ alive)
      rw [← fifthEq]
      exact (Function.update_of_ne other _ _).trans (thirdExtends.files ptr alive (by simp))
    have slot : fileGetDescriptor fifth (i + 1) = desc := by
      have index : ((i : Int) + 1 - 1).toNat = i := by omega
      unfold fileGetDescriptor peachosMaxFileDescriptors
      rw [if_neg (by omega), index, ← fifthEq]
      exact Function.update_self _ _ _
    refine ⟨⟨⟨i + 1, true, privateData, some 0⟩, ?_, ?_, rfl, rfl, rfl⟩, fItem, clone, ?_, ?_, ?_⟩
    · rw [slot]
      exact nonnull
    · rw [slot, ← fifthEq]
      exact Function.update_self _ _ _
    · rw [kept privateData privateLive]
      exact privateFile
    · rw [kept fItem itemLive]
      exact records.node
    · rw [kept clone cloneLive]
      exact records.entry

end RootFile

/-- The table of a root directory with the one entry `A`, a file of five bytes. -/
def singleTable : List Byte :=
  [0x41, 0x20, 0x20, 0x20, 0x20, 0x20, 0x20, 0x20, 0x20, 0x20, 0x20, 0x20, 0, 0, 0, 0,
    0, 0, 0, 0, 0, 0, 0, 0, 0, 0, 2, 0, 5, 0, 0, 0]

def singleFile : FatDirectoryItem where
  filename := [0x41, 0x20, 0x20, 0x20, 0x20, 0x20, 0x20, 0x20]
  ext := [0x20, 0x20, 0x20]
  itemAttribute := 0x20
  high16BitsFirstCluster := 0
  low16BitsFirstCluster := 2
  filesize := 5

/-- The volume of that directory, which lies in sector 2, after it was resolved. -/
def singleDisk : Disk where
  image := fun pos => if pos < 1024 then 0 else singleTable.getD (pos - 1024) 0
  sectorSize := 512
  filesystem := true
  fsPrivate := some ⟨⟨1, 1, 1, 16, 1, 0x29⟩, ⟨heapAddress, 1, 2, 3⟩, some ⟨0, 0⟩, some ⟨0, 0⟩, some ⟨0, 0⟩⟩

/-- The first heap block holds the table, all others are free. -/
def singleKernel : Kernel := Kernel.blank
  ⟨heapMarkBlocksTaken bootMemory.heap 0 1, storeBytes (fun _ => 0) heapAddress singleTable⟩ singleDisk

theorem singleKernel_marks : Marks bootMemory.heap singleKernel.memory.heap 0 1 where
  bound := by
    rw [bootMemory_kernel.1.blocks]
    decide
  startFree := bootMemory_free (by decide)
  free := fun block _ _ bound => bootMemory_free (by rw [bootMemory_kernel.1.blocks] at bound; exact bound)
  result := rfl

theorem singleKernel_sound : Sound singleKernel.memory.heap := singleKernel_marks.sound bootMemory_sound

theorem singleKernel_room : (freeBlocks singleKernel.memory.heap).card = 25599 := by
  have marks := singleKernel_marks
  have removed : freeBlocks singleKernel.memory.heap = (freeBlocks bootMemory.heap).erase 0 := by
    ext block
    rw [Finset.mem_erase, mem_freeBlocks, mem_freeBlocks, marks.total]
    by_cases first : block = 0
    · subst first
      have taken : ¬EntryFree singleKernel.memory.heap.table.entries (0 : Nat) :=
        marks.taken le_rfl (by decide)
      simp [taken]
    · unfold EntryFree
      rw [marks.outside (by omega)]
      simp [first]
  have member : 0 ∈ freeBlocks bootMemory.heap :=
    mem_freeBlocks.mpr ⟨marks.bound, marks.startFree⟩
  rw [removed, Finset.card_erase_of_mem member, bootMemory_kernel.2]

theorem singleKernel_rootFile : RootFile singleKernel heapAddress singleFile where
  heap := singleKernel_sound.kernel
  filesystem := rfl
  root := ⟨_, rfl, rfl, rfl⟩
  live := by
    have marks := singleKernel_marks
    refine ⟨0, marks.total ▸ marks.bound, ?_, marks.taken le_rfl (by decide)⟩
    decide
  entry := by decide +kernel
  file := by decide

theorem fopen_single {before : Kernel} (volume : RootFile before heapAddress singleFile)
    (room : 7 ≤ (freeBlocks before.memory.heap).card) {i : Nat}
    (free : firstIndex peachosMaxFileDescriptors (fun i => before.fileDescriptors i == 0) = some i) :
    ∃ privateData middle desc after, fopenPrivateData [0x30, 0x3A, slash, 0x61] [0x72] before =
        (.ok (.ok (0, privateData)), middle) ∧
      fopen [0x30, 0x3A, slash, 0x61] [0x72] before = (.ok (i + 1), after) ∧
      RootFile after heapAddress singleFile ∧
      (freeBlocks after.memory.heap).card + 7 = (freeBlocks before.memory.heap).card ∧
      desc ≠ 0 ∧ after.fileDescriptors = Function.update before.fileDescriptors i desc ∧
      after.disk = before.disk ∧ (i < 511 → StreamFile after (i + 1) privateData singleFile 0) :=
  fopen_file volume room (by decide) (by decide) (by decide)
    (show List.drop 3 [0x30, 0x3A, slash, 0x61] = [0x61] from rfl) (by unfold Proper Plain; decide)
    (by decide) (by decide) (by decide) free

end PeachOS
