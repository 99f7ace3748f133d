import PeachOS.FileLoad
import PeachOS.ParsedPath
import PeachOS.TreeEntry

/-! A file from its path to its bytes: the path is parsed, the walk finds the file in the tree of directories, and what
is read from the file that was opened are the bytes that the disk has in its first cluster. -/

namespace PeachOS
open Program ByteMemory Search

/-- An open file: its descriptor, the file system's, and the item with its copy of the entry, all made since `base`. -/
structure FileHandle (base kernel : Kernel) (i : Nat) (desc privateData last clone : Addr) (item : FatDirectoryItem) :
    Prop where
  table : kernel.fileDescriptors = Function.update base.fileDescriptors i desc
  node : kernel.files desc = some (.fileDescriptor ⟨i + 1, true, privateData, some 0⟩)
  held : HeldAt kernel.memory.heap desc
  new : ¬HeldAt base.memory.heap desc
  position : kernel.files privateData = some (.fatFileDescriptor ⟨last, 0⟩)
  heldPosition : HeldAt kernel.memory.heap privateData
  newPosition : ¬HeldAt base.memory.heap privateData
  found : FoundFile base kernel last clone item

section Opened
variable {tables : Set (Nat → Addr)} {image : Image} {header : FatHeader} {base before kernel : Kernel}
  {room count size i : Nat} {filename modeStr : List Byte} {names : List (List Byte)} {item : FatDirectoryItem}
  {fd : Int} {desc privateData last clone : Addr}

theorem FoundFile.apart (found : FoundFile base before last clone item) (apart : Apart before kernel) :
    FoundFile base kernel last clone item where
  file := ⟨(apart.files last found.held).trans found.file.node, (apart.files clone found.heldClone).trans found.file.entry⟩
  held := apart.heldAt found.held
  heldClone := apart.heldAt found.heldClone
  new := found.new
  newClone := found.newClone

theorem FileHandle.apart (handle : FileHandle base before i desc privateData last clone item)
    (apart : Apart before kernel) (table : kernel.fileDescriptors = before.fileDescriptors) :
    FileHandle base kernel i desc privateData last clone item where
  table := table.trans handle.table
  node := (apart.files desc handle.held).trans handle.node
  held := apart.heldAt handle.held
  new := handle.new
  position := (apart.files privateData handle.heldPosition).trans handle.position
  heldPosition := apart.heldAt handle.heldPosition
  newPosition := handle.newPosition
  found := handle.found.apart apart

theorem FileHandle.slot (handle : FileHandle base kernel i desc privateData last clone item) (low : i < 511) :
    fileGetDescriptor kernel (i + 1) = desc := by
  have index : ((i : Int) + 1 - 1).toNat = i := by omega
  unfold fileGetDescriptor peachosMaxFileDescriptors
  rw [if_neg (by omega), index, handle.table]
  exact Function.update_self ..

theorem FileHandle.stream (handle : FileHandle base kernel i desc privateData last clone item)
    (heap : KernelHeap kernel.memory.heap) (low : i < 511) : StreamFile kernel (i + 1) privateData item 0 := by
  have slot := handle.slot low
  refine ⟨⟨⟨i + 1, true, privateData, some 0⟩, ?_, ?_, rfl, rfl, rfl⟩, last, clone, handle.position, handle.found.file⟩
  · rw [slot]
    exact fun null => not_heldAt_null kernel heap (null ▸ handle.held)
  · rw [slot]
    exact handle.node

theorem Ready.register (ready : Ready tables image header (room + 1) before) (free : freeSlot before = some i)
    (privateData : Addr) : ∃ desc after,
      fopenRegister (.ok (0, privateData)) before = (.ok (i + 1), after) ∧
      Ready {Function.update before.fileDescriptors i desc} image header room after ∧ Apart before after ∧
      after.fileDescriptors = Function.update before.fileDescriptors i desc ∧
      after.files desc = some (.fileDescriptor ⟨i + 1, true, privateData, some 0⟩) ∧
      HeldAt after.memory.heap desc ∧ ¬HeldAt before.memory.heap desc := by
  obtain ⟨desc, first, allocated, firstReady, made⟩ :=
    ready.exact.newSmall (show Roundable 16 by decide) (by decide) (.fileDescriptor ⟨0, false, 0, none⟩)
  obtain ⟨heldDesc, blank⟩ := made.new.own (by decide)
  have table : first.fileDescriptors = before.fileDescriptors := firstReady.recorded.table
  obtain ⟨numbered, secondReady⟩ := firstReady.writeRecord FileRecord.asFileDescriptor blank rfl
    (.fileDescriptor ⟨i + 1, false, 0, none⟩)
  have secondApart := made.apart.writeRecord made.new.fresh numbered
  obtain ⟨second, secondSame⟩ : ∃ second, first.setFiles (Function.update first.files desc
    (some (.fileDescriptor ⟨i + 1, false, 0, none⟩))) = second := ⟨_, rfl⟩
  have secondTable : second.fileDescriptors = before.fileDescriptors := secondSame ▸ table
  rw [secondSame] at numbered secondReady secondApart
  have registered : fileNewDescriptor before = (.ok (0, desc), second.setFileDescriptor i desc) := by
    unfold freeSlot at free
    unfold fileNewDescriptor
    rw [read_bind, free]
    exact (bind_ok allocated).trans ((bind_ok numbered).trans rfl)
  have here : (second.setFileDescriptor i desc).files desc = some (.fileDescriptor ⟨i + 1, false, 0, none⟩) := by
    rw [← secondSame]
    exact Function.update_self ..
  have looked : Kernel.record FileRecord.asFileDescriptor desc (second.setFileDescriptor i desc) =
      (.ok ⟨i + 1, false, 0, none⟩, second.setFileDescriptor i desc) := Kernel.record_run here rfl
  have thirdReady : Ready {Function.update second.fileDescriptors i desc} image header room
      (second.setFileDescriptor i desc) :=
    ⟨secondReady.toTidy.retable i desc, secondReady.volume, secondReady.directories⟩
  have thirdApart : Apart before (second.setFileDescriptor i desc) :=
    ⟨secondApart.sound, secondApart.saddr, secondApart.total, secondApart.held, secondApart.entries, secondApart.bytes,
      secondApart.files⟩
  obtain ⟨entered, lastReady⟩ := thirdReady.writeRecord FileRecord.asFileDescriptor here rfl
    (.fileDescriptor ⟨i + 1, true, privateData, some 0⟩)
  rw [secondTable] at lastReady
  refine ⟨desc, _, (bind_ok registered).trans ((congrFun (if_neg (by decide)) _).trans
    ((bind_ok looked).trans ((bind_ok entered).trans rfl))), lastReady, thirdApart.writeRecord made.new.fresh entered,
    by rw [← secondTable]; rfl, Function.update_self .., ?_, made.new.fresh⟩
  rw [← secondSame]
  exact heldDesc

/-- The blocks that opening a path takes at most: of its parse, of the directories on the way, and of the records of the
file. -/
def pathBlocks (header : FatHeader) (filename : List Byte) (names : List (List Byte)) : Nat :=
  1 + names.length * (tableBlocks header + 2) + 1 + (2 * filename.length + 7)

theorem NamesPath.start (path : NamesPath filename names) (mode : fileGetModeByString modeStr = .read)
    (filesystem : before.disk.filesystem = true) (rooted : Rooted before image header count)
    (ready : Ready tables image header (room + (2 * filename.length + 7)) before) : ∃ part ptrs parsed,
      fopenPrivateData filename modeStr before = (fat16Open part .read >>= fun privateData =>
        if isErr privateData then pure (.error privateData.toInt) else pure (.ok (0, privateData)) : KernelProg _) parsed ∧
      PartList parsed part ptrs ∧ List.Forall₂ (Spells parsed) ptrs names ∧ Rooted parsed image header count ∧
      Ready tables image header room parsed ∧ Unharmed before parsed := by
  obtain ⟨root, first, parsed, run, held⟩ := path.parse ready rooted
  obtain ⟨ptrs, parts, spelled⟩ := held.parts
  have looked : Kernel.record FileRecord.asPathRoot root parsed = (.ok ⟨0, first⟩, parsed) :=
    Kernel.record_run held.node rfl
  refine ⟨first, ptrs, parsed, ?_, parts, spelled, held.rooted, held.ready, held.unharmed⟩
  refine (bind_ok run).trans ((congrFun (if_neg held.rootNonnull) _).trans ?_)
  refine (bind_ok looked).trans ((congrFun (if_neg held.firstNonnull) _).trans ?_)
  show (if (!parsed.disk.filesystem) = true then _ else _ : KernelProg _) parsed = _
  rw [held.disk, filesystem, mode]
  exact (congrFun (if_neg (by decide)) _).trans (congrFun (if_neg (by decide)) _)

theorem fopen_started (recorded : Recorded tables before) {middle : Kernel}
    (started : fopenPrivateData filename modeStr before = (.ok (.ok (0, privateData)), middle))
    (ready : Ready tables image header (room + 1) middle) (free : freeSlot before = some i) : ∃ desc after,
      fopen filename modeStr before = (.ok (i + 1), after) ∧
      Ready {after.fileDescriptors} image header room after ∧ Apart middle after ∧
      after.fileDescriptors = Function.update middle.fileDescriptors i desc ∧
      after.files desc = some (.fileDescriptor ⟨i + 1, true, privateData, some 0⟩) ∧
      HeldAt after.memory.heap desc ∧ ¬HeldAt middle.memory.heap desc := by
  have table : middle.fileDescriptors = before.fileDescriptors :=
    (Guards.fopenPrivateData unguarded filename modeStr _ _ _ recorded.exact started).table
  have slot : freeSlot middle = some i := by
    unfold freeSlot at free ⊢
    rw [table]
    exact free
  obtain ⟨desc, after, registered, afterReady, rest⟩ := ready.register slot privateData
  exact ⟨desc, after, (bind_ok ((bind_ok started).trans registered)).trans (congrFun (if_neg (by omega)) _),
    afterReady.exact, rest⟩

theorem LeadsTo.fopen_file (leads : LeadsTo image header true (rootPosition header) size names (.file item))
    (path : NamesPath filename names) (mode : fileGetModeByString modeStr = .read)
    (filesystem : before.disk.filesystem = true) (free : freeSlot before = some i)
    (rooted : Rooted before image header count)
    (ready : Ready tables image header (room + pathBlocks header filename names) before) :
    ∃ base desc privateData last clone after, fopen filename modeStr before = (.ok (i + 1), after) ∧
      Unharmed before base ∧ base.fileDescriptors = before.fileDescriptors ∧ Apart base after ∧
      Ready {after.fileDescriptors} image header room after ∧
      FileHandle base after i desc privateData last clone item := by
  have few := path.few.trans path.short
  unfold pathBlocks at ready
  obtain ⟨part, ptrs, base, start, parts, spelled, baseRooted, baseReady, unharmed⟩ :=
    path.start mode filesystem rooted (ready.exact.less (by omega :
      room + 1 + names.length * (tableBlocks header + 2) + 1 + (2 * filename.length + 7) ≤ _))
  obtain ⟨privateData, last, clone, middle, opened, good, middleReady, apart, held, new, position, found⟩ :=
    leads.opens parts spelled (by omega : names.length ≤ peachosMaxPath) baseRooted baseReady
  have started : fopenPrivateData filename modeStr before = (.ok (.ok (0, privateData)), middle) := by
    rw [start, bind_ok opened, good]
    rfl
  have table : base.fileDescriptors = before.fileDescriptors := baseReady.recorded.table
  obtain ⟨desc, after, run, afterReady, beside, entered, node, heldDesc, newDesc⟩ :=
    fopen_started ready.exact.recorded started middleReady free
  have middleTable : middle.fileDescriptors = before.fileDescriptors := middleReady.recorded.table
  refine ⟨base, desc, privateData, last, clone, after, run, unharmed, table, apart.trans beside, afterReady, ?_⟩
  exact ⟨by rw [entered, middleTable, table], node, heldDesc, fun held => newDesc (apart.heldAt held),
    (beside.files privateData held).trans position, beside.heldAt held, new, found.apart beside⟩

/-- A file that has bytes, not more than its first cluster. -/
structure ShortFile (header : FatHeader) (item : FatDirectoryItem) (cluster : Nat) : Prop where
  first : (fat16GetFirstCluster item).toInt = cluster
  data : 2 ≤ cluster
  positive : 0 < item.filesize.toNat
  short : item.filesize.toNat ≤ clusterSize header
  low : clusterPos header cluster + item.filesize.toNat < 2 ^ 31

theorem StreamFile.fread_whole {cluster : Nat} (file : StreamFile kernel fd privateData item 0)
    (volume : Volume kernel.disk image header) (directories : HasDirectory kernel.disk)
    (short : ShortFile header item cluster) (out : Addr) : ∃ left, Volume left image header ∧ HasDirectory left ∧
      fread out item.filesize 1 fd kernel = (.ok 1, (kernel.setDisk left).setMemory ⟨kernel.memory.heap, storeBytes
        kernel.memory.bytes out (diskBytes image (clusterPos header cluster) item.filesize.toNat)⟩) := by
  have positive := short.positive
  have low := short.low
  have nonzero : ¬(item.filesize = 0 ∨ (1 : Word) = 0) := by
    rintro (none' | one)
    · rw [none'] at positive
      exact absurd positive (by decide)
    · exact absurd one (by decide)
  obtain ⟨left, leftVolume, chunk⟩ := fat16ReadInternal_first volume short.data (clusterSize_pos volume) short.short
    (by omega) out kernel.memory.bytes
  have loop : fat16ReadLoop item item.filesize 1 0 out kernel.memory.bytes kernel.disk = (.ok (0, storeBytes
      kernel.memory.bytes out (diskBytes image (clusterPos header cluster) item.filesize.toNat)), left) := by
    have size : item.filesize.toInt = item.filesize.toNat := BitVec.toInt_eq_toNat_of_lt (by omega)
    rw [Nat.add_zero] at chunk
    rw [fat16ReadLoop, short.first, size]
    refine (bind_ok chunk).trans ?_
    exact congrFun (if_neg (by decide)) left
  have read : fat16Read item 0 item.filesize 1 out kernel.memory.bytes kernel.disk = (.ok (1, storeBytes
      kernel.memory.bytes out (diskBytes image (clusterPos header cluster) item.filesize.toNat)), left) :=
    (bind_ok loop).trans rfl
  have whole := (file.fread_eq out nonzero).trans (file.fat16Read_eq out item.filesize 1)
  rw [read] at whole
  exact ⟨left, leftVolume, hasDirectory_readInternal _ _ _ _ _ _ _ _ _ directories chunk, whole⟩

end Opened

section ByPath
variable {tables : Set (Nat → Addr)} {image : Image} {header : FatHeader} {before : Kernel} {count size i : Nat}
  {filename modeStr : List Byte} {names : List (List Byte)}

end ByPath

section Whole
variable {tables : Set (Nat → Addr)} {image : Image} {header : FatHeader} {before : Kernel} {count size i : Nat}
  {filename modeStr : List Byte} {names : List (List Byte)} {item : FatDirectoryItem}

end Whole

end PeachOS
