import PeachOS.FileByPath

/-! A file that is read into a block of its own and closed again. What was in memory before stays there, and the kernel is
as ready for the next file as it was for this one. -/

namespace PeachOS
open Program ByteMemory Search

/-- The records at `freed` are given back. Nothing else is changed but the table of descriptors. -/
structure Drops (freed : List Addr) (before after : Kernel) : Prop where
  rest : after = { before with
    memory := ⟨after.memory.heap, before.memory.bytes⟩
    files := after.files
    fileDescriptors := after.fileDescriptors }
  held : ∀ ptr ∉ freed, HeldAt before.memory.heap ptr →
    HeldAt after.memory.heap ptr ∧ after.files ptr = before.files ptr
  owned : ∀ ptr ∉ freed, ∀ address, OwnedBy before.memory.heap ptr address → OwnedBy after.memory.heap ptr address

section Drops
variable {α : Type} {tables : Set (Nat → Addr)} {image : Image} {header : FatHeader} {room : Nat}
  {base kernel before middle after : Kernel} {first second : List Addr} {ptr : Addr} {record : FileRecord} {value : α}

theorem Drops.trans (drops : Drops first before middle) (more : Drops second middle after) :
    Drops (first ++ second) before after where
  rest := by
    rw [more.rest, drops.rest]
  held := by
    intro ptr outside held
    rw [List.mem_append, not_or] at outside
    obtain ⟨middleHeld, middleHere⟩ := drops.held ptr outside.1 held
    obtain ⟨afterHeld, afterHere⟩ := more.held ptr outside.2 middleHeld
    exact ⟨afterHeld, afterHere.trans middleHere⟩
  owned := by
    intro ptr outside address inChain
    rw [List.mem_append, not_or] at outside
    exact more.owned ptr outside.2 address (drops.owned ptr outside.1 address inChain)

theorem Drops.bytes (drops : Drops first before after) : after.memory.bytes = before.memory.bytes := by
  rw [drops.rest]

theorem Drops.unharmed (drops : Drops first kernel after) (apart : Apart base kernel)
    (new : ∀ ptr ∈ first, ¬HeldAt base.memory.heap ptr) : Unharmed base after where
  owned := by
    rintro address ⟨start, block, chained, page⟩
    have here : OwnedBy base.memory.heap (heapBlockToAddress base.memory.heap start) address :=
      ⟨start, block, rfl, chained, page⟩
    exact (drops.owned _ (fun gone => new _ gone ⟨start, rfl, chained.1⟩) address (here.apart apart)).owned
  bytes := fun address inside => (congrFun drops.bytes address).trans (apart.bytes address inside)

theorem Ready.drop (ready : Ready tables image header room kernel) (select : FileRecord → Option α)
    (here : kernel.files ptr = some record) (selected : select record = some value) : ∃ after,
      Kernel.freeRecord select ptr kernel = (.ok (), after) ∧ Ready tables image header room after ∧
      Drops [ptr] kernel after ∧ after.fileDescriptors = kernel.fileDescriptors := by
  obtain ⟨after, run, afterReady, _⟩ := ready.freeRecord select here selected
  have rest : after = { kernel with memory := ⟨after.memory.heap, kernel.memory.bytes⟩, files := after.files } := by
    rcases Kernel.freeRecord_ok run with ⟨_, rfl⟩ | ⟨_, _, _, _, rfl⟩ | ⟨_, rfl, _⟩ <;> rfl
  refine ⟨after, run, afterReady, ⟨?_, ?_, ?_⟩, ?_⟩
  · rw [rest]
  · intro other different held
    exact Kernel.freeRecord_other ready.recorded run (List.ne_of_not_mem_cons different) held
  · intro other different address inChain
    exact Kernel.freeRecord_ownedBy ready.recorded inChain (List.ne_of_not_mem_cons different) run
  · rw [rest]

end Drops

section Handle
variable {tables : Set (Nat → Addr)} {image : Image} {header : FatHeader} {room i cluster : Nat}
  {base kernel : Kernel} {desc privateData last clone : Addr} {item : FatDirectoryItem}

theorem FileHandle.close (handle : FileHandle base kernel i desc privateData last clone item) (low : i < 511)
    (ready : Ready tables image header room kernel) : ∃ closed, fclose (i + 1) kernel = (.ok 0, closed) ∧
      Ready {closed.fileDescriptors} image header room closed ∧ Drops [clone, last, privateData, desc] kernel closed ∧
      closed.fileDescriptors = Function.update kernel.fileDescriptors i 0 := by
  -- records of different kinds are at different places
  have other : ∀ {ptr ptr' : Addr} {one two : FileRecord}, kernel.files ptr = some one →
      kernel.files ptr' = some two → one ≠ two → ptr' ∉ [ptr] := by
    intro ptr ptr' one two here there different member
    obtain rfl := List.mem_singleton.mp member
    exact different (Option.some.inj (here.symm.trans there))
  have found := handle.found
  obtain ⟨first, freedClone, firstReady, firstDrops, firstTable⟩ :=
    ready.drop FileRecord.asFatDirectoryItem found.file.entry rfl
  obtain ⟨heldLast, hereLast⟩ := firstDrops.held last (other found.file.entry found.file.node nofun) found.held
  obtain ⟨second, freedLast, secondReady, secondDrops, secondTable⟩ :=
    firstReady.drop FileRecord.asFatItem (hereLast.trans found.file.node) rfl
  have drops := firstDrops.trans secondDrops
  have outside : ∀ {ptr : Addr} {record : FileRecord}, kernel.files ptr = some record →
      FileRecord.fatDirectoryItem item ≠ record → FileRecord.fatItem ⟨clone, .file⟩ ≠ record → ptr ∉ [clone] ++ [last] := by
    intro ptr record here notClone notLast member
    rcases List.mem_append.mp member with atClone | atLast
    · exact other found.file.entry here notClone atClone
    · exact other found.file.node here notLast atLast
  obtain ⟨_, herePosition⟩ := drops.held privateData (outside handle.position nofun nofun) handle.heldPosition
  obtain ⟨third, freedPosition, thirdReady, thirdDrops, thirdTable⟩ :=
    secondReady.drop FileRecord.asFatFileDescriptor (herePosition.trans handle.position) rfl
  obtain ⟨_, hereDesc⟩ := (drops.trans thirdDrops).held desc (by
    intro member
    rcases List.mem_append.mp member with early | atPosition
    · exact outside handle.node nofun nofun early
    · exact other handle.position handle.node nofun atPosition) handle.held
  have fourthReady : Ready {Function.update third.fileDescriptors i 0} image header room (third.setFileDescriptor i 0) :=
    ⟨thirdReady.toTidy.retable i 0, thirdReady.volume, thirdReady.directories⟩
  obtain ⟨closed, freedDesc, closedReady, lastDrops, lastTable⟩ := fourthReady.drop FileRecord.asFileDescriptor
    (hereDesc.trans handle.node : (third.setFileDescriptor i 0).files desc = _) rfl
  have table : third.fileDescriptors = kernel.fileDescriptors := thirdTable.trans (secondTable.trans firstTable)
  have item' : fat16FatItemFree last kernel = (.ok (), second) := by
    unfold fat16FatItemFree
    rw [bind_ok (Kernel.record_run found.file.node (rfl : FileRecord.asFatItem _ = some _))]
    exact (bind_ok freedClone).trans freedLast
  have position : fat16FreeFileDescriptor privateData kernel = (.ok (), third) := by
    unfold fat16FreeFileDescriptor
    rw [bind_ok (Kernel.record_run handle.position (rfl : FileRecord.asFatFileDescriptor _ = some _))]
    exact (bind_ok item').trans freedPosition
  have closes : fat16Close privateData kernel = (.ok 0, third) := (bind_ok position).trans rfl
  have frees : fileFreeDescriptor desc third = (.ok (), closed) := by
    unfold fileFreeDescriptor
    rw [bind_ok (Kernel.record_run (hereDesc.trans handle.node) (rfl : FileRecord.asFileDescriptor _ = some _))]
    dsimp only
    rw [if_neg (by unfold peachosMaxFileDescriptors; omega), Int.add_sub_cancel, Int.toNat_natCast, update_bind]
    exact freedDesc
  have nonnull : desc ≠ 0 := fun null => not_heldAt_null kernel ready.freeEnd.kernel (null ▸ handle.held)
  refine ⟨closed, ?_, closedReady.exact, ?_, by rw [lastTable, ← table]; rfl⟩
  · unfold fclose
    rw [read_bind, handle.slot low, if_neg nonnull,
      bind_ok (Kernel.record_run handle.node (rfl : FileRecord.asFileDescriptor _ = some _))]
    exact (bind_ok closes).trans ((bind_ok frees).trans rfl)
  · have released : Drops [desc] third closed := ⟨lastDrops.rest, lastDrops.held, lastDrops.owned⟩
    exact (drops.trans thirdDrops).trans released

end Handle

/-- A kernel that can open a file of its volume, as descriptor `i + 1`. -/
structure OpensFiles (image : Image) (header : FatHeader) (room count i : Nat) (kernel : Kernel) : Prop where
  ready : Ready {kernel.fileDescriptors} image header room kernel
  rooted : Rooted kernel image header count
  filesystem : kernel.disk.filesystem = true
  free : freeSlot kernel = some i
  low : i < 511

/-- An open file, and a block for its bytes that was made after it was opened. -/
structure Buffered (before kernel : Kernel) (i : Nat) (item : FatDirectoryItem) (ptr : Addr) : Prop where
  opened : ∃ base desc privateData last clone, Unharmed before base ∧ base.fileDescriptors = before.fileDescriptors ∧
    Apart base kernel ∧ FileHandle base kernel i desc privateData last clone item ∧
    ptr ∉ [clone, last, privateData, desc] ∧ ∀ k < item.filesize.toNat, ¬Owned base.memory.heap (ptr + BitVec.ofNat 32 k)
  owned : ∀ k < item.filesize.toNat, OwnedBy kernel.memory.heap ptr (ptr + BitVec.ofNat 32 k)
  volume : kernel.disk.streamless = before.disk.streamless

/-- The bytes of a file, if it ends in its first cluster. -/
def clusterFile (image : Image) (header : FatHeader) (cluster : Nat) (item : FatDirectoryItem) : List Byte :=
  diskBytes image (clusterPos header cluster) item.filesize.toNat

/-- A file in a block of the heap. -/
structure FileBlock (kernel : Kernel) (ptr : Addr) (file : List Byte) : Prop where
  content : loadBytes kernel.memory.bytes ptr file.length = file
  owned : ∀ k < file.length, Owned kernel.memory.heap (ptr + BitVec.ofNat 32 k)
  aligned : PageAligned ptr
  low : heapAddress.toNat ≤ ptr.toNat
  high : ptr.toNat + blocksFor (BitVec.ofNat 32 file.length) * heapBlockSize ≤ heapAddress.toNat + heapSizeBytes

section Session
variable {tables : Set (Nat → Addr)} {image : Image} {header : FatHeader} {room count i size cluster : Nat}
  {before kernel after : Kernel} {filename modeStr : List Byte} {names : List (List Byte)} {item : FatDirectoryItem}
  {ptr : Addr}

theorem Ready.kzalloc {bytes : Word} (ready : Ready tables image header (room + blocksFor bytes) kernel)
    (roundable : Roundable bytes) : ∃ ptr after, Kernel.kzalloc bytes kernel = (.ok ptr, after) ∧
      Ready tables image header room after ∧ MadeBlock kernel after bytes ptr := by
  obtain ⟨ptr, after, run, tidy, made⟩ := ready.toTidy.kzalloc roundable
  have disk : after.disk = kernel.disk := Kernel.kzalloc_disk run
  refine ⟨ptr, after, run, ⟨tidy, ?_, ?_⟩, made⟩
  · rw [disk]
    exact ready.volume
  · rw [disk]
    exact ready.directories

theorem ShortFile.roundable (short : ShortFile header item cluster) : Roundable item.filesize := by
  have small := clusterSize_lt header
  have inside := short.short
  have positive := short.positive
  constructor <;> omega

theorem clusterFile_length : (clusterFile image header cluster item).length = item.filesize.toNat :=
  diskBytes_length _ _ _

theorem FileBlock.unharmed (block : FileBlock kernel ptr file) (unharmed : Unharmed kernel after) :
    FileBlock after ptr file where
  content := (loadBytes_congr (fun k bound => unharmed.bytes _ (block.owned k bound))).trans block.content
  owned := fun k bound => unharmed.owned _ (block.owned k bound)
  aligned := block.aligned
  low := block.low
  high := block.high

theorem OpensFiles.less {fewer : Nat} (opens : OpensFiles image header room count i kernel) (less : fewer ≤ room) :
    OpensFiles image header fewer count i kernel :=
  { opens with ready := opens.ready.less less }

theorem Disk.streamless_filesystem {disk other : Disk} (same : other.streamless = disk.streamless) :
    other.filesystem = disk.filesystem := by
  have kept : other.streamless.filesystem = disk.streamless.filesystem := congrArg Disk.filesystem same
  exact kept

theorem OpensFiles.moved {fewer : Nat} (opens : OpensFiles image header room count i kernel)
    (ready : Ready {after.fileDescriptors} image header fewer after) (unharmed : Unharmed kernel after)
    (disk : after.disk.streamless = kernel.disk.streamless) (table : after.fileDescriptors = kernel.fileDescriptors) :
    OpensFiles image header fewer count i after where
  ready := ready
  rooted := opens.rooted.unharmed unharmed disk
  filesystem := (Disk.streamless_filesystem disk).trans opens.filesystem
  free := by
    unfold freeSlot
    rw [table]
    exact opens.free
  low := opens.low

theorem OpensFiles.kzalloc {bytes : Word} (opens : OpensFiles image header (room + blocksFor bytes) count i kernel)
    (roundable : Roundable bytes) : ∃ ptr after, Kernel.kzalloc bytes kernel = (.ok ptr, after) ∧
      OpensFiles image header room count i after ∧ MadeBlock kernel after bytes ptr := by
  obtain ⟨ptr, after, run, ready, made⟩ := opens.ready.kzalloc roundable
  have disk : after.disk = kernel.disk := Kernel.kzalloc_disk run
  exact ⟨ptr, after, run, opens.moved ready.exact made.apart.unharmed (congrArg Disk.streamless disk)
    ready.recorded.table, made⟩

theorem Apart.congr (apart : Apart before kernel) (memory : after.memory = kernel.memory)
    (files : after.files = kernel.files) : Apart before after := by
  refine ⟨?_, ?_, ?_, ?_, ?_, ?_, ?_⟩ <;> (try rw [memory]) <;> (try rw [files])
  · exact apart.sound
  · exact apart.saddr
  · exact apart.total
  · exact apart.held
  · exact apart.entries
  · exact apart.bytes
  · exact apart.files

theorem Ready.congr (ready : Ready tables image header room kernel) (memory : after.memory = kernel.memory)
    (disk : after.disk = kernel.disk) (files : after.files = kernel.files)
    (table : after.fileDescriptors = kernel.fileDescriptors) : Ready tables image header room after := by
  refine ⟨ready.toTidy.congr (congrArg Memory.heap memory) files table, ?_, ?_⟩
  · rw [disk]
    exact ready.volume
  · rw [disk]
    exact ready.directories

theorem OpensFiles.congr (opens : OpensFiles image header room count i kernel) (memory : after.memory = kernel.memory)
    (disk : after.disk = kernel.disk) (files : after.files = kernel.files)
    (table : after.fileDescriptors = kernel.fileDescriptors) : OpensFiles image header room count i after :=
  opens.moved (opens.ready.congr memory disk files table).exact
    ((Apart.refl opens.ready.sound).congr memory files).unharmed (congrArg Disk.streamless disk) table

theorem Buffered.apart (buffered : Buffered before kernel i item ptr) (apart : Apart kernel after)
    (disk : after.disk.streamless = kernel.disk.streamless) (table : after.fileDescriptors = kernel.fileDescriptors) :
    Buffered before after i item ptr where
  opened := by
    obtain ⟨base, desc, privateData, last, clone, unharmed, same, beside, handle, other, fresh⟩ := buffered.opened
    exact ⟨base, desc, privateData, last, clone, unharmed, same, beside.trans apart, handle.apart apart table, other,
      fresh⟩
  owned := fun k bound => (buffered.owned k bound).apart apart
  volume := disk.trans buffered.volume

theorem LeadsTo.buffer (leads : LeadsTo image header true (rootPosition header) size names (.file item))
    (path : NamesPath filename names) (mode : fileGetModeByString modeStr = .read)
    (roundable : Roundable item.filesize)
    (opens : OpensFiles image header (room + blocksFor item.filesize + pathBlocks header filename names) count i before) :
    ∃ opened ptr after, fopen filename modeStr before = (.ok (i + 1), opened) ∧
      (∀ stat, fstat (i + 1) stat opened = (.ok (0, ⟨if item.itemAttribute &&& fatFileReadOnly ≠ 0 then
        fileStatReadOnly else 0, item.filesize⟩), opened)) ∧
      Kernel.kzalloc item.filesize opened = (.ok ptr, after) ∧ MadeBlock opened after item.filesize ptr ∧
      Ready {after.fileDescriptors} image header room after ∧ Buffered before after i item ptr := by
  obtain ⟨base, desc, privateData, last, clone, opened, run, unharmed, table, apart, openedReady, handle⟩ :=
    leads.fopen_file path mode opens.filesystem opens.free opens.rooted opens.ready
  obtain ⟨ptr, after, allocated, ready, made⟩ := openedReady.kzalloc roundable
  have disk : after.disk = opened.disk := Kernel.kzalloc_disk allocated
  have volume := keepsVolume_fopen filename modeStr before.disk.streamless before _ opened rfl run
  have stream := handle.stream openedReady.freeEnd.kernel opens.low
  refine ⟨opened, ptr, after, run, stream.fstat_run, allocated, made, ready.exact, ?_, made.owned, ?_⟩
  · refine ⟨base, desc, privateData, last, clone, unharmed, table, apart.trans made.apart,
      handle.apart made.apart ready.recorded.table, ?_, fun k bound inside => made.bytes k bound (apart.owned inside)⟩
    intro member
    simp only [List.mem_cons, List.not_mem_nil, or_false] at member
    rcases member with rfl | rfl | rfl | rfl
    · exact made.new handle.found.heldClone
    · exact made.new handle.found.held
    · exact made.new handle.heldPosition
    · exact made.new handle.held
  · rw [disk]
    exact volume

theorem Buffered.read (buffered : Buffered before kernel i item ptr)
    (ready : Ready {kernel.fileDescriptors} image header room kernel) (low : i < 511)
    (short : ShortFile header item cluster) : ∃ after, fread ptr item.filesize 1 (i + 1) kernel = (.ok 1, after) ∧
      after = { kernel with memory := ⟨kernel.memory.heap, after.memory.bytes⟩, disk := after.disk } ∧
      loadBytes after.memory.bytes ptr item.filesize.toNat = clusterFile image header cluster item ∧
      Ready {after.fileDescriptors} image header room after ∧ Buffered before after i item ptr := by
  obtain ⟨base, desc, privateData, last, clone, unharmed, same, beside, handle, other, fresh⟩ := buffered.opened
  have stream := handle.stream ready.freeEnd.kernel low
  obtain ⟨left, leftVolume, leftDirectories, run⟩ := stream.fread_whole ready.volume ready.directories short ptr
  have volume := keepsVolume_fread ptr item.filesize 1 (i + 1) before.disk.streamless kernel _ _ buffered.volume run
  have length := diskBytes_length image (clusterPos header cluster) item.filesize.toNat
  have bound := item.filesize.isLt
  unfold clusterFile
  generalize diskBytes image (clusterPos header cluster) item.filesize.toNat = content at *
  have tidy : Tidy {kernel.fileDescriptors} room
      ((kernel.setDisk left).setMemory ⟨kernel.memory.heap, storeBytes kernel.memory.bytes ptr content⟩) :=
    ready.toTidy.congr rfl rfl rfl
  have found : FoundFile base ((kernel.setDisk left).setMemory ⟨kernel.memory.heap, storeBytes kernel.memory.bytes ptr
      content⟩) last clone item :=
    ⟨⟨handle.found.file.node, handle.found.file.entry⟩, handle.found.held, handle.found.heldClone, handle.found.new,
      handle.found.newClone⟩
  refine ⟨_, run, rfl, ?_, ⟨tidy, leftVolume, leftDirectories⟩, ⟨base, desc, privateData, last, clone, unharmed, same, ?_,
    ⟨handle.table, handle.node, handle.held, handle.new, handle.position, handle.heldPosition, handle.newPosition, found⟩,
    other, fresh⟩, buffered.owned, volume⟩
  · have stored := loadBytes_storeBytes kernel.memory.bytes ptr content (by omega)
    rwa [length] at stored
  · have outside : ∀ address, Owned base.memory.heap address →
        storeBytes kernel.memory.bytes ptr content address = kernel.memory.bytes address := by
      intro address inside
      apply storeBytes_outside _ _ _ (by omega)
      rw [length]
      by_contra within
      have place : address = ptr + BitVec.ofNat 32 (address - ptr).toNat := by
        rw [BitVec.ofNat_toNat, BitVec.setWidth_eq]
        bv_omega
      exact fresh _ (not_le.mp within) (place ▸ inside)
    have stored := beside.setBytes outside
    exact ⟨stored.sound, stored.saddr, stored.total, stored.held, stored.entries, stored.bytes, stored.files⟩

theorem Buffered.close {opened filled : Kernel} (buffered : Buffered before kernel i item ptr)
    (opens : OpensFiles image header size count i before)
    (ready : Ready {kernel.fileDescriptors} image header room kernel) (made : MadeBlock opened filled item.filesize ptr)
    (content : loadBytes kernel.memory.bytes ptr item.filesize.toNat = clusterFile image header cluster item) : ∃ closed,
      fclose (i + 1) kernel = (.ok 0, closed) ∧ OpensFiles image header room count i closed ∧ Unharmed before closed ∧
      closed = { kernel with
        memory := ⟨closed.memory.heap, kernel.memory.bytes⟩
        files := closed.files
        fileDescriptors := closed.fileDescriptors } ∧
      FileBlock closed ptr (clusterFile image header cluster item) := by
  obtain ⟨base, desc, privateData, last, clone, unharmed, same, beside, handle, other, _⟩ := buffered.opened
  obtain ⟨closed, run, closedReady, drops, table⟩ := handle.close opens.low ready
  have empty : before.fileDescriptors i = 0 := by
    have found := (firstIndex_some opens.free).2.1
    exact beq_iff_eq.mp found
  have restored : closed.fileDescriptors = before.fileDescriptors := by
    rw [table, handle.table, Function.update_idem, same, ← empty, Function.update_eq_self]
  have disk : closed.disk = kernel.disk := by
    rw [drops.rest]
  have gone : Unharmed base closed := by
    refine drops.unharmed beside ?_
    simp only [List.mem_cons, List.not_mem_nil, or_false, forall_eq_or_imp, forall_eq]
    exact ⟨handle.found.newClone, handle.found.new, handle.newPosition, handle.new⟩
  have whole := unharmed.trans gone
  have length : (clusterFile image header cluster item).length = item.filesize.toNat := clusterFile_length
  refine ⟨closed, run, opens.moved closedReady whole ?_ restored, whole, drops.rest, ?_, ?_, made.aligned, made.low, ?_⟩
  · rw [disk]
    exact buffered.volume
  · rw [drops.bytes, length]
    exact content
  · rw [length]
    exact fun k bound => (drops.owned ptr other _ (buffered.owned k bound)).owned
  · rw [length, BitVec.ofNat_toNat, BitVec.setWidth_eq]
    exact made.high

end Session

end PeachOS
