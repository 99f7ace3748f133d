import PeachOS.PagingRelease
import PeachOS.PathParser

/-! What `pathparser_parse` makes of a printed path: a list of records, one for each part,
each with a buffer that holds the whole part. -/

namespace PeachOS
open Program ByteMemory BlockPool

/-- A pointer to a taken block of the heap. -/
def Live (heap : Heap) (ptr : Addr) : Prop :=
  ∃ block : Nat, block < heap.table.total ∧ ptr = heapBlockToAddress heap block ∧
    ¬EntryFree heap.table.entries block

/-- Every taken block stays taken, with its record and its bytes, but those of `changed`. -/
structure Extends (changed : Set Addr) (before after : Kernel) : Prop where
  kernel : KernelHeap after.memory.heap
  live : ∀ ptr, Live before.memory.heap ptr → Live after.memory.heap ptr
  files : ∀ ptr, Live before.memory.heap ptr → ptr ∉ changed → after.files ptr = before.files ptr
  bytes : ∀ ptr, Live before.memory.heap ptr → ptr ∉ changed →
    ∀ address, frameOf address = ptr → after.memory.bytes address = before.memory.bytes address
  disk : after.disk = before.disk
  descriptors : after.fileDescriptors = before.fileDescriptors

section Extends
variable {changed later : Set Addr} {before middle after : Kernel} {ptr : Addr}

theorem Live.nonnull {heap : Heap} (kernel : KernelHeap heap) (live : Live heap ptr) : ptr ≠ 0 := by
  obtain ⟨block, bound, rfl, _⟩ := live
  exact kernel.nonnull bound

theorem Extends.trans (first : Extends changed before middle) (second : Extends later middle after)
    (fresh : ∀ ptr ∈ later, Live before.memory.heap ptr → ptr ∈ changed) :
    Extends changed before after where
  kernel := second.kernel
  live := fun ptr live => second.live ptr (first.live ptr live)
  files := by
    intro ptr live outside
    rw [second.files ptr (first.live ptr live) (fun member => outside (fresh ptr member live)),
      first.files ptr live outside]
  bytes := by
    intro ptr live outside address inPage
    rw [second.bytes ptr (first.live ptr live) (fun member => outside (fresh ptr member live))
      address inPage, first.bytes ptr live outside address inPage]
  disk := second.disk.trans first.disk
  descriptors := second.descriptors.trans first.descriptors

theorem Extends.widen (extends' : Extends changed before after) (wider : changed ⊆ later) :
    Extends later before after where
  kernel := extends'.kernel
  live := extends'.live
  files := fun ptr live outside => extends'.files ptr live (fun member => outside (wider member))
  bytes := fun ptr live outside => extends'.bytes ptr live (fun member => outside (wider member))
  disk := extends'.disk
  descriptors := extends'.descriptors

end Extends

section NewRecord
variable {before after : Kernel} {ptr : Addr} {size : Word} {record : FileRecord}

/-- `after` comes from `before` by allocating a block for a record at `ptr`. -/
structure Allocates (before after : Kernel) (size : Word) (record : FileRecord) (ptr : Addr) :
    Prop where
  nonnull : ptr ≠ 0
  takes : ∃ block : Nat, ptr = heapBlockToAddress before.memory.heap block ∧
    Takes before.memory after.memory {block}
  same : after = (before.setMemory ⟨after.memory.heap, fill before.memory.bytes ptr size.toNat 0⟩).setFiles
    (placeRecord before.files ptr size record)

theorem Kernel.kzalloc_page (kernel : KernelHeap before.memory.heap) (size : Word)
    (roundable : Roundable size) (single : blocksFor size = 1)
    (room : 0 < (freeBlocks before.memory.heap).card) :
    ∃ ptr memory, Kernel.kzalloc size before = (.ok ptr, before.setMemory memory) ∧
      ∀ record, Allocates before
        ((before.setMemory memory).setFiles (placeRecord before.files ptr size record)) size record ptr := by
  have success := kzalloc_succeeds kernel size roundable single room
  obtain ⟨block, address, takes⟩ := PeachOS.kzalloc_page kernel.pool size roundable single success
  have bound := (takes.free block rfl).1
  have position := kernel.address_toNat bound
  have short : size.toNat ≤ 4096 := by
    unfold blocksFor heapBlockSize at single
    omega
  have blocks := kernel.blocks
  have value : PeachOS.kzalloc size before.memory = _ :=
    kzalloc_eq (Prod.ext (kzalloc_ptr size before.memory).symm rfl) success
  have bytes : (PeachOS.kzalloc size before.memory).2 =
      ⟨(PeachOS.kzalloc size before.memory).2.heap,
        fill before.memory.bytes (PeachOS.kzalloc size before.memory).1 size.toNat 0⟩ := by
    rw [kzalloc_heap]
    exact congrArg Prod.snd value
  have inside : ¬((PeachOS.kzalloc size before.memory).1 ≠ 0 ∧
      2 ^ 32 < (PeachOS.kzalloc size before.memory).1.toNat + size.toNat) := by
    rw [address]
    omega
  refine ⟨_, _, if_neg inside, fun record => ⟨success, ⟨block, address, takes⟩, ?_⟩⟩
  exact congrArg (fun memory => (before.setMemory memory).setFiles _) bytes

theorem Kernel.newRecord_page (kernel : KernelHeap before.memory.heap) (size : Word)
    (roundable : Roundable size) (single : blocksFor size = 1) (room : 0 < (freeBlocks before.memory.heap).card)
    (record : FileRecord) :
    ∃ ptr after, Kernel.newRecord size record before = (.ok ptr, after) ∧
      Allocates before after size record ptr := by
  obtain ⟨ptr, memory, allocated, allocates⟩ := Kernel.kzalloc_page kernel size roundable single room
  exact ⟨ptr, _, (bind_ok allocated).trans (congrFun (if_neg (allocates record).nonnull) _),
    allocates record⟩

theorem Allocates.fresh (allocates : Allocates before after size record ptr)
    (kernel : KernelHeap before.memory.heap) : ¬Live before.memory.heap ptr := by
  obtain ⟨block, rfl, takes⟩ := allocates.takes
  rintro ⟨other, bound, same, taken⟩
  have free := takes.free block rfl
  rw [heapBlockToAddress_inj kernel.pool free.1 bound same] at free
  exact taken free.2

theorem Allocates.live (allocates : Allocates before after size record ptr) :
    Live after.memory.heap ptr := by
  obtain ⟨block, rfl, takes⟩ := allocates.takes
  refine ⟨block, ?_, ?_, takes.not_free rfl⟩
  · rw [takes.total]
    exact (takes.free block rfl).1
  · rw [takes.address]

theorem Allocates.file (allocates : Allocates before after size record ptr)
    (positive : 0 < size.toNat) : after.files ptr = some record := by
  rw [allocates.same]
  simp only [Kernel.setFiles_files, placeRecord, if_true]
  rw [if_pos (by simpa using positive)]

theorem Allocates.bytes (allocates : Allocates before after size record ptr) :
    after.memory.bytes = fill before.memory.bytes ptr size.toNat 0 := by
  rw [allocates.same]
  rfl

theorem Allocates.room (allocates : Allocates before after size record ptr) :
    (freeBlocks after.memory.heap).card + 1 = (freeBlocks before.memory.heap).card := by
  obtain ⟨block, _, takes⟩ := allocates.takes
  exact takes.freeBlocks_one

theorem Allocates.extends (allocates : Allocates before after size record ptr)
    (kernel : KernelHeap before.memory.heap) (short : size.toNat ≤ 4096) :
    Extends ∅ before after := by
  have fresh := allocates.fresh kernel
  obtain ⟨block, address, takes⟩ := allocates.takes
  have different : ∀ other, Live before.memory.heap other → other ≠ ptr := by
    rintro other live rfl
    exact fresh live
  refine ⟨takes.kernel kernel, ?_, ?_, ?_, by rw [allocates.same]; rfl, by rw [allocates.same]; rfl⟩
  · rintro other ⟨cell, bound, rfl, taken⟩
    refine ⟨cell, by rw [takes.total]; exact bound, by rw [takes.address], ?_⟩
    unfold EntryFree
    rw [takes.kept cell]
    · exact taken
    · intro chosen member same
      rw [Set.mem_singleton_iff] at member
      have equal : cell = block := by omega
      exact taken (equal ▸ (takes.free block rfl).2)
  · intro other live _
    have apart := different other live
    obtain ⟨cell, bound, rfl, taken⟩ := live
    rw [allocates.same]
    simp only [Kernel.setFiles_files, placeRecord]
    rw [if_neg]
    -- two blocks are a block apart at least
    have blockAt := kernel.address_toNat (takes.free block rfl).1
    have cellAt := kernel.address_toNat bound
    have blocks := kernel.blocks
    have cells : cell ≠ block := by
      rintro rfl
      exact apart address.symm
    have := (takes.free block rfl).1
    rw [address, BitVec.toNat_sub]
    omega
  · intro other live _ target inPage
    apply takes.frame
    intro chosen member same
    rw [Set.mem_singleton_iff] at member
    subst member
    exact different other live ((inPage.symm.trans same).trans address.symm)

end NewRecord

section Stores
variable {before : Kernel} {ptr : Addr}

theorem Kernel.writeRecord_run {α : Type} (select : FileRecord → Option α) {old : FileRecord}
    {value : α} (here : before.files ptr = some old) (selected : select old = some value)
    (record : FileRecord) : Kernel.writeRecord select ptr record before =
      (.ok (), before.setFiles (Function.update before.files ptr (some record))) :=
  (bind_ok (Kernel.record_run here selected)).trans rfl

theorem Extends.write (kernel : KernelHeap before.memory.heap) (ptr : Addr) (record : FileRecord) :
    Extends {ptr} before (before.setFiles (Function.update before.files ptr (some record))) where
  kernel := kernel
  live := fun _ live => live
  files := fun _ _ outside => Function.update_of_ne outside _ _
  bytes := fun _ _ _ _ _ => rfl
  disk := rfl
  descriptors := rfl

/-- The bytes of a part are stored from character `i` of its buffer on. -/
def Kernel.storeChars (kernel : Kernel) (ptr : Addr) (i : Nat) (chars : List Byte) : Kernel :=
  kernel.setMemory { kernel.memory with
    bytes := storeBytes kernel.memory.bytes (ptr + BitVec.ofNat 32 i) chars }

theorem Extends.storeChars (kernel : KernelHeap before.memory.heap) (aligned : PageAligned ptr)
    {chars : List Byte} (short : chars.length ≤ 4096) :
    Extends {ptr} before (before.storeChars ptr 0 chars) where
  kernel := kernel
  live := fun _ live => live
  files := fun _ _ _ => rfl
  bytes := by
    intro other _ outside address inPage
    apply storeBytes_outside _ _ _ (by omega)
    by_contra inside
    apply outside
    rw [← inPage, Set.mem_singleton_iff]
    apply BitVec.eq_of_toNat_eq
    have := ptr.isLt
    have := address.isLt
    unfold PageAligned pagingPageSize at aligned
    rw [BitVec.add_zero, BitVec.toNat_sub] at inside
    rw [frameOf_toNat]
    omega
  disk := rfl
  descriptors := rfl

end Stores

/-- The characters that a part may have. -/
def Plain (part : List Byte) : Prop := ∀ c ∈ part, c ≠ slash ∧ c ≠ 0

def Ends (rest : List Byte) : Prop := rest = [] ∨ ∃ path, rest = slash :: path

/-- The buffer of a part: the whole part, and zeros up to its end. -/
structure Buffer (kernel : Kernel) (str : Addr) (part : List Byte) : Prop where
  live : Live kernel.memory.heap str
  file : kernel.files str = some .pathString
  content : loadBytes kernel.memory.bytes str peachosMaxPath =
    part ++ List.replicate (peachosMaxPath - part.length) 0
  terminated : part.length < peachosMaxPath

section Parts
variable {before after : Kernel} {part rest path : List Byte}

theorem pathparserCopyLoop_run (str : Addr) (here : before.files str = some .pathString)
    (plain : Plain part) (ends : Ends rest) (i : Nat) :
    pathparserCopyLoop str i (part ++ rest) before =
      (.ok (i + part.length, rest), before.storeChars str i part) := by
  induction part generalizing before i with
  | nil =>
    rcases ends with rfl | ⟨path, rfl⟩
    · rfl
    · exact congrFun (if_pos (Or.inl rfl)) _
  | cons c part ih =>
    have here' : c ≠ slash ∧ c ≠ 0 := plain c (List.mem_cons_self ..)
    have looked : Kernel.record FileRecord.asPathString str before = (.ok (), before) :=
      Kernel.record_run here rfl
    have stored : pathparserSetChar str i c before = (.ok (), before.storeChars str i [c]) :=
      bind_ok looked
    have kept : (before.storeChars str i [c]).files str = some .pathString := here
    have later : pathparserCopyLoop str (i + 1) (part ++ rest) (before.storeChars str i [c]) = _ :=
      ih kept (fun d member => plain d (List.mem_cons_of_mem _ member)) (i + 1)
    have joined : (before.storeChars str i [c]).storeChars str (i + 1) part =
        before.storeChars str i (c :: part) := by
      unfold Kernel.storeChars
      rw [show str + BitVec.ofNat 32 (i + 1) = str + BitVec.ofNat 32 i + 1 by bv_omega]
      rfl
    rw [joined] at later
    rw [List.cons_append, pathparserCopyLoop, if_neg (by tauto), List.length_cons]
    rw [show i + (part.length + 1) = i + 1 + part.length by omega]
    exact (bind_ok stored).trans later

theorem loadBytes_filled (bytes : Bytes) (str : Addr) (short : part.length < peachosMaxPath) :
    loadBytes (storeBytes (fill bytes str 108 0) str part) str peachosMaxPath =
      part ++ List.replicate (peachosMaxPath - part.length) 0 := by
  unfold peachosMaxPath at short ⊢
  have split : 108 = part.length + (108 - part.length) := by omega
  conv_lhs => rw [split]
  rw [loadBytes_add, loadBytes_storeBytes _ _ _ (by omega)]
  congr 1
  apply loadBytes_replicate
  intro i bound
  have position : (str + BitVec.ofNat 32 part.length + BitVec.ofNat 32 i - str).toNat =
      part.length + i := by bv_omega
  rw [storeBytes_outside _ _ _ (by omega) (by omega), fill, position, if_pos]
  omega

theorem Live.aligned {heap : Heap} {ptr : Addr} (kernel : KernelHeap heap) (live : Live heap ptr) :
    PageAligned ptr := by
  obtain ⟨block, _, rfl, _⟩ := live
  exact heapBlockToAddress_aligned kernel.pool block

theorem Buffer.extends {changed : Set Addr} {str : Addr} (buffer : Buffer before str part)
    (kernel : KernelHeap before.memory.heap)
    (extends' : Extends changed before after) (outside : str ∉ changed) : Buffer after str part where
  live := extends'.live str buffer.live
  file := (extends'.files str buffer.live outside).trans buffer.file
  content := by
    rw [← buffer.content]
    apply loadBytes_congr
    intro i bound
    have aligned := buffer.live.aligned kernel
    apply extends'.bytes str buffer.live outside
    apply BitVec.eq_of_toNat_eq
    have := str.isLt
    unfold PageAligned pagingPageSize at aligned
    unfold peachosMaxPath at bound
    rw [frameOf_toNat, BitVec.toNat_add, BitVec.toNat_ofNat]
    omega
  terminated := buffer.terminated

theorem pathparserGetPathPart_part (kernel : KernelHeap before.memory.heap)
    (room : 0 < (freeBlocks before.memory.heap).card) (plain : Plain part) (ends : Ends rest)
    (nonempty : part ≠ []) (short : part.length < peachosMaxPath) :
    ∃ str after, pathparserGetPathPart (part ++ rest) before = (.ok (str, rest.tail), after) ∧
      ¬Live before.memory.heap str ∧ Buffer after str part ∧ Extends ∅ before after ∧
      (freeBlocks after.memory.heap).card + 1 = (freeBlocks before.memory.heap).card := by
  obtain ⟨str, middle, allocated, allocates⟩ := Kernel.newRecord_page kernel 108#32
    (by decide) (by decide) room .pathString
  have extended := allocates.extends kernel (by decide)
  have file := allocates.file (by decide)
  have copied := pathparserCopyLoop_run str file plain ends 0
  have fresh := allocates.fresh kernel
  have stored : Extends {str} middle (middle.storeChars str 0 part) :=
    Extends.storeChars extended.kernel (allocates.live.aligned extended.kernel)
      (by unfold peachosMaxPath at short; omega)
  have skipped : (if rest.headD 0 = slash then rest.tail else rest) = rest.tail := by
    rcases ends with rfl | ⟨path, rfl⟩
    · rfl
    · rfl
  have positive : ¬0 + part.length = 0 := by
    rw [Nat.zero_add]
    exact fun zero => nonempty (List.eq_nil_of_length_eq_zero zero)
  refine ⟨str, middle.storeChars str 0 part, ?_, fresh, ?_, ?_, allocates.room⟩
  · refine (bind_ok allocated).trans ((bind_ok copied).trans ?_)
    exact (congrFun (if_neg positive) _).trans (by rw [skipped]; rfl)
  · refine ⟨allocates.live, file, ?_, short⟩
    show loadBytes (storeBytes middle.memory.bytes (str + BitVec.ofNat 32 0) part) str _ = _
    rw [BitVec.add_zero, allocates.bytes]
    exact loadBytes_filled _ _ short
  · apply extended.trans stored
    intro ptr member live
    rw [Set.mem_singleton_iff] at member
    exact absurd (member ▸ live) fresh

theorem Takes.freeBlocks_released {first second third : Memory} {block : Nat}
    (takes : Takes first second {block}) (releases : Releases second third {block}) :
    (freeBlocks third.heap).card = (freeBlocks first.heap).card := by
  congr 1
  ext cell
  rw [mem_freeBlocks, mem_freeBlocks, releases.total, takes.total]
  apply and_congr_right
  intro _
  by_cases same : cell = block
  · subst same
    have free := (takes.free cell rfl).2
    have freed := releases.freed cell rfl
    unfold EntryFree at free ⊢
    rw [freed, free]
    decide
  · have apart : ∀ chosen ∈ ({block} : Set Nat), (cell : Int) ≠ (chosen : Nat) := by
      intro chosen member
      rw [Set.mem_singleton_iff.mp member]
      exact_mod_cast same
    unfold EntryFree
    rw [releases.kept cell apart, takes.kept cell apart]

theorem pathparserGetPathPart_end (kernel : KernelHeap before.memory.heap)
    (room : 0 < (freeBlocks before.memory.heap).card) (ends : Ends rest) :
    ∃ after, pathparserGetPathPart rest before = (.ok (0, rest.tail), after) ∧ Extends ∅ before after ∧
      (freeBlocks after.memory.heap).card = (freeBlocks before.memory.heap).card := by
  obtain ⟨str, middle, allocated, allocates⟩ := Kernel.newRecord_page kernel 108#32
    (by decide) (by decide) room .pathString
  have extended := allocates.extends kernel (by decide)
  have fresh := allocates.fresh kernel
  have looked := allocates.file (by decide)
  obtain ⟨block, address, takes⟩ := allocates.takes
  have single : Single middle.memory.heap block := by
    refine ⟨?_, takes.taken block rfl⟩
    rw [takes.total]
    exact (takes.free block rfl).1
  have releases := kfree_single (takes.pool kernel.pool) single
  rw [takes.address, ← address] at releases
  have freed : Kernel.freeRecord FileRecord.asPathString str middle =
      (.ok (), (middle.setFiles (Function.update middle.files str none)).setMemory
        (kfree str middle.memory)) := by
    unfold Kernel.freeRecord
    rw [if_neg allocates.nonnull, read_bind, id_eq, looked]
    rfl
  have copied : pathparserCopyLoop str 0 rest middle = (.ok (0, rest), middle) := by
    rcases ends with rfl | ⟨path, rfl⟩
    · rfl
    · exact congrFun (if_pos (Or.inl rfl)) _
  have skipped : (if rest.headD 0 = slash then rest.tail else rest) = rest.tail := by
    rcases ends with rfl | ⟨path, rfl⟩
    · rfl
    · rfl
  refine ⟨(middle.setFiles (Function.update middle.files str none)).setMemory (kfree str middle.memory),
    (bind_ok allocated).trans ((bind_ok copied).trans ?_), ?_, takes.freeBlocks_released releases⟩
  · refine (bind_ok freed).trans ?_
    show (Except.ok (0, if rest.headD 0 = slash then rest.tail else rest), _) = _
    rw [skipped]
  refine ⟨extended.kernel.congr releases.saddr releases.total, ?_, ?_, ?_, extended.disk,
    extended.descriptors⟩
  · intro ptr live
    obtain ⟨cell, bound, same, taken⟩ := extended.live ptr live
    refine ⟨cell, ?_, ?_, ?_⟩
    · exact releases.total ▸ bound
    · rw [same]
      exact (heapBlockToAddress_congr releases.saddr cell).symm
    · have kept := releases.kept cell (by
        intro chosen member equal
        rw [Set.mem_singleton_iff] at member
        apply fresh
        obtain rfl : cell = block := by omega
        rw [takes.address] at same
        rwa [address, ← same])
      unfold EntryFree
      exact kept ▸ taken
  · intro ptr live outside
    have apart : ptr ≠ str := by
      rintro rfl
      exact fresh live
    exact (Function.update_of_ne apart _ _).trans (extended.files ptr live outside)
  · intro ptr live outside address' inPage
    exact extended.bytes ptr live outside address' inPage

/-- The record that was made for one part of the path. -/
structure NewPart (before after : Kernel) (part : List Byte) (node str : Addr) : Prop where
  fresh : ¬Live before.memory.heap node
  freshBuffer : ¬Live before.memory.heap str
  apart : str ≠ node
  live : Live after.memory.heap node
  file : after.files node = some (.pathPart ⟨str, 0⟩)
  buffer : Buffer after str part
  room : (freeBlocks after.memory.heap).card + 2 = (freeBlocks before.memory.heap).card

theorem pathparserParsePathPart_part (kernel : KernelHeap before.memory.heap)
    (room : 2 ≤ (freeBlocks before.memory.heap).card) (plain : Plain part) (ends : Ends rest)
    (nonempty : part ≠ []) (short : part.length < peachosMaxPath) (last : Addr)
    (linked : last = 0 ∨ Live before.memory.heap last ∧
      ∃ record, before.files last = some (.pathPart record)) :
    ∃ node str after, pathparserParsePathPart last (part ++ rest) before =
        (.ok (node, rest.tail), after) ∧ NewPart before after part node str ∧
      Extends {last} before after ∧
      ∀ record, last ≠ 0 → before.files last = some (.pathPart record) →
        after.files last = some (.pathPart { record with next := node }) := by
  obtain ⟨str, first, got, freshBuffer, buffer, firstExtends, firstRoom⟩ :=
    pathparserGetPathPart_part kernel (by omega) plain ends nonempty short
  have nonnull : str ≠ 0 := buffer.live.nonnull firstExtends.kernel
  obtain ⟨node, second, allocated, allocates⟩ := Kernel.newRecord_page firstExtends.kernel
    8#32 (by decide) (by decide) (by omega) (.pathPart ⟨0, 0⟩)
  have secondExtends := allocates.extends firstExtends.kernel (by decide)
  have fresh := allocates.fresh firstExtends.kernel
  have apart : str ≠ node := by
    rintro rfl
    exact fresh buffer.live
  have written := Kernel.writeRecord_run FileRecord.asPathPart
    (allocates.file (by decide)) rfl (.pathPart ⟨str, 0⟩)
  have thirdExtends := Extends.write secondExtends.kernel node
    (.pathPart ⟨str, 0⟩)
  generalize thirdEq : second.setFiles (Function.update second.files node
    (some (.pathPart ⟨str, 0⟩))) = third at written thirdExtends
  have thirdFile : third.files node = some (.pathPart ⟨str, 0⟩) := by
    rw [← thirdEq]
    exact Function.update_self _ _ _
  have thirdHeap : third.memory = second.memory := by
    rw [← thirdEq]
    rfl
  have freshBefore : ¬Live before.memory.heap node := fun live => fresh (firstExtends.live node live)
  have thirdBuffer : Buffer third str part :=
    (buffer.extends firstExtends.kernel secondExtends (by simp)).extends secondExtends.kernel
      thirdExtends (by simpa using apart)
  have whole : Extends ∅ before third :=
    (firstExtends.trans secondExtends (by simp)).trans thirdExtends (by
      intro ptr member live
      rw [Set.mem_singleton_iff] at member
      exact absurd (member ▸ live) freshBefore)
  have secondRoom := allocates.room
  have new : NewPart before third part node str :=
    ⟨freshBefore, freshBuffer, apart, thirdHeap ▸ allocates.live, thirdFile, thirdBuffer,
      by rw [thirdHeap]; omega⟩
  by_cases null : last = 0
  · refine ⟨node, str, third, ?_, new, whole.widen (by simp), fun _ absurdity => absurd null absurdity⟩
    refine (bind_ok got).trans ((congrFun (if_neg nonnull) _).trans ?_)
    refine (bind_ok allocated).trans ((bind_ok written).trans ?_)
    exact congrFun (if_neg (not_not.mpr null)) _
  · -- the new record is linked to the last one
    obtain ⟨lastLive, record, lastFile⟩ := linked.resolve_left null
    have lastThird : third.files last = some (.pathPart record) :=
      (whole.files last lastLive (by simp)).trans lastFile
    have lastApart : last ≠ node := by
      rintro rfl
      exact freshBefore lastLive
    have lastBuffer : str ≠ last := by
      rintro rfl
      exact freshBuffer lastLive
    have looked : Kernel.record FileRecord.asPathPart last third = (.ok record, third) :=
      Kernel.record_run lastThird rfl
    have relinked := Kernel.writeRecord_run FileRecord.asPathPart lastThird rfl
      (.pathPart { record with next := node })
    have lastExtends := Extends.write whole.kernel last
      (.pathPart { record with next := node })
    generalize fourthEq : third.setFiles (Function.update third.files last
      (some (.pathPart { record with next := node }))) = fourth at relinked lastExtends
    have fourthHeap : fourth.memory = third.memory := by
      rw [← fourthEq]
      rfl
    have nodeFile : fourth.files node = some (.pathPart ⟨str, 0⟩) :=
      (lastExtends.files node new.live (by simpa using lastApart.symm)).trans thirdFile
    have lastFourth : fourth.files last = some (.pathPart { record with next := node }) := by
      rw [← fourthEq]
      exact Function.update_self _ _ _
    have fourthBuffer : Buffer fourth str part :=
      thirdBuffer.extends whole.kernel lastExtends (by simpa using lastBuffer)
    refine ⟨node, str, fourth, ?_, ⟨freshBefore, freshBuffer, apart, fourthHeap ▸ new.live,
      nodeFile, fourthBuffer, fourthHeap ▸ new.room⟩,
      (whole.widen (by simp)).trans lastExtends (fun _ member _ => member), ?_⟩
    · refine (bind_ok got).trans ((congrFun (if_neg nonnull) _).trans ?_)
      refine (bind_ok allocated).trans ((bind_ok written).trans ?_)
      refine (congrFun (if_pos null) _).trans ?_
      exact (bind_ok looked).trans ((bind_ok relinked).trans rfl)
    · intro old _ lookedUp
      rw [lastFile] at lookedUp
      cases lookedUp
      exact lastFourth

end Parts

/-- The records from `ptr` on are one for each part, in order. -/
def PathParts (kernel : Kernel) : Addr → List (List Byte) → Prop
  | ptr, [] => ptr = 0
  | ptr, part :: parts => ∃ record, Live kernel.memory.heap ptr ∧
      kernel.files ptr = some (.pathPart record) ∧ Buffer kernel record.part part ∧
      PathParts kernel record.next parts

/-- The parts with a slash between them, and the trailing slash if there is one. -/
def printParts (trailing : List Byte) : List (List Byte) → List Byte
  | [] => []
  | [part] => part ++ trailing
  | part :: next :: parts => part ++ slash :: printParts trailing (next :: parts)

def printPath (drive : Byte) (parts : List (List Byte)) : List Byte :=
  drive :: 0x3A :: parts.flatMap (fun part => slash :: part)

def Trailing (trailing : List Byte) : Prop := trailing = [] ∨ trailing = [slash]

/-- What ends the list of parts: nothing, a slash at the end, or two slashes. -/
def Stops (trailing : List Byte) : Prop := Ends trailing ∧ Ends trailing.tail

/-- What is left of the path when `parts` are still to come. -/
def leftParts (trailing : List Byte) : List (List Byte) → List Byte
  | [] => trailing.tail
  | part :: parts => printParts trailing (part :: parts)

/-- A part that can be printed and read back. -/
def Proper (part : List Byte) : Prop := part ≠ [] ∧ Plain part

section Printed
variable {trailing : List Byte} {part : List Byte} {parts : List (List Byte)}

theorem Trailing.stops (slashes : Trailing trailing) : Stops trailing := by
  rcases slashes with rfl | rfl
  · exact ⟨Or.inl rfl, Or.inl rfl⟩
  · exact ⟨Or.inr ⟨[], rfl⟩, Or.inl rfl⟩

theorem printParts_cons (stops : Stops trailing) (part : List Byte) (parts : List (List Byte)) :
    ∃ rest, printParts trailing (part :: parts) = part ++ rest ∧ Ends rest ∧
      rest.tail = leftParts trailing parts := by
  cases parts with
  | nil => exact ⟨trailing, rfl, stops.1, rfl⟩
  | cons next parts => exact ⟨slash :: printParts trailing (next :: parts), rfl, Or.inr ⟨_, rfl⟩, rfl⟩

theorem printPath_eq (drive : Byte) (trailing : List Byte) (nonempty : parts ≠ []) :
    printPath drive parts ++ trailing = drive :: 0x3A :: slash :: printParts trailing parts := by
  have slashed : parts.flatMap (fun part => slash :: part) ++ trailing =
      slash :: printParts trailing parts := by
    induction parts with
    | nil => exact absurd rfl nonempty
    | cons part parts ih =>
      cases parts with
      | nil => simp [printParts]
      | cons next parts =>
        have later := ih (List.cons_ne_nil _ _)
        rw [List.flatMap_cons, List.append_assoc, later]
        rfl
  unfold printPath
  rw [List.cons_append, List.cons_append, slashed]

theorem printParts_length (trailing : List Byte) (proper : ∀ part ∈ parts, Proper part) :
    parts.length ≤ (printParts trailing parts).length := by
  induction parts with
  | nil => exact le_rfl
  | cons part parts ih =>
    have positive := List.length_pos_of_ne_nil (proper part (List.mem_cons_self ..)).1
    have later := ih (fun other member => proper other (List.mem_cons_of_mem _ member))
    cases parts with
    | nil =>
      simp only [printParts, List.length_append, List.length_cons, List.length_nil]
      omega
    | cons next parts =>
      simp only [printParts, List.length_append, List.length_cons] at later ⊢
      omega

theorem leftParts_length (trailing : List Byte) (proper : ∀ part ∈ parts, Proper part) :
    parts.length ≤ (leftParts trailing parts).length := by
  cases parts with
  | nil => exact Nat.zero_le _
  | cons part parts => exact printParts_length trailing proper

end Printed

section Loop
variable {before after : Kernel} {parts : List (List Byte)} {trailing : List Byte}

theorem pathparserParsePathPart_end (last : Addr) (kernel : KernelHeap before.memory.heap)
    (room : 0 < (freeBlocks before.memory.heap).card) {rest : List Byte} (ends : Ends rest) :
    ∃ after, pathparserParsePathPart last rest before = (.ok (0, rest.tail), after) ∧
      Extends ∅ before after ∧
      (freeBlocks after.memory.heap).card = (freeBlocks before.memory.heap).card := by
  obtain ⟨after, got, extended, same⟩ := pathparserGetPathPart_end kernel room ends
  exact ⟨after, (bind_ok got).trans rfl, extended, same⟩

/-- The loop from a last record on appends one record for each part that is left. -/
theorem pathparserParseLoop_parts (stops : Stops trailing) (fuel : Nat) (node str : Addr)
    (kernel : KernelHeap before.memory.heap)
    (room : 2 * parts.length + 1 ≤ (freeBlocks before.memory.heap).card)
    (enough : parts.length + 2 ≤ fuel) (proper : ∀ part ∈ parts, Proper part)
    (short : (leftParts trailing parts).length < peachosMaxPath)
    (live : Live before.memory.heap node) (file : before.files node = some (.pathPart ⟨str, 0⟩)) :
    ∃ next after, pathparserParseLoop fuel node (leftParts trailing parts) before = (.ok (), after) ∧
      after.files node = some (.pathPart ⟨str, next⟩) ∧ PathParts after next parts ∧
      Extends {node} before after ∧ (freeBlocks after.memory.heap).card + 2 * parts.length =
        (freeBlocks before.memory.heap).card := by
  induction parts generalizing fuel node str before with
  | nil =>
    obtain ⟨fuel, rfl⟩ : ∃ more, fuel = more + 2 := ⟨fuel - 2, by simp at enough; omega⟩
    obtain ⟨after, parsed, extended, same⟩ :=
      pathparserParsePathPart_end node kernel (by omega) stops.2
    refine ⟨0, after, ?_, (extended.files node live (by simp)).trans file, rfl,
      extended.widen (by simp), same⟩
    refine (congrFun (if_neg (live.nonnull kernel)) _).trans ?_
    exact (bind_ok parsed).trans rfl
  | cons part parts ih =>
    rw [List.length_cons] at room enough
    obtain ⟨fuel, rfl⟩ : ∃ more, fuel = more + 1 := ⟨fuel - 1, by omega⟩
    obtain ⟨rest, printed, ends, remaining⟩ := printParts_cons stops part parts
    obtain ⟨nonempty, plain⟩ := proper part (List.mem_cons_self ..)
    rw [leftParts, printed, List.length_append] at short
    obtain ⟨newNode, newStr, middle, parsed, new, extended, linked⟩ :=
      pathparserParsePathPart_part kernel (by omega) plain ends nonempty (by omega) node
        (Or.inr ⟨live, _, file⟩)
    have relinked := linked _ (live.nonnull kernel) file
    have newRoom := new.room
    have tailShort : rest.tail.length ≤ rest.length := by
      rw [List.length_tail]
      exact Nat.sub_le _ _
    obtain ⟨next, after, looped, newFile, tail, later, laterRoom⟩ := ih fuel newNode newStr extended.kernel
      (by omega) (by omega) (fun other member => proper other (List.mem_cons_of_mem _ member))
      (by rw [← remaining]; omega) new.live new.file
    have apart : node ≠ newNode := by
      rintro rfl
      exact new.fresh live
    refine ⟨newNode, after, ?_, ?_, ⟨_, later.live _ new.live, newFile,
      new.buffer.extends extended.kernel later (by simpa using new.apart), tail⟩,
      extended.trans later ?_, by rw [List.length_cons]; omega⟩
    · refine (congrFun (if_neg (live.nonnull kernel)) _).trans ?_
      rw [leftParts, printed]
      refine (bind_ok parsed).trans ?_
      rw [← remaining] at looped
      exact looped
    · exact (later.files node (extended.live node live) (by simpa using apart)).trans relinked
    · intro ptr member alive
      rw [Set.mem_singleton_iff] at member
      exact absurd (member ▸ alive) new.fresh

theorem pathparserCreateRoot_run (kernel : KernelHeap before.memory.heap)
    (room : 0 < (freeBlocks before.memory.heap).card) (driveNumber : Int) :
    ∃ root after, pathparserCreateRoot driveNumber before = (.ok root, after) ∧
      Extends ∅ before after ∧ ¬Live before.memory.heap root ∧ Live after.memory.heap root ∧
      after.files root = some (.pathRoot ⟨driveNumber, 0⟩) ∧
      (freeBlocks after.memory.heap).card + 1 = (freeBlocks before.memory.heap).card := by
  obtain ⟨root, middle, allocated, allocates⟩ := Kernel.newRecord_page kernel 8#32
    (by decide) (by decide) room (.pathRoot ⟨0, 0⟩)
  have written := Kernel.writeRecord_run FileRecord.asPathRoot
    (allocates.file (by decide)) rfl (.pathRoot ⟨driveNumber, 0⟩)
  have extended := allocates.extends kernel (by decide)
  have whole := extended.trans (Extends.write extended.kernel root (.pathRoot ⟨driveNumber, 0⟩))
    (fun ptr member live => absurd ((Set.mem_singleton_iff.mp member) ▸ live) (allocates.fresh kernel))
  exact ⟨root, _, (bind_ok allocated).trans ((bind_ok written).trans rfl), whole,
    allocates.fresh kernel, allocates.live, Function.update_self _ _ _, allocates.room⟩

theorem pathparserParse_valid (stops : Stops trailing) {path : List Byte} {part : List Byte}
    (kernel : KernelHeap before.memory.heap)
    (room : 2 * parts.length + 4 ≤ (freeBlocks before.memory.heap).card)
    (proper : ∀ each ∈ part :: parts, Proper each)
    (fits : strlen path ≤ peachosMaxPath) (valid : pathparserPathValidFormat path = true)
    (rest : path.drop 3 = printParts trailing (part :: parts))
    (short : (printParts trailing (part :: parts)).length < peachosMaxPath) :
    ∃ root after first, pathparserParse path before = (.ok root, after) ∧
      after.files root = some (.pathRoot ⟨tonumericdigit (path.getD 0 0), first⟩) ∧
      PathParts after first (part :: parts) ∧ Live after.memory.heap root ∧
      Extends ∅ before after ∧ (freeBlocks after.memory.heap).card + (2 * parts.length + 3) =
        (freeBlocks before.memory.heap).card := by
  obtain ⟨ending, printed, ends, remaining⟩ := printParts_cons stops part parts
  obtain ⟨nonempty, plain⟩ := proper part (List.mem_cons_self ..)
  rw [printed, List.length_append] at short
  have tailShort : ending.tail.length ≤ ending.length := by
    rw [List.length_tail]
    exact Nat.sub_le _ _
  have drive : pathparserGetDriveByPath path =
      (tonumericdigit (path.getD 0 0), printParts trailing (part :: parts)) := by
    unfold pathparserGetDriveByPath
    rw [valid, rest]
    rfl
  have notNegative : ¬tonumericdigit (path.getD 0 0) < 0 := by
    unfold pathparserPathValidFormat isdigit at valid
    simp only [Bool.and_eq_true, decide_eq_true_eq] at valid
    have := valid.1.2.1
    unfold tonumericdigit
    omega
  generalize number : tonumericdigit (path.getD 0 0) = driveNumber at *
  obtain ⟨root, first, created, rootExtends, rootFresh, rootLive, rootFile, firstRoom⟩ :=
    pathparserCreateRoot_run kernel (by omega) driveNumber
  have firstKernel := rootExtends.kernel
  obtain ⟨node, str, second, parsed, new, extended, _⟩ :=
    pathparserParsePathPart_part firstKernel (by omega) plain ends nonempty (by omega) 0
      (Or.inl rfl)
  have rootNonnull := rootLive.nonnull firstKernel
  have nodeApart : root ≠ node := by
    rintro rfl
    exact new.fresh rootLive
  have strApart : root ≠ str := by
    rintro rfl
    exact new.freshBuffer rootLive
  have rootSecond : second.files root = some (.pathRoot ⟨driveNumber, 0⟩) :=
    (extended.files root rootLive (by simpa using rootNonnull)).trans rootFile
  have looked : Kernel.record FileRecord.asPathRoot root second = (.ok ⟨driveNumber, 0⟩, second) :=
    Kernel.record_run rootSecond rfl
  have entered := Kernel.writeRecord_run FileRecord.asPathRoot rootSecond rfl
    (.pathRoot ⟨driveNumber, node⟩)
  have enteredExtends := Extends.write extended.kernel root
    (.pathRoot ⟨driveNumber, node⟩)
  generalize thirdEq : second.setFiles (Function.update second.files root
    (some (.pathRoot ⟨driveNumber, node⟩))) = third at entered enteredExtends
  have thirdHeap : third.memory = second.memory := by
    rw [← thirdEq]
    rfl
  have rootThird : third.files root = some (.pathRoot ⟨driveNumber, node⟩) := by
    rw [← thirdEq]
    exact Function.update_self _ _ _
  have nodeThird : third.files node = some (.pathPart ⟨str, 0⟩) :=
    (enteredExtends.files node new.live (by simpa using nodeApart.symm)).trans new.file
  have bufferThird : Buffer third str part :=
    new.buffer.extends extended.kernel enteredExtends (by simpa using strApart.symm)
  have secondRoom := new.room
  have properRest : ∀ each ∈ parts, Proper each :=
    fun each member => proper each (List.mem_cons_of_mem _ member)
  have count := leftParts_length trailing properRest
  obtain ⟨next, after, looped, nodeAfter, tail, later, laterRoom⟩ := pathparserParseLoop_parts stops
    ((leftParts trailing parts).length + 2) node str enteredExtends.kernel
    (by rw [thirdHeap]; omega) (by omega) properRest (by rw [← remaining]; omega)
    (thirdHeap ▸ new.live) nodeThird
  have rootLiveThird : Live third.memory.heap root := enteredExtends.live root (extended.live root rootLive)
  have nodeFresh : ¬Live before.memory.heap node :=
    fun live => new.fresh (rootExtends.live node live)
  have whole : Extends ∅ before after := by
    have upToPart : Extends ∅ before second := rootExtends.trans extended (by
      intro ptr member live
      rw [Set.mem_singleton_iff] at member
      exact absurd member (live.nonnull kernel))
    have upToEntry : Extends ∅ before third := upToPart.trans enteredExtends (by
      intro ptr member live
      exact absurd ((Set.mem_singleton_iff.mp member) ▸ live) rootFresh)
    apply upToEntry.trans later
    intro ptr member live
    exact absurd ((Set.mem_singleton_iff.mp member) ▸ live) nodeFresh
  refine ⟨root, after, node, ?_, (later.files root rootLiveThird (by simpa using nodeApart)).trans
    rootThird, ⟨_, later.live node (thirdHeap ▸ new.live), nodeAfter,
    bufferThird.extends enteredExtends.kernel later (by simpa using new.apart), tail⟩,
    later.live root rootLiveThird, whole, ?_⟩
  rotate_left
  · rw [thirdHeap] at laterRoom
    omega
  unfold pathparserParse
  rw [if_neg (by omega), drive]
  dsimp only
  rw [if_neg notNegative]
  refine (bind_ok created).trans ((congrFun (if_neg rootNonnull) _).trans ?_)
  rw [printed]
  refine (bind_ok parsed).trans ((congrFun (if_neg (new.live.nonnull extended.kernel)) _).trans ?_)
  refine (bind_ok looked).trans ((bind_ok entered).trans ?_)
  -- the second part and the loop after it are the loop from the first part on
  rw [remaining]
  have unrolled := looped
  rw [pathparserParseLoop, if_neg (new.live.nonnull extended.kernel)] at unrolled
  obtain ⟨⟨second', left⟩, fourth, secondParsed, rounds⟩ := bind_eq_ok unrolled
  exact (bind_ok secondParsed).trans ((bind_ok rounds).trans rfl)

end Loop

/-- Parsing undoes printing: every part comes back whole, in order and terminated. -/
theorem pathparserParse_printPath {before : Kernel} (kernel : KernelHeap before.memory.heap)
    {drive : Byte} (digit : isdigit drive = true) {parts : List (List Byte)} (nonempty : parts ≠ [])
    (proper : ∀ part ∈ parts, Proper part) {trailing : List Byte} (slashes : Trailing trailing)
    (short : (printPath drive parts ++ trailing).length ≤ peachosMaxPath)
    (room : 2 * parts.length + 2 ≤ (freeBlocks before.memory.heap).card) :
    ∃ root after first, pathparserParse (printPath drive parts ++ trailing) before = (.ok root, after) ∧
      after.files root = some (.pathRoot ⟨tonumericdigit drive, first⟩) ∧
      PathParts after first parts := by
  have fits := (strlen_le (printPath drive parts ++ trailing)).trans short
  rw [printPath_eq drive trailing nonempty] at short fits ⊢
  cases parts with
  | nil => exact absurd rfl nonempty
  | cons part parts =>
    rw [List.length_cons] at room
    have valid : pathparserPathValidFormat
        (drive :: 0x3A :: slash :: printParts trailing (part :: parts)) = true := by
      have nonzero : drive ≠ 0 := by
        rintro rfl
        exact absurd digit (by decide)
      have three : strnlen (drive :: 0x3A :: slash :: printParts trailing (part :: parts)) 3 = 3 :=
        strnlen_of_nonzero (by simp) (by simpa using nonzero)
      have long := strnlen_mono (drive :: 0x3A :: slash :: printParts trailing (part :: parts))
        (show 3 ≤ peachosMaxPath by decide)
      unfold pathparserPathValidFormat
      simp only [Bool.and_eq_true, decide_eq_true_eq, beq_iff_eq]
      exact ⟨⟨by omega, digit⟩, rfl, rfl⟩
    simp only [List.length_cons] at short
    obtain ⟨root, after, first, parsed, file, holds, _⟩ :=
      pathparserParse_valid slashes.stops kernel (by omega) proper fits valid rfl (by omega)
    exact ⟨root, after, first, parsed, file, holds⟩

/-- `0:/bin/sh/` on a fresh heap. -/
theorem pathparserParse_printPath_boot :
    ∃ root after first, pathparserParse
        (printPath 0x30 [[0x62, 0x69, 0x6e], [0x73, 0x68]] ++ [slash]) bootKernel =
          (.ok root, after) ∧
      after.files root = some (.pathRoot ⟨0, first⟩) ∧
      PathParts after first [[0x62, 0x69, 0x6e], [0x73, 0x68]] := by
  have room : 2 * 2 + 2 ≤ (freeBlocks bootKernel.memory.heap).card := by
    rw [show (freeBlocks bootKernel.memory.heap).card = 25600 from bootMemory_kernel.2]
    decide
  exact pathparserParse_printPath bootMemory_kernel.1 (by decide) (by decide)
    (by unfold Proper Plain; decide) (Or.inr rfl) (by decide) room

end PeachOS
