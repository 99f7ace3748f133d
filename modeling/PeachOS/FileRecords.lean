import PeachOS.HeapSound

/-! The records of the file layer. Each lies at the start of its own heap block; an access
through a pointer at which no record of the right kind lies has no behaviour. -/

namespace PeachOS
open Program ByteMemory BlockPool

def FileRecord.asPathRoot : FileRecord → Option PathRoot
  | .pathRoot root => some root
  | _ => none

def FileRecord.asPathPart : FileRecord → Option PathPart
  | .pathPart part => some part
  | _ => none

def FileRecord.asPathString : FileRecord → Option Unit
  | .pathString => some ()
  | _ => none

def FileRecord.asFatItem : FileRecord → Option FatItem
  | .fatItem item => some item
  | _ => none

def FileRecord.asFatDirectory : FileRecord → Option FatDirectory
  | .fatDirectory directory => some directory
  | _ => none

def FileRecord.asFatDirectoryItem : FileRecord → Option FatDirectoryItem
  | .fatDirectoryItem item => some item
  | _ => none

def FileRecord.asFatDirectoryTable : FileRecord → Option Unit
  | .fatDirectoryTable => some ()
  | _ => none

def FileRecord.asFatFileDescriptor : FileRecord → Option FatFileDescriptor
  | .fatFileDescriptor descriptor => some descriptor
  | _ => none

def FileRecord.asFileDescriptor : FileRecord → Option FileDescriptor
  | .fileDescriptor descriptor => some descriptor
  | _ => none

def Kernel.setFiles (kernel : Kernel) (files : Addr → Option FileRecord) : Kernel :=
  { kernel with files := files }

@[simp] theorem Kernel.setFiles_memory (kernel : Kernel) (files : Addr → Option FileRecord) :
    (kernel.setFiles files).memory = kernel.memory := rfl

@[simp] theorem Kernel.setFiles_files (kernel : Kernel) (files : Addr → Option FileRecord) :
    (kernel.setFiles files).files = files := rfl

@[simp] theorem Kernel.setFiles_fileDescriptors (kernel : Kernel)
    (files : Addr → Option FileRecord) :
    (kernel.setFiles files).fileDescriptors = kernel.fileDescriptors := rfl

@[simp] theorem Kernel.setMemory_files (kernel : Kernel) (memory : Memory) :
    (kernel.setMemory memory).files = kernel.files := rfl

@[simp] theorem Kernel.setMemory_fileDescriptors (kernel : Kernel) (memory : Memory) :
    (kernel.setMemory memory).fileDescriptors = kernel.fileDescriptors := rfl

/-- The records after the `size` bytes from `ptr` were zero-filled for a new record. -/
def placeRecord (files : Addr → Option FileRecord) (ptr : Addr) (size : Word)
    (record : FileRecord) : Addr → Option FileRecord := fun other =>
  if (other - ptr).toNat < size.toNat then if other = ptr then some record else none
  else files other

/-- `kzalloc` for a record, whose fields are zero. -/
def Kernel.newRecord (size : Word) (record : FileRecord) : KernelProg Addr := do
  let ptr ← Kernel.kzalloc size
  if ptr = 0 then pure 0
  else
    update (fun kernel => kernel.setFiles (placeRecord kernel.files ptr size record))
    pure ptr

section Access
variable {α : Type}

/-- The record behind a pointer to one kind of record. -/
def Kernel.record (select : FileRecord → Option α) (ptr : Addr) : KernelProg α := fun kernel =>
  match (kernel.files ptr).bind select with
  | none => (.error .fault, kernel)
  | some record => (.ok record, kernel)

def Kernel.writeRecord (select : FileRecord → Option α) (ptr : Addr) (record : FileRecord) :
    KernelProg Unit := do
  let _ ← Kernel.record select ptr
  update (fun kernel => kernel.setFiles (Function.update kernel.files ptr (some record)))

/-- `kfree` of a null pointer, of a record, or of a pointer to no bytes at all, whose block
was never marked. Freeing a block of something else has no behaviour. -/
def Kernel.freeRecord (select : FileRecord → Option α) (ptr : Addr) : KernelProg Unit := do
  if ptr = 0 then Kernel.kfree 0
  else
    let kernel ← read id
    match kernel.files ptr with
    | some record =>
        match select record with
        | none => fault
        | some _ =>
            update (fun kernel => kernel.setFiles (Function.update kernel.files ptr none))
            Kernel.kfree ptr
    | none =>
        let block := heapAddressToBlock kernel.memory.heap ptr
        if 0 ≤ block ∧ block < kernel.memory.heap.table.total ∧
            heapGetEntryType (kernel.memory.heap.table.entries block) = heapBlockTableEntryFree then
          Kernel.kfree ptr
        else fault

end Access

section Runs
variable {α : Type} {select : FileRecord → Option α} {before after : Kernel} {ptr : Addr}

theorem Kernel.record_ok {value : α} (run : Kernel.record select ptr before = (.ok value, after)) :
    after = before ∧ ∃ record, before.files ptr = some record ∧ select record = some value := by
  unfold Kernel.record at run
  split at run
  · cases run
  next found =>
    cases run
    exact ⟨rfl, Option.bind_eq_some_iff.mp found⟩

theorem Kernel.record_run {value : α} {record : FileRecord} (here : before.files ptr = some record)
    (selected : select record = some value) :
    Kernel.record select ptr before = (.ok value, before) := by
  unfold Kernel.record
  rw [here, Option.bind_some, selected]

theorem Kernel.kzalloc_marks {size : Word} (kernel : KernelHeap before.memory.heap)
    (run : Kernel.kzalloc size before = (.ok ptr, after)) :
    (ptr = 0 ∧ after = before) ∨
      ∃ start : Nat, ptr = heapBlockToAddress before.memory.heap start ∧ ptr ≠ 0 ∧
        ptr.toNat + size.toNat ≤ 2 ^ 32 ∧
        Marks before.memory.heap after.memory.heap start (mallocBlocks size) ∧
        after = before.setMemory ⟨after.memory.heap, fill before.memory.bytes ptr size.toNat 0⟩ := by
  rcases heapMalloc_marks before.memory.heap size with null | ⟨start, address, marks⟩
  · left
    have unchanged : PeachOS.kzalloc size before.memory = (0, before.memory) := by
      unfold PeachOS.kzalloc kmalloc
      rw [null]
      rfl
    unfold Kernel.kzalloc at run
    rw [unchanged] at run
    simp only [ne_eq, not_true_eq_false, false_and, if_false] at run
    cases run
    exact ⟨rfl, rfl⟩
  · right
    have nonnull := kernel.nonnull marks.bound
    have allocated : PeachOS.kzalloc size before.memory = _ :=
      kzalloc_eq (Prod.ext address rfl) nonnull
    unfold Kernel.kzalloc at run
    rw [allocated] at run
    dsimp only at run
    split at run
    · cases run
    next inside =>
      cases run
      refine ⟨start, rfl, nonnull, ?_, marks, rfl⟩
      by_contra wraps
      exact inside ⟨nonnull, by omega⟩

theorem Kernel.newRecord_ok {size : Word} {record : FileRecord}
    (kernel : KernelHeap before.memory.heap)
    (run : Kernel.newRecord size record before = (.ok ptr, after)) :
    (ptr = 0 ∧ after = before) ∨
      ∃ start : Nat, ptr = heapBlockToAddress before.memory.heap start ∧ ptr ≠ 0 ∧
        ptr.toNat + size.toNat ≤ 2 ^ 32 ∧
        Marks before.memory.heap after.memory.heap start (mallocBlocks size) ∧
        after = (before.setMemory
          ⟨after.memory.heap, fill before.memory.bytes ptr size.toNat 0⟩).setFiles
            (placeRecord before.files ptr size record) := by
  obtain ⟨found, middle, allocated, rest⟩ := bind_eq_ok run
  rcases Kernel.kzalloc_marks kernel allocated with ⟨rfl, rfl⟩ | ⟨start, address, nonnull, short, marks, same⟩
  · rw [if_pos rfl] at rest
    cases rest
    exact Or.inl ⟨rfl, rfl⟩
  · rw [if_neg nonnull] at rest
    cases rest
    right
    refine ⟨start, address, nonnull, short, marks, ?_⟩
    rw [same]
    rfl

theorem Kernel.kzalloc_disk {size : Word} {ptr : Addr}
    (run : Kernel.kzalloc size before = (.ok ptr, after)) : after.disk = before.disk := by
  unfold Kernel.kzalloc at run
  dsimp only at run
  split at run
  · cases run
  · cases run
    rfl

theorem Kernel.newRecord_disk {size : Word} {record : FileRecord} {ptr : Addr}
    (run : Kernel.newRecord size record before = (.ok ptr, after)) : after.disk = before.disk := by
  obtain ⟨found, middle, allocated, rest⟩ := bind_eq_ok run
  have same := Kernel.kzalloc_disk allocated
  split at rest
  · cases rest
    exact same
  · cases rest
    exact same

theorem Kernel.writeRecord_ok {record : FileRecord}
    (run : Kernel.writeRecord select ptr record before = (.ok (), after)) :
    after = before.setFiles (Function.update before.files ptr (some record)) ∧
      ∃ old value, before.files ptr = some old ∧ select old = some value := by
  obtain ⟨value, middle, looked, rest⟩ := bind_eq_ok run
  obtain ⟨rfl, old, here, selected⟩ := Kernel.record_ok looked
  cases rest
  exact ⟨rfl, old, value, here, selected⟩

theorem Kernel.freeRecord_run (select : FileRecord → Option α) {value : α} {record : FileRecord}
    (here : before.files ptr = some record) (selected : select record = some value) :
    ∃ after, Kernel.freeRecord select ptr before = (.ok (), after) ∧
      ∀ other ≠ ptr, after.files other = before.files other := by
  unfold Kernel.freeRecord
  by_cases null : ptr = 0
  · rw [if_pos null]
    exact ⟨_, rfl, fun _ _ => rfl⟩
  · rw [if_neg null, read_bind]
    show ∃ after, (match before.files ptr with | some record => _ | none => _ : KernelProg Unit) before =
      (.ok (), after) ∧ _
    rw [here]
    dsimp only
    rw [selected]
    exact ⟨_, rfl, fun other different => Function.update_of_ne different _ _⟩

theorem Kernel.freeRecord_ok (run : Kernel.freeRecord select ptr before = (.ok (), after)) :
    (ptr = 0 ∧ after = before.setMemory (PeachOS.kfree 0 before.memory)) ∨
    (∃ record value, before.files ptr = some record ∧ select record = some value ∧
      after = (before.setFiles (Function.update before.files ptr none)).setMemory
        (PeachOS.kfree ptr before.memory)) ∨
    (before.files ptr = none ∧ after = before.setMemory (PeachOS.kfree ptr before.memory) ∧
      ∃ block : Nat, heapAddressToBlock before.memory.heap ptr = block ∧
        block < before.memory.heap.table.total ∧
        EntryFree before.memory.heap.table.entries block) := by
  unfold Kernel.freeRecord at run
  split at run
  next null =>
    cases run
    exact Or.inl ⟨null, rfl⟩
  next =>
    rw [read_bind] at run
    cases here : before.files ptr with
    | some record =>
      cases selected : select record with
      | none =>
        simp only [id_eq, here, selected] at run
        cases run
      | some value =>
        simp only [id_eq, here, selected] at run
        cases run
        exact Or.inr (Or.inl ⟨record, value, rfl, selected, rfl⟩)
    | none =>
      simp only [id_eq, here] at run
      split at run
      next free =>
        cases run
        obtain ⟨low, high, entry⟩ := free
        refine Or.inr (Or.inr ⟨rfl, rfl,
          (heapAddressToBlock before.memory.heap ptr).toNat, by omega, by omega, ?_⟩)
        unfold EntryFree
        rw [Int.toNat_of_nonneg low]
        exact entry
      · cases run

end Runs

/-- The records lie where no chain goes on into them. Those of `guarded` are in taken
blocks and are of the kind that `kind` says; the table of descriptors is one of `tables`. -/
structure Guards (guarded : Set Addr) (kind : Addr → FileRecord → Prop)
    (tables : Set (Nat → Addr)) (kernel : Kernel) : Prop where
  sound : Sound kernel.memory.heap
  recorded : ∀ ptr record, kernel.files ptr = some record →
    ∃ block : Nat, ptr = heapBlockToAddress kernel.memory.heap block ∧
      Clean kernel.memory.heap block
  held : ∀ ptr ∈ guarded, ∃ block : Nat, ptr = heapBlockToAddress kernel.memory.heap block ∧
    Held kernel.memory.heap block
  kept : ∀ ptr ∈ guarded, ∃ record, kernel.files ptr = some record ∧ kind ptr record
  table : kernel.fileDescriptors ∈ tables

theorem placed_inside {heap : Heap} (kernel : KernelHeap heap) {start block : Nat} {size : Word}
    (startBound : start < heap.table.total) (bound : block < heap.table.total)
    (short : (heapBlockToAddress heap start).toNat + size.toNat ≤ 2 ^ 32)
    (filled : (heapBlockToAddress heap block - heapBlockToAddress heap start).toNat < size.toNat) :
    start ≤ block ∧ (block : Int) < start + (mallocBlocks size : Nat) := by
  have startAt := kernel.address_toNat startBound
  have blockAt := kernel.address_toNat bound
  have total := kernel.blocks
  rw [BitVec.toNat_sub] at filled
  unfold mallocBlocks blocksFor heapBlockSize
  split <;> omega

section Guards
variable {α : Type} {guarded : Set Addr} {kind : Addr → FileRecord → Prop} {tables : Set (Nat → Addr)}
  {before after : Kernel} {ptr : Addr}

theorem Guards.marks {size : Word} {record : FileRecord} {start : Nat} {memory : Memory}
    (guards : Guards guarded kind tables before)
    (address : ptr = heapBlockToAddress before.memory.heap start)
    (short : ptr.toNat + size.toNat ≤ 2 ^ 32)
    (marks : Marks before.memory.heap memory.heap start (mallocBlocks size)) :
    Guards guarded kind tables
      ((before.setMemory memory).setFiles (placeRecord before.files ptr size record)) := by
  have total := guards.sound.kernel.blocks
  have same := heapBlockToAddress_congr marks.saddr
  subst address
  refine ⟨marks.sound guards.sound, ?_, ?_, ?_, guards.table⟩
  · intro other found here
    simp only [Kernel.setFiles_files, placeRecord] at here
    simp only [Kernel.setFiles_memory, Kernel.setMemory_memory, same]
    split at here
    next filled =>
      split at here
      next first =>
        -- the new record itself
        refine ⟨start, first, marks.clean ?_ (Or.inl le_rfl)⟩
        exact guards.sound.clean_of_free marks.bound marks.startFree
      · cases here
    next outside =>
      obtain ⟨block, rfl, clean⟩ := guards.recorded other found here
      refine ⟨block, rfl, marks.clean clean ?_⟩
      -- a block inside the new chain would have been filled
      by_contra inside
      apply outside
      have startAt := guards.sound.kernel.address_toNat marks.bound
      have blockAt := guards.sound.kernel.address_toNat clean.bound
      have within : block - start < mallocBlocks size := by omega
      have covered := mallocBlocks_covered size within
      rw [BitVec.toNat_sub]
      have := clean.bound
      omega
  · intro other member
    obtain ⟨block, rfl, held⟩ := guards.held other member
    simp only [Kernel.setFiles_memory, Kernel.setMemory_memory, same]
    exact ⟨block, rfl, marks.held held⟩
  · intro other member
    obtain ⟨block, rfl, held⟩ := guards.held other member
    obtain ⟨found, here, isKind⟩ := guards.kept _ member
    refine ⟨found, ?_, isKind⟩
    simp only [Kernel.setFiles_files, placeRecord]
    rw [if_neg, here]
    intro filled
    have inside := placed_inside guards.sound.kernel marks.bound held.clean.bound short filled
    have := marks.apart held.clean.bound held.taken
    omega

theorem Guards.newRecord (size : Word) (record : FileRecord) :
    Preserves (Guards guarded kind tables) (Kernel.newRecord size record) := by
  intro before ptr after guards run
  rcases Kernel.newRecord_ok guards.sound.kernel run with
    ⟨_, rfl⟩ | ⟨start, address, _, short, marks, same⟩
  · exact guards
  · rw [same]
    exact guards.marks address short marks

theorem Guards.record (select : FileRecord → Option α) (ptr : Addr) :
    Preserves (Guards guarded kind tables) (Kernel.record select ptr) := by
  intro before value after guards run
  rw [(Kernel.record_ok run).1]
  exact guards

theorem Guards.wrote {select : FileRecord → Option α} {record : FileRecord}
    (guards : Guards guarded kind tables before)
    (fits : ∀ old value, before.files ptr = some old → select old = some value →
      ptr ∈ guarded → kind ptr record)
    (run : Kernel.writeRecord select ptr record before = (.ok (), after)) :
    Guards guarded kind tables after := by
  obtain ⟨rfl, old, value, here, selected⟩ := Kernel.writeRecord_ok run
  refine ⟨guards.sound, ?_, guards.held, ?_, guards.table⟩
  · intro target found place
    simp only [Kernel.setFiles_files] at place
    by_cases same : target = ptr
    · subst same
      exact guards.recorded target old here
    · rw [Function.update_of_ne same] at place
      exact guards.recorded target found place
  · intro target member
    by_cases same : target = ptr
    · subst same
      exact ⟨record, Function.update_self _ _ _, fits old value here selected member⟩
    · obtain ⟨found, place, isKind⟩ := guards.kept target member
      exact ⟨found, (Function.update_of_ne same _ _).trans place, isKind⟩

theorem Guards.writeRecord {select : FileRecord → Option α} {record : FileRecord}
    (other : ∀ ptr record, kind ptr record → select record = none) :
    Preserves (Guards guarded kind tables) (Kernel.writeRecord select ptr record) := by
  intro before _ after guards run
  apply guards.wrote _ run
  intro old value here selected member
  obtain ⟨found, place, isKind⟩ := guards.kept ptr member
  rw [here] at place
  cases place
  rw [other ptr _ isKind] at selected
  cases selected

theorem Guards.frees {memory : Memory} {files : Addr → Option FileRecord}
    (guards : Guards guarded kind tables before) (sound : Sound memory.heap)
    (saddr : memory.heap.saddr = before.memory.heap.saddr)
    (clean : ∀ block, Clean before.memory.heap block → Clean memory.heap block)
    (held : ∀ block, heapBlockToAddress before.memory.heap (block : Nat) ∈ guarded →
      Held before.memory.heap block → Held memory.heap block)
    (fewer : ∀ ptr record, files ptr = some record → before.files ptr = some record)
    (kept : ∀ ptr ∈ guarded, files ptr = before.files ptr) :
    Guards guarded kind tables ((before.setFiles files).setMemory memory) := by
  have same := heapBlockToAddress_congr saddr
  refine ⟨sound, ?_, ?_, ?_, guards.table⟩
  · intro ptr record here
    obtain ⟨block, rfl, isClean⟩ := guards.recorded ptr record (fewer ptr record here)
    exact ⟨block, (same block).symm, clean block isClean⟩
  · intro ptr member
    obtain ⟨block, rfl, isHeld⟩ := guards.held ptr member
    exact ⟨block, (same block).symm, held block member isHeld⟩
  · intro ptr member
    obtain ⟨record, here, isKind⟩ := guards.kept ptr member
    refine ⟨record, ?_, isKind⟩
    exact (kept ptr member).trans here

theorem Guards.freed {select : FileRecord → Option α} (guards : Guards guarded kind tables before)
    (apart : ∀ record value, before.files ptr = some record → select record = some value →
      ptr ∉ guarded)
    (run : Kernel.freeRecord select ptr before = (.ok (), after)) :
    Guards guarded kind tables after := by
  rcases Kernel.freeRecord_ok run with
    ⟨rfl, rfl⟩ | ⟨record, value, here, selected, rfl⟩ | ⟨_, rfl, block, leads, bound, free⟩
  · have frees := guards.sound.heapFree_null
    exact guards.frees (frees.sound_below guards.sound) frees.saddr (fun _ => frees.clean)
      (fun _ _ => frees.held_below guards.sound) (fun _ _ => id) (fun _ _ => rfl)
  · obtain ⟨block, rfl, clean⟩ := guards.recorded ptr record here
    have frees := guards.sound.heapFree_block clean.bound
    have outside := apart record value here selected
    have sound : Sound (PeachOS.kfree (heapBlockToAddress before.memory.heap block)
        before.memory).heap := frees.sound guards.sound clean
    apply guards.frees sound frees.saddr (fun _ => frees.clean)
    · intro otherBlock member held
      apply frees.held held
      rintro rfl
      exact outside member
    · intro target found place
      by_cases same : target = heapBlockToAddress before.memory.heap block
      · rw [same, Function.update_self] at place
        cases place
      · rwa [Function.update_of_ne same] at place
    · intro target member
      apply Function.update_of_ne
      rintro rfl
      exact outside member
  · have clean := guards.sound.clean_of_free bound free
    have frees : Frees before.memory.heap (PeachOS.kfree ptr before.memory).heap block := heapFree_frees leads
    apply guards.frees (frees.sound guards.sound clean) frees.saddr (fun _ => frees.clean) _
      (fun _ _ => id) (fun _ _ => rfl)
    intro otherBlock _ held
    apply frees.held held
    rintro rfl
    exact held.taken free

theorem Guards.freeRecord {select : FileRecord → Option α}
    (other : ∀ ptr record, kind ptr record → select record = none) :
    Preserves (Guards guarded kind tables) (Kernel.freeRecord select ptr) := by
  intro before _ after guards run
  apply guards.freed _ run
  intro record value here selected member
  obtain ⟨found, place, isKind⟩ := guards.kept ptr member
  rw [here] at place
  cases place
  rw [other ptr _ isKind] at selected
  cases selected

theorem Guards.fresh {start : Nat} (guards : Guards guarded kind tables before)
    (bound : start < before.memory.heap.table.total)
    (free : EntryFree before.memory.heap.table.entries start) :
    heapBlockToAddress before.memory.heap start ∉ guarded := by
  intro member
  obtain ⟨block, same, held⟩ := guards.held _ member
  have equal := heapBlockToAddress_inj guards.sound.kernel.pool bound held.clean.bound same
  exact held.taken (equal ▸ free)

theorem Guards.null (guards : Guards guarded kind tables before) : before.files 0 = none := by
  by_contra some
  obtain ⟨record, here⟩ := Option.ne_none_iff_exists'.mp some
  obtain ⟨block, null, clean⟩ := guards.recorded 0 record here
  exact guards.sound.kernel.nonnull clean.bound null.symm

end Guards

end PeachOS
