import PeachOS.KernelOwners
import PeachOS.OpenLog
import PeachOS.PathWhole

/-! `pathparser_parse` and `pathparser_free` with a log of their calls of `kzalloc` and `kfree`: what the first takes
from the heap, the second gives back. Each request is for one block. -/

namespace PeachOS
open Program BlockPool

def loggedCreateRoot (driveNumber : Int) : LoggedKernel Addr := do
  let pathR ← loggedNewRecord 8 (.pathRoot ⟨0, 0⟩)
  Kernel.writeRecord FileRecord.asPathRoot pathR (.pathRoot ⟨driveNumber, 0⟩)
  pure pathR

def loggedGetPathPart (path : List Byte) : LoggedKernel (Addr × List Byte) := do
  let resultPathPart ← loggedNewRecord (BitVec.ofNat 32 peachosMaxPath) .pathString
  let (i, path) ← pathparserCopyLoop resultPathPart 0 path
  let path := if path.headD 0 = slash then path.tail else path
  if i = 0 then do
    loggedFreeRecord FileRecord.asPathString resultPathPart
    pure (0, path)
  else pure (resultPathPart, path)

def loggedParsePathPart (lastPart : Addr) (path : List Byte) : LoggedKernel (Addr × List Byte) := do
  let (pathPartStr, path) ← loggedGetPathPart path
  if pathPartStr = 0 then pure (0, path)
  else
    let part ← loggedNewRecord 8 (.pathPart ⟨0, 0⟩)
    Kernel.writeRecord FileRecord.asPathPart part (.pathPart ⟨pathPartStr, 0⟩)
    if lastPart ≠ 0 then
      let last ← Kernel.record FileRecord.asPathPart lastPart
      Kernel.writeRecord FileRecord.asPathPart lastPart (.pathPart { last with next := part })
    pure (part, path)

def loggedParseLoop : (fuel : Nat) → (part : Addr) → List Byte → LoggedKernel Unit
  | 0, _, _ => liftM (fault : KernelProg Unit)
  | fuel + 1, part, path =>
      if part = 0 then pure ()
      else do
        let (part, path) ← loggedParsePathPart part path
        loggedParseLoop fuel part path

def loggedParse (path : List Byte) : LoggedKernel Addr := do
  if peachosMaxPath < strlen path then pure 0
  else
    let (res, tmpPath) := pathparserGetDriveByPath path
    if res < 0 then pure 0
    else
      let pathR ← loggedCreateRoot res
      if pathR = 0 then pure pathR
      else
        let (firstPart, tmpPath) ← loggedParsePathPart 0 tmpPath
        if firstPart = 0 then pure pathR
        else
          let root ← Kernel.record FileRecord.asPathRoot pathR
          Kernel.writeRecord FileRecord.asPathRoot pathR (.pathRoot { root with first := firstPart })
          let (part, rest) ← loggedParsePathPart firstPart tmpPath
          loggedParseLoop (tmpPath.length + 1) part rest
          pure pathR

def loggedPartsFree : (fuel : Nat) → (part : Addr) → LoggedKernel Unit
  | 0, _ => liftM (fault : KernelProg Unit)
  | fuel + 1, part =>
      if part = 0 then pure ()
      else do
        let record ← Kernel.record FileRecord.asPathPart part
        loggedFreeRecord FileRecord.asPathString record.part
        loggedFreeRecord FileRecord.asPathPart part
        loggedPartsFree fuel record.next

def loggedRootFree (fuel : Nat) (root : Addr) : LoggedKernel Unit := do
  let record ← Kernel.record FileRecord.asPathRoot root
  loggedPartsFree fuel record.first
  loggedFreeRecord FileRecord.asPathRoot root

section Forget

theorem forget_createRoot (driveNumber : Int) :
    (loggedCreateRoot driveNumber).forget = pathparserCreateRoot driveNumber := by
  unfold loggedCreateRoot pathparserCreateRoot
  simp [forget_newRecord]

theorem forget_getPathPart (path : List Byte) : (loggedGetPathPart path).forget = pathparserGetPathPart path := by
  unfold loggedGetPathPart pathparserGetPathPart
  simp [forget_newRecord, forget_freeRecord]

theorem forget_parsePathPart (lastPart : Addr) (path : List Byte) :
    (loggedParsePathPart lastPart path).forget = pathparserParsePathPart lastPart path := by
  unfold loggedParsePathPart pathparserParsePathPart
  simp [forget_newRecord, forget_getPathPart]

theorem forget_parseLoop (fuel : Nat) (part : Addr) (path : List Byte) :
    (loggedParseLoop fuel part path).forget = pathparserParseLoop fuel part path := by
  induction fuel generalizing part path with
  | zero => exact forget_lift _
  | succ fuel ih =>
    unfold loggedParseLoop pathparserParseLoop
    simp [forget_parsePathPart, ih]

theorem forget_parse (path : List Byte) : (loggedParse path).forget = pathparserParse path := by
  unfold loggedParse pathparserParse
  simp [forget_createRoot, forget_parsePathPart, forget_parseLoop]

theorem forget_partsFree (fuel : Nat) (part : Addr) : (loggedPartsFree fuel part).forget = pathparserFreeLoop fuel part := by
  induction fuel generalizing part with
  | zero => exact forget_lift _
  | succ fuel ih =>
    unfold loggedPartsFree pathparserFreeLoop
    simp [forget_freeRecord, ih]

theorem forget_rootFree (fuel : Nat) (root : Addr) : (loggedRootFree fuel root).forget = pathparserFree fuel root := by
  unfold loggedRootFree pathparserFree
  simp [forget_freeRecord, forget_partsFree]

end Forget

/-- The live blocks of `heap` are those of `base`, as they were, and single blocks at the pointers of `owned`. -/
structure Holding (base heap : Heap) (owned : Multiset Addr) : Prop where
  kernel : KernelHeap heap
  kept : ∀ block ∈ liveBlocks base, heap.table.entries block = base.table.entries block
  single : ∀ ptr ∈ owned, ∃ block : Nat, ptr = heapBlockToAddress heap block ∧ Single heap block ∧ block ∉ liveBlocks base
  others : ∀ block ∈ liveBlocks heap, block ∈ liveBlocks base ∨ heapBlockToAddress heap block ∈ owned
  nodup : owned.Nodup
  room : (freeBlocks heap).card + owned.card = (freeBlocks base).card

section Holding
variable {α : Type} {base heap : Heap} {kernel : Kernel} {owned : Multiset Addr} {ptr : Addr}

theorem Holding.refl (kernelHeap : KernelHeap base) : Holding base base 0 where
  kernel := kernelHeap
  kept := fun _ _ => rfl
  single := fun ptr member => absurd member (Multiset.notMem_zero ptr)
  others := fun _ live => Or.inl live
  nodup := Multiset.nodup_zero
  room := rfl

theorem Holding.restored (holding : Holding base heap 0) (kernelHeap : KernelHeap base) :
    liveBlocks heap = liveBlocks base := by
  ext block
  constructor
  · exact fun live => (holding.others block live).resolve_right (Multiset.notMem_zero _)
  · intro live
    refine ⟨?_, ?_⟩
    · rw [holding.kernel.total, ← kernelHeap.total]
      exact live.1
    · unfold EntryFree
      rw [holding.kept block live]
      exact live.2

theorem Holding.live (holding : Holding base heap owned) (member : ptr ∈ owned) : Live heap ptr := by
  obtain ⟨block, same, single, _⟩ := holding.single ptr member
  exact ⟨block, single.1, same, single.not_free⟩

theorem Holding.nonnull (holding : Holding base heap owned) (member : ptr ∈ owned) : ptr ≠ 0 :=
  (holding.live member).nonnull holding.kernel

theorem Holding.takes {before after : Memory} (holding : Holding base before.heap owned) {block : Nat}
    (takes : Takes before after {block}) (fresh : heapBlockToAddress before.heap block ∉ owned) :
    Holding base after.heap (heapBlockToAddress before.heap block ::ₘ owned) := by
  obtain ⟨bound, free⟩ := takes.free block rfl
  have unused : block ∉ liveBlocks base := by
    intro live
    refine live.2 ?_
    unfold EntryFree at free ⊢
    rwa [← holding.kept block live]
  have other : ∀ cell : Nat, cell ≠ block → after.heap.table.entries cell = before.heap.table.entries cell := by
    intro cell different
    refine takes.kept cell (fun chosen member same => different ?_)
    rw [Set.mem_singleton_iff] at member
    omega
  refine ⟨takes.kernel holding.kernel, ?_, ?_, ?_, Multiset.nodup_cons.mpr ⟨fresh, holding.nodup⟩, ?_⟩
  · intro cell live
    rw [other cell (fun same => unused (same ▸ live)), holding.kept cell live]
  · intro ptr member
    rw [takes.address]
    rcases Multiset.mem_cons.mp member with rfl | old
    · exact ⟨block, rfl, ⟨takes.total ▸ bound, takes.taken block rfl⟩, unused⟩
    · obtain ⟨cell, same, single, outside⟩ := holding.single ptr old
      have different : cell ≠ block := by
        rintro rfl
        exact single.not_free free
      exact ⟨cell, same, ⟨takes.total ▸ single.1, (other cell different).trans single.2⟩, outside⟩
  · intro cell live
    rw [takes.address, Multiset.mem_cons]
    by_cases same : cell = block
    · exact Or.inr (Or.inl (by rw [same]))
    · refine (holding.others cell ⟨takes.total ▸ live.1, ?_⟩).imp_right Or.inr
      have taken := live.2
      unfold EntryFree at taken ⊢
      rwa [other cell same] at taken
  · rw [Multiset.card_cons, ← Nat.add_assoc, Nat.add_right_comm, takes.freeBlocks_one]
    exact holding.room

theorem Holding.newRecord (holding : Holding base kernel.memory.heap owned) {size : Word} (roundable : Roundable size)
    (one : blocksFor size = 1) (positive : 0 < size.toNat) (room : owned.card < (freeBlocks base).card)
    (record : FileRecord) :
    ∃ ptr after, Kernel.newRecord size record kernel = (.ok ptr, after) ∧
      Holding base after.memory.heap (ptr ::ₘ owned) ∧ ptr ∉ owned ∧ after.files ptr = some record ∧
      ∀ other ∈ owned, after.files other = kernel.files other := by
  have available : 0 < (freeBlocks kernel.memory.heap).card := by
    have := holding.room
    omega
  obtain ⟨ptr, after, allocated, allocates⟩ := Kernel.newRecord_page holding.kernel size roundable one available record
  have short : size.toNat ≤ 4096 := by
    unfold blocksFor heapBlockSize at one
    omega
  have extended := allocates.extends holding.kernel short
  have fresh : ptr ∉ owned := fun member => allocates.fresh holding.kernel (holding.live member)
  refine ⟨ptr, after, allocated, ?_, fresh, allocates.file positive,
    fun other member => extended.files other (holding.live member) (Set.notMem_empty other)⟩
  obtain ⟨block, rfl, takes⟩ := allocates.takes
  exact holding.takes takes fresh

theorem Holding.releases {before after : Memory} (holding : Holding base before.heap owned) {block : Nat}
    (single : Single before.heap block) (unused : block ∉ liveBlocks base) (releases : Releases before after {block})
    (member : heapBlockToAddress before.heap block ∈ owned) :
    Holding base after.heap (owned.erase (heapBlockToAddress before.heap block)) := by
  have other : ∀ cell : Nat, cell ≠ block → after.heap.table.entries cell = before.heap.table.entries cell := by
    intro cell different
    refine releases.kept cell (fun chosen inside same => different ?_)
    rw [Set.mem_singleton_iff] at inside
    omega
  have freed : EntryFree after.heap.table.entries block := by
    unfold EntryFree
    rw [releases.freed block rfl]
    decide
  refine ⟨holding.kernel.congr releases.saddr releases.total, ?_, ?_, ?_, holding.nodup.erase _, ?_⟩
  · intro cell live
    rw [other cell (fun same => unused (same ▸ live)), holding.kept cell live]
  · intro ptr inside
    rw [holding.nodup.mem_erase_iff] at inside
    obtain ⟨cell, same, cellSingle, outside⟩ := holding.single ptr inside.2
    have different : cell ≠ block := by
      rintro rfl
      exact inside.1 same
    rw [releases.address]
    exact ⟨cell, same, ⟨releases.total ▸ cellSingle.1, (other cell different).trans cellSingle.2⟩, outside⟩
  · intro cell live
    have different : cell ≠ block := by
      rintro rfl
      exact live.2 freed
    have bound : cell < before.heap.table.total := releases.total ▸ live.1
    have taken := live.2
    unfold EntryFree at taken
    rw [other cell different] at taken
    rw [releases.address, holding.nodup.mem_erase_iff]
    refine (holding.others cell ⟨bound, taken⟩).imp_right (fun inside => ⟨fun same => different ?_, inside⟩)
    exact heapBlockToAddress_inj holding.kernel.pool bound single.1 same
  · have added : freeBlocks after.heap = insert block (freeBlocks before.heap) := by
      ext cell
      rw [Finset.mem_insert, mem_freeBlocks, mem_freeBlocks, releases.total]
      by_cases same : cell = block
      · rw [same]
        exact iff_of_true ⟨single.1, freed⟩ (Or.inl rfl)
      · unfold EntryFree
        rw [other cell same]
        exact (or_iff_right same).symm
    have absent : block ∉ freeBlocks before.heap := fun inside => single.not_free (mem_freeBlocks.mp inside).2
    have count := Multiset.card_erase_add_one member
    have rooms := holding.room
    rw [added, Finset.card_insert_of_notMem absent]
    omega

theorem Holding.freeRecord (holding : Holding base kernel.memory.heap owned) {select : FileRecord → Option α}
    (member : ptr ∈ owned) {record : FileRecord} (here : kernel.files ptr = some record) {value : α}
    (selected : select record = some value) :
    ∃ after, Kernel.freeRecord select ptr kernel = (.ok (), after) ∧
      Holding base after.memory.heap (owned.erase ptr) ∧
      ∀ other, other ≠ ptr → after.files other = kernel.files other := by
  have nonnull := holding.nonnull member
  obtain ⟨block, rfl, single, unused⟩ := holding.single ptr member
  have releases := kfree_single holding.kernel.pool single
  refine ⟨(kernel.setFiles (Function.update kernel.files _ none)).setMemory (kfree _ kernel.memory), ?_,
    holding.releases single unused releases member, fun other apart => Function.update_of_ne apart _ _⟩
  unfold Kernel.freeRecord
  rw [if_neg nonnull, read_bind, id_eq, here]
  dsimp only
  rw [selected]
  rfl

end Holding

/-- A step of the parser: the log leads from `owned` to `later`, and the records at the pointers of `kept` stay. -/
structure Grows (base : Heap) (before after : Kernel) (log : List HeapEvent) (owned later kept : Multiset Addr) : Prop where
  holding : Holding base after.memory.heap later
  settles : settle log owned = some later
  files : ∀ other ∈ kept, after.files other = before.files other

section Steps
variable {base : Heap} {kernel middle after : Kernel} {owned later last kept : Multiset Addr} {log rest : List HeapEvent}
  {path part left : List Byte}

theorem Grows.trans (first : Grows base kernel middle log owned later kept)
    (second : Grows base middle after rest later last kept) : Grows base kernel after (log ++ rest) owned last kept where
  holding := second.holding
  settles := settle_trans first.settles second.settles
  files := fun other member => (second.files other member).trans (first.files other member)

theorem Grows.fewer {fewer : Multiset Addr} (grows : Grows base kernel after log owned later kept) (subset : fewer ⊆ kept) :
    Grows base kernel after log owned later fewer where
  holding := grows.holding
  settles := grows.settles
  files := fun other member => grows.files other (subset member)

theorem Holding.requests (holding : Holding base kernel.memory.heap owned) (size : Word) (roundable : Roundable size)
    (one : blocksFor size = 1) (positive : 0 < size.toNat) (room : owned.card < (freeBlocks base).card)
    (record : FileRecord) :
    ∃ ptr after, (loggedNewRecord size record).run kernel = (.ok (ptr, [Event.alloc ptr]), after) ∧
      Grows base kernel after [Event.alloc ptr] owned (ptr ::ₘ owned) owned ∧ ptr ∉ owned ∧
      after.files ptr = some record := by
  obtain ⟨ptr, after, allocated, holds, fresh, file, files⟩ := holding.newRecord roundable one positive room record
  exact ⟨ptr, after, logged_note_run allocated, ⟨holds, rfl, files⟩, fresh, file⟩

theorem Holding.gives {α : Type} (select : FileRecord → Option α) {ptr : Addr}
    (holding : Holding base kernel.memory.heap owned) (member : ptr ∈ owned) {record : FileRecord}
    (here : kernel.files ptr = some record) {value : α} (selected : select record = some value) :
    ∃ after, (loggedFreeRecord select ptr).run kernel = (.ok ((), [Event.free ptr]), after) ∧
      Grows base kernel after [Event.free ptr] owned (owned.erase ptr) (owned.erase ptr) := by
  obtain ⟨after, freed, holds, files⟩ := holding.freeRecord member here selected
  refine ⟨after, logged_note_run freed, holds, settle_free member, fun other inside => files other ?_⟩
  exact ((holding.nodup.mem_erase_iff).mp inside).1

theorem skipped_slash (ends : Ends path) : (if path.headD 0 = slash then path.tail else path) = path.tail := by
  rcases ends with rfl | ⟨tail, rfl⟩
  · rfl
  · rfl

theorem Holding.getPathPart_end (holding : Holding base kernel.memory.heap owned)
    (room : owned.card < (freeBlocks base).card) (ends : Ends path) :
    ∃ log after, (loggedGetPathPart path).run kernel = (.ok ((0, path.tail), log), after) ∧
      Grows base kernel after log owned owned owned := by
  obtain ⟨str, middle, requested, grows, fresh, file⟩ := holding.requests 108#32 (by decide) (by decide) (by decide)
    room .pathString
  have copied : pathparserCopyLoop str 0 path middle = (.ok (0, path), middle) := by
    rcases ends with rfl | ⟨tail, rfl⟩
    · rfl
    · exact congrFun (if_pos (Or.inl rfl)) _
  obtain ⟨after, freed, gives⟩ := Holding.gives FileRecord.asPathString grows.holding (Multiset.mem_cons_self str owned)
    file rfl
  rw [Multiset.erase_cons_head] at gives
  refine ⟨_, after, logged_bind_run requested (logged_lift_bind_run copied ?_), grows.trans gives⟩
  dsimp only
  rw [if_pos rfl, skipped_slash ends]
  exact logged_bind_run freed rfl

theorem Holding.getPathPart_part (holding : Holding base kernel.memory.heap owned)
    (room : owned.card < (freeBlocks base).card) (proper : Proper part) (ends : Ends left) :
    ∃ str after, (loggedGetPathPart (part ++ left)).run kernel = (.ok ((str, left.tail), [Event.alloc str]), after) ∧
      Grows base kernel after [Event.alloc str] owned (str ::ₘ owned) owned ∧ str ∉ owned ∧
      after.files str = some .pathString := by
  obtain ⟨str, middle, requested, grows, fresh, file⟩ := holding.requests 108#32 (by decide) (by decide) (by decide)
    room .pathString
  have copied := pathparserCopyLoop_run str file proper.2 ends 0
  have positive : ¬0 + part.length = 0 := by
    rw [Nat.zero_add]
    exact fun zero => proper.1 (List.eq_nil_of_length_eq_zero zero)
  refine ⟨str, middle.storeChars str 0 part, logged_bind_run requested (logged_lift_bind_run copied ?_),
    ⟨grows.holding, grows.settles, grows.files⟩, fresh, file⟩
  dsimp only
  rw [if_neg positive, skipped_slash ends]
  rfl

theorem Holding.parsePathPart_end (holding : Holding base kernel.memory.heap owned)
    (room : owned.card < (freeBlocks base).card) (ends : Ends path) (lastPart : Addr) :
    ∃ log after, (loggedParsePathPart lastPart path).run kernel = (.ok ((0, path.tail), log), after) ∧
      Grows base kernel after log owned owned owned := by
  obtain ⟨log, after, got, grows⟩ := holding.getPathPart_end room ends
  refine ⟨log ++ [], after, logged_bind_run got rfl, ?_⟩
  rwa [List.append_nil]

theorem Holding.parsePathPart_part (holding : Holding base kernel.memory.heap owned)
    (room : owned.card + 1 < (freeBlocks base).card) (proper : Proper part) (ends : Ends left) {lastPart : Addr}
    (linked : lastPart = 0 ∨ lastPart ∈ owned ∧ ∃ record, kernel.files lastPart = some (.pathPart record)) :
    ∃ node str log after, (loggedParsePathPart lastPart (part ++ left)).run kernel = (.ok ((node, left.tail), log), after) ∧
      Grows base kernel after log owned (node ::ₘ str ::ₘ owned) (owned.erase lastPart) ∧ node ∉ owned ∧
      after.files node = some (.pathPart ⟨str, 0⟩) ∧ after.files str = some .pathString ∧
      ∀ record, lastPart ≠ 0 → kernel.files lastPart = some (.pathPart record) →
        after.files lastPart = some (.pathPart { record with next := node }) := by
  obtain ⟨str, first, got, grows, fresh, buffer⟩ := holding.getPathPart_part (by omega) proper ends
  have nonnull : str ≠ 0 := grows.holding.nonnull (Multiset.mem_cons_self str owned)
  obtain ⟨node, second, requested, more, freshNode, file⟩ := grows.holding.requests 8#32 (by decide) (by decide) (by decide)
    (by rw [Multiset.card_cons]; exact room) (.pathPart ⟨0, 0⟩)
  rw [Multiset.mem_cons, not_or] at freshNode
  have written := Kernel.writeRecord_run FileRecord.asPathPart file rfl (.pathPart ⟨str, 0⟩)
  generalize thirdEq : second.setFiles (Function.update second.files node (some (.pathPart ⟨str, 0⟩))) = third at written
  have heap : third.memory.heap = second.memory.heap := by rw [← thirdEq]; rfl
  have nodeFile : third.files node = some (.pathPart ⟨str, 0⟩) := by
    rw [← thirdEq]
    exact Function.update_self _ _ _
  have others : ∀ other, other ≠ node → third.files other = second.files other := by
    intro other different
    rw [← thirdEq]
    exact Function.update_of_ne different _ _
  have strFile : third.files str = some .pathString :=
    (others str (Ne.symm freshNode.1)).trans ((more.files str (Multiset.mem_cons_self str owned)).trans buffer)
  have files : ∀ other ∈ owned, third.files other = kernel.files other := by
    intro other member
    have different : other ≠ node := fun same => freshNode.2 (same ▸ member)
    rw [others other different, more.files other (Multiset.mem_cons_of_mem member), grows.files other member]
  have holds : Holding base third.memory.heap (node ::ₘ str ::ₘ owned) := heap ▸ more.holding
  have settled := settle_trans grows.settles more.settles
  by_cases null : lastPart = 0
  · refine ⟨node, str, _, third, logged_bind_run got ?_,
      ⟨holds, settled, fun other member => files other (Multiset.mem_of_mem_erase member)⟩, freshNode.2, nodeFile, strFile,
      fun record some' => absurd null some'⟩
    dsimp only
    rw [if_neg nonnull]
    refine logged_bind_run requested (logged_lift_bind_run written ?_)
    rw [if_neg (not_not.mpr null)]
    rfl
  · -- the new record is linked to the last one
    obtain ⟨member, record, lastFile⟩ := linked.resolve_left null
    have lastThird := (files lastPart member).trans lastFile
    have looked : Kernel.record FileRecord.asPathPart lastPart third = (.ok record, third) :=
      Kernel.record_run lastThird rfl
    have relinked := Kernel.writeRecord_run FileRecord.asPathPart lastThird rfl (.pathPart { record with next := node })
    have nodeApart : node ≠ lastPart := fun same => freshNode.2 (same ▸ member)
    have strApart : str ≠ lastPart := fun same => fresh (same ▸ member)
    refine ⟨node, str, _, third.setFiles (Function.update third.files lastPart (some (.pathPart { record with next := node }))),
      logged_bind_run got ?_, ⟨holds, settled, ?_⟩, freshNode.2,
      (Function.update_of_ne nodeApart _ _).trans nodeFile, (Function.update_of_ne strApart _ _).trans strFile, ?_⟩
    · dsimp only
      rw [if_neg nonnull]
      refine logged_bind_run requested (logged_lift_bind_run written ?_)
      rw [if_pos null]
      exact logged_lift_bind_run looked (logged_lift_bind_run relinked rfl)
    · intro other inside
      rw [holding.nodup.mem_erase_iff] at inside
      exact (Function.update_of_ne inside.1 _ _).trans (files other inside.2)
    · intro old _ found
      rw [lastFile] at found
      cases found
      exact Function.update_self _ _ _

end Steps

/-- The records from `ptr` on, each with its buffer, in order. -/
def PartRecords (files : Addr → Option FileRecord) : Addr → List (Addr × Addr) → Prop
  | ptr, [] => ptr = 0
  | ptr, (node, str) :: rest => ptr = node ∧ files str = some .pathString ∧
      ∃ next, files node = some (.pathPart ⟨str, next⟩) ∧ PartRecords files next rest

/-- The pointers of the records and of their buffers. -/
def partPointers : List (Addr × Addr) → Multiset Addr
  | [] => 0
  | (node, str) :: rest => node ::ₘ str ::ₘ partPointers rest

section Lists
variable {base : Heap} {kernel : Kernel} {owned : Multiset Addr} {pairs : List (Addr × Addr)} {ptr : Addr}

theorem PartRecords.congr {files other : Addr → Option FileRecord} (records : PartRecords files ptr pairs)
    (same : ∀ item ∈ partPointers pairs, other item = files item) : PartRecords other ptr pairs := by
  induction pairs generalizing ptr with
  | nil => exact records
  | cons pair rest ih =>
    obtain ⟨rfl, buffer, next, record, tail⟩ := records
    refine ⟨rfl, (same _ ?_).trans buffer, next, (same _ (Multiset.mem_cons_self _ _)).trans record, ih tail ?_⟩
    · exact Multiset.mem_cons_of_mem (Multiset.mem_cons_self _ _)
    · exact fun item member => same item (Multiset.mem_cons_of_mem (Multiset.mem_cons_of_mem member))

theorem Holding.partsFree (holding : Holding base kernel.memory.heap (partPointers pairs + owned))
    (records : PartRecords kernel.files ptr pairs) {fuel : Nat} (enough : pairs.length < fuel) :
    ∃ log after, (loggedPartsFree fuel ptr).run kernel = (.ok ((), log), after) ∧
      Grows base kernel after log (partPointers pairs + owned) owned owned := by
  induction pairs generalizing kernel ptr fuel with
  | nil =>
    obtain ⟨fuel, rfl⟩ : ∃ more, fuel = more + 1 := ⟨fuel - 1, by omega⟩
    obtain rfl : ptr = 0 := records
    rw [show partPointers [] + owned = owned from Multiset.zero_add owned] at holding ⊢
    exact ⟨[], kernel, congrFun (congrArg Logged.run (if_pos rfl)) _, holding, rfl, fun _ _ => rfl⟩
  | cons pair rest ih =>
    obtain ⟨node, str⟩ := pair
    obtain ⟨fuel, rfl⟩ : ∃ more, fuel = more + 1 := ⟨fuel - 1, by omega⟩
    obtain ⟨rfl, buffer, next, record, tail⟩ := records
    rw [List.length_cons] at enough
    -- the pointers of the rest come after those of this record
    have pointers : partPointers ((ptr, str) :: rest) + owned = ptr ::ₘ str ::ₘ (partPointers rest + owned) := by
      rw [partPointers, Multiset.cons_add, Multiset.cons_add]
    rw [pointers] at holding ⊢
    have freshNode := (Multiset.nodup_cons.mp holding.nodup).1
    have apart : str ≠ ptr := fun same => freshNode (same ▸ Multiset.mem_cons_self _ _)
    obtain ⟨first, freedStr, givesStr⟩ := Holding.gives FileRecord.asPathString holding
      (Multiset.mem_cons_of_mem (Multiset.mem_cons_self str _)) buffer rfl
    rw [Multiset.erase_cons_tail _ (by simpa using apart.symm), Multiset.erase_cons_head] at givesStr
    have nodeHere := (givesStr.files ptr (Multiset.mem_cons_self _ _)).trans record
    obtain ⟨second, freedNode, givesNode⟩ := Holding.gives FileRecord.asPathPart givesStr.holding
      (Multiset.mem_cons_self ptr _) nodeHere rfl
    rw [Multiset.erase_cons_head] at givesNode
    have both := (givesStr.fewer (Multiset.subset_cons _ ptr)).trans givesNode
    have tailLater : PartRecords second.files next rest :=
      tail.congr (fun item member => both.files item (Multiset.mem_add.mpr (Or.inl member)))
    obtain ⟨log, after, freed, grows⟩ := ih givesNode.holding tailLater (by omega : rest.length < fuel)
    have nonnull := holding.nonnull (Multiset.mem_cons_self ptr _)
    have looked : Kernel.record FileRecord.asPathPart ptr kernel = (.ok ⟨str, next⟩, kernel) :=
      Kernel.record_run record rfl
    refine ⟨_, after, ?_, (both.fewer (Multiset.subset_of_le (Multiset.le_add_left owned _))).trans grows⟩
    rw [loggedPartsFree, if_neg nonnull, List.append_assoc]
    refine logged_lift_bind_run looked ?_
    exact logged_bind_run freedStr (logged_bind_run freedNode freed)

/-- As many blocks as the parser may take for what is left of a path. -/
def roomFor (path : List Byte) : Nat := if path = [] then 1 else path.length + 2

theorem roomFor_pos (path : List Byte) : 0 < roomFor path := by
  unfold roomFor
  split <;> omega

theorem path_part {path : List Byte} (terminated : (0 : Byte) ∉ path) :
    Ends path ∨ ∃ part left, path = part ++ left ∧ Proper part ∧ Ends left ∧ left.tail.length < path.length ∧
      roomFor left.tail + 2 ≤ roomFor path ∧ (0 : Byte) ∉ left.tail := by
  rcases path_split terminated with ends | ⟨part, left, rfl, proper, ends⟩
  · exact Or.inl ends
  · have positive := List.length_pos_of_ne_nil proper.1
    have nonempty : part ++ left ≠ [] := List.append_ne_nil_of_left_ne_nil proper.1 _
    refine Or.inr ⟨part, left, rfl, proper, ends, ?_, ?_, fun member => terminated
      (List.mem_append_right part (List.mem_of_mem_tail member))⟩
    · rw [List.length_append, List.length_tail]
      omega
    · unfold roomFor
      rw [if_neg nonempty, List.length_append]
      rcases ends with rfl | ⟨tail, rfl⟩
      · rw [List.tail_nil, if_pos rfl]
        omega
      · rw [List.tail_cons, List.length_cons]
        split <;> omega

/-- From a last record on, a record is added for each part that is left. -/
theorem Holding.parseLoop {path : List Byte} {node str : Addr} {fuel : Nat}
    (holding : Holding base kernel.memory.heap (node ::ₘ owned)) (terminated : (0 : Byte) ∉ path)
    (room : owned.card + 1 + roomFor path ≤ (freeBlocks base).card) (enough : path.length + 2 ≤ fuel)
    (file : kernel.files node = some (.pathPart ⟨str, 0⟩)) :
    ∃ pairs next log after, (loggedParseLoop fuel node path).run kernel = (.ok ((), log), after) ∧
      Grows base kernel after log (node ::ₘ owned) (partPointers pairs + node ::ₘ owned) owned ∧
      after.files node = some (.pathPart ⟨str, next⟩) ∧ PartRecords after.files next pairs ∧
      pairs.length ≤ path.length := by
  induction fuel generalizing kernel owned path node str with
  | zero => omega
  | succ fuel ih =>
    have nonnull : node ≠ 0 := holding.nonnull (Multiset.mem_cons_self node owned)
    have freshNode := (Multiset.nodup_cons.mp holding.nodup).1
    have positive := roomFor_pos path
    rw [loggedParseLoop, if_neg nonnull]
    rcases path_part terminated with ends | ⟨part, left, rfl, proper, ends, shorter, fits, ended⟩
    · obtain ⟨fuel, rfl⟩ : ∃ more, fuel = more + 1 := ⟨fuel - 1, by omega⟩
      obtain ⟨log, after, parsed, grows⟩ := holding.parsePathPart_end (by rw [Multiset.card_cons]; omega) ends node
      refine ⟨[], 0, log ++ [], after, logged_bind_run parsed ?_, ?_, ?_, rfl, Nat.zero_le _⟩
      · exact congrFun (congrArg Logged.run (if_pos rfl)) _
      · rw [List.append_nil, partPointers, Multiset.zero_add]
        exact grows.fewer (Multiset.subset_cons owned node)
      · exact (grows.files node (Multiset.mem_cons_self node owned)).trans file
    · obtain ⟨newNode, newStr, log, middle, parsed, grows, fresh, newFile, newBuffer, linked⟩ :=
        holding.parsePathPart_part (by rw [Multiset.card_cons]; omega) proper ends
          (Or.inr ⟨Multiset.mem_cons_self node owned, _, file⟩)
      obtain ⟨pairs, next, rest, after, looped, more, nodeFile, records, count⟩ :=
        ih grows.holding ended (by rw [Multiset.card_cons, Multiset.card_cons]; omega) (by omega) newFile
      have pointers : partPointers pairs + newNode ::ₘ newStr ::ₘ node ::ₘ owned =
          partPointers ((newNode, newStr) :: pairs) + node ::ₘ owned := by
        rw [partPointers, Multiset.add_cons, Multiset.add_cons, Multiset.cons_add, Multiset.cons_add]
      have buffer := (more.files newStr (Multiset.mem_cons_self newStr _)).trans newBuffer
      have relinked := (more.files node (Multiset.mem_cons_of_mem (Multiset.mem_cons_self node owned))).trans
        (linked _ nonnull file)
      rw [Multiset.erase_cons_head] at grows
      rw [pointers] at more
      refine ⟨(newNode, newStr) :: pairs, newNode, log ++ rest, after, logged_bind_run parsed looped, ?_, relinked,
        ⟨rfl, buffer, next, nodeFile, records⟩, ?_⟩
      · refine grows.trans (more.fewer (fun other member => ?_))
        exact Multiset.mem_cons_of_mem (Multiset.mem_cons_of_mem member)
      · rw [List.length_cons]
        omega

theorem Holding.createRoot {before : Kernel} (holding : Holding base before.memory.heap owned)
    (room : owned.card < (freeBlocks base).card) (driveNumber : Int) :
    ∃ root after, (loggedCreateRoot driveNumber).run before = (.ok (root, [Event.alloc root]), after) ∧
      Grows base before after [Event.alloc root] owned (root ::ₘ owned) owned ∧ root ∉ owned ∧
      after.files root = some (.pathRoot ⟨driveNumber, 0⟩) := by
  obtain ⟨root, middle, requested, grows, fresh, file⟩ := holding.requests 8#32 (by decide) (by decide) (by decide) room
    (.pathRoot ⟨0, 0⟩)
  have written := Kernel.writeRecord_run FileRecord.asPathRoot file rfl (.pathRoot ⟨driveNumber, 0⟩)
  refine ⟨root, _, logged_bind_run requested (logged_lift_bind_run written rfl), ⟨grows.holding, grows.settles, ?_⟩, fresh,
    Function.update_self _ _ _⟩
  intro other member
  have different : other ≠ root := fun same => fresh (same ▸ member)
  exact (Function.update_of_ne different _ _).trans (grows.files other member)

theorem Holding.parseParts {before : Kernel} {root : Addr} {driveNumber : Int} {rest : List Byte}
    (holding : Holding base before.memory.heap (root ::ₘ 0)) (terminated : (0 : Byte) ∉ rest)
    (room : 1 + roomFor rest ≤ (freeBlocks base).card) (file : before.files root = some (.pathRoot ⟨driveNumber, 0⟩)) :
    ∃ pairs first log after, (do
        let (firstPart, tmpPath) ← loggedParsePathPart 0 rest
        if firstPart = 0 then pure root
        else
          let record ← Kernel.record FileRecord.asPathRoot root
          Kernel.writeRecord FileRecord.asPathRoot root (.pathRoot { record with first := firstPart })
          let (part, left) ← loggedParsePathPart firstPart tmpPath
          loggedParseLoop (tmpPath.length + 1) part left
          pure root : LoggedKernel Addr).run before = (.ok (root, log), after) ∧
      Grows base before after log (root ::ₘ 0) (partPointers pairs + root ::ₘ 0) 0 ∧
      after.files root = some (.pathRoot ⟨driveNumber, first⟩) ∧ PartRecords after.files first pairs ∧
      pairs.length ≤ rest.length := by
  have positive := roomFor_pos rest
  rcases path_part terminated with ends | ⟨part, left, rfl, proper, ends, shorter, fits, ended⟩
  · obtain ⟨log, after, parsed, grows⟩ := holding.parsePathPart_end (by rw [Multiset.card_cons, Multiset.card_zero]; omega)
      ends 0
    refine ⟨[], 0, log ++ [], after, logged_bind_run parsed rfl, ?_,
      (grows.files root (Multiset.mem_cons_self root 0)).trans file, rfl, Nat.zero_le _⟩
    rw [List.append_nil, partPointers, Multiset.zero_add]
    exact grows.fewer (Multiset.zero_subset _)
  · obtain ⟨node, str, log, middle, parsed, grows, fresh, nodeFile, buffer, _⟩ :=
      holding.parsePathPart_part (by rw [Multiset.card_cons, Multiset.card_zero]; omega) proper ends (Or.inl rfl)
    have nonnull := grows.holding.nonnull (Multiset.mem_cons_self node _)
    have rootNonnull := holding.nonnull (Multiset.mem_cons_self root 0)
    have rootFile : middle.files root = some (.pathRoot ⟨driveNumber, 0⟩) := by
      refine (grows.files root ?_).trans file
      rw [Multiset.erase_of_notMem]
      · exact Multiset.mem_cons_self root 0
      · intro member
        exact holding.nonnull member rfl
    have rootNode : root ≠ node := fun same => fresh (same ▸ Multiset.mem_cons_self root 0)
    have strRoot : str ≠ root := by
      have apart := (Multiset.nodup_cons.mp (Multiset.nodup_cons.mp grows.holding.nodup).2).1
      exact fun same => apart (same ▸ Multiset.mem_cons_self root 0)
    have looked : Kernel.record FileRecord.asPathRoot root middle = (.ok ⟨driveNumber, 0⟩, middle) :=
      Kernel.record_run rootFile rfl
    have entered := Kernel.writeRecord_run FileRecord.asPathRoot rootFile rfl (.pathRoot ⟨driveNumber, node⟩)
    generalize enteredEq :
      middle.setFiles (Function.update middle.files root (some (.pathRoot ⟨driveNumber, node⟩))) = third at entered
    have heap : third.memory.heap = middle.memory.heap := by rw [← enteredEq]; rfl
    have rootThird : third.files root = some (.pathRoot ⟨driveNumber, node⟩) := by
      rw [← enteredEq]
      exact Function.update_self _ _ _
    have others : ∀ other, other ≠ root → third.files other = middle.files other := by
      intro other different
      rw [← enteredEq]
      exact Function.update_of_ne different _ _
    have thirdHolding : Holding base third.memory.heap (node ::ₘ str ::ₘ root ::ₘ 0) := heap ▸ grows.holding
    obtain ⟨pairs, next, looped, after, loop, more, nodeLast, records, count⟩ := thirdHolding.parseLoop ended
      (by rw [Multiset.card_cons, Multiset.card_cons, Multiset.card_zero]; omega) (Nat.le_refl (left.tail.length + 2))
      ((others node rootNode.symm).trans nodeFile)
    have begins : Grows base before third log (root ::ₘ 0) (node ::ₘ str ::ₘ root ::ₘ 0) 0 :=
      ⟨thirdHolding, grows.settles, fun other member => absurd member (Multiset.notMem_zero other)⟩
    have pointers : partPointers pairs + node ::ₘ str ::ₘ root ::ₘ 0 = partPointers ((node, str) :: pairs) + root ::ₘ 0 := by
      rw [partPointers, Multiset.add_cons, Multiset.add_cons, Multiset.cons_add, Multiset.cons_add]
    have strLast : after.files str = some .pathString :=
      (more.files str (Multiset.mem_cons_self str _)).trans ((others str strRoot).trans buffer)
    have rootLast : after.files root = some (.pathRoot ⟨driveNumber, node⟩) :=
      (more.files root (Multiset.mem_cons_of_mem (Multiset.mem_cons_self root 0))).trans rootThird
    have whole := begins.trans (more.fewer (Multiset.zero_subset _))
    rw [pointers] at whole
    -- the loop begins with the second part
    rw [loggedParseLoop, if_neg nonnull] at loop
    obtain ⟨⟨second, behind⟩, early, fourth, late, rfl, begun, rounds⟩ := logged_bind_ok loop
    refine ⟨(node, str) :: pairs, node, log ++ (early ++ late), after, logged_bind_run parsed ?_, whole, rootLast,
      ⟨rfl, strLast, next, nodeLast, records⟩, ?_⟩
    · dsimp only
      rw [if_neg nonnull]
      refine logged_lift_bind_run looked (logged_lift_bind_run entered (logged_bind_run begun ?_))
      have finished : (loggedParseLoop (left.tail.length + 1) second behind >>=
          fun _ => (pure root : LoggedKernel Addr)).run fourth = (.ok (root, late ++ []), after) :=
        logged_bind_run rounds rfl
      rwa [List.append_nil] at finished
    · rw [List.length_cons]
      omega

theorem KernelHeap.parse_valid {before : Kernel} {path : List Byte} (kernelHeap : KernelHeap before.memory.heap)
    (terminated : (0 : Byte) ∉ path) (room : path.length ≤ (freeBlocks before.memory.heap).card)
    (fits : ¬peachosMaxPath < strlen path) (valid : pathparserPathValidFormat path = true) :
    ∃ root pairs driveNumber first log after, (loggedParse path).run before = (.ok (root, log), after) ∧
      Grows before.memory.heap before after log 0 (partPointers pairs + root ::ₘ 0) 0 ∧
      after.files root = some (.pathRoot ⟨driveNumber, first⟩) ∧ PartRecords after.files first pairs ∧
      pairs.length ≤ path.length := by
  obtain ⟨drive, rest, rfl, digit⟩ := pathparserPathValidFormat_form valid
  have driven : pathparserGetDriveByPath (drive :: 0x3A :: slash :: rest) = (tonumericdigit drive, rest) := by
    unfold pathparserGetDriveByPath
    rw [valid]
    rfl
  have restTerminated : (0 : Byte) ∉ rest := fun member =>
    terminated (List.mem_cons_of_mem _ (List.mem_cons_of_mem _ (List.mem_cons_of_mem _ member)))
  have enough : 1 + roomFor rest ≤ (freeBlocks before.memory.heap).card := by
    simp only [List.length_cons] at room
    unfold roomFor
    split <;> omega
  obtain ⟨root, middle, created, grows, fresh, file⟩ := (Holding.refl kernelHeap).createRoot
    (by rw [Multiset.card_zero]; omega) (tonumericdigit drive)
  obtain ⟨pairs, first, log, after, parsed, more, rootFile, records, count⟩ :=
    grows.holding.parseParts restTerminated enough file
  have nonnull := grows.holding.nonnull (Multiset.mem_cons_self root 0)
  refine ⟨root, pairs, _, first, [Event.alloc root] ++ log, after, ?_, grows.trans more, rootFile, records, ?_⟩
  · unfold loggedParse
    rw [if_neg fits, driven]
    dsimp only
    rw [if_neg (digit_printed digit).2]
    refine logged_bind_run created ?_
    rw [if_neg nonnull]
    exact parsed
  · simp only [List.length_cons]
    omega

theorem loggedParse_refused {before : Kernel} {path : List Byte}
    (refused : peachosMaxPath < strlen path ∨ ¬pathparserPathValidFormat path = true) :
    (loggedParse path).run before = (.ok (0, []), before) := by
  unfold loggedParse
  split
  · rfl
  next fits =>
    have invalid := refused.resolve_left fits
    have driven : pathparserGetDriveByPath path = (- EBADPATH, path) := by
      unfold pathparserGetDriveByPath
      rw [Bool.not_eq_true] at invalid
      rw [invalid]
      rfl
    rw [driven]
    dsimp only
    rw [if_pos (by decide)]
    rfl

end Lists

/-- `pathparser_parse` returns null and has taken nothing, or a root that `pathparser_free` gives back with all that
was taken: each pointer of the log once, and the live blocks are those that there were. -/
theorem pathparserParse_freed {before : Kernel} (kernelHeap : KernelHeap before.memory.heap) {path : List Byte}
    (terminated : (0 : Byte) ∉ path) (room : min path.length peachosMaxPath ≤ (freeBlocks before.memory.heap).card)
    {fuel : Nat} (enough : peachosMaxPath < fuel) :
    ∃ root log after, pathparserParse path before = (.ok root, after) ∧
      (loggedParse path).run before = (.ok (root, log), after) ∧
      if root = 0 then liveBlocks after.memory.heap = liveBlocks before.memory.heap
      else ∃ frees last, pathparserFree fuel root after = (.ok (), last) ∧
        (loggedRootFree fuel root).run after = (.ok ((), frees), last) ∧ settle (log ++ frees) 0 = some 0 ∧
        liveBlocks last.memory.heap = liveBlocks before.memory.heap := by
  by_cases form : peachosMaxPath < strlen path ∨ ¬pathparserPathValidFormat path = true
  · have refused : (loggedParse path).run before = (.ok (0, []), before) := loggedParse_refused form
    refine ⟨0, [], before, ?_, refused, ?_⟩
    · rw [← forget_parse]
      exact forget_ok refused
    · rw [if_pos rfl]
  · rw [not_or, not_not] at form
    have short : path.length ≤ peachosMaxPath := by
      rw [← strlen_terminated terminated]
      exact Nat.le_of_not_lt form.1
    rw [Nat.min_eq_left short] at room
    obtain ⟨root, pairs, driveNumber, first, log, after, parsed, grows, rootFile, records, count⟩ :=
      kernelHeap.parse_valid terminated room form.1 form.2
    have nonnull := grows.holding.nonnull (Multiset.mem_add.mpr (Or.inr (Multiset.mem_cons_self root 0)))
    obtain ⟨frees, middle, freed, gives⟩ := grows.holding.partsFree records (by omega : pairs.length < fuel)
    have rootHere := (gives.files root (Multiset.mem_cons_self root 0)).trans rootFile
    obtain ⟨last, rootFreed, givesRoot⟩ := Holding.gives FileRecord.asPathRoot gives.holding
      (Multiset.mem_cons_self root 0) rootHere rfl
    rw [Multiset.erase_cons_head] at givesRoot
    have looked : Kernel.record FileRecord.asPathRoot root after = (.ok ⟨driveNumber, first⟩, after) :=
      Kernel.record_run rootFile rfl
    have whole : (loggedRootFree fuel root).run after = (.ok ((), frees ++ [Event.free root]), last) :=
      logged_lift_bind_run looked (logged_bind_run freed rootFreed)
    refine ⟨root, log, after, ?_, parsed, ?_⟩
    · rw [← forget_parse]
      exact forget_ok parsed
    · rw [if_neg nonnull]
      refine ⟨frees ++ [Event.free root], last, ?_, whole,
        settle_trans grows.settles (settle_trans gives.settles givesRoot.settles), givesRoot.holding.restored kernelHeap⟩
      rw [← forget_rootFree]
      exact forget_ok whole

/-- `0:/bin//sh` on a fresh heap: the parser stops at the part that is empty. -/
theorem pathparserParse_freed_boot :
    ∃ root log after, pathparserParse [0x30, 0x3a, slash, 0x62, 0x69, 0x6e, slash, slash, 0x73, 0x68] bootKernel =
        (.ok root, after) ∧
      (loggedParse [0x30, 0x3a, slash, 0x62, 0x69, 0x6e, slash, slash, 0x73, 0x68]).run bootKernel =
        (.ok (root, log), after) ∧
      if root = 0 then liveBlocks after.memory.heap = liveBlocks bootKernel.memory.heap
      else ∃ frees last, pathparserFree 109 root after = (.ok (), last) ∧
        (loggedRootFree 109 root).run after = (.ok ((), frees), last) ∧ settle (log ++ frees) 0 = some 0 ∧
        liveBlocks last.memory.heap = liveBlocks bootKernel.memory.heap := by
  refine pathparserParse_freed bootMemory_kernel.1 (by decide) ?_ (by decide)
  rw [show (freeBlocks bootKernel.memory.heap).card = 25600 from bootMemory_kernel.2]
  decide

end PeachOS
