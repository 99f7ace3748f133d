import PeachOS.DirectoryWalk
import PeachOS.KernelOwners
import PeachOS.OpenLog

/-! What the steps of `fat16_open` own: each allocation, release and store with its log, and the
live blocks beyond those that there were. -/

namespace PeachOS
open Program ByteMemory

/-- A kernel beside `base` that owns, beyond it, the chains at the pointers of `owned`, and
whose records all lie at the starts of chains. -/
structure Account (tables : Set (Nat → Addr)) (base kernel : Kernel) (owned : Multiset Addr) : Prop where
  alongside : Alongside tables base kernel
  owns : Owns base.memory.heap kernel.memory.heap owned
  placed : ∀ ptr record, kernel.files ptr = some record → HeldAt kernel.memory.heap ptr

def FreeAt (heap : Heap) (ptr : Addr) : Prop :=
  ∃ block : Nat, ptr = heapBlockToAddress heap block ∧ block < heap.table.total ∧
    EntryFree heap.table.entries block

/-- What is left when the pointers of `gone` are given back, or written to. -/
structure Leaves (kernel after : Kernel) (gone : Multiset Addr) : Prop where
  files : ∀ ptr, ptr ∉ gone → after.files ptr = kernel.files ptr
  absent : ∀ ptr, kernel.files ptr = none → after.files ptr = none
  held : ∀ ptr, ptr ∉ gone → HeldAt kernel.memory.heap ptr → HeldAt after.memory.heap ptr
  free : ∀ ptr, FreeAt kernel.memory.heap ptr → FreeAt after.memory.heap ptr

section Steps
variable {α : Type} {tables : Set (Nat → Addr)} {base kernel after : Kernel} {owned : Multiset Addr}
  {ptr other : Addr} {log : List HeapEvent}

theorem FreeAt.not_held {heap : Heap} (sound : Sound heap) (free : FreeAt heap ptr) : ¬HeldAt heap ptr := by
  intro heldAt
  obtain ⟨block, rfl, bound, isFree⟩ := free
  obtain ⟨start, same, held⟩ := heldAt
  rw [heapBlockToAddress_inj sound.kernel.pool bound held.clean.bound same] at isFree
  exact held.taken isFree

theorem FreeAt.frees {heap cleared : Heap} {start : Int} (free : FreeAt heap ptr) (frees : Frees heap cleared start) :
    FreeAt cleared ptr := by
  obtain ⟨block, rfl, bound, isFree⟩ := free
  refine ⟨block, (heapBlockToAddress_congr frees.saddr block).symm, frees.total.symm ▸ bound, ?_⟩
  unfold EntryFree at isFree ⊢
  by_cases reaches : FreeReaches heap.table.entries heap.table.total start (block : Nat)
  · rw [frees.reached _ reaches]
    decide
  · rwa [frees.missed _ reaches]

theorem Account.unrecorded (account : Account tables base kernel owned) (free : FreeAt kernel.memory.heap ptr) :
    kernel.files ptr = none := by
  cases here : kernel.files ptr with
  | none => rfl
  | some record =>
    exact absurd (account.placed ptr record here) (free.not_held account.owns.sound)

theorem Account.fresh (account : Account tables base kernel owned) (member : ptr ∈ owned) :
    ¬HeldAt base.memory.heap ptr := by
  intro heldAt
  obtain ⟨block, chained⟩ := (account.alongside.apart.heldAt heldAt).chain_nonempty
  obtain ⟨start, same, held⟩ := heldAt
  have there := account.alongside.apart.held start held
  have address := same.trans (account.alongside.apart.address start).symm
  have inBase : start ∈ liveBlocks base.memory.heap := ⟨held.clean.bound, held.taken⟩
  exact Set.disjoint_left.mp (account.owns.fresh ptr member) ⟨start, address, there.chained⟩ inBase

theorem Account.congr (account : Account tables base kernel owned) (alongside : Alongside tables base after)
    (heap : after.memory.heap = kernel.memory.heap) (files : after.files = kernel.files) :
    Account tables base after owned where
  alongside := alongside
  owns := heap ▸ account.owns
  placed := by
    rw [heap, files]
    exact account.placed

theorem Account.onDisk (account : Account tables base kernel owned) {call : Prog Disk Stop α} {result : α}
    (keeps : KeepsVolume call) (run : Kernel.onDisk call kernel = (.ok result, after)) :
    Account tables base after owned := by
  have alongside := account.alongside
  refine account.congr ⟨alongside.apart.onDisk run, Guards.onDisk _ _ _ _ alongside.recorded run,
    (keeps.sector.onDisk run).trans alongside.sector⟩ ?_ ?_
  · rw [Kernel.onDisk_memory run]
  · rw [show after.files = kernel.files from ?_]
    unfold Kernel.onDisk at run
    split at run
    · cases run
      rfl
    · cases run

theorem Account.newRecord {size : Word} {record : FileRecord} (account : Account tables base kernel owned)
    (run : (loggedNewRecord size record).run kernel = (.ok (ptr, log), after)) (enough : NoneRefused log) :
    Account tables base after (ptr ::ₘ owned) ∧ settle log owned = some (ptr ::ₘ owned) ∧
      Apart kernel after ∧ NewRecord base after size record ptr ∧ NewRecord kernel after size record ptr ∧
      (size.toNat = 0 → FreeAt after.memory.heap ptr ∧ after.files = kernel.files) := by
  obtain ⟨rfl, plain⟩ := logged_note_ok run
  have nonnull : ptr ≠ 0 := by
    intro null
    exact enough (List.mem_singleton.mpr (by rw [null]))
  have alongside := account.alongside
  obtain ⟨apart, made⟩ := alongside.apart.newRecord plain
  obtain ⟨beside, own⟩ := alongside.refl.apart.newRecord plain
  have made := made.resolve_left (fun refused => nonnull refused.1)
  have own := own.resolve_left (fun refused => nonnull refused.1)
  obtain ⟨start, rfl, _, _, marks, same⟩ :=
    (Kernel.newRecord_ok alongside.apart.sound.kernel plain).resolve_left (fun refused => nonnull refused.1)
  have files : after.files = placeRecord kernel.files (heapBlockToAddress kernel.memory.heap start) size record := by
    rw [same]
    rfl
  have recorded := Guards.newRecord _ _ _ _ _ alongside.recorded plain
  have sector := (Kernel.newRecord_disk plain).symm ▸ alongside.sector
  refine ⟨⟨⟨apart, recorded, sector⟩, account.owns.malloc marks, ?_⟩, rfl, beside, made, own, ?_⟩
  · intro other found here
    rw [files] at here
    unfold placeRecord at here
    split at here
    next inside =>
      split at here
      next first =>
        rw [first]
        exact (own.own (by omega)).1
      · cases here
    · exact (account.placed other found here).marks marks
  · intro empty
    have none' : mallocBlocks size = 0 := by
      unfold mallocBlocks blocksFor heapBlockSize
      rw [empty]
      split <;> rfl
    refine ⟨⟨start, (heapBlockToAddress_congr marks.saddr start).symm, marks.total.symm ▸ marks.bound, ?_⟩, ?_⟩
    · unfold EntryFree
      rw [marks.outside (by omega)]
      exact marks.startFree
    · rw [files]
      funext other
      unfold placeRecord
      rw [if_neg (by omega)]

theorem Account.writeRecord {select : FileRecord → Option α} {record : FileRecord}
    (account : Account tables base kernel owned) (member : ptr ∈ owned)
    (run : Kernel.writeRecord select ptr record kernel = (.ok (), after)) : Account tables base after owned := by
  have alongside := account.alongside
  have apart := alongside.apart.writeRecord (account.fresh member) run
  have recorded := Guards.writeRecord (fun _ _ (impossible : False) => impossible.elim) _ _ _ alongside.recorded run
  obtain ⟨same, old, _, here, _⟩ := Kernel.writeRecord_ok run
  rw [same] at apart recorded ⊢
  refine ⟨⟨apart, recorded, alongside.sector⟩, account.owns, ?_⟩
  intro other found there
  rw [Kernel.setFiles_files] at there
  by_cases equal : other = ptr
  · rw [equal]
    exact account.placed ptr old here
  · rw [Function.update_of_ne equal] at there
    exact account.placed other found there

theorem Leaves.trans {middle : Kernel} {gone later : Multiset Addr} (first : Leaves kernel middle gone)
    (second : Leaves middle after later) : Leaves kernel after (gone + later) where
  files := by
    intro ptr outside
    rw [Multiset.mem_add, not_or] at outside
    rw [second.files ptr outside.2, first.files ptr outside.1]
  absent := fun ptr missing => second.absent ptr (first.absent ptr missing)
  held := by
    intro ptr outside heldAt
    rw [Multiset.mem_add, not_or] at outside
    exact second.held ptr outside.2 (first.held ptr outside.1 heldAt)
  free := fun ptr free => second.free ptr (first.free ptr free)

theorem Account.freeRecord {select : FileRecord → Option α} (account : Account tables base kernel owned)
    (member : ptr ∈ owned) (run : (loggedFreeRecord select ptr).run kernel = (.ok ((), log), after)) :
    Account tables base after (owned.erase ptr) ∧ settle log owned = some (owned.erase ptr) ∧
      Leaves kernel after (ptr ::ₘ 0) := by
  obtain ⟨rfl, plain⟩ := logged_note_ok run
  have alongside := account.alongside
  have apart := alongside.apart.freeRecord alongside.recorded (account.fresh member) plain
  have recorded := Guards.freeRecord (fun _ _ (impossible : False) => impossible.elim) _ _ _ alongside.recorded plain
  have sector := (keepsVolume_freeRecord select ptr).sector _ _ _ _ alongside.sector plain
  obtain ⟨start, bound, address⟩ := account.owns.starts ptr member
  have nonnull : ptr ≠ 0 := address ▸ account.owns.sound.kernel.nonnull bound
  have clean : Clean kernel.memory.heap start := by
    rcases Kernel.freeRecord_ok plain with ⟨null, _⟩ | ⟨record, _, here, _⟩ | ⟨_, _, block, leads, _, free⟩
    · exact absurd null nonnull
    · obtain ⟨other, same, clean⟩ := alongside.recorded.recorded ptr record here
      rwa [heapBlockToAddress_inj account.owns.sound.kernel.pool bound clean.bound (address.symm.trans same)]
    · have small := account.owns.sound.kernel.pool.small
      rw [address, heapAddressToBlock_block kernel.memory.heap start (by omega)] at leads
      rw [show start = block by omega]
      exact account.owns.sound.clean_of_free (by omega) free
  have owns := account.owns.free clean (address ▸ member)
  rw [← address, ← Kernel.freeRecord_heap plain] at owns
  refine ⟨⟨⟨apart, recorded, sector⟩, owns, ?_⟩, settle_free member, ?_, ?_, ?_, ?_⟩
  · intro other found here
    have before := Kernel.freeRecord_fewer plain here
    have different : other ≠ ptr := by
      intro same
      rw [same, Kernel.freeRecord_gone nonnull plain] at here
      cases here
    exact (Kernel.freeRecord_other alongside.recorded plain different (account.placed other found before)).1
  · intro other outside
    rw [Multiset.mem_cons, not_or] at outside
    rcases Kernel.freeRecord_ok plain with ⟨_, rfl⟩ | ⟨_, _, _, _, rfl⟩ | ⟨_, rfl, _⟩
    · rfl
    · exact Function.update_of_ne outside.1 _ _
    · rfl
  · intro other missing
    cases there : after.files other with
    | none => rfl
    | some record =>
      rw [Kernel.freeRecord_fewer plain there] at missing
      cases missing
  · intro other outside heldAt
    rw [Multiset.mem_cons, not_or] at outside
    exact (Kernel.freeRecord_other alongside.recorded plain outside.1 heldAt).1
  · intro other free
    rw [Kernel.freeRecord_heap plain]
    exact free.frees (heapFree_frees rfl)

end Steps

section Directories
variable {tables : Set (Nat → Addr)} {base kernel after : Kernel} {owned : Multiset Addr}
  {log : List HeapEvent} {item : FatDirectoryItem}

/-- Where the bytes go has no part in what a read of a file returns. -/
theorem readInternal_result {disk left : Disk} {fuel : Nat} {cluster offset total res : Int} {out : Addr}
    {bytes stored : Bytes} (other : Addr) (bytes' : Bytes)
    (run : fat16ReadInternalFromStream fuel cluster offset total out bytes disk = (.ok (res, stored), left)) :
    ∃ stored', fat16ReadInternalFromStream fuel cluster offset total other bytes' disk =
      (.ok (res, stored'), left) := by
  induction fuel generalizing disk offset total out bytes other bytes' with
  | zero => cases run
  | succ fuel ih =>
    unfold fat16ReadInternalFromStream at run ⊢
    obtain ⟨fatPrivate, first, looked, steps⟩ := bind_eq_ok run
    rw [bind_ok looked]
    rw [read_bind] at steps ⊢
    obtain ⟨clusterToUse, second, found, steps⟩ := bind_eq_ok steps
    rw [bind_ok found]
    split at steps
    next failed =>
      cases steps
      rw [if_pos failed]
      exact ⟨bytes', rfl⟩
    next entered =>
      rw [if_neg entered]
      dsimp only at steps ⊢
      generalize (if total > sizeOfClusterBytes (id first) fatPrivate then
        sizeOfClusterBytes (id first) fatPrivate else total) = totalToRead at steps ⊢
      obtain ⟨⟨readRes, data⟩, third, readRun, steps⟩ := bind_eq_ok steps
      dsimp only at steps
      rw [bind_ok readRun]
      dsimp only
      split at steps
      next bad =>
        cases steps
        rw [if_pos bad]
        exact ⟨_, rfl⟩
      next good =>
        rw [if_neg good]
        split at steps
        next more =>
          rw [if_pos more]
          exact ih _ _ steps
        next done =>
          cases steps
          rw [if_neg done]
          exact ⟨_, rfl⟩

theorem countItems_le {disk left : Disk} {fuel : Nat} {i total : Int} (low : 0 ≤ i)
    (run : fat16CountItemsLoop fuel i disk = (.ok total, left)) : total ≤ i + fuel := by
  induction fuel generalizing disk i with
  | zero => cases run
  | succ fuel ih =>
    obtain ⟨⟨res, entry⟩, middle, _, steps⟩ := bind_eq_ok run
    dsimp only at steps
    have failed : (- EIO : Int) ≤ 0 := by decide
    split at steps
    · cases steps
      omega
    · split at steps
      · cases steps
        omega
      · split at steps
        · have := ih low steps
          omega
        · have := ih (by omega) steps
          omega

theorem totalItems_lt {disk left : Disk} {sector : Word} {total : Int}
    (run : fat16GetTotalItemsForDirectory sector disk = (.ok total, left)) : total < 2 ^ 27 := by
  unfold fat16GetTotalItemsForDirectory at run
  rw [read_bind] at run
  obtain ⟨_, middle, _, counted⟩ := bind_eq_ok run
  have bound := countItems_le le_rfl counted
  omega

/-- The table of a directory can be read, wherever to. -/
def TableReads (disk : Disk) (item : FatDirectoryItem) : Prop :=
  ∀ fatPrivate total counted out bytes res stored left, disk.fsPrivate = some fatPrivate →
    fat16GetTotalItemsForDirectory (BitVec.ofInt 32
      (fat16ClusterToSector fatPrivate (fat16GetFirstCluster item).toInt)) disk = (.ok total, counted) →
    fat16ReadInternal (fat16GetFirstCluster item).toInt 0x00
      (BitVec.ofInt 32 (total * fatDirectoryItemSize)).toInt out bytes counted = (.ok (res, stored), left) →
    res = 0

theorem tableReads_iff {disk counted left : Disk} {fatPrivate : FatPrivate} {total res : Int} {out : Addr}
    {bytes stored : Bytes} (mounted : disk.fsPrivate = some fatPrivate)
    (count : fat16GetTotalItemsForDirectory (BitVec.ofInt 32
      (fat16ClusterToSector fatPrivate (fat16GetFirstCluster item).toInt)) disk = (.ok total, counted))
    (readRun : fat16ReadInternal (fat16GetFirstCluster item).toInt 0x00
      (BitVec.ofInt 32 (total * fatDirectoryItemSize)).toInt out bytes counted = (.ok (res, stored), left)) :
    TableReads disk item ↔ res = 0 := by
  constructor
  · intro reads
    exact reads _ _ _ _ _ _ _ _ mounted count readRun
  · intro good volume total' counted' out' bytes' res' stored' left' volumeHere otherCount otherRead
    obtain rfl : fatPrivate = volume := Option.some.inj (mounted.symm.trans volumeHere)
    rw [count] at otherCount
    cases otherCount
    obtain ⟨_, again⟩ := readInternal_result out' bytes' readRun
    unfold fat16ReadInternal at otherRead
    rw [again] at otherRead
    cases otherRead
    exact good

theorem totalItems_empty {disk left : Disk} {sector : Word} {total : Int}
    (run : fat16GetTotalItemsForDirectory sector disk = (.ok total, left))
    (empty : (BitVec.ofInt 32 (total * fatDirectoryItemSize)).toNat = 0) : total.toNat = 0 := by
  have bound := totalItems_lt run
  by_contra some'
  obtain ⟨count, rfl⟩ := Int.eq_ofNat_of_zero_le (show 0 ≤ total by omega)
  unfold fatDirectoryItemSize at empty
  rw [← Int.natCast_mul, BitVec.ofInt_natCast, BitVec.toNat_ofNat] at empty
  rw [Int.toNat_natCast] at some'
  omega

/-- A directory has a table, or has no entries and the address of a free block. -/
structure TableAt (kernel : Kernel) (directory : FatDirectory) : Prop where
  nonnull : directory.item ≠ 0
  placed : kernel.files directory.item = some .fatDirectoryTable ∨
    directory.total.toNat = 0 ∧ FreeAt kernel.memory.heap directory.item

theorem Account.readTable (account : Account tables base kernel owned) {cluster res : Int} {size : Word} {table : Addr}
    (fresh : table ≠ 0 → ∀ i < size.toNat, ¬Owned base.memory.heap (table + BitVec.ofNat 32 i))
    (run : fat16ReadTable cluster size table kernel = (.ok res, after)) :
    Account tables base after owned ∧ after.files = kernel.files ∧ after.memory.heap = kernel.memory.heap := by
  have alongside := account.alongside
  obtain ⟨apart, files⟩ := alongside.apart.readTable alongside.nonneg fresh run
  have recorded := Guards.readTable _ _ _ _ _ _ alongside.recorded run
  have sector := (keepsVolume_readTable cluster size table).sector _ _ _ _ alongside.sector run
  exact ⟨account.congr ⟨apart, recorded, sector⟩ (readTable_heap run) files, files, readTable_heap run⟩

theorem Account.freeDirectory (account : Account tables base kernel owned) {directory : Addr} {record : FatDirectory}
    (here : kernel.files directory = some (.fatDirectory record)) (table : record.item ≠ 0)
    (owns : directory ∈ owned.erase record.item) (ownsTable : record.item ∈ owned)
    (run : (loggedFreeDirectory directory).run kernel = (.ok ((), log), after)) :
    Account tables base after ((owned.erase record.item).erase directory) ∧
      settle log owned = some ((owned.erase record.item).erase directory) ∧
      Leaves kernel after (record.item ::ₘ directory ::ₘ 0) ∧ after.files directory = none := by
  have nonnull : directory ≠ 0 := by
    rintro rfl
    rw [account.alongside.recorded.null] at here
    cases here
  unfold loggedFreeDirectory at run
  rw [if_neg nonnull] at run
  obtain ⟨found, middle, plain, steps⟩ := logged_lift_bind_ok run
  obtain ⟨rfl, old, there, selected⟩ := Kernel.record_ok plain
  rw [here] at there
  cases there
  cases selected
  rw [if_pos table] at steps
  obtain ⟨_, _, left, _, rfl, tableFreed, directoryFreed⟩ := logged_bind_ok steps
  obtain ⟨leftAccount, early, first⟩ := account.freeRecord ownsTable tableFreed
  obtain ⟨lastAccount, late, second⟩ := leftAccount.freeRecord owns directoryFreed
  exact ⟨lastAccount, settle_trans early late, first.trans second,
    Kernel.freeRecord_gone nonnull (logged_note_ok directoryFreed).2⟩

theorem noneRefused_append {first second : List HeapEvent} :
    NoneRefused (first ++ second) ↔ NoneRefused first ∧ NoneRefused second := by
  unfold NoneRefused
  rw [List.mem_append, not_or]

theorem readTable_ok {cluster res : Int} {size : Word} {table : Addr} (nonnull : table ≠ 0)
    (run : fat16ReadTable cluster size table kernel = (.ok res, after)) : ∃ stored,
      fat16ReadInternal cluster 0x00 size.toInt table kernel.memory.bytes kernel.disk =
        (.ok (res, stored), after.disk) := by
  unfold fat16ReadTable at run
  rw [if_neg nonnull] at run
  unfold Kernel.fat16ReadInternal at run
  rw [read_bind] at run
  obtain ⟨⟨_, stored⟩, middle, readRun, steps⟩ := bind_eq_ok run
  cases steps
  exact ⟨stored, (Kernel.onDisk_eq_ok readRun).1⟩

/-- What the load of a directory leaves: the directory with its table, or nothing but the
address of the directory that was freed again. -/
inductive DirectoryOutcome (tables : Set (Nat → Addr)) (base kernel after : Kernel) (owned : Multiset Addr)
    (item : FatDirectoryItem) (log : List HeapEvent) (directory : Addr) : Prop where
  | loaded {record : FatDirectory} (reads : TableReads kernel.disk item)
      (here : after.files directory = some (.fatDirectory record)) (table : TableAt after record)
      (new : ¬HeldAt kernel.memory.heap directory) (newTable : ¬HeldAt kernel.memory.heap record.item)
      (account : Account tables base after (record.item ::ₘ directory ::ₘ owned))
      (books : settle log owned = some (record.item ::ₘ directory ::ₘ owned))
  | freed (fails : ¬TableReads kernel.disk item) (nonnull : directory ≠ 0) (gone : after.files directory = none)
      (account : Account tables base after owned) (books : settle log owned = some owned)

theorem Account.loadDirectory (account : Account tables base kernel owned)
    (subdirectory : item.itemAttribute &&& fatFileSubdirectory ≠ 0) {directory : Addr}
    (run : (loggedLoadDirectory item).run kernel = (.ok (directory, log), after)) (enough : NoneRefused log) :
    DirectoryOutcome tables base kernel after owned item log directory := by
  obtain ⟨fatPrivate, first, looked, steps⟩ := logged_lift_bind_ok run
  obtain ⟨mounted, rfl⟩ := Kernel.fsPrivate_ok looked
  rw [if_neg subdirectory] at steps
  obtain ⟨made, madeLog, second, rest, logged, allocated, steps⟩ := logged_bind_ok steps
  rw [logged, noneRefused_append] at enough
  obtain ⟨secondAccount, madeBooks, secondApart, _, new, _⟩ := account.newRecord allocated enough.1
  rw [if_neg new.nonnull] at steps
  obtain ⟨totalItems, third, counted, steps⟩ := logged_lift_bind_ok steps
  have thirdAccount := secondAccount.onDisk (keepsVolume_totalItems _) counted
  obtain ⟨countRun, thirdSame⟩ := Kernel.onDisk_eq_ok counted
  rw [Kernel.newRecord_disk (logged_note_ok allocated).2] at countRun
  obtain ⟨_, fourth, entered, steps⟩ := logged_lift_bind_ok steps
  have fourthAccount := thirdAccount.writeRecord (Multiset.mem_cons_self _ _) entered
  obtain ⟨fourthSame, _⟩ := Kernel.writeRecord_ok entered
  have fourthHeap : fourth.memory.heap = second.memory.heap := by
    rw [fourthSame, thirdSame]
    rfl
  obtain ⟨table, tableLog, fifth, rest', logged', tableMade, steps⟩ := logged_bind_ok steps
  rw [logged', noneRefused_append] at enough
  obtain ⟨fifthAccount, tableBooks, _, tableBase, tableNew, empty⟩ :=
    fourthAccount.newRecord tableMade enough.2.1
  have fifthDisk := Kernel.newRecord_disk (logged_note_ok tableMade).2
  obtain ⟨_, sixth, completed, steps⟩ := logged_lift_bind_ok steps
  have sixthAccount := fifthAccount.writeRecord (Multiset.mem_cons_of_mem (Multiset.mem_cons_self _ _)) completed
  obtain ⟨sixthSame, _⟩ := Kernel.writeRecord_ok completed
  obtain ⟨res, seventh, readRun, steps⟩ := logged_lift_bind_ok steps
  obtain ⟨seventhAccount, seventhFiles, seventhHeap⟩ := sixthAccount.readTable (fun _ => tableBase.bytes) readRun
  rw [logged, logged']
  -- the directory is not its own table
  have madeHeld : HeldAt fourth.memory.heap made := fourthHeap ▸ (new.own (by decide)).1
  have apart : table ≠ made := fun same => tableNew.fresh (same ▸ madeHeld)
  have here : seventh.files made = some (.fatDirectory ⟨table, totalItems, 0, 0⟩) := by
    rw [seventhFiles, sixthSame]
    exact Function.update_self ..
  have sixthDisk : sixth.disk = third.disk := by
    rw [sixthSame]
    show fifth.disk = third.disk
    rw [fifthDisk, fourthSame]
    rfl
  obtain ⟨stored, result⟩ := readTable_ok tableNew.nonnull readRun
  rw [sixthDisk] at result
  split at steps
  next failed =>
    obtain ⟨_, freeLog, eighth, none', final, freed, steps⟩ := logged_bind_ok steps
    obtain ⟨rfl, rfl, rfl⟩ := logged_pure_ok steps
    obtain ⟨eighthAccount, freeBooks, _, gone⟩ := seventhAccount.freeDirectory here tableNew.nonnull
      (by rw [Multiset.erase_cons_head]; exact Multiset.mem_cons_self _ _) (Multiset.mem_cons_self _ _) freed
    rw [Multiset.erase_cons_head, Multiset.erase_cons_head] at eighthAccount freeBooks
    refine .freed (fun reads => failed ((tableReads_iff mounted countRun result).mp reads)) new.nonnull gone
      eighthAccount ?_
    rw [final, List.append_nil]
    exact settle_trans madeBooks (settle_trans tableBooks freeBooks)
  next good =>
    obtain ⟨rfl, rfl, rfl⟩ := logged_pure_ok steps
    obtain rfl : res = 0 := not_not.mp good
    refine .loaded ((tableReads_iff mounted countRun result).mpr rfl) here ⟨tableNew.nonnull, ?_⟩ new.fresh ?_
      seventhAccount ?_
    · by_cases none' : (BitVec.ofInt 32 (totalItems * fatDirectoryItemSize)).toNat = 0
      · right
        refine ⟨totalItems_empty countRun none', ?_⟩
        rw [seventhHeap, sixthSame]
        exact (empty none').1
      · left
        rw [seventhFiles, sixthSame, Kernel.setFiles_files, Function.update_of_ne apart]
        exact (tableNew.own (Nat.pos_of_ne_zero none')).2
    · intro heldAt
      apply tableNew.fresh
      rw [fourthHeap]
      exact secondApart.heldAt heldAt
    · rw [List.append_nil]
      exact settle_trans madeBooks tableBooks

end Directories

/-- An entry of a directory. -/
def FatDirectoryItem.Subdirectory (entry : FatDirectoryItem) : Prop :=
  entry.itemAttribute &&& fatFileSubdirectory ≠ 0

instance (entry : FatDirectoryItem) : Decidable entry.Subdirectory := inferInstanceAs (Decidable (_ ≠ _))

/-- An item and what it refers to, by the pointers that are given back with it. -/
inductive ItemParts (kernel : Kernel) (item : Addr) : Multiset Addr → Prop where
  | file {clone : Addr} {entry : FatDirectoryItem} (here : kernel.files item = some (.fatItem ⟨clone, .file⟩))
      (copy : kernel.files clone = some (.fatDirectoryItem entry)) : ItemParts kernel item (clone ::ₘ item ::ₘ 0)
  | directory {target : Addr} {record : FatDirectory}
      (here : kernel.files item = some (.fatItem ⟨target, .directory⟩))
      (entry : kernel.files target = some (.fatDirectory record)) (table : TableAt kernel record) :
      ItemParts kernel item (record.item ::ₘ target ::ₘ item ::ₘ 0)
  | stale {target : Addr} (here : kernel.files item = some (.fatItem ⟨target, .directory⟩)) (nonnull : target ≠ 0)
      (gone : kernel.files target = none) : ItemParts kernel item (item ::ₘ 0)

/-- The item keeps a directory that was freed. -/
def Stale (kernel : Kernel) (item : Addr) : Prop :=
  ∃ target, kernel.files item = some (.fatItem ⟨target, .directory⟩) ∧ target ≠ 0 ∧ kernel.files target = none

section Items
variable {tables : Set (Nat → Addr)} {base kernel after : Kernel} {owned parts : Multiset Addr}
  {log : List HeapEvent} {entry : FatDirectoryItem} {item ptr : Addr}

theorem ItemParts.mem (made : ItemParts kernel item parts) : item ∈ parts := by
  cases made <;> simp

theorem ItemParts.record (made : ItemParts kernel item parts) :
    ∃ record, kernel.files item = some (.fatItem record) := by
  cases made with
  | file here => exact ⟨_, here⟩
  | directory here => exact ⟨_, here⟩
  | stale here => exact ⟨_, here⟩

/-- What an item of an entry is made of. -/
structure MadeItem (tables : Set (Nat → Addr)) (base kernel after : Kernel) (owned : Multiset Addr)
    (entry : FatDirectoryItem) (log : List HeapEvent) (item : Addr) (parts : Multiset Addr) : Prop where
  made : ItemParts after item parts
  account : Account tables base after (parts + owned)
  books : settle log owned = some (parts + owned)
  new : ∀ ptr ∈ parts, ¬HeldAt kernel.memory.heap ptr
  stale : Stale after item ↔ entry.Subdirectory ∧ ¬TableReads kernel.disk entry

structure BareItem (tables : Set (Nat → Addr)) (base kernel after : Kernel) (owned : Multiset Addr)
    (log : List HeapEvent) (item : Addr) : Prop where
  account : Account tables base after (item ::ₘ owned)
  books : settle log owned = some (item ::ₘ owned)
  apart : Apart kernel after
  new : NewRecord kernel after 8 (.fatItem ⟨0, .directory⟩) item
  disk : after.disk = kernel.disk

variable {first : Kernel} {early : List HeapEvent} {result : Addr}

/-- The item of a subdirectory gets the directory, or the address of one that was freed. -/
theorem BareItem.directory (bare : BareItem tables base kernel first owned early item) (subdirectory : entry.Subdirectory)
    (run : (loggedLoadDirectory entry >>= fun directory =>
      (liftM (Kernel.writeRecord FileRecord.asFatItem item (.fatItem ⟨directory, .directory⟩)) >>= fun _ =>
        pure item : LoggedKernel Addr)).run first = (.ok (result, log), after)) (enough : NoneRefused log) :
    result = item ∧ ∃ parts, MadeItem tables base kernel after owned entry (early ++ log) item parts := by
  obtain ⟨directory, loadLog, second, rest, logged, loaded, steps⟩ := logged_bind_ok run
  rw [logged, noneRefused_append] at enough
  obtain ⟨_, third, entered, steps⟩ := logged_lift_bind_ok steps
  obtain ⟨rfl, rfl, rfl⟩ := logged_pure_ok steps
  refine ⟨rfl, ?_⟩
  obtain ⟨same, old, record, place, kind⟩ := Kernel.writeRecord_ok entered
  have here : after.files result = some (.fatItem ⟨directory, .directory⟩) := by
    rw [same]
    exact Function.update_self ..
  -- the item is not where another kind of record is
  have other : ∀ ptr found, second.files ptr = some found → FileRecord.asFatItem found = none →
      after.files ptr = some found := by
    intro ptr found there foreign
    rw [same, Kernel.setFiles_files, Function.update_of_ne, there]
    intro equal
    rw [← equal, there] at place
    cases place
    rw [kind] at foreign
    cases foreign
  have outcome := bare.account.loadDirectory subdirectory loaded enough.1
  rw [logged, List.append_nil]
  cases outcome with
  | @loaded found reads there table newDirectory newTable account books =>
    have entry' := other directory _ there rfl
    refine ⟨found.item ::ₘ directory ::ₘ result ::ₘ 0, .directory here entry' ⟨table.nonnull, ?_⟩,
      ?_, ?_, ?_, ?_⟩
    · refine table.placed.imp (fun placed => other _ _ placed rfl) ?_
      rw [same]
      exact id
    · have written := account.writeRecord (by simp) entered
      simpa using written
    · have kept := settle_trans bare.books books
      simpa using kept
    · intro ptr member
      rw [Multiset.mem_cons, Multiset.mem_cons, Multiset.mem_cons] at member
      obtain rfl | rfl | rfl | none' := member
      · exact fun heldAt => newTable (bare.apart.heldAt heldAt)
      · exact fun heldAt => newDirectory (bare.apart.heldAt heldAt)
      · exact bare.new.fresh
      · exact absurd none' (Multiset.notMem_zero _)
    · rw [bare.disk] at reads
      refine ⟨fun stale => ?_, fun fails => absurd reads fails.2⟩
      obtain ⟨target, item', _, gone⟩ := stale
      rw [here] at item'
      cases item'
      rw [entry'] at gone
      cases gone
  | freed fails nonnull gone account books =>
    have different : directory ≠ result := by
      intro equal
      rw [← equal, gone] at place
      cases place
    have gone' : after.files directory = none := by
      rw [same, Kernel.setFiles_files, Function.update_of_ne different, gone]
    rw [bare.disk] at fails
    refine ⟨result ::ₘ 0, .stale here nonnull gone', ?_, ?_, ?_, ?_⟩
    · have written := account.writeRecord (by simp) entered
      simpa using written
    · have kept := settle_trans bare.books books
      simpa using kept
    · intro ptr member
      rw [Multiset.mem_cons] at member
      rw [member.resolve_right (Multiset.notMem_zero _)]
      exact bare.new.fresh
    · exact ⟨fun _ => ⟨subdirectory, fails⟩, fun _ => ⟨directory, here, nonnull, gone'⟩⟩

theorem BareItem.file (bare : BareItem tables base kernel first owned early item) (file : ¬entry.Subdirectory)
    (run : (liftM (Kernel.writeRecord FileRecord.asFatItem item (.fatItem ⟨0, .file⟩)) >>= fun _ =>
      loggedNewRecord (BitVec.ofNat 32 fatDirectoryItemSize) (.fatDirectoryItem entry) >>= fun clone =>
        liftM (Kernel.writeRecord FileRecord.asFatItem item (.fatItem ⟨clone, .file⟩)) >>= fun _ =>
          pure item : LoggedKernel Addr).run first = (.ok (result, log), after)) (enough : NoneRefused log) :
    result = item ∧ ∃ parts, MadeItem tables base kernel after owned entry (early ++ log) item parts := by
  obtain ⟨_, second, entered, steps⟩ := logged_lift_bind_ok run
  have secondAccount := bare.account.writeRecord (Multiset.mem_cons_self _ _) entered
  obtain ⟨secondSame, _⟩ := Kernel.writeRecord_ok entered
  obtain ⟨clone, cloneLog, third, rest, logged, cloned, steps⟩ := logged_bind_ok steps
  rw [logged, noneRefused_append] at enough
  obtain ⟨thirdAccount, cloneBooks, _, _, copy, _⟩ := secondAccount.newRecord cloned enough.1
  obtain ⟨_, fourth, completed, steps⟩ := logged_lift_bind_ok steps
  obtain ⟨rfl, rfl, rfl⟩ := logged_pure_ok steps
  refine ⟨rfl, ?_⟩
  have fourthAccount := thirdAccount.writeRecord (Multiset.mem_cons_of_mem (Multiset.mem_cons_self _ _)) completed
  obtain ⟨same, _⟩ := Kernel.writeRecord_ok completed
  have here : after.files result = some (.fatItem ⟨clone, .file⟩) := by
    rw [same]
    exact Function.update_self ..
  have secondHeap : second.memory.heap = first.memory.heap := by
    rw [secondSame]
    rfl
  have itemHeld : HeldAt second.memory.heap result := secondHeap ▸ (bare.new.own (by decide)).1
  have different : clone ≠ result := fun equal => copy.fresh (equal ▸ itemHeld)
  have content : after.files clone = some (.fatDirectoryItem entry) := by
    rw [same, Kernel.setFiles_files, Function.update_of_ne different]
    exact (copy.own (by decide)).2
  rw [logged, List.append_nil]
  refine ⟨clone ::ₘ result ::ₘ 0, .file here content, ?_, ?_, ?_, ?_⟩
  · simpa using fourthAccount
  · have kept := settle_trans bare.books cloneBooks
    simpa using kept
  · intro ptr member
    rw [Multiset.mem_cons, Multiset.mem_cons] at member
    obtain rfl | rfl | none' := member
    · intro heldAt
      apply copy.fresh
      rw [secondHeap]
      exact bare.apart.heldAt heldAt
    · exact bare.new.fresh
    · exact absurd none' (Multiset.notMem_zero _)
  · refine ⟨fun stale => ?_, fun fails => absurd fails.1 file⟩
    obtain ⟨target, item', _⟩ := stale
    rw [here] at item'
    cases item'

theorem Account.newFatItem (account : Account tables base kernel owned)
    (run : (loggedNewFatItem entry).run kernel = (.ok (item, log), after)) (enough : NoneRefused log) :
    ∃ parts, MadeItem tables base kernel after owned entry log item parts := by
  obtain ⟨made, madeLog, first, rest, logged, allocated, steps⟩ := logged_bind_ok run
  rw [logged, noneRefused_append] at enough
  obtain ⟨firstAccount, books, apart, _, new, _⟩ := account.newRecord allocated enough.1
  have bare : BareItem tables base kernel first owned madeLog made :=
    ⟨firstAccount, books, apart, new, Kernel.newRecord_disk (logged_note_ok allocated).2⟩
  rw [if_neg new.nonnull] at steps
  rw [logged]
  by_cases subdirectory : entry.Subdirectory
  · rw [if_pos (show entry.itemAttribute &&& fatFileSubdirectory ≠ 0 from subdirectory)] at steps
    obtain ⟨rfl, filled⟩ := bare.directory subdirectory steps enough.2
    exact filled
  · rw [if_neg (show ¬entry.itemAttribute &&& fatFileSubdirectory ≠ 0 from subdirectory)] at steps
    obtain ⟨rfl, filled⟩ := bare.file subdirectory steps enough.2
    exact filled

end Items

end PeachOS
