import PeachOS.OpenWalk

/-! The heap blocks that `fat16_open` takes and gives back, with the `fat16_close` of what it
returned. -/

namespace PeachOS
open Program ByteMemory

/-- The descriptor refers to an item that keeps a directory that was freed. -/
def KeepsFreed (kernel : Kernel) (ptr : Addr) : Prop :=
  ∃ record, kernel.files ptr = some (.fatFileDescriptor record) ∧ Stale kernel record.item

/-- After an error the live blocks are those that there were. A descriptor has no freed
directory in its item, and closing it gives back the live blocks that there were. Nothing is
given back that is not owned, so nothing is given back twice. -/
def Balanced (before after : Kernel) (ptr : Addr) (log : List HeapEvent) : Prop :=
  if isErr ptr then (settle log 0).isSome ∧ liveBlocks after.memory.heap = liveBlocks before.memory.heap
  else ¬KeepsFreed after ptr ∧ ∃ closing last, (loggedClose ptr).run after = (.ok (0, closing), last) ∧
    (settle (log ++ closing) 0).isSome ∧ liveBlocks last.memory.heap = liveBlocks before.memory.heap

/-- The first part is looked up in the root directory. -/
def OrderlyPath (kernel : Kernel) : (names : List Addr) → Prop
  | [] => True
  | name :: names => ∀ fatPrivate, kernel.disk.fsPrivate = some fatPrivate →
      TakesOne kernel fatPrivate.rootDirectory name ∧
      ∀ root middle, fat16FindItemInDirectory fatPrivate.rootDirectory name kernel = (.ok root, middle) →
        root ≠ 0 → OrderlyFrom names middle root

/-- An open for reading looks up the path when it has its descriptor. -/
def Orderly (kernel : Kernel) (mode : FileMode) (names : List Addr) : Prop :=
  mode = .read → ∀ descriptor opened,
    Kernel.newRecord 8 (.fatFileDescriptor ⟨0, 0⟩) kernel = (.ok descriptor, opened) → OrderlyPath opened names

section Balance
variable {tables : Set (Nat → Addr)} {base kernel after : Kernel} {owned parts : Multiset Addr}
  {log : List HeapEvent} {names : List Addr} {path item ptr : Addr}

theorem Account.refl (recorded : Recorded tables kernel) (ends : FreeEntriesEnd kernel.memory.heap)
    (sector : kernel.disk.sectorSize = peachosSectorSize)
    (placed : ∀ ptr record, kernel.files ptr = some record → HeldAt kernel.memory.heap ptr) :
    Account tables kernel kernel 0 where
  alongside := ⟨Apart.refl recorded.sound, recorded, sector⟩
  owns := Owns.refl recorded.sound ends
  placed := placed

theorem Account.directoryEntry (account : Account tables base kernel owned) (list : PartList base path names)
    (run : (loggedDirectoryEntry path).run kernel = (.ok (item, log), after)) (enough : NoneRefused log) :
    ∃ parts lost, Walked tables base kernel after 0 owned (OrderlyPath kernel names) False log item parts lost := by
  obtain ⟨fatPrivate, same, looked, steps⟩ := logged_lift_bind_ok run
  obtain ⟨mounted, unchanged⟩ := Kernel.fsPrivate_ok looked
  rw [unchanged] at steps
  obtain ⟨part, same, partLooked, steps⟩ := logged_lift_bind_ok steps
  obtain ⟨unchanged, old, place, kind⟩ := Kernel.record_ok partLooked
  rw [unchanged] at steps
  cases list with
  | nil =>
    rw [account.alongside.recorded.null] at place
    cases place
  | @cons _ following name names nonnull held here rest =>
    rw [account.alongside.apart.files path held, here] at place
    cases place
    cases kind
    obtain ⟨root, first, middle, restLog, logged, searched, steps⟩ := logged_bind_ok steps
    rw [logged, noneRefused_append] at enough
    obtain ⟨rootParts, lost, found, _⟩ := account.findItem searched enough.1
    have plain := forget_ok searched
    rw [forget_findItem] at plain
    rw [logged]
    by_cases missing : root = 0
    · rw [if_pos missing] at steps
      obtain ⟨rfl, rfl, rfl⟩ := logged_pure_ok steps
      have takes : OrderlyPath kernel (name :: names) ↔ TakesOne kernel fatPrivate.rootDirectory name := by
        constructor
        · intro orderly
          exact (orderly fatPrivate mounted).1
        · intro takes volume volumeHere
          obtain rfl : fatPrivate = volume := Option.some.inj (mounted.symm.trans volumeHere)
          refine ⟨takes, ?_⟩
          intro other otherKernel again some'
          rw [plain] at again
          cases again
          exact absurd missing some'
      rw [List.append_nil, propext takes]
      exact ⟨rootParts, lost, missing ▸ found⟩
    · rw [if_neg missing] at steps
      obtain ⟨last, later, walked⟩ := found.account.walk _ found.current rest steps enough.2
      have both : OrderlyPath kernel (name :: names) ↔
          TakesOne kernel fatPrivate.rootDirectory name ∧ OrderlyFrom names middle root := by
        constructor
        · intro orderly
          obtain ⟨takes, onwards⟩ := orderly fatPrivate mounted
          exact ⟨takes, onwards root middle plain missing⟩
        · intro both volume volumeHere
          obtain rfl : fatPrivate = volume := Option.some.inj (mounted.symm.trans volumeHere)
          refine ⟨both.1, ?_⟩
          intro other otherKernel again _
          rw [plain] at again
          cases again
          exact both.2
      rw [propext both]
      exact ⟨last, later + lost, found.trans walked⟩

theorem Kernel.writeRecord_leaves {α : Type} {select : FileRecord → Option α} {record : FileRecord}
    (run : Kernel.writeRecord select ptr record kernel = (.ok (), after)) : Leaves kernel after (ptr ::ₘ 0) := by
  obtain ⟨rfl, old, _, here, _⟩ := Kernel.writeRecord_ok run
  refine ⟨?_, ?_, fun _ _ heldAt => heldAt, fun _ free => free⟩
  · intro other outside
    rw [Multiset.mem_cons, not_or] at outside
    exact Function.update_of_ne outside.1 _ _
  · intro other missing
    have different : other ≠ ptr := by
      rintro rfl
      rw [here] at missing
      cases missing
    exact (Function.update_of_ne different _ _).trans missing

theorem Account.close (account : Account tables base kernel (parts + (ptr ::ₘ owned))) {res : Int} {pos : Word}
    (here : kernel.files ptr = some (.fatFileDescriptor ⟨item, pos⟩)) (made : ItemParts kernel item parts)
    (run : (loggedClose ptr).run kernel = (.ok (res, log), after)) :
    Account tables base after owned ∧ settle log (parts + (ptr ::ₘ owned)) = some owned ∧
      Leaves kernel after (parts + (ptr ::ₘ 0)) := by
  obtain ⟨_, closed, middle, nothing, logged, freed, steps⟩ := logged_bind_ok run
  obtain ⟨_, rfl, rfl⟩ := logged_pure_ok steps
  obtain ⟨record, same, looked, steps⟩ := logged_lift_bind_ok freed
  obtain ⟨unchanged, old, place, kind⟩ := Kernel.record_ok looked
  rw [unchanged] at steps
  rw [here] at place
  cases place
  cases kind
  obtain ⟨_, early, left, late, logged', itemFreed, descriptorFreed⟩ := logged_bind_ok steps
  obtain ⟨leftAccount, first, itemLeaves⟩ := account.itemFree made itemFreed
  obtain ⟨lastAccount, second, descriptorLeaves⟩ :=
    leftAccount.freeRecord (Multiset.mem_cons_self _ _) descriptorFreed
  rw [Multiset.erase_cons_head] at lastAccount second
  rw [logged, logged', List.append_nil]
  exact ⟨lastAccount, settle_trans first second, itemLeaves.trans descriptorLeaves⟩

theorem Account.close_run (account : Account tables base kernel (parts + (ptr ::ₘ owned))) {pos : Word}
    (here : kernel.files ptr = some (.fatFileDescriptor ⟨item, pos⟩)) (made : ItemParts kernel item parts)
    (fresh : ¬Stale kernel item) (apart : ptr ∉ parts) :
    ∃ log after, (loggedClose ptr).run kernel = (.ok (0, log), after) := by
  obtain ⟨itemLog, middle, freed⟩ := made.frees account fresh
  obtain ⟨_, _, leaves⟩ := account.itemFree made freed
  have plain := forget_ok freed
  rw [forget_itemFree] at plain
  obtain ⟨last, descriptorFreed, _⟩ := Kernel.freeRecord_run FileRecord.asFatFileDescriptor
    ((leaves.files ptr apart).trans here) rfl
  have allFreed : fat16FreeFileDescriptor ptr kernel = (.ok (), last) := by
    unfold fat16FreeFileDescriptor
    rw [bind_ok (Kernel.record_run here (rfl : FileRecord.asFatFileDescriptor _ = some ⟨item, pos⟩)), bind_ok plain]
    exact descriptorFreed
  have closed : fat16Close ptr kernel = (.ok 0, last) := (bind_ok allFreed).trans rfl
  rw [← forget_close] at closed
  obtain ⟨log, run⟩ := forget_eq_ok closed
  exact ⟨log, last, run⟩

theorem HeldAt.not_err {heap : Heap} (kernelHeap : KernelHeap heap) (heldAt : HeldAt heap ptr) : isErr ptr = false := by
  -- the heap lies in the lower half of the address space
  obtain ⟨start, rfl, held⟩ := heldAt
  have position := kernelHeap.address_toNat held.clean.bound
  have blocks := kernelHeap.blocks
  have bound := held.clean.bound
  unfold isErr
  rw [decide_eq_false_iff_not, BitVec.toInt_eq_toNat_of_lt (by omega)]
  omega

/-- The descriptor refers to the item that the walk came to, and what the walk lost is owned
beside them. -/
structure Opened (tables : Set (Nat → Addr)) (base kernel : Kernel) (orderly : Prop) (ptr item : Addr)
    (parts lost : Multiset Addr) : Prop where
  account : Account tables base kernel (parts + (ptr ::ₘ lost))
  current : Current kernel item parts
  here : kernel.files ptr = some (.fatFileDescriptor ⟨item, 0⟩)
  apart : ptr ∉ parts
  fine : orderly → lost = 0 ∧ ¬Stale kernel item
  spoilt : ¬orderly → Stale kernel item ∨
    ∃ other ∈ lost, HeldAt kernel.memory.heap other ∧ other ∉ parts ∧ other ≠ ptr

variable {orderly : Prop} {lost : Multiset Addr}

theorem Walked.opened {start middle : Kernel}
    (walked : Walked tables base start middle 0 (ptr ::ₘ 0) orderly False log item parts lost)
    (held : HeldAt start.memory.heap ptr)
    (entered : Kernel.writeRecord FileRecord.asFatFileDescriptor ptr (.fatFileDescriptor ⟨item, 0⟩) middle =
      (.ok (), after)) : Opened tables base after orderly ptr item parts lost := by
  have leaves := Kernel.writeRecord_leaves entered
  obtain ⟨heldMiddle, apart, _⟩ := walked.kept ptr held (Multiset.notMem_zero ptr)
  have outside : ∀ other ∈ parts, other ∉ ptr ::ₘ 0 := by
    intro other member same
    rw [Multiset.mem_cons] at same
    rw [same.resolve_right (Multiset.notMem_zero other)] at member
    exact apart member
  have account := walked.account.writeRecord (by simp) entered
  rw [Multiset.add_cons, Multiset.add_zero] at account
  have unmoved : Stale after item ↔ Stale middle item := walked.current.stale_iff leaves outside
    walked.account.alongside.recorded account.alongside.recorded
  refine ⟨account, walked.current.leaves leaves outside, ?_, apart, ?_, ?_⟩
  · rw [(Kernel.writeRecord_ok entered).1]
    exact Function.update_self ..
  · intro wellDone
    obtain ⟨nothing, fresh⟩ := walked.fine wellDone
    exact ⟨nothing, fun stale => fresh (unmoved.mp stale)⟩
  · intro spoilt
    rcases walked.spoilt (Or.inl spoilt) with stale | ⟨other, member, heldAt, notItem, new⟩
    · exact Or.inl (unmoved.mpr stale)
    · right
      have different : other ≠ ptr := by
        intro same
        exact Multiset.notMem_zero other (new (same ▸ held))
      refine ⟨other, member, leaves.held other ?_ heldAt, notItem, different⟩
      rw [Multiset.mem_cons, not_or]
      exact ⟨different, Multiset.notMem_zero other⟩

theorem Opened.failed (opened : Opened tables base kernel orderly ptr item parts lost) (missing : item = 0)
    (run : (loggedFreeRecord FileRecord.asFatFileDescriptor ptr).run kernel = (.ok ((), log), after)) :
    settle log (parts + (ptr ::ₘ lost)) = some lost ∧
      (liveBlocks after.memory.heap = liveBlocks base.memory.heap ↔ orderly) := by
  have nothing : parts = 0 := by
    cases opened.current with
    | missing _ => rfl
    | found made =>
      obtain ⟨record, here⟩ := made.record
      rw [missing, opened.account.alongside.recorded.null] at here
      cases here
  have account := opened.account
  rw [nothing, Multiset.zero_add] at account ⊢
  obtain ⟨last, books, leaves⟩ := account.freeRecord (Multiset.mem_cons_self _ _) run
  rw [Multiset.erase_cons_head] at last books
  refine ⟨books, ?_, ?_⟩
  · intro same
    by_contra spoilt
    rcases opened.spoilt spoilt with stale | ⟨other, member, heldAt, _, different⟩
    · exact opened.current.not_stale opened.account.alongside.recorded nothing stale
    · refine last.owns.leaked member (leaves.held other ?_ heldAt) same
      rw [Multiset.mem_cons, not_or]
      exact ⟨different, Multiset.notMem_zero other⟩
  · intro wellDone
    have owns := last.owns
    rw [(opened.fine wellDone).1] at owns
    exact owns.restored

theorem Opened.returned (opened : Opened tables base kernel orderly ptr item parts lost) (some' : item ≠ 0)
    (books : settle log 0 = some (parts + (ptr ::ₘ lost))) :
    (¬KeepsFreed kernel ptr ∧ ∃ closing last, (loggedClose ptr).run kernel = (.ok (0, closing), last) ∧
      (settle (log ++ closing) 0).isSome ∧ liveBlocks last.memory.heap = liveBlocks base.memory.heap) ↔ orderly := by
  have made : ItemParts kernel item parts := by
    cases opened.current with
    | missing null => exact absurd null some'
    | found made => exact made
  constructor
  · intro balanced
    obtain ⟨fresh, closing, last, run, _, same⟩ := balanced
    by_contra spoilt
    rcases opened.spoilt spoilt with stale | ⟨other, member, heldAt, notItem, different⟩
    · exact fresh ⟨_, opened.here, stale⟩
    · obtain ⟨account, _, leaves⟩ := opened.account.close opened.here made run
      refine account.owns.leaked member (leaves.held other ?_ heldAt) same
      rw [Multiset.mem_add, Multiset.mem_cons, not_or, not_or]
      exact ⟨notItem, different, Multiset.notMem_zero other⟩
  · intro wellDone
    obtain ⟨nothing, fresh⟩ := opened.fine wellDone
    refine ⟨?_, ?_⟩
    · intro keeps
      obtain ⟨record, here, stale⟩ := keeps
      rw [opened.here] at here
      cases here
      exact fresh stale
    · obtain ⟨closing, last, run⟩ := opened.account.close_run opened.here made fresh opened.apart
      obtain ⟨account, closed, _⟩ := opened.account.close opened.here made run
      have owns := account.owns
      rw [nothing] at owns
      refine ⟨closing, last, run, ?_, owns.restored⟩
      rw [settle_trans books closed]
      rfl

/-- With enough memory an open gives back all that it takes, at once or when what it returned is
closed, if and only if each part is found once in the directory of the part before it and the
directories that are found can be read. -/
theorem fat16Open_balanced (recorded : Recorded tables kernel) (ends : FreeEntriesEnd kernel.memory.heap)
    (sector : kernel.disk.sectorSize = peachosSectorSize)
    (placed : ∀ ptr record, kernel.files ptr = some record → HeldAt kernel.memory.heap ptr)
    (list : PartList kernel path names) {mode : FileMode}
    (run : (loggedOpen path mode).run kernel = (.ok (ptr, log), after)) (enough : NoneRefused log) :
    fat16Open path mode kernel = (.ok ptr, after) ∧ (Balanced kernel after ptr log ↔ Orderly kernel mode names) := by
  have plain := forget_ok run
  rw [forget_open] at plain
  refine ⟨plain, ?_⟩
  have start := Account.refl recorded ends sector placed
  unfold loggedOpen at run
  by_cases reads : mode = .read
  · rw [if_neg (not_not.mpr reads)] at run
    obtain ⟨descriptor, first, opened, rest, logged, allocated, steps⟩ := logged_bind_ok run
    rw [logged, noneRefused_append] at enough
    obtain ⟨openedAccount, made, _, _, new, _⟩ := start.newRecord allocated enough.1
    rw [if_neg new.nonnull] at steps
    obtain ⟨item, walkLog, middle, rest', logged', walk, steps⟩ := logged_bind_ok steps
    rw [logged', noneRefused_append] at enough
    obtain ⟨parts, lost, walked⟩ := openedAccount.directoryEntry list walk enough.2.1
    obtain ⟨_, written, entered, steps⟩ := logged_lift_bind_ok steps
    have outcome := walked.opened (new.own (by decide)).1 entered
    have orderly : Orderly kernel mode names ↔ OrderlyPath opened names := by
      have allocation := (logged_note_ok allocated).2
      constructor
      · intro every
        exact every reads descriptor opened allocation
      · intro one _ other otherKernel again
        rw [allocation] at again
        cases again
        exact one
    have books : settle (first ++ walkLog) 0 = some (parts + (descriptor ::ₘ lost)) := by
      have walkBooks := walked.books
      rw [Multiset.zero_add, Multiset.add_cons, Multiset.add_zero] at walkBooks
      exact settle_trans made walkBooks
    rw [orderly, logged, logged', ← List.append_assoc]
    unfold Balanced
    by_cases missing : item = 0
    · rw [if_pos missing] at steps
      obtain ⟨_, freeLog, last, none', logged'', freed, steps⟩ := logged_bind_ok steps
      obtain ⟨rfl, rfl, rfl⟩ := logged_pure_ok steps
      obtain ⟨freedBooks, restored⟩ := outcome.failed missing freed
      rw [if_pos (by decide), logged'', List.append_nil, settle_trans books freedBooks]
      exact (and_iff_right rfl).trans restored
    · rw [if_neg missing] at steps
      obtain ⟨rfl, rfl, rfl⟩ := logged_pure_ok steps
      have good := HeldAt.not_err outcome.account.owns.sound.kernel (outcome.account.placed _ _ outcome.here)
      rw [if_neg (by rw [good]; exact Bool.false_ne_true), List.append_nil]
      exact outcome.returned missing books
  · rw [if_pos reads] at run
    obtain ⟨rfl, rfl, rfl⟩ := logged_pure_ok run
    constructor
    · intro _ again
      exact absurd again reads
    · intro _
      unfold Balanced
      rw [if_pos (by decide)]
      exact ⟨rfl, rfl⟩

end Balance

/-- The root directory has a file `A`. The paths `a/a` and `a` are behind its table. -/
def fileKernel : Kernel := { Kernel.blank
  ⟨pagedHeap 4, storeBytes (storeBytes (fun _ => 0) (heapPage 0) singleTable) (heapPage 1) [0x61]⟩ singleDisk with
  files := fun ptr =>
    if ptr = heapPage 0 then some .fatDirectoryTable
    else if ptr = heapPage 1 then some .pathString
    else if ptr = heapPage 2 then some (.pathPart ⟨heapPage 1, heapPage 3⟩)
    else if ptr = heapPage 3 then some (.pathPart ⟨heapPage 1, 0⟩)
    else none }

theorem fileKernel_paged : Paged fileKernel.memory.heap 4 :=
  pagedHeap_paged (by decide : 4 ≤ 25600)

theorem fileKernel_heldAt {block : Nat} (bound : block < 4) : HeldAt fileKernel.memory.heap (heapPage block) :=
  ⟨block, fileKernel_paged.address block, fileKernel_paged.held block bound⟩

theorem fileKernel_files {ptr : Addr} {record : FileRecord} (here : fileKernel.files ptr = some record) :
    ∃ block < 4, ptr = heapPage block := by
  by_contra elsewhere
  push Not at elsewhere
  unfold fileKernel at here
  dsimp only at here
  rw [if_neg (elsewhere 0 (by decide)), if_neg (elsewhere 1 (by decide)), if_neg (elsewhere 2 (by decide)),
    if_neg (elsewhere 3 (by decide))] at here
  cases here

theorem fileKernel_recorded : Recorded {fun _ => 0} fileKernel where
  sound := fileKernel_paged.sound
  recorded := by
    intro ptr record here
    obtain ⟨block, bound, rfl⟩ := fileKernel_files here
    exact ⟨block, fileKernel_paged.address block, (fileKernel_paged.held block bound).clean⟩
  held := fun _ member => member.elim
  kept := fun _ member => member.elim
  table := rfl

theorem fileKernel_placed (ptr : Addr) (record : FileRecord) (here : fileKernel.files ptr = some record) :
    HeldAt fileKernel.memory.heap ptr := by
  obtain ⟨block, bound, rfl⟩ := fileKernel_files here
  exact fileKernel_heldAt bound

theorem fileKernel_name : PartList fileKernel (heapPage 3) [heapPage 1] :=
  .cons (by decide) (fileKernel_heldAt (by decide)) rfl .nil

/-- Opening the file takes three blocks, and closing it gives them back. -/
theorem fat16Open_balanced_file : ∃ log after, fat16Open (heapPage 3) .read fileKernel = (.ok (heapPage 4), after) ∧
    Balanced fileKernel after (heapPage 4) log := by
  have run : ((loggedOpen (heapPage 3) .read).run fileKernel).1 =
      .ok (heapPage 4, [.alloc (heapPage 4), .alloc (heapPage 5), .alloc (heapPage 6)]) := by decide +kernel
  obtain ⟨opened, balanced⟩ := fat16Open_balanced fileKernel_recorded (pagedHeap_ends (by decide)) rfl
    fileKernel_placed fileKernel_name (run_of_result run) (by decide)
  refine ⟨_, _, opened, balanced.mpr ?_⟩
  intro _ descriptor first allocated fatPrivate mounted
  have found : searchEntries ⟨heapAddress, 1, 2, 3⟩ (heapPage 1) 1 0
      (Kernel.newRecord 8 (.fatFileDescriptor ⟨0, 0⟩) fileKernel).2 = [singleFile] := by decide +kernel
  have disk : first.disk = singleDisk := Kernel.newRecord_disk allocated
  rw [disk] at mounted
  obtain rfl := Option.some.inj mounted
  rw [allocated] at found
  refine ⟨⟨?_, fun entry member directory => ?_⟩, fun _ _ _ _ => trivial⟩
  · exact (congrArg List.length found).le
  · rw [show entry = singleFile from List.mem_singleton.mp (found ▸ member)] at directory
    exact absurd directory (by unfold FatDirectoryItem.Subdirectory; decide)

/-- A file that is used as a directory leaves its item and the copy of its entry behind. -/
theorem fat16Open_leaks : ∃ kernel path names ptr log after, Recorded {fun _ => 0} kernel ∧
    FreeEntriesEnd kernel.memory.heap ∧ kernel.disk.sectorSize = peachosSectorSize ∧
    (∀ ptr record, kernel.files ptr = some record → HeldAt kernel.memory.heap ptr) ∧ PartList kernel path names ∧
    (loggedOpen path .read).run kernel = (.ok (ptr, log), after) ∧ NoneRefused log ∧
    ¬Balanced kernel after ptr log := by
  have run : ((loggedOpen (heapPage 2) .read).run fileKernel).1 = .ok (errorPtr (- EIO),
      [.alloc (heapPage 4), .alloc (heapPage 5), .alloc (heapPage 6), .free (heapPage 4)]) := by decide +kernel
  refine ⟨fileKernel, heapPage 2, [heapPage 1, heapPage 1], _, _, _, fileKernel_recorded,
    pagedHeap_ends (by decide), rfl, fileKernel_placed,
    .cons (by decide) (fileKernel_heldAt (by decide)) rfl fileKernel_name, run_of_result run, by decide, ?_⟩
  intro balanced
  unfold Balanced at balanced
  rw [if_pos (by decide)] at balanced
  have live : 5 ∈ liveBlocks ((loggedOpen (heapPage 2) .read).run fileKernel).2.memory.heap :=
    ⟨by decide +kernel, by decide +kernel⟩
  have free : 5 ∉ liveBlocks fileKernel.memory.heap := fun member => member.2 (by decide +kernel)
  rw [balanced.2] at live
  exact free live

end PeachOS
