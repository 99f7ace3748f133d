import PeachOS.DirectoryTree
import PeachOS.OpenBalance
import PeachOS.RootDirectory

/-! The directories of a volume as a tree on the disk, and the walk of the driver along it. Where the parts of a path lead
on the disk decides what the walk returns; the items of the directories on the way are given back. -/

namespace PeachOS
open Program ByteMemory

/-- The directory at `pos`, within `size` bytes: its live entries have different names, and `found` is the one of `name`,
which lies in reach. -/
def Lists (image : Image) (pos size : Nat) (name : List Byte) (found : Option FatDirectoryItem) : Prop :=
  ∃ count, Entries image pos count ∧ count * fatDirectoryItemSize ≤ size ∧ DistinctNames (diskEntries image pos count) ∧
    namedEntry (diskEntries image pos count) name = found ∧ InReach (diskEntries image pos count) name

/-- A directory in a data cluster that is not empty. -/
structure SubDirectory (image : Image) (header : FatHeader) (item : FatDirectoryItem) (cluster : Nat) : Prop where
  inCluster : InCluster header item cluster
  stocked : ∃ count, Entries image (clusterPos header cluster) count ∧
    count * fatDirectoryItemSize ≤ clusterSize header ∧ 0 < liveCount image (clusterPos header cluster) count

/-- Where a path leads: to a file or a directory, to nothing, or on from nothing. -/
inductive PathEnd where
  | file (item : FatDirectoryItem)
  | directory (cluster : Nat)
  | missing
  | lost

/-- Where the names lead from the directory at `pos`, which is the root directory if `top` is set. Only there the walk is
given up at a name that is missing and has others after it. -/
inductive LeadsTo (image : Image) (header : FatHeader) : (top : Bool) → (pos size : Nat) →
    (names : List (List Byte)) → PathEnd → Prop
  | file {top : Bool} {pos size : Nat} {name : List Byte} {item : FatDirectoryItem}
      (found : Lists image pos size name (some item)) (file : item.itemAttribute &&& fatFileSubdirectory = 0) :
      LeadsTo image header top pos size [name] (.file item)
  | directory {top : Bool} {pos size cluster : Nat} {name : List Byte} {item : FatDirectoryItem}
      (found : Lists image pos size name (some item)) (inner : SubDirectory image header item cluster) :
      LeadsTo image header top pos size [name] (.directory cluster)
  | blocked {top : Bool} {pos size : Nat} {name : List Byte} {names : List (List Byte)} {item : FatDirectoryItem}
      (found : Lists image pos size name (some item)) (file : item.itemAttribute &&& fatFileSubdirectory = 0)
      (more : names ≠ []) : LeadsTo image header top pos size (name :: names) .missing
  | missing {top : Bool} {pos size : Nat} {name : List Byte} {names : List (List Byte)}
      (found : Lists image pos size name none) (last : names = [] ∨ top = true) :
      LeadsTo image header top pos size (name :: names) .missing
  | lost {pos size : Nat} {name : List Byte} {names : List (List Byte)} (found : Lists image pos size name none)
      (more : names ≠ []) : LeadsTo image header false pos size (name :: names) .lost
  | down {top : Bool} {pos size cluster : Nat} {name : List Byte} {names : List (List Byte)} {item : FatDirectoryItem}
      {ending : PathEnd} (found : Lists image pos size name (some item))
      (inner : SubDirectory image header item cluster)
      (rest : LeadsTo image header false (clusterPos header cluster) (clusterSize header) names ending) :
      LeadsTo image header top pos size (name :: names) ending

/-- A string in memory that has the characters of `name`, but for their case. -/
structure Spells (kernel : Kernel) (ptr : Addr) (name : List Byte) : Prop where
  string : NameAt kernel ptr
  same : lowered (nameAt kernel ptr) = lowered name

section Walk
variable {tables : Set (Nat → Addr)} {image : Image} {header : FatHeader} {base kernel : Kernel}
  {fItem target part ptr clone : Addr} {directory : FatDirectory} {entries : List FatDirectoryItem}
  {pos size count room fuel : Nat} {name : List Byte} {names : List (List Byte)} {item : FatDirectoryItem}

theorem Spells.apart (spells : Spells base ptr name) (apart : Apart base kernel) : Spells kernel ptr name := by
  have string := spells.string
  refine ⟨⟨apart.heldAt string.held, (apart.files ptr string.held).trans string.string⟩, ?_⟩
  rw [← spells.same]
  congr 1
  apply loadBytes_congr
  intro i bound
  refine apart.bytes _ ?_
  obtain ⟨start, rfl, held⟩ := string.held
  refine ⟨start, start, held.chained, frameOf_within ?_ (by unfold peachosMaxPath at bound; omega)⟩
  exact heapBlockToAddress_aligned apart.kernelHeap.pool start

theorem OwnedBy.apart {address : Addr} (inChain : OwnedBy base.memory.heap ptr address) (apart : Apart base kernel) :
    OwnedBy kernel.memory.heap ptr address := by
  obtain ⟨start, block, same, chained, page⟩ := inChain
  exact ⟨start, block, same.trans (apart.address start).symm, apart.chained chained, page.trans (apart.address block).symm⟩

/-- What is in the chains of `base` is in chains still, byte by byte. -/
structure Unharmed (base kernel : Kernel) : Prop where
  owned : ∀ address, Owned base.memory.heap address → Owned kernel.memory.heap address
  bytes : ∀ address, Owned base.memory.heap address → kernel.memory.bytes address = base.memory.bytes address

theorem Unharmed.trans {middle : Kernel} (first : Unharmed base middle) (second : Unharmed middle kernel) :
    Unharmed base kernel where
  owned := fun address inside => second.owned address (first.owned address inside)
  bytes := fun address inside => (second.bytes address (first.owned address inside)).trans (first.bytes address inside)

theorem Apart.unharmed (apart : Apart base kernel) : Unharmed base kernel :=
  ⟨fun _ inside => apart.owned inside, apart.bytes⟩

theorem LoadedDirectory.unharmed (loaded : LoadedDirectory base directory entries) (unharmed : Unharmed base kernel) :
    LoadedDirectory kernel directory entries := by
  refine ⟨loaded.marked, loaded.total, fun i bound => ?_, fun i bound => unharmed.owned _ (loaded.owned i bound)⟩
  rw [loaded.slots i bound]
  congr 1
  symm
  apply fatDirectoryItemAt_congr
  intro j inside
  have item : fatDirectoryItemSize = 32 := rfl
  rw [BitVec.add_assoc, ← BitVec.ofNat_add]
  refine unharmed.bytes _ (loaded.owned _ ?_)
  calc
    i * fatDirectoryItemSize + j < (i + 1) * fatDirectoryItemSize := by
      rw [Nat.succ_mul]
      omega
    _ ≤ liveTotal entries * fatDirectoryItemSize := Nat.mul_le_mul_right _ bound

theorem MadeDirectory.apart {earlier : Kernel} (made : MadeDirectory earlier base target directory entries)
    (apart : Apart base kernel) : MadeDirectory earlier kernel target directory entries where
  here := (apart.files target made.held).trans made.here
  table := (apart.files directory.item made.heldTable).trans made.table
  held := apart.heldAt made.held
  heldTable := apart.heldAt made.heldTable
  new := made.new
  newTable := made.newTable
  owned := fun i bound => (made.owned i bound).apart apart
  loaded := made.loaded.unharmed apart.unharmed

theorem DirectoryItem.apart {earlier : Kernel} (found : DirectoryItem earlier base fItem target directory entries)
    (apart : Apart base kernel) : DirectoryItem earlier kernel fItem target directory entries where
  node := (apart.files fItem found.heldItem).trans found.node
  heldItem := apart.heldAt found.heldItem
  newItem := found.newItem
  directory := found.directory.apart apart

theorem Lists.lookUp {found : Option FatDirectoryItem} (lists : Lists image pos size name found)
    (ready : Ready tables image header room kernel) (listed : Entries image pos count)
    (loaded : LoadedDirectory kernel directory (diskEntries image pos count)) (spells : Spells kernel ptr name) :
    fat16FindItemInDirectory directory ptr kernel = match found with
      | some item => fat16NewFatItemForDirectoryItem item kernel
      | none => (.ok 0, kernel) := by
  obtain ⟨other, also, _, distinct, entry, reach⟩ := lists
  obtain rfl := listed.unique also
  have alongside := ready.alongside (Apart.refl ready.sound)
  rw [← namedEntry_congr spells.same] at entry
  have near := reach.congr spells.same.symm
  cases found with
  | some item => exact loaded.find alongside distinct spells.string entry near
  | none => exact loaded.find_none alongside spells.string entry near

theorem FoundFile.left {earlier after : Kernel} {last : Addr} (found : FoundFile kernel earlier last clone item)
    (parent : DirectoryItem base kernel fItem target directory entries)
    (kept : DirectoryItem base earlier fItem target directory entries) (apart : Apart base kernel)
    (others : ∀ other, HeldAt earlier.memory.heap other → other ≠ fItem → other ≠ target → other ≠ directory.item →
      HeldAt after.memory.heap other ∧ after.files other = earlier.files other) : FoundFile base after last clone item := by
  have kinds : ∀ {first second : Addr} {one two : FileRecord}, earlier.files first = some one →
      earlier.files second = some two → one ≠ two → first ≠ second := by
    intro first second one two here there different same
    rw [same, there] at here
    exact different (Option.some.inj here).symm
  have lastOther : last ≠ fItem := fun same => found.new (same ▸ parent.heldItem)
  obtain ⟨held, node⟩ := others last found.held lastOther
    (kinds found.file.node kept.directory.here nofun) (kinds found.file.node kept.directory.table nofun)
  obtain ⟨heldClone, entry⟩ := others clone found.heldClone (kinds found.file.entry kept.node nofun)
    (kinds found.file.entry kept.directory.here nofun) (kinds found.file.entry kept.directory.table nofun)
  exact ⟨⟨node.trans found.file.node, entry.trans found.file.entry⟩, held, heldClone,
    fun held => found.new (apart.heldAt held), fun held => found.newClone (apart.heldAt held)⟩

section Lookup
variable {cluster : Nat}

theorem Lists.makeFile (lists : Lists image pos size name (some item))
    (file : item.itemAttribute &&& fatFileSubdirectory = 0)
    (ready : Ready tables image header (room + 2) kernel) (listed : Entries image pos count)
    (loaded : LoadedDirectory kernel directory (diskEntries image pos count)) (spells : Spells kernel ptr name) :
    ∃ last clone after, fat16FindItemInDirectory directory ptr kernel = (.ok last, after) ∧
      Ready tables image header room after ∧ Apart kernel after ∧ FoundFile kernel after last clone item := by
  obtain ⟨last, clone, after, made, afterReady, apart, found⟩ := ready.newFile file
  exact ⟨last, clone, after, (lists.lookUp ready listed loaded spells).trans made, afterReady, apart, found⟩

theorem Lists.makeDirectory (lists : Lists image pos size name (some item))
    (inner : SubDirectory image header item cluster)
    (ready : Ready tables image header (room + tableBlocks header + 2) kernel) (listed : Entries image pos count)
    (loaded : LoadedDirectory kernel directory (diskEntries image pos count)) (spells : Spells kernel ptr name) :
    ∃ last child record inside after, fat16FindItemInDirectory directory ptr kernel = (.ok last, after) ∧
      Ready tables image header room after ∧ Apart kernel after ∧ Entries image (clusterPos header cluster) inside ∧
      DirectoryItem kernel after last child record (diskEntries image (clusterPos header cluster) inside) := by
  obtain ⟨inside, entries, short, live⟩ := inner.stocked
  obtain ⟨last, child, record, after, made, afterReady, apart, entered⟩ :=
    ready.newDirectory inner.inCluster entries live short
  exact ⟨last, child, record, inside, after, (lists.lookUp ready listed loaded spells).trans made, afterReady, apart,
    entries, entered⟩

/-- After a lookup in a directory the directory is given back, and what was found in it stays. -/
theorem DirectoryItem.leave (parent : DirectoryItem base kernel fItem target directory entries) (apart : Apart base kernel)
    {middle : Kernel} (beside : Apart kernel middle) (ready : Ready tables image header room middle) : ∃ left,
      fat16FatItemFree fItem middle = (.ok (), left) ∧ Ready tables image header room left ∧ Apart base left ∧
      (∀ {last clone : Addr} {item : FatDirectoryItem}, FoundFile kernel middle last clone item →
        FoundFile base left last clone item) ∧
      ∀ {last child : Addr} {record : FatDirectory} {listed : List FatDirectoryItem},
        DirectoryItem kernel middle last child record listed → DirectoryItem base left last child record listed := by
  have kept := parent.apart beside
  obtain ⟨left, freed, leftReady, leftApart, stay, stayDirectory⟩ := ready.itemFree kept (apart.trans beside)
  refine ⟨left, freed, leftReady, leftApart, fun file => file.left parent kept apart stay, ?_⟩
  intro last child record listed entered
  -- what was held before the lookup is none of what it made
  have apartFrom : ∀ {ptr other : Addr}, ¬HeldAt kernel.memory.heap ptr → HeldAt kernel.memory.heap other →
      ptr ≠ other := fun new held same => new (same ▸ held)
  have made := parent.directory
  have childMade := entered.directory
  obtain ⟨held, node⟩ := stay last entered.heldItem (apartFrom entered.newItem parent.heldItem)
    (apartFrom entered.newItem made.held) (apartFrom entered.newItem made.heldTable)
  have childLeft := stayDirectory kernel child record listed childMade (apartFrom childMade.new parent.heldItem)
    (apartFrom childMade.new made.held) (apartFrom childMade.new made.heldTable)
    (apartFrom childMade.newTable parent.heldItem) (apartFrom childMade.newTable made.held)
    (apartFrom childMade.newTable made.heldTable)
  exact ⟨node.trans entered.node, held, fun held => entered.newItem (apart.heldAt held),
    childLeft.mono (fun held => apart.heldAt held)⟩

/-- One round of the walk, after its lookup. -/
theorem DirectoryItem.step (parent : DirectoryItem base kernel fItem target directory entries) (apart : Apart base kernel)
    (alongside : Alongside tables base kernel) (nonnull : part ≠ 0) (heldPart : HeldAt base.memory.heap part)
    {following next : Addr} (here : base.files part = some (.pathPart ⟨ptr, following⟩)) {middle : Kernel}
    (found : fat16FindItemInDirectory directory ptr kernel = (.ok next, middle)) (beside : Apart kernel middle)
    (ready : Ready tables image header room middle) : ∃ left,
      (∀ fuel, fat16GetDirectoryEntryLoop (fuel + 1) part fItem kernel =
        fat16GetDirectoryEntryLoop fuel following next left) ∧
      Ready tables image header room left ∧ Apart base left ∧
      (∀ {last clone : Addr} {item : FatDirectoryItem}, FoundFile kernel middle last clone item →
        FoundFile base left last clone item) ∧
      ∀ {last child : Addr} {record : FatDirectory} {listed : List FatDirectoryItem},
        DirectoryItem kernel middle last child record listed → DirectoryItem base left last child record listed := by
  obtain ⟨left, freed, rest⟩ := parent.leave apart beside ready
  exact ⟨left, fun fuel => alongside.walk_down nonnull heldPart here ⟨target, parent.node, parent.directory.here⟩ found
    freed fuel, rest⟩

end Lookup

section Orderly
variable {cluster : Nat}

theorem SubDirectory.tableReads (inner : SubDirectory image header item cluster)
    (ready : Ready tables image header room kernel) : TableReads kernel.disk item := by
  intro fatPrivate total counted out bytes res stored left mounted count reading
  obtain ⟨inside, entries, short, _⟩ := inner.stocked
  have counting := fat16GetTotalItems_run ready.directories ready.volume.content ready.volume.sector
    (rfl : _ = clusterPos header cluster) entries (entries_few short)
  rw [inner.inCluster.first] at count reading
  rw [inner.inCluster.sector ready.volume mounted, counting] at count
  cases count
  have within := (Nat.mul_le_mul_right fatDirectoryItemSize (liveCount_le image (clusterPos header cluster) inside)).trans
    short
  have small := clusterSize_lt header
  have low := inner.inCluster.low
  have signed : (BitVec.ofInt 32 ((liveCount image (clusterPos header cluster) inside : Int) *
      (fatDirectoryItemSize : Nat))).toInt =
      (liveCount image (clusterPos header cluster) inside * fatDirectoryItemSize : Nat) := by
    rw [← Int.natCast_mul, BitVec.ofInt_natCast, word_toInt (by omega)]
  obtain ⟨_, _, run⟩ := fat16ReadInternal_first (ready.volume.onDirectory _) inner.inCluster.data
    (clusterSize_pos ready.volume) within (by omega) out bytes
  rw [signed] at reading
  cases run.symm.trans reading
  rfl

/-- The lookup of a name that its directory lists takes the entry of that name alone. -/
theorem Lists.takesOne (lists : Lists image pos size name (some item)) (ready : Ready tables image header room kernel)
    (listed : Entries image pos count) (loaded : LoadedDirectory kernel directory (diskEntries image pos count))
    (spells : Spells kernel ptr name) {last : Addr} {after : Kernel}
    (made : fat16FindItemInDirectory directory ptr kernel = (.ok last, after))
    (reads : item.Subdirectory → TableReads kernel.disk item) : TakesOne kernel directory ptr := by
  have looked : fat16NewFatItemForDirectoryItem item kernel = (.ok last, after) :=
    (lists.lookUp ready listed loaded spells).symm.trans made
  obtain ⟨other, also, _, distinct, entry, reach⟩ := lists
  obtain rfl := listed.unique also
  rw [← namedEntry_congr spells.same] at entry
  obtain ⟨i, bound, slot, named, others⟩ := loaded.slot distinct entry (reach.congr spells.same.symm)
  have single : searchEntries directory ptr directory.total.toNat 0 kernel = [item] := by
    rw [loaded.total, Int.toNat_natCast, ← slot]
    rw [← slot] at named looked
    exact searchEntries_one (ready.alongside (Apart.refl ready.sound)) ⟨loaded.owned, spells.string⟩ _ 0 (by omega)
      (Nat.zero_le i) (by omega) named (fun j _ high => others j (by omega)) looked
  constructor
  · rw [single]
    exact le_rfl
  · intro taken member
    rw [single, List.mem_singleton] at member
    rw [member]
    exact reads

end Orderly

/-- What the walk returns, by where its parts lead. -/
def Arrives (tables : Set (Nat → Addr)) (image : Image) (header : FatHeader) (room : Nat) (base : Kernel)
    (run : Except Stop Addr × Kernel) : PathEnd → Prop
  | .file item => ∃ last clone after, run = (.ok last, after) ∧ Ready tables image header room after ∧
      Apart base after ∧ FoundFile base after last clone item
  | .directory cluster => ∃ last child record count after, run = (.ok last, after) ∧
      Ready tables image header room after ∧ Apart base after ∧ Entries image (clusterPos header cluster) count ∧
      DirectoryItem base after last child record (diskEntries image (clusterPos header cluster) count)
  | .missing => ∃ after, run = (.ok 0, after) ∧ Ready tables image header room after ∧ Apart base after
  | .lost => ∃ after, run = (.error .fault, after)

theorem PartList.stuck {ptrs : List Addr} (parts : PartList base part ptrs) (more : ptrs ≠ []) (fuel : Nat) :
    (∀ {clone : Addr}, kernel.files fItem = some (.fatItem ⟨clone, .file⟩) →
      fat16GetDirectoryEntryLoop (fuel + 1) part fItem kernel = (.ok 0, kernel)) ∧
    (kernel.files fItem = none → fat16GetDirectoryEntryLoop (fuel + 1) part fItem kernel = (.error .fault, kernel)) := by
  cases parts with
  | nil => exact absurd rfl more
  | cons nonnull held here rest =>
    constructor
    · intro clone node
      rw [fat16GetDirectoryEntryLoop, if_neg nonnull,
        bind_ok (Kernel.record_run node (rfl : FileRecord.asFatItem _ = some ⟨clone, .file⟩)),
        if_pos (by show FatItemType.file ≠ FatItemType.directory; decide)]
      rfl
    · intro gone
      rw [fat16GetDirectoryEntryLoop, if_neg nonnull]
      exact bind_error (Kernel.record_fault (by rw [gone]; rfl))

theorem PartList.finished {ptrs : List Addr} (parts : PartList base part ptrs) (done : ptrs = []) (fuel : Nat) :
    fat16GetDirectoryEntryLoop (fuel + 1) part fItem kernel = (.ok fItem, kernel) := by
  cases parts with
  | nil => rfl
  | cons => cases done

/-- The walk from the item of a directory on the way. -/
theorem LeadsTo.walk {ending : PathEnd} (leads : LeadsTo image header false pos size names ending) {ptrs : List Addr}
    (parts : PartList base part ptrs) (spelled : List.Forall₂ (Spells base) ptrs names) (enough : names.length < fuel)
    (listed : Entries image pos count) (apart : Apart base kernel)
    (ready : Ready tables image header (room + names.length * (tableBlocks header + 2)) kernel)
    (parent : DirectoryItem base kernel fItem target directory (diskEntries image pos count)) :
    Arrives tables image header room base (fat16GetDirectoryEntryLoop fuel part fItem kernel) ending := by
  generalize inside : false = top at leads
  induction leads generalizing part ptrs fuel fItem target directory count kernel with
  | @file top pos size name item found file =>
    cases spelled with
    | @cons _ _ ptrs _ spells others =>
      cases parts with
      | @cons _ next _ _ nonnull heldPart here rest =>
        obtain ⟨fuel, rfl⟩ : ∃ less, fuel = less + 2 := ⟨fuel - 2, by rw [List.length_singleton] at enough; omega⟩
        rw [List.length_singleton, one_mul] at ready
        obtain ⟨last, clone, middle, looked, middleReady, beside, made⟩ := found.makeFile file
          (ready.less (by omega : room + 2 ≤ _)) listed parent.directory.loaded (spells.apart apart)
        obtain ⟨left, step, leftReady, leftApart, stays, _⟩ :=
          parent.step apart (ready.alongside apart) nonnull heldPart here looked beside middleReady
        exact ⟨last, clone, left, (step _).trans (rest.finished (List.forall₂_nil_right_iff.mp others) fuel), leftReady,
          leftApart, stays made⟩
  | @directory top pos size cluster name item found inner =>
    cases spelled with
    | @cons _ _ ptrs _ spells others =>
      cases parts with
      | @cons _ next _ _ nonnull heldPart here rest =>
        obtain ⟨fuel, rfl⟩ : ∃ less, fuel = less + 2 := ⟨fuel - 2, by rw [List.length_singleton] at enough; omega⟩
        rw [List.length_singleton, one_mul, ← Nat.add_assoc] at ready
        obtain ⟨last, child, record, _, middle, looked, middleReady, beside, entries, made⟩ := found.makeDirectory inner
          ready listed parent.directory.loaded (spells.apart apart)
        obtain ⟨left, step, leftReady, leftApart, _, stays⟩ :=
          parent.step apart (ready.alongside apart) nonnull heldPart here looked beside middleReady
        exact ⟨last, child, record, _, left, (step _).trans (rest.finished (List.forall₂_nil_right_iff.mp others) fuel),
          leftReady, leftApart, entries, stays made⟩
  | @blocked top pos size name names item found file more =>
    cases spelled with
    | @cons _ _ ptrs _ spells others =>
      cases parts with
      | @cons _ next _ _ nonnull heldPart here rest =>
        have several := List.length_pos_iff.mpr more
        rw [List.length_cons] at enough ready
        obtain ⟨fuel, rfl⟩ : ∃ less, fuel = less + 2 := ⟨fuel - 2, by omega⟩
        obtain ⟨last, clone, middle, looked, middleReady, beside, made⟩ := found.makeFile file
          (ready.less (by rw [Nat.succ_mul]; omega : room + 2 ≤ _)) listed parent.directory.loaded (spells.apart apart)
        obtain ⟨left, step, leftReady, leftApart, stays, _⟩ :=
          parent.step apart (ready.alongside apart) nonnull heldPart here looked beside middleReady
        have some' : ptrs ≠ [] := fun none' => more (List.forall₂_nil_left_iff.mp (none' ▸ others))
        exact ⟨left, (step _).trans ((rest.stuck some' fuel).1 (stays made).file.node), leftReady, leftApart⟩
  | @missing top pos size name names found last =>
    cases spelled with
    | @cons _ _ ptrs _ spells others =>
      cases parts with
      | @cons _ next _ _ nonnull heldPart here rest =>
        obtain rfl : names = [] := last.resolve_right (fun top => Bool.false_ne_true (inside.trans top))
        obtain ⟨fuel, rfl⟩ : ∃ less, fuel = less + 2 := ⟨fuel - 2, by rw [List.length_singleton] at enough; omega⟩
        have looked := found.lookUp ready listed parent.directory.loaded (spells.apart apart)
        obtain ⟨left, step, leftReady, leftApart, _⟩ := parent.step apart (ready.alongside apart) nonnull heldPart here
          looked (Apart.refl ready.sound) (ready.less (by omega : room ≤ _))
        exact ⟨left, (step _).trans (rest.finished (List.forall₂_nil_right_iff.mp others) fuel), leftReady, leftApart⟩
  | @lost pos size name names found more =>
    cases spelled with
    | @cons _ _ ptrs _ spells others =>
      cases parts with
      | @cons _ next _ _ nonnull heldPart here rest =>
        have several := List.length_pos_iff.mpr more
        rw [List.length_cons] at enough
        obtain ⟨fuel, rfl⟩ : ∃ less, fuel = less + 2 := ⟨fuel - 2, by omega⟩
        have looked := found.lookUp ready listed parent.directory.loaded (spells.apart apart)
        obtain ⟨left, step, leftReady, leftApart, _⟩ := parent.step apart (ready.alongside apart) nonnull heldPart here
          looked (Apart.refl ready.sound) (ready.less (by omega : room ≤ _))
        have some' : ptrs ≠ [] := fun none' => more (List.forall₂_nil_left_iff.mp (none' ▸ others))
        exact ⟨left, (step _).trans ((rest.stuck some' fuel).2 leftReady.recorded.null)⟩
  | @down top pos size cluster name names item ending found inner rest ih =>
    cases spelled with
    | @cons _ _ ptrs _ spells others =>
      cases parts with
      | @cons _ next _ _ nonnull heldPart here following =>
        obtain ⟨fuel, rfl⟩ : ∃ less, fuel = less + 1 := ⟨fuel - 1, by omega⟩
        rw [List.length_cons] at enough ready
        rw [Nat.succ_mul, ← Nat.add_assoc, ← Nat.add_assoc] at ready
        obtain ⟨last, child, record, _, middle, looked, middleReady, beside, entries, made⟩ := found.makeDirectory inner
          ready listed parent.directory.loaded (spells.apart apart)
        obtain ⟨left, step, leftReady, leftApart, _, stays⟩ :=
          parent.step apart (ready.alongside apart) nonnull heldPart here looked beside middleReady
        rw [step]
        exact ih following others (show names.length < fuel by omega) entries leftApart leftReady (stays made) rfl

theorem PartList.apart {ptrs : List Addr} (parts : PartList base part ptrs) (apart : Apart base kernel) :
    PartList kernel part ptrs := by
  induction parts with
  | nil => exact .nil
  | cons nonnull held here _ ih => exact .cons nonnull (apart.heldAt held) ((apart.files _ held).trans here) ih

/-- A volume whose root directory is in memory as it is on the disk. -/
structure Rooted (kernel : Kernel) (image : Image) (header : FatHeader) (count : Nat) : Prop where
  listed : Entries image (rootPosition header) count
  loaded : ∃ fatPrivate, kernel.disk.fsPrivate = some fatPrivate ∧
    LoadedDirectory kernel fatPrivate.rootDirectory (diskEntries image (rootPosition header) count)

theorem Rooted.unharmed (rooted : Rooted base image header count) (unharmed : Unharmed base kernel)
    (disk : kernel.disk.streamless = base.disk.streamless) : Rooted kernel image header count := by
  obtain ⟨fatPrivate, mounted, loaded⟩ := rooted.loaded
  have volumes : kernel.disk.streamless.fsPrivate = base.disk.streamless.fsPrivate := congrArg Disk.fsPrivate disk
  unfold Disk.streamless Disk.withPrivate at volumes
  dsimp only at volumes
  rw [mounted, Option.map_some, Option.map_eq_some_iff] at volumes
  obtain ⟨volume, there, same⟩ := volumes
  have root : volume.rootDirectory = fatPrivate.rootDirectory := (FatPrivate.mk.inj same).2.1
  exact ⟨rooted.listed, volume, there, root ▸ loaded.unharmed unharmed⟩

theorem LeadsTo.entry {ending : PathEnd} (leads : LeadsTo image header true (rootPosition header) size names ending)
    {ptrs : List Addr} (parts : PartList kernel part ptrs) (spelled : List.Forall₂ (Spells kernel) ptrs names)
    (short : names.length ≤ peachosMaxPath) (rooted : Rooted kernel image header count)
    (ready : Ready tables image header (room + names.length * (tableBlocks header + 2)) kernel) :
    Arrives tables image header room kernel (fat16GetDirectoryEntry part kernel) ending := by
  obtain ⟨fatPrivate, mounted, loaded⟩ := rooted.loaded
  have apart := Apart.refl ready.sound
  have start : ∀ {ptr next root : Addr} {middle : Kernel}, kernel.files part = some (.pathPart ⟨ptr, next⟩) →
      fat16FindItemInDirectory fatPrivate.rootDirectory ptr kernel = (.ok root, middle) →
      fat16GetDirectoryEntry part kernel = (if root = 0 then pure 0
        else fat16GetDirectoryEntryLoop peachosMaxPath next root : KernelProg Addr) middle := by
    intro ptr next root middle here found
    have looked : Kernel.onDisk fsPrivate kernel = (.ok fatPrivate, kernel) := by
      unfold Kernel.onDisk fsPrivate
      rw [read_bind, mounted]
      rfl
    unfold fat16GetDirectoryEntry
    exact (bind_ok looked).trans
      ((bind_ok (Kernel.record_run here (rfl : FileRecord.asPathPart _ = some ⟨ptr, next⟩))).trans (bind_ok found))
  have nonnull : ∀ {ptr : Addr} {after : Kernel}, Ready tables image header room after →
      HeldAt after.memory.heap ptr → ptr ≠ 0 :=
    fun ready held null => not_heldAt_null _ ready.freeEnd.kernel (null ▸ held)
  generalize outermost : true = top at leads
  cases leads with
  | @file _ _ _ name item found file =>
    cases spelled with
    | @cons _ _ ptrs _ spells others =>
      cases parts with
      | @cons _ next _ _ _ _ here rest =>
        rw [List.length_singleton, one_mul] at ready
        obtain ⟨last, clone, middle, looked, middleReady, beside, made⟩ := found.makeFile file
          (ready.less (by omega : room + 2 ≤ _)) rooted.listed loaded spells
        have walked := (start here looked).trans (congrFun (if_neg (nonnull middleReady made.held)) middle)
        exact ⟨last, clone, middle, walked.trans (rest.finished (List.forall₂_nil_right_iff.mp others) 107),
          middleReady, beside, made⟩
  | @directory _ _ _ cluster name item found inner =>
    cases spelled with
    | @cons _ _ ptrs _ spells others =>
      cases parts with
      | @cons _ next _ _ _ _ here rest =>
        rw [List.length_singleton, one_mul, ← Nat.add_assoc] at ready
        obtain ⟨last, child, record, _, middle, looked, middleReady, beside, entries, made⟩ := found.makeDirectory inner
          ready rooted.listed loaded spells
        have walked := (start here looked).trans (congrFun (if_neg (nonnull middleReady made.heldItem)) middle)
        exact ⟨last, child, record, _, middle, walked.trans (rest.finished (List.forall₂_nil_right_iff.mp others) 107),
          middleReady, beside, entries, made⟩
  | @blocked _ _ _ name names item found file more =>
    cases spelled with
    | @cons _ _ ptrs _ spells others =>
      cases parts with
      | @cons _ next _ _ _ _ here rest =>
        rw [List.length_cons, Nat.succ_mul] at ready
        obtain ⟨last, clone, middle, looked, middleReady, beside, made⟩ := found.makeFile file
          (ready.less (by omega : room + 2 ≤ _)) rooted.listed loaded spells
        have walked := (start here looked).trans (congrFun (if_neg (nonnull middleReady made.held)) middle)
        have some' : ptrs ≠ [] := fun none' => more (List.forall₂_nil_left_iff.mp (none' ▸ others))
        exact ⟨middle, walked.trans ((rest.stuck some' 107).1 made.file.node), middleReady, beside⟩
  | @missing _ _ _ name names found last =>
    cases spelled with
    | @cons _ _ ptrs _ spells others =>
      cases parts with
      | @cons _ next _ _ _ _ here rest =>
        have looked := found.lookUp ready rooted.listed loaded spells
        exact ⟨kernel, (start here looked).trans (congrFun (if_pos rfl) kernel), ready.less (by omega), apart⟩
  | lost => cases outermost
  | @down _ _ _ cluster name names item _ found inner rest =>
    cases spelled with
    | @cons _ _ ptrs _ spells others =>
      cases parts with
      | @cons _ next _ _ _ _ here following =>
        rw [List.length_cons] at short
        rw [List.length_cons, Nat.succ_mul, ← Nat.add_assoc, ← Nat.add_assoc] at ready
        obtain ⟨last, child, record, _, middle, looked, middleReady, beside, entries, made⟩ := found.makeDirectory inner
          ready rooted.listed loaded spells
        have last' : last ≠ 0 := fun null => not_heldAt_null _ middleReady.freeEnd.kernel (null ▸ made.heldItem)
        rw [(start here looked).trans (congrFun (if_neg last') middle)]
        exact rest.walk following others (show names.length < peachosMaxPath by omega) entries beside middleReady made

/-- Where the walk arrives at a file or a directory, each of its lookups takes one entry, and gives nothing up. -/
theorem LeadsTo.orderlyFrom {ending : PathEnd} (leads : LeadsTo image header false pos size names ending)
    (missing : ending ≠ .missing) (lost : ending ≠ .lost) {ptrs : List Addr}
    (spelled : List.Forall₂ (Spells base) ptrs names) (listed : Entries image pos count) (apart : Apart base kernel)
    (ready : Ready tables image header (room + names.length * (tableBlocks header + 2)) kernel)
    (parent : DirectoryItem base kernel fItem target directory (diskEntries image pos count)) :
    OrderlyFrom ptrs kernel fItem := by
  have enters : ∀ {kernel : Kernel} {fItem target : Addr} {directory : FatDirectory} {entries : List FatDirectoryItem},
      DirectoryItem base kernel fItem target directory entries → Enters kernel fItem directory :=
    fun parent => ⟨_, parent.node, parent.directory.here⟩
  generalize inside : false = top at leads
  induction leads generalizing ptrs fItem target directory count kernel with
  | @file top pos size name item found file =>
    cases spelled with
    | @cons _ _ ptrs _ spells others =>
      obtain rfl := List.forall₂_nil_right_iff.mp others
      rw [List.length_singleton, one_mul] at ready
      obtain ⟨last, clone, middle, looked, _⟩ := found.makeFile file (ready.less (by omega : room + 2 ≤ _)) listed
        parent.directory.loaded (spells.apart apart)
      exact ⟨directory, enters parent, found.takesOne ready listed parent.directory.loaded (spells.apart apart) looked
        (fun subdirectory => absurd file subdirectory), fun _ _ _ _ _ => trivial⟩
  | @directory top pos size cluster name item found inner =>
    cases spelled with
    | @cons _ _ ptrs _ spells others =>
      obtain rfl := List.forall₂_nil_right_iff.mp others
      rw [List.length_singleton, one_mul, ← Nat.add_assoc] at ready
      obtain ⟨last, child, record, _, middle, looked, _⟩ := found.makeDirectory inner ready listed
        parent.directory.loaded (spells.apart apart)
      exact ⟨directory, enters parent, found.takesOne ready listed parent.directory.loaded (spells.apart apart) looked
        (fun _ => inner.tableReads ready), fun _ _ _ _ _ => trivial⟩
  | blocked => exact absurd rfl missing
  | missing => exact absurd rfl missing
  | lost => exact absurd rfl lost
  | @down top pos size cluster name names item ending found inner rest ih =>
    cases spelled with
    | @cons _ _ ptrs _ spells others =>
      rw [List.length_cons, Nat.succ_mul, ← Nat.add_assoc, ← Nat.add_assoc] at ready
      obtain ⟨last, child, record, _, middle, looked, middleReady, beside, entries, made⟩ := found.makeDirectory inner
        ready listed parent.directory.loaded (spells.apart apart)
      obtain ⟨left, freed, leftReady, leftApart, _, stays⟩ := parent.leave apart beside middleReady
      exact (OrderlyFrom.cons_iff (enters parent) looked freed).mpr
        ⟨found.takesOne ready listed parent.directory.loaded (spells.apart apart) looked (fun _ => inner.tableReads ready),
          ih missing lost others entries leftApart leftReady (stays made) rfl⟩

theorem LeadsTo.orderlyPath {ending : PathEnd}
    (leads : LeadsTo image header true (rootPosition header) size names ending) (missing : ending ≠ .missing)
    (lost : ending ≠ .lost) {ptrs : List Addr} (spelled : List.Forall₂ (Spells kernel) ptrs names)
    (rooted : Rooted kernel image header count)
    (ready : Ready tables image header (room + names.length * (tableBlocks header + 2)) kernel) :
    OrderlyPath kernel ptrs := by
  obtain ⟨fatPrivate, mounted, loaded⟩ := rooted.loaded
  -- the first lookup is in the root directory, which stays
  have starts : ∀ {name : Addr} {ptrs : List Addr} {root : Addr} {middle : Kernel},
      fat16FindItemInDirectory fatPrivate.rootDirectory name kernel = (.ok root, middle) →
      TakesOne kernel fatPrivate.rootDirectory name → OrderlyFrom ptrs middle root → OrderlyPath kernel (name :: ptrs) := by
    intro name ptrs root middle looked takes rest volume here
    cases mounted.symm.trans here
    refine ⟨takes, ?_⟩
    intro root' middle' looked' _
    cases looked.symm.trans looked'
    exact rest
  generalize outermost : true = top at leads
  cases leads with
  | @file _ _ _ name item found file =>
    cases spelled with
    | @cons _ _ ptrs _ spells others =>
      obtain rfl := List.forall₂_nil_right_iff.mp others
      rw [List.length_singleton, one_mul] at ready
      obtain ⟨last, clone, middle, looked, _⟩ := found.makeFile file (ready.less (by omega : room + 2 ≤ _))
        rooted.listed loaded spells
      exact starts looked (found.takesOne ready rooted.listed loaded spells looked
        (fun subdirectory => absurd file subdirectory)) trivial
  | @directory _ _ _ cluster name item found inner =>
    cases spelled with
    | @cons _ _ ptrs _ spells others =>
      obtain rfl := List.forall₂_nil_right_iff.mp others
      rw [List.length_singleton, one_mul, ← Nat.add_assoc] at ready
      obtain ⟨last, child, record, _, middle, looked, _⟩ := found.makeDirectory inner ready rooted.listed loaded spells
      exact starts looked (found.takesOne ready rooted.listed loaded spells looked (fun _ => inner.tableReads ready))
        trivial
  | blocked => exact absurd rfl missing
  | missing => exact absurd rfl missing
  | lost => exact absurd rfl lost
  | @down _ _ _ cluster name names item _ found inner rest =>
    cases spelled with
    | @cons _ _ ptrs _ spells others =>
      rw [List.length_cons, Nat.succ_mul, ← Nat.add_assoc, ← Nat.add_assoc] at ready
      obtain ⟨last, child, record, _, middle, looked, middleReady, beside, entries, made⟩ := found.makeDirectory inner
        ready rooted.listed loaded spells
      exact starts looked (found.takesOne ready rooted.listed loaded spells looked (fun _ => inner.tableReads ready))
        (rest.orderlyFrom missing lost others entries beside middleReady made)

/-- The open of a path that leads to a file or a directory on the disk is orderly. -/
theorem LeadsTo.orderly {ending : PathEnd} (leads : LeadsTo image header true (rootPosition header) size names ending)
    (missing : ending ≠ .missing) (lost : ending ≠ .lost) {ptrs : List Addr}
    (spelled : List.Forall₂ (Spells kernel) ptrs names) (rooted : Rooted kernel image header count)
    (ready : Ready tables image header (room + names.length * (tableBlocks header + 2) + 1) kernel) (mode : FileMode) :
    Orderly kernel mode ptrs := by
  intro _ descriptor opened allocation
  obtain ⟨_, first, allocated, firstReady, made⟩ :=
    ready.newSmall (show Roundable 8 by decide) (by decide) (.fatFileDescriptor ⟨0, 0⟩)
  cases allocated.symm.trans allocation
  exact leads.orderlyPath missing lost (spelled.imp (fun _ _ spells => spells.apart made.apart))
    (rooted.unharmed made.apart.unharmed (congrArg Disk.streamless made.disk)) firstReady

/-- What `fat16_open` returns, by where the parts lead. -/
def Opens (tables : Set (Nat → Addr)) (image : Image) (header : FatHeader) (room : Nat) (base : Kernel)
    (run : Except Stop Addr × Kernel) : PathEnd → Prop
  | .file item => ∃ descriptor last clone after, run = (.ok descriptor, after) ∧ isErr descriptor = false ∧
      Ready tables image header room after ∧ Apart base after ∧ HeldAt after.memory.heap descriptor ∧
      ¬HeldAt base.memory.heap descriptor ∧ after.files descriptor = some (.fatFileDescriptor ⟨last, 0⟩) ∧
      FoundFile base after last clone item
  | .directory _ => ∃ descriptor after, run = (.ok descriptor, after) ∧ isErr descriptor = false ∧
      Ready tables image header room after
  | .missing => ∃ after, run = (.ok (errorPtr (- EIO)), after)
  | .lost => ∃ after, run = (.error .fault, after)

theorem LeadsTo.opens {ending : PathEnd} (leads : LeadsTo image header true (rootPosition header) size names ending)
    {ptrs : List Addr} (parts : PartList kernel part ptrs) (spelled : List.Forall₂ (Spells kernel) ptrs names)
    (short : names.length ≤ peachosMaxPath) (rooted : Rooted kernel image header count)
    (ready : Ready tables image header (room + names.length * (tableBlocks header + 2) + 1) kernel) :
    Opens tables image header room kernel (fat16Open part .read kernel) ending := by
  obtain ⟨descriptor, first, allocated, firstReady, made⟩ :=
    ready.newSmall (show Roundable 8 by decide) (by decide) (.fatFileDescriptor ⟨0, 0⟩)
  obtain ⟨heldDescriptor, blank⟩ := made.new.own (by decide)
  have spelledFirst : List.Forall₂ (Spells first) ptrs names := spelled.imp (fun _ _ spells => spells.apart made.apart)
  have rootedFirst := rooted.unharmed made.apart.unharmed (congrArg Disk.streamless made.disk)
  have arrives := leads.entry (parts.apart made.apart) spelledFirst short rootedFirst firstReady
  have start : ∀ {last : Addr} {second : Kernel}, fat16GetDirectoryEntry part first = (.ok last, second) →
      Apart first second → fat16Open part .read kernel = (if last = 0 then do
          Kernel.freeRecord FileRecord.asFatFileDescriptor descriptor
          pure (errorPtr (- EIO))
        else pure descriptor : KernelProg Addr)
        (second.setFiles (Function.update second.files descriptor (some (.fatFileDescriptor ⟨last, 0⟩)))) := by
    intro last second entry apart
    have written := Kernel.writeRecord_run FileRecord.asFatFileDescriptor
      ((apart.files descriptor heldDescriptor).trans blank) rfl (.fatFileDescriptor ⟨last, 0⟩)
    unfold fat16Open
    refine (congrFun (if_neg (by decide)) _).trans ((bind_ok allocated).trans ?_)
    exact (congrFun (if_neg made.new.nonnull) _).trans ((bind_ok entry).trans (bind_ok written))
  have opened : ∀ {last : Addr} {second : Kernel}, fat16GetDirectoryEntry part first = (.ok last, second) →
      Apart first second → Ready tables image header room second → last ≠ 0 → ∃ after,
      fat16Open part .read kernel = (.ok descriptor, after) ∧ isErr descriptor = false ∧
      Ready tables image header room after ∧ Apart kernel after ∧
      after = second.setFiles (Function.update second.files descriptor (some (.fatFileDescriptor ⟨last, 0⟩))) := by
    intro last second entry apart secondReady nonnull
    obtain ⟨run, written⟩ := secondReady.writeRecord FileRecord.asFatFileDescriptor
      ((apart.files descriptor heldDescriptor).trans blank) rfl (.fatFileDescriptor ⟨last, 0⟩)
    exact ⟨_, (start entry apart).trans (congrFun (if_neg nonnull) _),
      HeldAt.not_err secondReady.freeEnd.kernel (apart.heldAt heldDescriptor), written,
      (made.apart.trans apart).writeRecord made.new.fresh run, rfl⟩
  cases ending with
  | file item =>
    obtain ⟨last, clone, second, entry, secondReady, apart, found⟩ := arrives
    have nonnull : last ≠ 0 := fun null => not_heldAt_null _ secondReady.freeEnd.kernel (null ▸ found.held)
    obtain ⟨after, run, good, afterReady, beside, rfl⟩ := opened entry apart secondReady nonnull
    have lastOther : last ≠ descriptor := fun same => found.new (same ▸ heldDescriptor)
    have cloneOther : clone ≠ descriptor := by
      rintro rfl
      have kind := (apart.files _ heldDescriptor).trans blank
      rw [found.file.entry] at kind
      cases kind
    exact ⟨descriptor, last, clone, _, run, good, afterReady, beside, apart.heldAt heldDescriptor, made.new.fresh,
      Function.update_self .., ⟨(Function.update_of_ne lastOther _ _).trans found.file.node,
        (Function.update_of_ne cloneOther _ _).trans found.file.entry⟩, found.held, found.heldClone,
      fun held => found.new (made.apart.heldAt held), fun held => found.newClone (made.apart.heldAt held)⟩
  | directory cluster =>
    obtain ⟨last, child, record, entries, second, entry, secondReady, apart, _, found⟩ := arrives
    have nonnull : last ≠ 0 := fun null => not_heldAt_null _ secondReady.freeEnd.kernel (null ▸ found.heldItem)
    obtain ⟨after, run, good, afterReady, _⟩ := opened entry apart secondReady nonnull
    exact ⟨descriptor, after, run, good, afterReady⟩
  | missing =>
    obtain ⟨second, entry, secondReady, apart⟩ := arrives
    obtain ⟨_, written⟩ := secondReady.writeRecord FileRecord.asFatFileDescriptor
      ((apart.files descriptor heldDescriptor).trans blank) rfl (.fatFileDescriptor ⟨0, 0⟩)
    obtain ⟨after, freed, _⟩ := written.freeRecord FileRecord.asFatFileDescriptor
      (Function.update_self ..) (rfl : FileRecord.asFatFileDescriptor (.fatFileDescriptor ⟨0, 0⟩) = some _)
    exact ⟨after, (start entry apart).trans ((congrFun (if_pos rfl) _).trans ((bind_ok freed).trans rfl))⟩
  | lost =>
    obtain ⟨after, entry⟩ := arrives
    refine ⟨after, ?_⟩
    unfold fat16Open
    refine (congrFun (if_neg (by decide)) _).trans ((bind_ok allocated).trans ?_)
    exact (congrFun (if_neg made.new.nonnull) _).trans (bind_error entry)

end Walk

end PeachOS
