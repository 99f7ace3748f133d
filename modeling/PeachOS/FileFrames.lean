import PeachOS.FileGuards
import PeachOS.HeapOwners
import PeachOS.VolumeKept

/-! What is taken stays as it was while the file layer makes a record of its own: the blocks
of the chains that there were, their bytes, and the records at their starts. -/

namespace PeachOS
open Program ByteMemory

/-- A byte in a block of a chain. -/
def Owned (heap : Heap) (address : Addr) : Prop :=
  ∃ start block, Chained heap start block ∧ frameOf address = heapBlockToAddress heap block

/-- Everything in the chains of `base` is as it was there. -/
structure Apart (base kernel : Kernel) : Prop where
  sound : Sound kernel.memory.heap
  saddr : kernel.memory.heap.saddr = base.memory.heap.saddr
  total : kernel.memory.heap.table.total = base.memory.heap.table.total
  held : ∀ start, Held base.memory.heap start → Held kernel.memory.heap start
  entries : ∀ start block, Chained base.memory.heap start block →
    kernel.memory.heap.table.entries (block : Nat) = base.memory.heap.table.entries (block : Nat)
  bytes : ∀ address, Owned base.memory.heap address →
    kernel.memory.bytes address = base.memory.bytes address
  files : ∀ ptr, HeldAt base.memory.heap ptr → kernel.files ptr = base.files ptr

section Apart
variable {α : Type} {base kernel middle after : Kernel} {ptr : Addr} {start block : Nat}

theorem Apart.refl (sound : Sound kernel.memory.heap) : Apart kernel kernel :=
  ⟨sound, rfl, rfl, fun _ held => held, fun _ _ _ => rfl, fun _ _ => rfl, fun _ _ => rfl⟩

theorem Apart.chained (apart : Apart base kernel) (chained : Chained base.memory.heap start block) :
    Chained kernel.memory.heap start block := by
  refine ⟨apart.held start chained.1, ?_⟩
  obtain ⟨held, low, high, walk⟩ := chained
  refine ⟨low, by rw [apart.total]; exact high, ?_⟩
  intro j lowJ highJ
  obtain ⟨j, rfl⟩ := Int.eq_ofNat_of_zero_le (show 0 ≤ j by omega)
  have inside : Chained base.memory.heap start j :=
    ⟨held, lowJ, by omega, fun i lowI highI => walk i lowI (by omega)⟩
  rw [apart.entries start j inside]
  exact walk j lowJ highJ

theorem Apart.address (apart : Apart base kernel) (block : Int) :
    heapBlockToAddress kernel.memory.heap block = heapBlockToAddress base.memory.heap block := by
  unfold heapBlockToAddress
  rw [apart.saddr]

theorem Apart.heldAt (apart : Apart base kernel) (heldAt : HeldAt base.memory.heap ptr) :
    HeldAt kernel.memory.heap ptr := by
  obtain ⟨start, rfl, held⟩ := heldAt
  exact ⟨start, (apart.address start).symm, apart.held start held⟩

theorem Apart.owned (apart : Apart base kernel) {address : Addr} (owned : Owned base.memory.heap address) :
    Owned kernel.memory.heap address := by
  obtain ⟨start, block, chained, page⟩ := owned
  exact ⟨start, block, apart.chained chained, page.trans (apart.address block).symm⟩

theorem Apart.trans (first : Apart base middle) (second : Apart middle after) : Apart base after where
  sound := second.sound
  saddr := second.saddr.trans first.saddr
  total := second.total.trans first.total
  held := fun start held => second.held start (first.held start held)
  entries := fun start block chained =>
    (second.entries start block (first.chained chained)).trans (first.entries start block chained)
  bytes := fun address owned =>
    (second.bytes address (first.owned owned)).trans (first.bytes address owned)
  files := fun ptr heldAt => (second.files ptr (first.heldAt heldAt)).trans (first.files ptr heldAt)

theorem Apart.onDisk (apart : Apart base kernel) {call : Prog Disk Stop α} {result : α}
    (run : Kernel.onDisk call kernel = (.ok result, after)) : Apart base after := by
  unfold Kernel.onDisk at run
  split at run
  · cases run
    exact ⟨apart.sound, apart.saddr, apart.total, apart.held, apart.entries, apart.bytes, apart.files⟩
  · cases run

theorem Apart.setBytes (apart : Apart base kernel) {bytes : Bytes}
    (same : ∀ address, Owned base.memory.heap address → bytes address = kernel.memory.bytes address) :
    Apart base (kernel.setMemory { kernel.memory with bytes := bytes }) where
  sound := apart.sound
  saddr := apart.saddr
  total := apart.total
  held := apart.held
  entries := apart.entries
  bytes := fun address owned => (same address owned).trans (apart.bytes address owned)
  files := apart.files

theorem Apart.writeRecord (apart : Apart base kernel) {select : FileRecord → Option α} {record : FileRecord}
    (fresh : ¬HeldAt base.memory.heap ptr)
    (run : Kernel.writeRecord select ptr record kernel = (.ok (), after)) : Apart base after := by
  obtain ⟨rfl, _⟩ := Kernel.writeRecord_ok run
  refine ⟨apart.sound, apart.saddr, apart.total, apart.held, apart.entries, apart.bytes, ?_⟩
  intro other heldAt
  rw [Kernel.setFiles_files, Function.update_of_ne, apart.files other heldAt]
  rintro rfl
  exact fresh heldAt

end Apart

section Fresh
variable {α : Type} {base kernel after : Kernel} {ptr : Addr} {start block : Nat} {size : Word}

theorem filled_inside {heap : Heap} (kernel : KernelHeap heap) (startBound : start < heap.table.total)
    (bound : block < heap.table.total)
    (short : (heapBlockToAddress heap start).toNat + size.toNat ≤ 2 ^ 32) {address : Addr}
    (page : frameOf address = heapBlockToAddress heap block)
    (filled : (address - heapBlockToAddress heap start).toNat < size.toNat) :
    start ≤ block ∧ block < start + mallocBlocks size := by
  have startAt := kernel.address_toNat startBound
  have blockAt := kernel.address_toNat bound
  have total := kernel.blocks
  rw [← page, frameOf_toNat] at blockAt
  rw [BitVec.toNat_sub] at filled
  unfold mallocBlocks blocksFor heapBlockSize
  split <;> omega

theorem Apart.filled (apart : Apart base kernel) {heap : Heap}
    (marks : Marks kernel.memory.heap heap start (mallocBlocks size))
    (short : (heapBlockToAddress kernel.memory.heap start).toNat + size.toNat ≤ 2 ^ 32) {address : Addr}
    (filled : (address - heapBlockToAddress kernel.memory.heap start).toNat < size.toNat) :
    ¬Owned base.memory.heap address := by
  intro owned
  obtain ⟨first, block, chained, page⟩ := apart.owned owned
  have bound : block < kernel.memory.heap.table.total := by exact_mod_cast chained.2.2.1
  obtain ⟨low, high⟩ := filled_inside apart.sound.kernel marks.bound bound short page filled
  exact chained.taken apart.sound (marks.free block low high bound)

theorem HeldAt.owned {heap : Heap} (kernel : KernelHeap heap) (heldAt : HeldAt heap ptr) : Owned heap ptr := by
  obtain ⟨start, rfl, held⟩ := heldAt
  exact ⟨start, start, held.chained, frameOf_of_aligned (heapBlockToAddress_aligned kernel.pool start)⟩

theorem Apart.kernelHeap (apart : Apart base kernel) : KernelHeap base.memory.heap :=
  apart.sound.kernel.congr apart.saddr.symm apart.total.symm

theorem not_heldAt_null (base : Kernel) (kernel : KernelHeap base.memory.heap) :
    ¬HeldAt base.memory.heap 0 := by
  intro heldAt
  obtain ⟨start, null, held⟩ := heldAt
  exact kernel.nonnull held.clean.bound null.symm

theorem Apart.fresh (apart : Apart base kernel) (bound : start < kernel.memory.heap.table.total)
    (free : EntryFree kernel.memory.heap.table.entries start) :
    ¬HeldAt base.memory.heap (heapBlockToAddress kernel.memory.heap start) := by
  intro heldAt
  obtain ⟨other, same, held⟩ := apart.heldAt heldAt
  obtain rfl := heapBlockToAddress_inj apart.sound.kernel.pool bound held.clean.bound same
  exact held.taken free

theorem mallocBlocks_covers {i : Nat} (inside : i < size.toNat) (low : size.toNat ≤ 2 ^ 32 - 4096) :
    i / 4096 < mallocBlocks size := by
  unfold mallocBlocks blocksFor heapBlockSize
  rw [if_pos low]
  omega

theorem Marks.owned {before heap : Heap} {i : Nat} (marks : Marks before heap start (mallocBlocks size))
    (sound : Sound before) (short : (heapBlockToAddress before start).toNat + size.toNat ≤ 2 ^ 32)
    (inside : i < size.toNat)
    (within : (heapBlockToAddress before start).toNat + i < heapAddress.toNat + heapSizeBytes) :
    Owned heap (heapBlockToAddress before start + BitVec.ofNat 32 i) := by
  have startAt := sound.kernel.address_toNat marks.bound
  have total := sound.kernel.blocks
  have space : heapAddress.toNat + heapSizeBytes = 0x1000000 + 25600 * 4096 := rfl
  have covered := mallocBlocks_covers inside (by omega)
  have bound : start + i / 4096 < before.table.total := by omega
  refine ⟨start, start + i / 4096, ⟨marks.fresh sound (by omega), by omega, ?_, ?_⟩, ?_⟩
  · rw [marks.total]
    exact_mod_cast bound
  · intro j low high
    obtain ⟨j, rfl⟩ := Int.eq_ofNat_of_zero_le (show 0 ≤ j by omega)
    rw [marks.inside (by omega) (by omega), chainEntry_hasNext]
    omega
  · rw [heapBlockToAddress_congr marks.saddr]
    have blockAt := sound.kernel.address_toNat bound
    apply BitVec.eq_of_toNat_eq
    rw [frameOf_toNat, BitVec.toNat_add, BitVec.toNat_ofNat, startAt, blockAt]
    omega

/-- What `newRecord` made at `ptr`: nothing of `base`, and a chain of its own if it has any
byte. -/
structure NewRecord (base kernel : Kernel) (size : Word) (record : FileRecord) (ptr : Addr) : Prop where
  nonnull : ptr ≠ 0
  fresh : ¬HeldAt base.memory.heap ptr
  inside : ptr.toNat + size.toNat ≤ 2 ^ 32
  bytes : ∀ i < size.toNat, ¬Owned base.memory.heap (ptr + BitVec.ofNat 32 i)
  own : 0 < size.toNat → HeldAt kernel.memory.heap ptr ∧ kernel.files ptr = some record
  owned : ∀ i < size.toNat, ptr.toNat + i < heapAddress.toNat + heapSizeBytes →
    Owned kernel.memory.heap (ptr + BitVec.ofNat 32 i)

theorem Apart.newRecord (apart : Apart base kernel) {record : FileRecord}
    (run : Kernel.newRecord size record kernel = (.ok ptr, after)) :
    Apart base after ∧ (ptr = 0 ∧ after = kernel ∨ NewRecord base after size record ptr) := by
  rcases Kernel.newRecord_ok apart.sound.kernel run with
    null | ⟨start, rfl, nonnull, short, marks, same⟩
  · exact ⟨null.2 ▸ apart, Or.inl null⟩
  · have content : after.memory.bytes = fill kernel.memory.bytes
        (heapBlockToAddress kernel.memory.heap start) size.toNat 0 := by
      rw [same]
      rfl
    have records : after.files = placeRecord kernel.files
        (heapBlockToAddress kernel.memory.heap start) size record := by
      rw [same]
      rfl
    have startAt := apart.sound.kernel.address_toNat marks.bound
    refine ⟨⟨marks.sound apart.sound, marks.saddr.trans apart.saddr, marks.total.trans apart.total,
      fun first held => marks.held (apart.held first held), ?_, ?_, ?_⟩, Or.inr
        ⟨nonnull, apart.fresh marks.bound marks.startFree, short, ?_, ?_, ?_⟩⟩
    · intro first block chained
      have here := apart.chained chained
      have bound : block < kernel.memory.heap.table.total := by exact_mod_cast here.2.2.1
      have away := marks.apart bound (here.taken apart.sound)
      rw [marks.outside (by omega), apart.entries first block chained]
    · intro address owned
      rw [content, ← apart.bytes address owned]
      exact if_neg (fun filled => apart.filled marks short filled owned)
    · intro other heldAt
      rw [records, ← apart.files other heldAt]
      refine if_neg (fun filled => apart.filled marks short filled ?_)
      exact heldAt.owned apart.kernelHeap
    · intro i inside
      refine apart.filled marks short ?_
      rw [BitVec.add_comm, BitVec.add_sub_cancel, BitVec.toNat_ofNat]
      omega
    · intro positive
      have some' : 0 < mallocBlocks size := by
        have covered := mallocBlocks_covers positive (by omega)
        omega
      refine ⟨⟨start, (heapBlockToAddress_congr marks.saddr start).symm,
        marks.fresh apart.sound some'⟩, ?_⟩
      rw [records]
      unfold placeRecord
      rw [if_pos (by rw [BitVec.sub_self]; exact positive), if_pos rfl]
    · intro i inside within
      exact marks.owned apart.sound short inside within

end Fresh

theorem diskstreamerReadLoop_length {image : Image} {disk fuel : Nat} {pos total res last : Int}
    {out : List Byte} (run : diskstreamerReadLoop image disk fuel pos total = some (res, out, last)) :
    out.length ≤ total.toNat := by
  induction fuel generalizing pos total res out last with
  | zero => cases run
  | succ fuel ih =>
    rw [diskstreamerReadLoop] at run
    split at run
    · cases run
    · dsimp only at run
      split at run
      · cases run
        exact Nat.zero_le _
      · split at run
        next overflow =>
          obtain ⟨⟨restRes, rest, restLast⟩, further, same⟩ := Option.map_eq_some_iff.mp run
          cases same
          have shorter := ih further
          have past := of_decide_eq_true overflow
          have taken := List.length_take_le (total - (pos % (peachosSectorSize : Nat) + total -
            (peachosSectorSize : Nat))).toNat ((diskReadBlock image disk
              (pos / (peachosSectorSize : Nat)).toNat).2.drop (pos % (peachosSectorSize : Nat)).toNat)
          rw [List.length_append]
          dsimp only
          unfold peachosSectorSize at *
          omega
        next =>
          cases run
          exact List.length_take_le _ _

section Sector
variable {α : Type} {size : Int}

/-- The call leaves the size of the disk's sectors as it is. -/
def KeepsSector (call : Prog Disk Stop α) : Prop :=
  ∀ size, Preserves (fun disk => disk.sectorSize = size) call

theorem KeepsVolume.sector {call : Prog Disk Stop α} (keeps : KeepsVolume call) : KeepsSector call := by
  intro size before result after same run
  have kept := keeps before.streamless before result after rfl run
  have sector : after.streamless.sectorSize = before.streamless.sectorSize := congrArg Disk.sectorSize kept
  exact sector.trans same

theorem streamReadAt_length {stream : Option DiskStream} {keep : DiskStream → FatPrivate → FatPrivate}
    {pos total res : Int} {out : List Byte} {before after : Disk}
    (run : streamReadAt stream keep pos total before = (.ok (res, out), after)) :
    out.length ≤ total.toNat := by
  unfold streamReadAt at run
  cases stream with
  | none => cases run
  | some stream =>
    cases read : diskstreamerRead before.image (diskstreamerSeek stream pos) total with
    | none =>
      simp only [read_bind, read] at run
      cases run
    | some result =>
      simp only [read_bind, read] at run
      cases run
      obtain ⟨⟨_, _, _⟩, further, same⟩ := Option.map_eq_some_iff.mp read
      cases same
      exact diskstreamerReadLoop_length further

theorem fat16ReadInternalFromStream_outside {disk after : Disk} {fuel : Nat} {cluster offset total res : Int}
    {out address : Addr} {bytes stored : Bytes} (sector : 0 ≤ disk.sectorSize) (short : total < 2 ^ 32)
    (outside : total.toNat ≤ (address - out).toNat)
    (run : fat16ReadInternalFromStream fuel cluster offset total out bytes disk = (.ok (res, stored), after)) :
    stored address = bytes address := by
  induction fuel generalizing disk offset total out bytes with
  | zero => cases run
  | succ fuel ih =>
    obtain ⟨fatPrivate, first, looked, steps⟩ := bind_eq_ok run
    have firstSector := keepsVolume_fsPrivate.sector _ _ _ _ rfl looked
    rw [read_bind] at steps
    have size : 0 ≤ sizeOfClusterBytes first fatPrivate := by
      unfold sizeOfClusterBytes
      rw [firstSector]
      exact Int.mul_nonneg (Int.natCast_nonneg _) sector
    dsimp only [id_eq] at steps
    obtain ⟨clusterToUse, second, found, steps⟩ := bind_eq_ok steps
    have secondSector := (keepsVolume_clusterForOffset _ _).sector _ _ _ _ firstSector found
    split at steps
    · cases steps
      rfl
    · obtain ⟨⟨readRes, data⟩, third, readRun, steps⟩ := bind_eq_ok steps
      have thirdSector := (keepsVolume_clusterReadAt _ _ _).sector _ _ _ _ secondSector readRun
      have length := streamReadAt_length readRun
      generalize toRead : (if total > sizeOfClusterBytes first fatPrivate then
        sizeOfClusterBytes first fatPrivate else total) = totalToRead at *
      have less : totalToRead ≤ total ∧ (0 ≤ total → 0 ≤ totalToRead) := by
        rw [← toRead]
        split <;> omega
      have kept : storeBytes bytes out data address = bytes address :=
        storeBytes_outside bytes out data (by omega) (by omega)
      dsimp only at steps
      split at steps
      · cases steps
        exact kept
      · split at steps
        next more =>
          have positive : 0 ≤ totalToRead := by
            by_cases nonneg : 0 ≤ total
            · exact less.2 nonneg
            · rw [if_neg (by omega)] at toRead
              omega
          have moved : (address - (out + BitVec.ofInt 32 totalToRead)).toNat =
              (address - out).toNat - totalToRead.toNat := by
            obtain ⟨count, rfl⟩ := Int.eq_ofNat_of_zero_le positive
            rw [BitVec.ofInt_natCast]
            bv_omega
          rw [ih (thirdSector ▸ sector) (by omega) (by omega) steps, kept]
        next =>
          cases steps
          exact kept

end Sector

section Free
variable {α : Type} {base kernel after : Kernel} {ptr : Addr} {start : Nat}
  {guarded : Set Addr} {kind : Addr → FileRecord → Prop} {tables : Set (Nat → Addr)}

theorem Apart.frees (apart : Apart base kernel) {heap : Heap} {files : Addr → Option FileRecord}
    (frees : Frees kernel.memory.heap heap start) (clean : Clean kernel.memory.heap start)
    (fresh : ¬Held base.memory.heap start)
    (same : ∀ ptr, HeldAt base.memory.heap ptr → files ptr = kernel.files ptr) :
    Apart base ((kernel.setFiles files).setMemory { kernel.memory with heap := heap }) where
  sound := frees.sound apart.sound clean
  saddr := frees.saddr.trans apart.saddr
  total := frees.total.trans apart.total
  held := by
    intro first held
    apply frees.held (apart.held first held)
    rintro rfl
    exact fresh held
  entries := by
    intro first block chained
    rw [← apart.entries first block chained]
    apply frees.missed
    apply (apart.chained chained).missed clean
    rintro rfl
    exact fresh chained.1
  bytes := apart.bytes
  files := fun ptr heldAt => (same ptr heldAt).trans (apart.files ptr heldAt)

theorem Apart.freesNull (apart : Apart base kernel) :
    Apart base (kernel.setMemory (PeachOS.kfree 0 kernel.memory)) := by
  have frees := apart.sound.heapFree_null
  refine ⟨frees.sound_below apart.sound, frees.saddr.trans apart.saddr, frees.total.trans apart.total,
    fun first held => frees.held_below apart.sound (apart.held first held), ?_, apart.bytes, apart.files⟩
  intro first block chained
  rw [← apart.entries first block chained]
  exact frees.below apart.sound (by omega)

theorem Apart.freeRecord (apart : Apart base kernel) (guards : Guards guarded kind tables kernel)
    {select : FileRecord → Option α} (fresh : ¬HeldAt base.memory.heap ptr)
    (run : Kernel.freeRecord select ptr kernel = (.ok (), after)) : Apart base after := by
  have apartFrom : ∀ start : Nat, ptr = heapBlockToAddress kernel.memory.heap start →
      ¬Held base.memory.heap start := by
    intro start same held
    exact fresh ⟨start, same.trans (apart.address start), held⟩
  rcases Kernel.freeRecord_ok run with
    ⟨rfl, rfl⟩ | ⟨record, value, here, _, rfl⟩ | ⟨_, rfl, block, leads, bound, free⟩
  · exact apart.freesNull
  · obtain ⟨block, rfl, clean⟩ := guards.recorded ptr record here
    refine apart.frees (apart.sound.heapFree_block clean.bound) clean (apartFrom block rfl) ?_
    intro other heldAt
    apply Function.update_of_ne
    rintro rfl
    exact fresh heldAt
  · have clean := apart.sound.clean_of_free bound free
    refine apart.frees (heapFree_frees leads) clean ?_ (fun _ _ => rfl)
    intro held
    exact (apart.held block held).taken free

end Free

section Items
variable {α : Type} {base kernel after : Kernel} {ptr : Addr} {tables : Set (Nat → Addr)}

/-- The heap and the records of a kernel fit each other. -/
abbrev Recorded (tables : Set (Nat → Addr)) (kernel : Kernel) : Prop :=
  Guards ∅ (fun _ _ => False) tables kernel

theorem KeepsSector.onDisk {call : Prog Disk Stop α} (keeps : KeepsSector call) {result : α}
    (run : Kernel.onDisk call kernel = (.ok result, after)) :
    after.disk.sectorSize = kernel.disk.sectorSize := by
  unfold Kernel.onDisk at run
  split at run
  next same =>
    cases run
    exact keeps _ _ _ _ rfl same
  · cases run

def KernelKeepsSector (call : KernelProg α) : Prop :=
  ∀ size, Preserves (fun kernel => kernel.disk.sectorSize = size) call

theorem KernelKeepsVolume.sector {call : KernelProg α} (keeps : KernelKeepsVolume call) :
    KernelKeepsSector call := by
  intro size before result after same run
  have kept := keeps before.disk.streamless before result after rfl run
  have sector : after.disk.streamless.sectorSize = before.disk.streamless.sectorSize :=
    congrArg Disk.sectorSize kept
  exact sector.trans same

theorem Kernel.onDisk_memory {call : Prog Disk Stop α} {result : α}
    (run : Kernel.onDisk call kernel = (.ok result, after)) : after.memory = kernel.memory := by
  unfold Kernel.onDisk at run
  split at run
  · cases run
    rfl
  · cases run

theorem readTable_heap {cluster res : Int} {size : Word} {table : Addr}
    (run : fat16ReadTable cluster size table kernel = (.ok res, after)) :
    after.memory.heap = kernel.memory.heap := by
  unfold fat16ReadTable at run
  split at run
  · cases run
    rfl
  · unfold Kernel.fat16ReadInternal at run
    rw [read_bind] at run
    obtain ⟨_, middle, read, steps⟩ := bind_eq_ok run
    cases steps
    exact congrArg (fun memory => memory.heap) (Kernel.onDisk_memory read)

theorem Apart.readTable (apart : Apart base kernel) (sector : 0 ≤ kernel.disk.sectorSize) {cluster res : Int}
    {size : Word} {table : Addr}
    (fresh : table ≠ 0 → ∀ i < size.toNat, ¬Owned base.memory.heap (table + BitVec.ofNat 32 i))
    (run : fat16ReadTable cluster size table kernel = (.ok res, after)) :
    Apart base after ∧ after.files = kernel.files := by
  unfold fat16ReadTable at run
  split at run
  · cases run
    exact ⟨apart, rfl⟩
  next nonnull =>
    unfold Kernel.fat16ReadInternal at run
    rw [read_bind] at run
    obtain ⟨⟨readRes, stored⟩, middle, read, steps⟩ := bind_eq_ok run
    cases steps
    have left := apart.onDisk read
    have kept : middle.memory = kernel.memory ∧ middle.files = kernel.files := by
      unfold Kernel.onDisk at read
      split at read
      · cases read
        exact ⟨rfl, rfl⟩
      · cases read
    refine ⟨left.setBytes ?_, kept.2⟩
    intro address owned
    rw [kept.1]
    unfold Kernel.onDisk at read
    split at read
    next inner =>
      cases read
      refine fat16ReadInternalFromStream_outside sector ?_ ?_ inner
      · have small := @BitVec.toInt_lt 32 size
        omega
      · by_contra inside
        have bound : (address - table).toNat < size.toNat := by
          have value := BitVec.toInt_eq_toNat_cond size
          split at value <;> omega
        apply fresh nonnull _ bound
        rwa [BitVec.ofNat_toNat, BitVec.setWidth_eq, BitVec.add_comm, BitVec.sub_add_cancel]
    · cases read

theorem Apart.freeDirectory (apart : Apart base kernel) (recorded : Recorded tables kernel)
    {directory : Addr} (fresh : ¬HeldAt base.memory.heap directory)
    (freshTable : ∀ record, kernel.files directory = some (.fatDirectory record) →
      ¬HeldAt base.memory.heap record.item)
    (run : fat16FreeDirectory directory kernel = (.ok (), after)) : Apart base after := by
  unfold fat16FreeDirectory at run
  split at run
  · cases run
    exact apart
  · obtain ⟨record, middle, looked, steps⟩ := bind_eq_ok run
    obtain ⟨rfl, old, here, selected⟩ := Kernel.record_ok looked
    have entry : middle.files directory = some (.fatDirectory record) := by
      cases old <;> cases selected
      exact here
    split at steps
    · obtain ⟨_, left, freed, rest⟩ := bind_eq_ok steps
      have without := apart.freeRecord recorded (freshTable record entry) freed
      have still := Guards.free unguarded foreign_fatDirectoryTable _ _ _ _ recorded freed
      exact without.freeRecord still fresh rest
    · exact apart.freeRecord recorded fresh steps

theorem Kernel.freeRecord_gone {α : Type} {select : FileRecord → Option α} {ptr : Addr} (nonnull : ptr ≠ 0)
    (run : Kernel.freeRecord select ptr kernel = (.ok (), after)) : after.files ptr = none := by
  rcases Kernel.freeRecord_ok run with ⟨null, _⟩ | ⟨_, _, _, _, rfl⟩ | ⟨gone, rfl, _⟩
  · exact absurd null nonnull
  · exact Function.update_self ..
  · exact gone

theorem fat16FreeDirectory_gone {directory : Addr} (nonnull : directory ≠ 0)
    (run : fat16FreeDirectory directory kernel = (.ok (), after)) : after.files directory = none := by
  unfold fat16FreeDirectory at run
  rw [if_neg nonnull] at run
  obtain ⟨record, middle, _, steps⟩ := bind_eq_ok run
  split at steps
  · obtain ⟨_, last, _, rest⟩ := bind_eq_ok steps
    exact Kernel.freeRecord_gone nonnull rest
  · exact Kernel.freeRecord_gone nonnull steps

theorem Apart.loadDirectory (apart : Apart base kernel) (recorded : Recorded tables kernel)
    (sector : 0 ≤ kernel.disk.sectorSize) {item : FatDirectoryItem} {directory : Addr}
    (run : fat16LoadFatDirectory item kernel = (.ok directory, after)) :
    Apart base after ∧ ¬HeldAt base.memory.heap directory ∧ ∀ record,
      after.files directory = some (.fatDirectory record) →
        HeldAt after.memory.heap directory ∧ ¬HeldAt base.memory.heap record.item := by
  have null : ∀ {kernel : Kernel} record, Recorded tables kernel →
      kernel.files 0 = some (.fatDirectory record) →
        HeldAt kernel.memory.heap 0 ∧ ¬HeldAt base.memory.heap record.item := by
    intro kernel record recorded here
    rw [recorded.null] at here
    cases here
  have notNull := not_heldAt_null base apart.kernelHeap
  obtain ⟨fatPrivate, first, looked, steps⟩ := bind_eq_ok run
  have firstApart := apart.onDisk looked
  have firstRecorded := Guards.onDisk _ _ _ _ recorded looked
  have firstSector := keepsVolume_fsPrivate.sector.onDisk looked
  split at steps
  · cases steps
    exact ⟨firstApart, notNull, fun record => null record firstRecorded⟩
  · obtain ⟨made, second, allocated, steps⟩ := bind_eq_ok steps
    obtain ⟨secondApart, refused | new⟩ := firstApart.newRecord allocated
    · rw [if_pos refused.1] at steps
      cases steps
      exact ⟨secondApart, notNull, fun record => null record
        (Guards.newRecord _ _ _ _ _ firstRecorded allocated)⟩
    · have secondRecorded := Guards.newRecord _ _ _ _ _ firstRecorded allocated
      have secondDisk := Kernel.newRecord_disk allocated
      rw [if_neg new.nonnull] at steps
      dsimp only at steps
      obtain ⟨totalItems, third, counted, steps⟩ := bind_eq_ok steps
      have thirdApart := secondApart.onDisk counted
      have thirdRecorded := Guards.onDisk _ _ _ _ secondRecorded counted
      have thirdSector := (keepsVolume_totalItems _).sector.onDisk counted
      obtain ⟨_, fourth, entered, steps⟩ := bind_eq_ok steps
      have fourthApart := thirdApart.writeRecord new.fresh entered
      have fourthRecorded := Guards.write unguarded foreign_fatDirectory _ _ _ _ _ thirdRecorded entered
      have fourthDisk : fourth.disk = third.disk := by rw [(Kernel.writeRecord_ok entered).1]; rfl
      obtain ⟨table, fifth, tableMade, steps⟩ := bind_eq_ok steps
      obtain ⟨fifthApart, tableNew⟩ := fourthApart.newRecord tableMade
      have fifthRecorded := Guards.newRecord _ _ _ _ _ fourthRecorded tableMade
      have fifthDisk := Kernel.newRecord_disk tableMade
      obtain ⟨_, sixth, completed, steps⟩ := bind_eq_ok steps
      have sixthApart := fifthApart.writeRecord new.fresh completed
      have sixthRecorded := Guards.write unguarded foreign_fatDirectory _ _ _ _ _ fifthRecorded completed
      obtain ⟨sixthSame, _⟩ := Kernel.writeRecord_ok completed
      obtain ⟨res, seventh, readRun, steps⟩ := bind_eq_ok steps
      have sector' : 0 ≤ sixth.disk.sectorSize := by
        rw [sixthSame]
        show 0 ≤ fifth.disk.sectorSize
        rw [fifthDisk, fourthDisk, thirdSector, secondDisk, firstSector]
        exact sector
      have tableFresh : ¬HeldAt base.memory.heap table ∧ (table ≠ 0 →
          ∀ i < (BitVec.ofInt 32 (totalItems * fatDirectoryItemSize)).toNat,
            ¬Owned base.memory.heap (table + BitVec.ofNat 32 i)) := by
        obtain refused | new := tableNew
        · rw [refused.1]
          exact ⟨notNull, fun nonnull => absurd rfl nonnull⟩
        · exact ⟨new.fresh, fun _ => new.bytes⟩
      obtain ⟨seventhApart, seventhFiles⟩ := sixthApart.readTable sector' tableFresh.2 readRun
      have seventhRecorded := Guards.readTable _ _ _ _ _ _ sixthRecorded readRun
      have here : seventh.files made = some (.fatDirectory ⟨table, totalItems, 0, 0⟩) := by
        rw [seventhFiles, sixthSame]
        exact Function.update_self ..
      have freshTable : ∀ record, seventh.files made = some (.fatDirectory record) →
          ¬HeldAt base.memory.heap record.item := by
        intro record found
        rw [here] at found
        cases found
        exact tableFresh.1
      have still : HeldAt seventh.memory.heap made := by
        have fourthHeap : fourth.memory.heap = second.memory.heap := by
          rw [(Kernel.writeRecord_ok entered).1]
          exact congrArg (fun memory => memory.heap) (Kernel.onDisk_memory counted)
        have fourthHeld : HeldAt fourth.memory.heap made := fourthHeap ▸ (new.own (by decide)).1
        have fifthHeld := ((Apart.refl fourthApart.sound).newRecord tableMade).1.heldAt fourthHeld
        rw [readTable_heap readRun, sixthSame]
        exact fifthHeld
      split at steps
      · obtain ⟨_, eighth, freed, rest⟩ := bind_eq_ok steps
        cases rest
        refine ⟨seventhApart.freeDirectory seventhRecorded new.fresh freshTable freed, new.fresh, ?_⟩
        intro record gone
        rw [fat16FreeDirectory_gone new.nonnull freed] at gone
        cases gone
      · cases steps
        exact ⟨seventhApart, new.fresh, fun record found => ⟨still, freshTable record found⟩⟩

theorem cloneRun {item : FatDirectoryItem} {clone : Addr}
    (run : fat16CloneDirectoryItem item fatDirectoryItemSize kernel = (.ok clone, after)) :
    Kernel.newRecord (BitVec.ofNat 32 fatDirectoryItemSize) (.fatDirectoryItem item) kernel =
      (.ok clone, after) := by
  unfold fat16CloneDirectoryItem at run
  rwa [if_neg (by decide)] at run

theorem Apart.newFatItem (apart : Apart base kernel) (recorded : Recorded tables kernel)
    (sector : 0 ≤ kernel.disk.sectorSize) {item : FatDirectoryItem} {fItem : Addr}
    (run : fat16NewFatItemForDirectoryItem item kernel = (.ok fItem, after)) :
    Apart base after ∧ (fItem = 0 ∧ after = kernel ∨
      fItem ≠ 0 ∧ HeldAt after.memory.heap fItem ∧ ¬HeldAt base.memory.heap fItem) := by
  obtain ⟨made, first, allocated, steps⟩ := bind_eq_ok run
  obtain ⟨firstApart, null | new⟩ := apart.newRecord allocated
  · rw [if_pos null.1] at steps
    cases steps
    exact ⟨firstApart, Or.inl ⟨rfl, null.2⟩⟩
  · have firstRecorded := Guards.newRecord _ _ _ _ _ recorded allocated
    have own := (new.own (by decide)).1
    -- the item stays while the rest is made
    have still := Apart.refl firstApart.sound
    rw [if_neg new.nonnull] at steps
    split at steps
    · obtain ⟨directory, second, loaded, steps⟩ := bind_eq_ok steps
      obtain ⟨_, third, entered, rest⟩ := bind_eq_ok steps
      have sector' : 0 ≤ first.disk.sectorSize := by
        rw [Kernel.newRecord_disk allocated]
        exact sector
      obtain ⟨secondApart, _⟩ := firstApart.loadDirectory firstRecorded sector' loaded
      have kept := (still.loadDirectory firstRecorded sector' loaded).1.heldAt own
      have memory : third.memory = second.memory := by
        rw [(Kernel.writeRecord_ok entered).1]
        rfl
      cases rest
      exact ⟨secondApart.writeRecord new.fresh entered, Or.inr ⟨new.nonnull, memory ▸ kept, new.fresh⟩⟩
    · obtain ⟨_, second, entered, steps⟩ := bind_eq_ok steps
      obtain ⟨clone, third, cloned, steps⟩ := bind_eq_ok steps
      obtain ⟨_, fourth, completed, rest⟩ := bind_eq_ok steps
      have secondApart := firstApart.writeRecord new.fresh entered
      obtain ⟨thirdApart, _⟩ := secondApart.newRecord (cloneRun cloned)
      have secondMemory : second.memory = first.memory := by
        rw [(Kernel.writeRecord_ok entered).1]
        rfl
      have fourthMemory : fourth.memory = third.memory := by
        rw [(Kernel.writeRecord_ok completed).1]
        rfl
      have kept : HeldAt third.memory.heap made := by
        have here := Apart.refl (show Sound second.memory.heap from secondMemory ▸ firstApart.sound)
        exact (here.newRecord (cloneRun cloned)).1.heldAt (secondMemory ▸ own)
      cases rest
      exact ⟨thirdApart.writeRecord new.fresh completed, Or.inr ⟨new.nonnull, fourthMemory ▸ kept, new.fresh⟩⟩

/-- A kernel that has everything of `base`, whose disk can be read. -/
structure Alongside (tables : Set (Nat → Addr)) (base kernel : Kernel) : Prop where
  apart : Apart base kernel
  recorded : Recorded tables kernel
  sector : kernel.disk.sectorSize = peachosSectorSize

theorem Alongside.nonneg (alongside : Alongside tables base kernel) : 0 ≤ kernel.disk.sectorSize := by
  rw [alongside.sector]
  exact Int.natCast_nonneg _

theorem Alongside.refl (alongside : Alongside tables base kernel) : Alongside tables kernel kernel :=
  ⟨Apart.refl alongside.apart.sound, alongside.recorded, alongside.sector⟩

theorem Alongside.newFatItem (item : FatDirectoryItem) :
    Preserves (Alongside tables base) (fat16NewFatItemForDirectoryItem item) := by
  intro before fItem after alongside run
  exact ⟨(alongside.apart.newFatItem alongside.recorded alongside.nonneg run).1,
    Guards.newFatItem unguarded item _ _ _ alongside.recorded run,
    (keepsVolume_newFatItem item).sector _ _ _ _ alongside.sector run⟩

theorem Alongside.findLoop (directory : FatDirectory) (name : Addr) (remaining i : Nat) (fItem : Addr) :
    Preserves (Alongside tables base) (fat16FindItemLoop directory name remaining i fItem) := by
  induction remaining generalizing i fItem with
  | zero => exact Preserves.pure _
  | succ remaining ih =>
    unfold fat16FindItemLoop
    refine Preserves.bind (Preserves.read _) ?_
    intro bytes
    apply Preserves.bind
    · intro before value after alongside run
      rw [(Kernel.record_ok run).1]
      exact alongside
    · intro _
      apply Preserves.ite
      · apply Preserves.bind (Alongside.newFatItem _)
        intro found
        exact ih _ _
      · exact ih _ _

end Items

end PeachOS
