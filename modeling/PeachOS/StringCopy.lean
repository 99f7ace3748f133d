import PeachOS.ProcessMap
import PeachOS.Strings
import PeachOS.TaskRounds

/-! `copy_string_from_task` on the memory as it stands: the directory that is loaded says where the
bytes of a string lie, and one entry of the task's tables is changed for as long as they are copied. -/

namespace PeachOS
open Program ByteMemory

/-- The byte at a physical address. The heap's table is part of memory. -/
def Memory.physical (memory : Memory) (address : Addr) : Byte :=
  let block := (address - heapTableAddress).toNat
  if block < memory.heap.table.total then memory.heap.table.entries block else memory.bytes address

def Memory.setPhysical (memory : Memory) (address : Addr) (value : Byte) : Memory :=
  let block := (address - heapTableAddress).toNat
  if block < memory.heap.table.total then
    { memory with heap := memory.heap.withEntries (Function.update memory.heap.table.entries block value) }
  else { memory with bytes := Function.update memory.bytes address value }

/-- Where the processor finds a virtual address, if its page is present. The entries of a directory
itself are present: `paging_new_4gb` makes them so, and nothing changes them. -/
def translate (bytes : Bytes) (directory virt : Addr) : Option Addr :=
  if pagingGet bytes directory (pagingAlignToLowerPage virt) &&& pagingIsPresent = 0 then none
  else some (pagingGetPhysicalAddress bytes directory virt)

/-- A page fault in the kernel does not come back. -/
def Kernel.loadByte (virt : Addr) : KernelProg Byte := fun kernel =>
  match translate kernel.memory.bytes kernel.pageDirectory virt with
  | none => (.error .fault, kernel)
  | some address => (.ok (kernel.memory.physical address), kernel)

/-- The kernel writes to pages of any kind. -/
def Kernel.storeByte (virt : Addr) (value : Byte) : KernelProg Unit := fun kernel =>
  match translate kernel.memory.bytes kernel.pageDirectory virt with
  | none => (.error .fault, kernel)
  | some address => (.ok (), kernel.setMemory (kernel.memory.setPhysical address value))

/-- The loop of `strncpy` from character `i` on; the result is the last `i`. -/
def Kernel.strncpyLoop (dest src : Addr) : (remaining i : Nat) → KernelProg Nat
  | 0, i => pure i
  | remaining + 1, i => do
      let c ← Kernel.loadByte (src + BitVec.ofNat 32 i)
      if c = 0 then pure i
      else
        Kernel.storeByte (dest + BitVec.ofNat 32 i) c
        Kernel.strncpyLoop dest src remaining (i + 1)

/-- `strncpy` between two places of the address space that is loaded. -/
def Kernel.strncpy (dest src : Addr) (count : Int) : KernelProg Unit := do
  let i ← Kernel.strncpyLoop dest src (count - 1).toNat 0
  Kernel.storeByte (dest + BitVec.ofNat 32 i) 0

/-- `copy_string_from_task` from `kernel_page` on: the task's entry is put back, and the string goes
out. -/
def copyStringOut (kernelChunk taskDirectory tmp phys : Addr) (oldEntry : Word) (max : Int) : KernelProg Int := do
  Kernel.pagingSwitch kernelChunk
  let res ← Kernel.onBytes (pagingSet · taskDirectory tmp oldEntry)
  if res < 0 then
    Kernel.kfree tmp
    pure (- EIO)
  else
    Kernel.strncpy phys tmp max
    Kernel.kfree tmp
    pure res

def copyStringFromTask (kernelChunk task virtual phys : Addr) (max : Int) : KernelProg Int := do
  if (pagingPageSize : Int) ≤ max then pure (-EINVARG)
  else
    let tmp ← Kernel.kzalloc (BitVec.ofInt 32 max)
    if tmp = 0 then pure (-ENOMEM)
    else if task = 0 then fault
    else
      let pageDirectory ← read (fun kernel => (kernel.tasks task).pageDirectory)
      if pageDirectory = 0 then fault
      else
        let bytes ← read (fun kernel => kernel.memory.bytes)
        let taskDirectory := directoryEntry bytes pageDirectory
        let oldEntry := pagingGet bytes taskDirectory tmp
        let _ ← Kernel.onBytes (pagingMap · pageDirectory tmp tmp
          (pagingIsWriteable ||| pagingIsPresent ||| pagingAccessFromAll))
        Kernel.pagingSwitch pageDirectory
        Kernel.strncpy tmp virtual max
        copyStringOut kernelChunk taskDirectory tmp phys oldEntry max

/-- The string from position `i`, cut to so many characters, as `reads` finds them. -/
def CutString (reads : Nat → Byte → Prop) : (remaining i : Nat) → List Byte → Prop
  | 0, _, text => text = []
  | _ + 1, i, [] => reads i 0
  | remaining + 1, i, c :: rest => c ≠ 0 ∧ reads i c ∧ CutString reads remaining (i + 1) rest

theorem CutString.imp {reads other : Nat → Byte → Prop} {text : List Byte} {remaining i : Nat}
    (string : CutString reads remaining i text) (same : ∀ i c, reads i c → other i c) :
    CutString other remaining i text := by
  induction remaining generalizing i text with
  | zero => exact string
  | succ remaining ih =>
    cases text with
    | nil => exact same _ _ string
    | cons c rest => exact ⟨string.1, same _ _ string.2.1, ih string.2.2⟩

theorem CutString.length_le {reads : Nat → Byte → Prop} {text : List Byte} {remaining i : Nat}
    (string : CutString reads remaining i text) : text.length ≤ remaining := by
  induction remaining generalizing i text with
  | zero => rw [show text = [] from string, List.length_nil]
  | succ remaining ih =>
    cases text with
    | nil => exact Nat.zero_le _
    | cons c rest => exact Nat.succ_le_succ (ih string.2.2)

theorem CutString.reread {reads other : Nat → Byte → Prop} {text : List Byte} {remaining i : Nat}
    (string : CutString reads remaining i text)
    (copy : ∀ j ≤ text.length, other (i + j) ((text ++ [0]).getD j 0)) : CutString other remaining i text := by
  induction remaining generalizing i text with
  | zero => exact string
  | succ remaining ih =>
    cases text with
    | nil => exact copy 0 le_rfl
    | cons c rest =>
      refine ⟨string.1, copy 0 (Nat.zero_le _), ih string.2.2 (fun j bound => ?_)⟩
      have next := copy (j + 1) (Nat.succ_le_succ bound)
      rwa [List.cons_append, List.getD_cons_succ, ← Nat.add_assoc, Nat.add_right_comm] at next

/-- The virtual addresses from `dest` lie at the physical ones from `target`, outside the heap's
table, and what is stored there does not change where anything lies. -/
structure Writes (kernel : Kernel) (dest target : Addr) (max : Nat) : Prop where
  short : max < 2 ^ 32
  steady : ∀ bytes,
    (∀ address, max ≤ (address - target).toNat → bytes address = kernel.memory.bytes address) → ∀ virt,
    translate bytes kernel.pageDirectory virt = translate kernel.memory.bytes kernel.pageDirectory virt
  maps : ∀ i < max, translate kernel.memory.bytes kernel.pageDirectory (dest + BitVec.ofNat 32 i) =
    some (target + BitVec.ofNat 32 i)
  plain : ∀ i < max, kernel.memory.heap.table.total ≤ (target + BitVec.ofNat 32 i - heapTableAddress).toNat

/-- The byte at a virtual address, which does not lie where the copy goes. -/
def Kernel.Reads (kernel : Kernel) (target : Addr) (max : Nat) (virt : Addr) (c : Byte) : Prop :=
  ∃ address, translate kernel.memory.bytes kernel.pageDirectory virt = some address ∧
    max ≤ (address - target).toNat ∧ kernel.memory.physical address = c

section Copy
variable {kernel after : Kernel} {dest target src virt : Addr} {max : Nat} {bytes : Bytes} {text : List Byte} {c : Byte}

theorem Kernel.Reads.loadByte (reads : kernel.Reads target max virt c) (writes : Writes kernel dest target max)
    (agrees : ∀ address, max ≤ (address - target).toNat → bytes address = kernel.memory.bytes address) :
    Kernel.loadByte virt (kernel.setBytes bytes) = (.ok c, kernel.setBytes bytes) := by
  obtain ⟨address, found, outside, rfl⟩ := reads
  have same : translate (kernel.setBytes bytes).memory.bytes (kernel.setBytes bytes).pageDirectory virt =
      some address := (writes.steady bytes agrees virt).trans found
  unfold Kernel.loadByte
  rw [same]
  dsimp only
  unfold Memory.physical
  rw [show (kernel.setBytes bytes).memory.bytes address = kernel.memory.bytes address from agrees address outside]
  rfl

theorem Writes.storeByte (writes : Writes kernel dest target max)
    (agrees : ∀ address, max ≤ (address - target).toNat → bytes address = kernel.memory.bytes address) {i : Nat}
    (bound : i < max) (c : Byte) : Kernel.storeByte (dest + BitVec.ofNat 32 i) c (kernel.setBytes bytes) =
      (.ok (), kernel.setBytes (Function.update bytes (target + BitVec.ofNat 32 i) c)) := by
  have same : translate (kernel.setBytes bytes).memory.bytes (kernel.setBytes bytes).pageDirectory
      (dest + BitVec.ofNat 32 i) = some (target + BitVec.ofNat 32 i) :=
    (writes.steady bytes agrees _).trans (writes.maps i bound)
  have plain := writes.plain i bound
  unfold Kernel.storeByte
  rw [same]
  dsimp only
  unfold Memory.setPhysical
  rw [if_neg]
  · rfl
  · exact not_lt.mpr plain

theorem Writes.agrees_update (writes : Writes kernel dest target max)
    (agrees : ∀ address, max ≤ (address - target).toNat → bytes address = kernel.memory.bytes address) {i : Nat}
    (bound : i < max) (c : Byte) : ∀ address, max ≤ (address - target).toNat →
      Function.update bytes (target + BitVec.ofNat 32 i) c address = kernel.memory.bytes address := by
  have short := writes.short
  intro address outside
  rw [Function.update_of_ne, agrees address outside]
  rintro rfl
  have inside : (target + BitVec.ofNat 32 i - target).toNat = i := by bv_omega
  omega

theorem Kernel.strncpyLoop_copies (writes : Writes kernel dest target max) {remaining i : Nat}
    (bound : i + remaining < max)
    (string : CutString (fun i c => kernel.Reads target max (src + BitVec.ofNat 32 i) c) remaining i text)
    (agrees : ∀ address, max ≤ (address - target).toNat → bytes address = kernel.memory.bytes address) :
    Kernel.strncpyLoop dest src remaining i (kernel.setBytes bytes) =
      (.ok (i + text.length), kernel.setBytes (storeBytes bytes (target + BitVec.ofNat 32 i) text)) := by
  induction remaining generalizing i text bytes with
  | zero =>
    rw [show text = [] from string]
    rfl
  | succ remaining ih =>
    unfold Kernel.strncpyLoop
    cases text with
    | nil =>
      rw [bind_ok (Kernel.Reads.loadByte string writes agrees), if_pos rfl]
      rfl
    | cons c rest =>
      obtain ⟨nonnull, reads, later⟩ := string
      have inside : i < max := by omega
      have next : target + BitVec.ofNat 32 (i + 1) = target + BitVec.ofNat 32 i + 1 := by bv_omega
      have copied := ih (by omega) later (writes.agrees_update agrees inside c)
      rw [bind_ok (reads.loadByte writes agrees), if_neg nonnull, bind_ok (writes.storeByte agrees inside c)]
      refine copied.trans ?_
      rw [next, List.length_cons, storeBytes, Nat.add_right_comm, Nat.add_assoc]

theorem Kernel.strncpy_copies (writes : Writes kernel dest target max) (positive : 0 < max)
    (string : CutString (fun i c => kernel.Reads target max (src + BitVec.ofNat 32 i) c) (max - 1) 0 text) :
    Kernel.strncpy dest src max kernel =
      (.ok (), kernel.setBytes (storeBytes kernel.memory.bytes target (text ++ [0]))) := by
  have length := string.length_le
  have short := writes.short
  have copied := Kernel.strncpyLoop_copies writes (by omega) string (fun _ _ => rfl)
  rw [BitVec.add_zero, Nat.zero_add] at copied
  have agrees : ∀ address, max ≤ (address - target).toNat →
      storeBytes kernel.memory.bytes target text address = kernel.memory.bytes address :=
    fun address outside => storeBytes_outside _ _ _ (by omega) (by omega)
  have inside : text.length < max := by omega
  unfold Kernel.strncpy
  rw [show ((max : Int) - 1).toNat = max - 1 by omega]
  refine (bind_ok copied).trans ?_
  rw [storeBytes_append]
  exact writes.storeByte agrees inside 0

theorem Kernel.strncpyLoop_within (writes : Writes kernel dest target max) {remaining i n : Nat}
    (bound : i + remaining < max)
    (agrees : ∀ address, max ≤ (address - target).toNat → bytes address = kernel.memory.bytes address)
    (run : Kernel.strncpyLoop dest src remaining i (kernel.setBytes bytes) = (.ok n, after)) :
    n < max ∧ ∃ left, after = kernel.setBytes left ∧
      ∀ address, max ≤ (address - target).toNat → left address = kernel.memory.bytes address := by
  induction remaining generalizing i bytes with
  | zero =>
    cases run
    exact ⟨by omega, bytes, rfl, agrees⟩
  | succ remaining ih =>
    have inside : i < max := by omega
    unfold Kernel.strncpyLoop at run
    obtain ⟨c, middle, load, run⟩ := bind_eq_ok run
    have same : middle = kernel.setBytes bytes := by
      unfold Kernel.loadByte at load
      split at load
      · cases load
      · cases load
        rfl
    rw [same] at run
    split at run
    · cases run
      exact ⟨inside, bytes, rfl, agrees⟩
    · rw [bind_ok (writes.storeByte agrees inside c)] at run
      exact ih (by omega) (writes.agrees_update agrees inside c) run

theorem Kernel.strncpy_within (writes : Writes kernel dest target max) (positive : 0 < max)
    (run : Kernel.strncpy dest src max kernel = (.ok (), after)) : ∃ left, after = kernel.setBytes left ∧
      ∀ address, max ≤ (address - target).toNat → left address = kernel.memory.bytes address := by
  unfold Kernel.strncpy at run
  rw [show ((max : Int) - 1).toNat = max - 1 by omega] at run
  obtain ⟨n, middle, copied, ended⟩ := bind_eq_ok run
  have start : Kernel.strncpyLoop dest src (max - 1) 0 (kernel.setBytes kernel.memory.bytes) = (.ok n, middle) := copied
  obtain ⟨bound, left, rfl, agrees⟩ := Kernel.strncpyLoop_within writes (by omega) (fun _ _ => rfl) start
  rw [writes.storeByte agrees bound 0] at ended
  cases ended
  exact ⟨_, rfl, writes.agrees_update agrees bound 0⟩

end Copy

theorem Kernel.onBytes_run {kernel : Kernel} {call : Bytes → Int × Bytes} {res : Int} {bytes : Bytes}
    (result : call kernel.memory.bytes = (res, bytes)) :
    Kernel.onBytes call kernel = (.ok res, kernel.setBytes bytes) := by
  unfold Kernel.onBytes
  rw [result]
  rfl

/-- The address of the entry of a page in a directory's tables. -/
def entryAddress (bytes : Bytes) (directory page : Addr) : Addr :=
  slot (frameOf (load32 bytes (slot directory (directoryIndex page)))) (tableIndex page)

/-- The bytes agree on the pages of the blocks. -/
def SamePages (heap : Heap) (blocks : Set Nat) (before after : Bytes) : Prop :=
  ∀ block ∈ blocks, ∀ address, frameOf address = heapBlockToAddress heap block → after address = before address

section Entries
variable {bytes : Bytes} {chunk directory page virt : Addr} {tables : Nat → Addr} {memory : Memory} {blocks : Set Nat}
  {after : Bytes}

theorem translate_eq (bytes : Bytes) (directory virt : Addr) : translate bytes directory virt =
    if pagingGet bytes directory (frameOf virt) &&& pagingIsPresent = 0 then none
    else some (frameOf (pagingGet bytes directory (frameOf virt)) + BitVec.ofNat 32 (virt.toNat % pagingPageSize)) := by
  unfold translate
  rw [pagingAlignToLowerPage_eq, pagingGetPhysicalAddress_eq]

theorem PageTables.entryAddress (paged : PageTables bytes chunk directory tables) (page : Addr) :
    PeachOS.entryAddress bytes directory page = slot (tables (directoryIndex page)) (tableIndex page) := by
  unfold PeachOS.entryAddress
  rw [paged.directoryWords _ (directoryIndex_lt page)]

theorem SamePages.trans {heap : Heap} {middle : Bytes} (first : SamePages heap blocks bytes middle)
    (second : SamePages heap blocks middle after) : SamePages heap blocks bytes after :=
  fun block member address inside => (second block member address inside).trans (first block member address inside)

/-- What a directory says lies on its own page and on those of its tables. -/
theorem PageTables.translate (paged : PageTables bytes chunk directory tables)
    (paging : PageTables after chunk directory tables)
    (same : ∀ k < 1024, ∀ address, frameOf address = tables k → after address = bytes address) (virt : Addr) :
    translate after directory virt = translate bytes directory virt := by
  have aligned := frameOf_aligned virt
  have bound := directoryIndex_lt (frameOf virt)
  have word : PeachOS.pagingGet after directory (frameOf virt) =
      PeachOS.pagingGet bytes directory (frameOf virt) := by
    rw [paging.pagingGet aligned, paged.pagingGet aligned]
    exact load32_congr_page (paged.tablesAligned _ bound) (tableIndex_lt _) (same _ bound)
  rw [translate_eq, translate_eq, word]

theorem SpaceBlocks.translate (space : SpaceBlocks memory chunk blocks)
    (same : SamePages memory.heap blocks memory.bytes after) (virt : Addr) :
    translate after (directoryEntry memory.bytes chunk) virt =
      translate memory.bytes (directoryEntry memory.bytes chunk) virt ∧
    directoryEntry after chunk = directoryEntry memory.bytes chunk := by
  obtain ⟨own, directory, tables, rfl, rfl, paged, _⟩ := space.layout
  have paging := paged.congr (same own (Set.mem_insert _ _))
    (same directory (Set.mem_insert_of_mem _ (mem_builtBlocks_directory _ _ _)))
  rw [paged.chunkWord]
  refine ⟨paged.translate paging (fun k bound => ?_) virt, paging.chunkWord⟩
  exact same _ (Set.mem_insert_of_mem _ (mem_builtBlocks_table tables bound))

theorem SpaceBlocks.nonnull (space : SpaceBlocks memory chunk blocks) (heap : KernelHeap memory.heap) :
    chunk ≠ 0 := by
  obtain ⟨own, directory, tables, rfl, rfl, _⟩ := space.layout
  exact heap.nonnull (space.single own (Set.mem_insert _ _)).1

end Entries

end PeachOS
