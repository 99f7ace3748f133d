import PeachOS.KHeap

/-! `memory/paging/paging.c`. Directories and tables are words in memory, reached
through the pointers and masks of the code. -/

namespace PeachOS
open ByteMemory

abbrev pagingAccessFromAll : Word := 0x04
abbrev pagingIsWriteable : Word := 0x02
abbrev pagingIsPresent : Word := 0x01

abbrev pagingTotalEntriesPerTable : Nat := 1024
abbrev pagingPageSize : Nat := 4096

/-- The address of `base[index]` for a `uint32_t* base`. -/
def slot (base : Addr) (index : Nat) : Addr := base + BitVec.ofNat 32 (4 * index)

/-- `entry & 0xfffff000`. -/
def frameOf (entry : Word) : Addr := entry &&& 0xfffff000#32

/-- The inner loop of `paging_new_4gb`, from entry `b` on. -/
def pagingFillTable (entry : Addr) (offset flags : Word) :
    (remaining b : Nat) → Bytes → Bytes
  | 0, _, bytes => bytes
  | remaining + 1, b, bytes =>
      pagingFillTable entry offset flags remaining (b + 1)
        (store32 bytes (slot entry b) ((offset + BitVec.ofNat 32 (b * pagingPageSize)) ||| flags))

/-- The outer loop of `paging_new_4gb`, from table `i` on. The code writes through
the result of `kzalloc` unchecked; a null result has no behaviour here. -/
def pagingNewTables (directory : Addr) (flags : Word) :
    (remaining i : Nat) → (offset : Word) → Memory → Option Memory
  | 0, _, _, memory => some memory
  | remaining + 1, i, offset, memory =>
      let (entry, memory) := kzalloc (BitVec.ofNat 32 (4 * pagingTotalEntriesPerTable)) memory
      if entry = 0 then none
      else
        let bytes := pagingFillTable entry offset flags pagingTotalEntriesPerTable 0 memory.bytes
        let bytes := store32 bytes (slot directory i) (entry ||| flags ||| pagingIsWriteable)
        pagingNewTables directory flags remaining (i + 1)
          (offset + BitVec.ofNat 32 (pagingTotalEntriesPerTable * pagingPageSize))
          { memory with bytes := bytes }

/-- The result is the chunk, whose only word is the directory pointer. -/
def pagingNew4gb (flags : BitVec 8) (memory : Memory) : Option (Addr × Memory) :=
  let (directory, memory) := kzalloc (BitVec.ofNat 32 (4 * pagingTotalEntriesPerTable)) memory
  if directory = 0 then none
  else do
    let memory ← pagingNewTables directory (flags.setWidth 32) pagingTotalEntriesPerTable 0 0 memory
    let (chunk4gb, memory) := kzalloc 4 memory
    if chunk4gb = 0 then none
    else some (chunk4gb, { memory with bytes := store32 memory.bytes chunk4gb directory })

/-- `chunk->directory_entry`. -/
def directoryEntry (bytes : Bytes) (chunk : Addr) : Addr := load32 bytes chunk

def pagingFreeTables (chunk : Addr) : (remaining i : Nat) → Memory → Memory
  | 0, _, memory => memory
  | remaining + 1, i, memory =>
      let entry := load32 memory.bytes (slot (directoryEntry memory.bytes chunk) i)
      let table := frameOf entry
      pagingFreeTables chunk remaining (i + 1) (kfree table memory)

def pagingFree4gb (chunk : Addr) (memory : Memory) : Memory :=
  let memory := pagingFreeTables chunk 1024 0 memory
  let memory := kfree (directoryEntry memory.bytes chunk) memory
  kfree chunk memory

def pagingIsAligned (addr : Addr) : Bool := addr.toNat % pagingPageSize == 0

def directoryIndex (virtualAddress : Addr) : Nat :=
  virtualAddress.toNat / (pagingTotalEntriesPerTable * pagingPageSize)

def tableIndex (virtualAddress : Addr) : Nat :=
  virtualAddress.toNat % (pagingTotalEntriesPerTable * pagingPageSize) / pagingPageSize

/-- The code, with the two indices when they are written. -/
def pagingGetIndexes (virtualAddress : Addr) : Int × Option (Nat × Nat) :=
  if !pagingIsAligned virtualAddress then (-EINVARG, none)
  else (0, some (directoryIndex virtualAddress, tableIndex virtualAddress))

def pagingAlignAddress (ptr : Addr) : Addr :=
  if ptr.toNat % pagingPageSize ≠ 0 then
    ptr + BitVec.ofNat 32 pagingPageSize - BitVec.ofNat 32 (ptr.toNat % pagingPageSize)
  else ptr

def pagingAlignToLowerPage (addr : Addr) : Addr :=
  addr - BitVec.ofNat 32 (addr.toNat % pagingPageSize)

def pagingSet (bytes : Bytes) (directory virt : Addr) (val : Word) : Int × Bytes :=
  if !pagingIsAligned virt then (-EINVARG, bytes)
  else
    match pagingGetIndexes virt with
    | (_, some (directoryIndex, tableIndex)) =>
        let entry := load32 bytes (slot directory directoryIndex)
        let table := frameOf entry
        (0, store32 bytes (slot table tableIndex) val)
    | (res, none) => (res, bytes)

/-- An unaligned address leaves both indices at their initial 0. -/
def pagingGet (bytes : Bytes) (directory virt : Addr) : Word :=
  let (directoryIndex, tableIndex) := (pagingGetIndexes virt).2.getD (0, 0)
  let entry := load32 bytes (slot directory directoryIndex)
  let table := frameOf entry
  load32 bytes (slot table tableIndex)

def pagingMap (bytes : Bytes) (chunk virt phys : Addr) (flags : Word) : Int × Bytes :=
  if virt.toNat % pagingPageSize ≠ 0 ∨ phys.toNat % pagingPageSize ≠ 0 then (-EINVARG, bytes)
  else pagingSet bytes (directoryEntry bytes chunk) virt (phys ||| flags)

/-- The loop of `paging_map_range` with `remaining` pages to go; `res` is the last result. -/
def pagingMapRangeLoop (chunk : Addr) (flags : Word) :
    (remaining : Nat) → (virt phys : Addr) → (res : Int) → Bytes → Int × Bytes
  | 0, _, _, res, bytes => (res, bytes)
  | remaining + 1, virt, phys, _, bytes =>
      let (res, bytes) := pagingMap bytes chunk virt phys flags
      if res < 0 then (res, bytes)
      else pagingMapRangeLoop chunk flags remaining (virt + BitVec.ofNat 32 pagingPageSize)
        (phys + BitVec.ofNat 32 pagingPageSize) res bytes

def pagingMapRange (bytes : Bytes) (chunk virt phys : Addr) (count : Int) (flags : Word) :
    Int × Bytes :=
  pagingMapRangeLoop chunk flags count.toNat virt phys 0 bytes

def pagingMapTo (bytes : Bytes) (chunk virt phys physEnd : Addr) (flags : Word) : Int × Bytes :=
  if virt.toNat % pagingPageSize ≠ 0 then (-EINVARG, bytes)
  else if phys.toNat % pagingPageSize ≠ 0 then (-EINVARG, bytes)
  else if physEnd.toNat % pagingPageSize ≠ 0 then (-EINVARG, bytes)
  else if physEnd.toNat < phys.toNat then (-EINVARG, bytes)
  else
    let totalBytes := physEnd - phys
    let totalPages := totalBytes.toNat / pagingPageSize
    pagingMapRange bytes chunk virt phys totalPages flags

def pagingGetPhysicalAddress (bytes : Bytes) (directory virt : Addr) : Addr :=
  let virtAddrNew := pagingAlignToLowerPage virt
  let difference := virt - virtAddrNew
  frameOf (pagingGet bytes directory virtAddrNew) + difference

end PeachOS
