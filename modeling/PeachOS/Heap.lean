import Mathlib.Logic.Function.Basic
import PeachOS.Machine

/-! `memory/heap/heap.c`. The `entries` pointer is a map from signed indices to
bytes: the block table is `0 ≤ i < total`, and every other index is memory
around the table, which the unchecked loops below can reach. -/

namespace PeachOS

abbrev Entry := Byte

abbrev heapBlockTableEntryTaken : Entry := 0x01
abbrev heapBlockTableEntryFree : Entry := 0x00
abbrev heapBlockHasNext : Entry := 0x80
abbrev heapBlockIsFirst : Entry := 0x40

structure HeapTable where
  entries : Int → Entry
  total : Nat

structure Heap where
  table : HeapTable
  saddr : Addr

def Heap.withEntries (heap : Heap) (entries : Int → Entry) : Heap :=
  { heap with table := { heap.table with entries := entries } }

@[simp] theorem Heap.withEntries_entries (heap : Heap) (entries : Int → Entry) :
    (heap.withEntries entries).table.entries = entries := rfl

@[simp] theorem Heap.withEntries_total (heap : Heap) (entries : Int → Entry) :
    (heap.withEntries entries).table.total = heap.table.total := rfl

@[simp] theorem Heap.withEntries_saddr (heap : Heap) (entries : Int → Entry) :
    (heap.withEntries entries).saddr = heap.saddr := rfl

def heapValidateTable (ptr finish : Addr) (table : HeapTable) : Int :=
  if table.total ≠ (finish - ptr).toNat / heapBlockSize then -EINVARG else 0

def heapValidateAlignment (ptr : Addr) : Bool :=
  ptr.toNat % heapBlockSize == 0

def heapCreate (heap : Heap) (ptr finish : Addr) (table : HeapTable) : Int × Heap :=
  if !heapValidateAlignment ptr || !heapValidateAlignment finish then (-EINVARG, heap)
  else
    let heap : Heap := { table := table, saddr := ptr }
    if heapValidateTable ptr finish table < 0 then (heapValidateTable ptr finish table, heap)
    else (0, heap.withEntries (fun i =>
      if 0 ≤ i ∧ i < table.total then heapBlockTableEntryFree else table.entries i))

def heapAlignValueToUpper (val : Word) : Word :=
  if val.toNat % heapBlockSize = 0 then val
  else val - BitVec.ofNat 32 (val.toNat % heapBlockSize) + BitVec.ofNat 32 heapBlockSize

/-- The sizes that the rounding of `heap_malloc` turns into at least one block. -/
def Roundable (size : Word) : Prop := 1 ≤ size.toNat ∧ size.toNat ≤ 2 ^ 32 - 4096

instance (size : Word) : Decidable (Roundable size) := inferInstanceAs (Decidable (_ ∧ _))

def heapGetEntryType (entry : Entry) : Entry := entry &&& 0x0f

/-- The scan from index `i`, with the length `bc` and start `bs` of the current free run. -/
def heapGetStartBlockLoop (entries : Int → Entry) (totalBlocks : Word) :
    (remaining i bc : Nat) → (bs : Int) → Int
  | 0, _, _, bs => bs
  | remaining + 1, i, bc, bs =>
      if heapGetEntryType (entries i) ≠ heapBlockTableEntryFree then
        heapGetStartBlockLoop entries totalBlocks remaining (i + 1) 0 (-1)
      else
        let bs := if bs = -1 then (i : Int) else bs
        if bc + 1 = totalBlocks.toNat then bs
        else heapGetStartBlockLoop entries totalBlocks remaining (i + 1) (bc + 1) bs

def heapGetStartBlock (heap : Heap) (totalBlocks : Word) : Int :=
  let bs := heapGetStartBlockLoop heap.table.entries totalBlocks heap.table.total 0 0 (-1)
  if bs = -1 then -ENOMEM else bs

def heapBlockToAddress (heap : Heap) (block : Int) : Addr :=
  heap.saddr + BitVec.ofInt 32 (block * heapBlockSize)

def heapMarkBlocksTakenLoop (endBlock : Int) :
    (remaining : Nat) → (i : Int) → Entry → (Int → Entry) → (Int → Entry)
  | 0, _, _, entries => entries
  | remaining + 1, i, entry, entries =>
      heapMarkBlocksTakenLoop endBlock remaining (i + 1)
        (if i ≠ endBlock - 1 then heapBlockTableEntryTaken ||| heapBlockHasNext
          else heapBlockTableEntryTaken)
        (Function.update entries i entry)

def heapMarkBlocksTaken (heap : Heap) (startBlock : Int) (totalBlocks : Nat) : Heap :=
  let endBlock := startBlock + totalBlocks - 1
  let entry := heapBlockTableEntryTaken ||| heapBlockIsFirst
  let entry := if totalBlocks > 1 then entry ||| heapBlockHasNext else entry
  heap.withEntries
    (heapMarkBlocksTakenLoop endBlock (endBlock + 1 - startBlock).toNat startBlock entry
      heap.table.entries)

/-- `heap_mark_blocks_taken` takes the count as an `int`: from `2 ^ 31` on it is negative
and the loop marks nothing. -/
def heapMallocBlocks (heap : Heap) (totalBlocks : Word) : Addr × Heap :=
  let startBlock := heapGetStartBlock heap totalBlocks
  if startBlock < 0 then (0, heap)
  else (heapBlockToAddress heap startBlock,
    heapMarkBlocksTaken heap startBlock totalBlocks.toInt.toNat)

theorem intCount_eq (count : Word) (small : count.toNat < 2 ^ 31) :
    count.toInt.toNat = count.toNat := by
  rw [BitVec.toInt_eq_toNat_of_lt (by omega), Int.toNat_natCast]

def heapMarkBlocksFreeLoop : (remaining : Nat) → (i : Int) → (Int → Entry) → (Int → Entry)
  | 0, _, entries => entries
  | remaining + 1, i, entries =>
      let entry := entries i
      let entries := Function.update entries i heapBlockTableEntryFree
      if entry &&& heapBlockHasNext = 0 then entries
      else heapMarkBlocksFreeLoop remaining (i + 1) entries

def heapMarkBlocksFree (heap : Heap) (startingBlock : Int) : Heap :=
  heap.withEntries
    (heapMarkBlocksFreeLoop (heap.table.total - startingBlock).toNat startingBlock
      heap.table.entries)

/-- The byte distance is a signed `int`; C division rounds it towards zero. -/
def heapAddressToBlock (heap : Heap) (address : Addr) : Int :=
  (address - heap.saddr).toInt.tdiv heapBlockSize

def heapMalloc (heap : Heap) (size : Word) : Addr × Heap :=
  let alignedSize := heapAlignValueToUpper size
  let totalBlocks := BitVec.ofNat 32 (alignedSize.toNat / heapBlockSize)
  heapMallocBlocks heap totalBlocks

def heapFree (heap : Heap) (ptr : Addr) : Heap :=
  heapMarkBlocksFree heap (heapAddressToBlock heap ptr)

end PeachOS
