import PeachOS.Heap
import PeachOS.Lib.Bytes

/-! `memory/heap/kheap.c`: the kernel's heap over its address space. The block
table and the bytes around it are kept in `heap`, the rest of memory in `bytes`. -/

namespace PeachOS
open ByteMemory

structure Memory where
  heap : Heap
  bytes : Bytes

def kheapInit (entries : Int → Entry) (heap : Heap) : Int × Heap :=
  let totalTableEntries := heapSizeBytes / heapBlockSize
  heapCreate heap heapAddress (heapAddress + BitVec.ofNat 32 heapSizeBytes)
    { entries := entries, total := totalTableEntries }

def kmalloc (size : Word) (memory : Memory) : Addr × Memory :=
  ((heapMalloc memory.heap size).1, { memory with heap := (heapMalloc memory.heap size).2 })

def kzalloc (size : Word) (memory : Memory) : Addr × Memory :=
  let (ptr, memory) := kmalloc size memory
  if ptr = 0 then (0, memory)
  else (ptr, { memory with bytes := fill memory.bytes ptr size.toNat 0 })

theorem kzalloc_ptr (size : Word) (memory : Memory) :
    (kzalloc size memory).1 = (heapMalloc memory.heap size).1 := by
  show _ = (kmalloc size memory).1
  unfold kzalloc
  dsimp only
  split
  next null => exact null.symm
  next => rfl

theorem kzalloc_heap (size : Word) (memory : Memory) :
    (kzalloc size memory).2.heap = (heapMalloc memory.heap size).2 := by
  show _ = (kmalloc size memory).2.heap
  unfold kzalloc
  dsimp only
  split <;> rfl

theorem kzalloc_eq {size : Word} {memory : Memory} {ptr : Addr} {heap : Heap}
    (malloc : heapMalloc memory.heap size = (ptr, heap)) (nonnull : ptr ≠ 0) :
    kzalloc size memory = (ptr, ⟨heap, fill memory.bytes ptr size.toNat 0⟩) := by
  unfold kzalloc kmalloc
  rw [malloc]
  exact if_neg nonnull

def kfree (ptr : Addr) (memory : Memory) : Memory :=
  { memory with heap := heapFree memory.heap ptr }

end PeachOS
