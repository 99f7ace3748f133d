import PeachOS.AbstractHeap
import PeachOS.AddressSpace
import PeachOS.Lib.Run

/-! The abstract heap is one of the kernel's: whatever the kernel's own heap and `paging.c`
answer to requests of at least one byte and to releases of what is in use, the abstract heap
can answer, and no two addresses in use have a block in common. -/

namespace PeachOS
open Program BlockPool Transition

/-- What the code over them asks of the heap and of `paging.c`. -/
inductive HeapCall where
  | kzalloc (use : BlockUse) (size : Word)
  | kfree (ptr : Addr)
  | pagingNew4gb (process : Addr) (flags : BitVec 8)
  | pagingFree4gb (chunk : Addr)

def HeapCall.run {σ : Type} (below : Below σ) : HeapCall → Prog σ Stop Addr
  | .kzalloc use size => below.kzalloc use size
  | .kfree ptr => do
      below.kfree ptr
      pure 0
  | .pagingNew4gb process flags => below.pagingNew4gb process flags
  | .pagingFree4gb chunk => do
      below.pagingFree4gb chunk
      pure 0

/-- A call, as one of these layers serves it, and its result. -/
def AnswersCall {σ : Type} (layers : Set (Below σ)) (before : σ) (call : HeapCall × Addr) (after : σ) : Prop :=
  ∃ below ∈ layers, call.1.run below before = (.ok call.2, after)

/-- A request that is rounded to a block, or the release of null or of what is in use. -/
def HeapCall.Fits (system : System) : HeapCall → Prop
  | .kzalloc use size => Roundable size ∧ ∀ process, use ≠ .owned .space process
  | .kfree ptr => ptr = 0 ∨ system.blocks ptr ≠ none
  | .pagingNew4gb _ _ => True
  | .pagingFree4gb chunk => ∃ process, system.blocks chunk = some (.owned .space process)

/-- Each address in use has blocks of its own, `parts` of it: chains begin there, one of them at
the address, and those of an address space are its chunk, its directory and its tables. -/
structure BackedBy (memory : Memory) (blocks : Addr → Option BlockUse) (parts : Addr → Set Nat) : Prop where
  sound : Sound memory.heap
  starts : ∀ ptr, blocks ptr ≠ none → ∃ start ∈ parts ptr, ptr = heapBlockToAddress memory.heap start
  held : ∀ ptr, blocks ptr ≠ none → ∀ start ∈ parts ptr, Held memory.heap start
  space : ∀ chunk process, blocks chunk = some (.owned .space process) → SpaceBlocks memory chunk (parts chunk)
  apart : ∀ ptr other, blocks ptr ≠ none → blocks other ≠ none → ptr ≠ other → Disjoint (parts ptr) (parts other)

/-- The kernel's heap backs the abstract one. -/
def Backs (kernel : Kernel) (system : System) : Prop := ∃ parts, BackedBy kernel.memory system.blocks parts

section Releases
variable {before after : Memory} {released : Set Nat} {block : Nat}

theorem Releases.linked (releases : Releases before after released) {i : Int}
    (next : HasNext (after.heap.table.entries i)) : HasNext (before.heap.table.entries i) := by
  by_cases inside : ∃ block ∈ released, i = (block : Nat)
  · obtain ⟨block, member, rfl⟩ := inside
    rw [releases.freed block member] at next
    exact absurd next (by decide)
  · rwa [releases.kept i (fun block member same => inside ⟨block, member, same⟩)] at next

theorem Releases.outside (releases : Releases before after released) (outside : block ∉ released) :
    after.heap.table.entries (block : Nat) = before.heap.table.entries (block : Nat) :=
  releases.kept block (fun _ member same => outside (Int.ofNat.inj same ▸ member))

theorem Releases.sound (releases : Releases before after released) (sound : Sound before.heap)
    (clean : ∀ block ∈ released, Clean before.heap block) : Sound after.heap where
  kernel := sound.kernel.congr releases.saddr releases.total
  guard := fun next => sound.guard (releases.linked next)
  linked := by
    intro block bound next
    rw [releases.total] at bound
    have outside : block + 1 ∉ released :=
      fun member => (clean _ member).first block rfl (releases.linked next)
    unfold EntryFree
    rw [releases.outside outside]
    exact sound.linked block bound (releases.linked next)

theorem Releases.held (releases : Releases before after released) (held : Held before.heap block)
    (outside : block ∉ released) : Held after.heap block where
  clean := ⟨releases.total ▸ held.clean.bound,
    fun previous same next => held.clean.first previous same (releases.linked next)⟩
  taken := by
    unfold EntryFree
    rw [releases.outside outside]
    exact held.taken

end Releases

theorem kept_of_update {blocks : Addr → Option BlockUse} {ptr other : Addr}
    (inUse : Function.update blocks ptr none other ≠ none) :
    other ≠ ptr ∧ Function.update blocks ptr none other = blocks other := by
  by_cases same : other = ptr
  · subst same
    rw [Function.update_self] at inUse
    exact absurd rfl inUse
  · exact ⟨same, Function.update_of_ne same _ _⟩

section Backed
variable {memory after : Memory} {blocks fewer : Addr → Option BlockUse} {parts : Addr → Set Nat} {fresh : Set Nat}
  {ptr : Addr} {start : Nat}

/-- What is still in use is backed by a heap that leaves its chains and its address spaces alone. -/
theorem BackedBy.keep (backed : BackedBy memory blocks parts)
    (less : ∀ ptr, fewer ptr ≠ none → fewer ptr = blocks ptr) (sound : Sound after.heap)
    (saddr : after.heap.saddr = memory.heap.saddr)
    (held : ∀ ptr, fewer ptr ≠ none → ∀ start ∈ parts ptr, Held after.heap start)
    (space : ∀ chunk process, fewer chunk = some (.owned .space process) → SpaceBlocks after chunk (parts chunk)) :
    BackedBy after fewer parts where
  sound := sound
  starts := by
    intro ptr inUse
    obtain ⟨start, member, same⟩ := backed.starts ptr (less ptr inUse ▸ inUse)
    exact ⟨start, member, same.trans (heapBlockToAddress_congr saddr start).symm⟩
  held := held
  space := space
  apart := fun ptr other inUse otherInUse =>
    backed.apart ptr other (less ptr inUse ▸ inUse) (less other otherInUse ▸ otherInUse)

theorem BackedBy.add (backed : BackedBy memory blocks parts) (use : BlockUse) (member : start ∈ fresh)
    (held : ∀ start ∈ fresh, Held memory.heap start)
    (space : ∀ process, use = .owned .space process → SpaceBlocks memory (heapBlockToAddress memory.heap start) fresh)
    (apart : ∀ other, blocks other ≠ none → Disjoint fresh (parts other)) :
    BackedBy memory (Function.update blocks (heapBlockToAddress memory.heap start) (some use))
      (Function.update parts (heapBlockToAddress memory.heap start) fresh) where
  sound := backed.sound
  starts := by
    intro ptr inUse
    by_cases new : ptr = heapBlockToAddress memory.heap start
    · subst new
      rw [Function.update_self]
      exact ⟨start, member, rfl⟩
    · rw [Function.update_of_ne new] at inUse ⊢
      exact backed.starts ptr inUse
  held := by
    intro ptr inUse
    by_cases new : ptr = heapBlockToAddress memory.heap start
    · subst new
      rw [Function.update_self]
      exact held
    · rw [Function.update_of_ne new] at inUse ⊢
      exact backed.held ptr inUse
  space := by
    intro chunk process inUse
    by_cases new : chunk = heapBlockToAddress memory.heap start
    · subst new
      rw [Function.update_self] at inUse ⊢
      exact space process (Option.some.inj inUse)
    · rw [Function.update_of_ne new] at inUse ⊢
      exact backed.space chunk process inUse
  apart := by
    intro ptr other inUse otherInUse different
    by_cases new : ptr = heapBlockToAddress memory.heap start
    · subst new
      rw [Function.update_of_ne (Ne.symm different)] at otherInUse ⊢
      rw [Function.update_self]
      exact apart other otherInUse
    · rw [Function.update_of_ne new] at inUse ⊢
      by_cases otherNew : other = heapBlockToAddress memory.heap start
      · subst otherNew
        rw [Function.update_self]
        exact (apart ptr inUse).symm
      · rw [Function.update_of_ne otherNew] at otherInUse ⊢
        exact backed.apart ptr other inUse otherInUse different

theorem BackedBy.unused (backed : BackedBy memory blocks parts) (bound : start < memory.heap.table.total)
    (free : EntryFree memory.heap.table.entries start) : blocks (heapBlockToAddress memory.heap start) = none := by
  by_contra inUse
  obtain ⟨other, member, same⟩ := backed.starts _ inUse
  have held := backed.held _ inUse other member
  rw [heapBlockToAddress_inj backed.sound.kernel.pool bound held.clean.bound same] at free
  exact held.taken free

theorem BackedBy.heldAt (backed : BackedBy memory blocks parts) (inUse : blocks ptr ≠ none) :
    HeldAt memory.heap ptr := by
  obtain ⟨start, member, same⟩ := backed.starts ptr inUse
  exact ⟨start, same, backed.held ptr inUse start member⟩

end Backed

section Requests
variable {before after : Kernel} {memory : Memory} {blocks : Addr → Option BlockUse} {parts : Addr → Set Nat}
  {ptr : Addr} {use : BlockUse} {size : Word} {start count : Nat}

theorem BackedBy.marks (backed : BackedBy before.memory blocks parts)
    (marks : Marks before.memory.heap after.memory.heap start (mallocBlocks size))
    (short : (heapBlockToAddress before.memory.heap start).toNat + size.toNat ≤ 2 ^ 32)
    (bytes : after.memory.bytes = ByteMemory.fill before.memory.bytes (heapBlockToAddress before.memory.heap start)
      size.toNat 0) : BackedBy after.memory blocks parts := by
  refine backed.keep (fun _ _ => rfl) (marks.sound backed.sound) marks.saddr
    (fun ptr inUse start member => marks.held (backed.held ptr inUse start member)) ?_
  intro chunk process inUse
  have held := backed.held chunk (inUse ▸ Option.some_ne_none _)
  refine (backed.space chunk process inUse).congr marks.saddr marks.total ?_ ?_
  · intro block member
    have outside := marks.apart (held block member).clean.bound (held block member).taken
    exact marks.outside (by omega)
  · intro block member address page
    rw [bytes]
    refine if_neg (fun filled => ?_)
    have inside := filled_inside backed.sound.kernel marks.bound (held block member).clean.bound short page filled
    exact (held block member).taken (marks.free block inside.1 inside.2 (held block member).clean.bound)

theorem BackedBy.kzalloc (backed : BackedBy before.memory blocks parts) (roundable : Roundable size)
    (ordinary : ∀ process, use ≠ .owned .space process) (run : Kernel.kzalloc size before = (.ok ptr, after)) :
    (ptr = 0 ∧ after = before) ∨ (ptr ≠ 0 ∧ blocks ptr = none ∧
      ∃ parts, BackedBy after.memory (Function.update blocks ptr (some use)) parts) := by
  rcases Kernel.kzalloc_marks backed.sound.kernel run with null | ⟨start, rfl, nonnull, short, marks, same⟩
  · exact Or.inl null
  · have kept := backed.marks marks short (congrArg (fun kernel => kernel.memory.bytes) same)
    have new := marks.fresh backed.sound (by
      unfold mallocBlocks
      rw [if_pos roundable.2]
      exact blocksFor_pos roundable)
    have added := kept.add use (Set.mem_singleton start) (fun _ member => Set.mem_singleton_iff.mp member ▸ new)
      (fun process equal => absurd equal (ordinary process)) (fun other inUse => by
        rw [Set.disjoint_singleton_left]
        exact fun member => (backed.held other inUse start member).taken marks.startFree)
    rw [heapBlockToAddress_congr marks.saddr] at added
    exact Or.inr ⟨nonnull, backed.unused marks.bound marks.startFree, _, added⟩

theorem BackedBy.kfree (backed : BackedBy memory blocks parts) (fits : ptr = 0 ∨ blocks ptr ≠ none) :
    BackedBy (PeachOS.kfree ptr memory) (Function.update blocks ptr none) parts := by
  have still : ∀ other, Function.update blocks ptr none other ≠ none → blocks other ≠ none :=
    fun other inUse => (kept_of_update inUse).2 ▸ inUse
  -- every chain that is in use still, is held and has its entry
  have kept : Sound (heapFree memory.heap ptr) ∧ ∀ other, Function.update blocks ptr none other ≠ none →
      ∀ start ∈ parts other, Held (heapFree memory.heap ptr) start ∧
        (heapFree memory.heap ptr).table.entries (start : Nat) = memory.heap.table.entries (start : Nat) := by
    rcases fits with rfl | inUse
    · have frees := backed.sound.heapFree_null
      exact ⟨frees.sound_below backed.sound, fun other otherInUse start member =>
        ⟨frees.held_below backed.sound (backed.held other (still other otherInUse) start member),
          frees.below backed.sound (by omega)⟩⟩
    · obtain ⟨first, firstIn, rfl⟩ := backed.starts ptr inUse
      have held := backed.held _ inUse first firstIn
      have frees := backed.sound.heapFree_block held.clean.bound
      refine ⟨frees.sound backed.sound held.clean, fun other otherInUse start member => ?_⟩
      have otherHeld := backed.held other (still other otherInUse) start member
      have different : start ≠ first := by
        rintro rfl
        exact Set.disjoint_left.mp (backed.apart _ _ inUse (still other otherInUse) (kept_of_update otherInUse).1.symm)
          firstIn member
      refine ⟨frees.held otherHeld different, frees.missed _ (fun reaches => different ?_)⟩
      have := otherHeld.clean.start_of_reached reaches (by omega)
      omega
  refine backed.keep (fun _ inUse => (kept_of_update inUse).2) kept.1 rfl
    (fun other inUse start member => (kept.2 other inUse start member).1) ?_
  intro chunk process inUse
  have some' : Function.update blocks ptr none chunk ≠ none := inUse ▸ Option.some_ne_none _
  exact (backed.space chunk process ((kept_of_update some').2 ▸ inUse)).congr rfl rfl
    (fun block member => (kept.2 chunk some' block member).2) (fun _ _ _ _ => rfl)

/-- The blocks of an address space that is given back were in use for nothing else. -/
theorem BackedBy.releases (backed : BackedBy memory blocks parts) {after : Memory} {chunk process : Addr}
    (inUse : blocks chunk = some (.owned .space process)) (releases : Releases memory after (parts chunk)) :
    BackedBy after (Function.update blocks chunk none) parts := by
  have chunkUse : blocks chunk ≠ none := inUse ▸ Option.some_ne_none _
  have apart : ∀ other, Function.update blocks chunk none other ≠ none → ∀ block ∈ parts other, block ∉ parts chunk := by
    intro other otherInUse block member inChunk
    obtain ⟨different, same⟩ := kept_of_update otherInUse
    exact Set.disjoint_left.mp (backed.apart chunk other chunkUse (same ▸ otherInUse) different.symm) inChunk member
  refine backed.keep (fun _ otherInUse => (kept_of_update otherInUse).2)
    (releases.sound backed.sound (fun block member => (backed.held chunk chunkUse block member).clean)) releases.saddr ?_ ?_
  · intro other otherInUse start member
    exact releases.held (backed.held other ((kept_of_update otherInUse).2 ▸ otherInUse) start member)
      (apart other otherInUse start member)
  · intro other owner otherInUse
    have some' : Function.update blocks chunk none other ≠ none := otherInUse ▸ Option.some_ne_none _
    exact (backed.space other owner ((kept_of_update some').2 ▸ otherInUse)).releases releases (apart other some')

theorem BackedBy.pagingFree4gb (backed : BackedBy memory blocks parts) {chunk process : Addr}
    (inUse : blocks chunk = some (.owned .space process)) :
    BackedBy (PeachOS.pagingFree4gb chunk memory) (Function.update blocks chunk none) parts :=
  backed.releases inUse ((backed.space chunk process inUse).free backed.sound.kernel.pool)

theorem BackedBy.pagingNew4gb (backed : BackedBy memory blocks parts) {after : Memory} {flags : BitVec 8}
    (built : PeachOS.pagingNew4gb flags memory = some (ptr, after)) (process : Addr) :
    ptr ≠ 0 ∧ blocks ptr = none ∧
      ∃ parts, BackedBy after (Function.update blocks ptr (some (.owned .space process))) parts := by
  have sound := backed.sound
  obtain ⟨chunk, directory, tables, rfl, new⟩ := pagingNew4gb_new sound.kernel.pool built
  have takes := new.takes
  have chunkFree := takes.free chunk (Set.mem_insert _ _)
  have kept := backed.keep (fun _ _ => rfl) (takes.sound sound) takes.saddr
    (fun ptr inUse start member => takes.held (backed.held ptr inUse start member))
    (fun other owner inUse => (backed.space other owner inUse).takes sound.kernel.pool takes)
  have same := heapBlockToAddress_congr takes.saddr chunk
  have added := kept.add (.owned .space process) (Set.mem_insert chunk _)
    (fun start member => takes.newHeld sound member) (fun _ _ => same.symm ▸ new.space) (fun other inUse => by
      rw [Set.disjoint_left]
      exact fun block member inOther => (backed.held other inUse block inOther).taken (takes.free block member).2)
  rw [same] at added
  exact ⟨sound.kernel.nonnull chunkFree.1, backed.unused chunkFree.1 chunkFree.2, _, added⟩

end Requests

def Oracle.answer (ptr : Addr) : Oracle where
  pick := fun _ _ => ptr
  loads := fun _ _ => .error ⟨-1, by decide⟩
  spills := fun _ _ => 0
  mapTo := fun _ => 0
  mapMemory := fun _ => 0

section Answers
variable {system : System} {ptr : Addr} {use : BlockUse} {size : Word}

theorem Oracle.answer_null (use : BlockUse) (size : Word) : (Oracle.answer 0).kzalloc use size system = (.ok 0, system) := by
  unfold Oracle.kzalloc
  exact if_pos rfl

theorem Oracle.answer_kzalloc (nonnull : ptr ≠ 0) (unused : system.blocks ptr = none) (roundable : Roundable size) :
    (Oracle.answer ptr).kzalloc use size system = (.ok ptr, system.mark ptr use) := by
  unfold Oracle.kzalloc
  rw [← System.serve_mark roundable]
  exact (if_neg nonnull).trans (if_neg (not_not_intro unused))

theorem Oracle.answer_pagingNew4gb {process : Addr} {flags : BitVec 8} (nonnull : ptr ≠ 0)
    (unused : system.blocks ptr = none) : (Oracle.answer ptr).below.pagingNew4gb process flags system =
      (.ok ptr, system.mark ptr (.owned .space process)) := by
  change (Oracle.answer ptr).take (.owned .space process) 4 system = _
  unfold Oracle.take
  rw [bind_ok (Oracle.answer_kzalloc nonnull unused (by decide)), if_neg nonnull]
  rfl

end Answers

section Refinement
variable {load : List Byte → Addr → KernelProg Int} {before after : Kernel} {system : System} {ptr : Addr}

theorem Backs.start (sound : Sound before.memory.heap) (empty : ∀ ptr, system.blocks ptr = none) :
    Backs before system :=
  ⟨fun _ => ∅, sound, fun ptr inUse => absurd (empty ptr) inUse, fun ptr inUse => absurd (empty ptr) inUse,
    fun chunk process inUse => absurd inUse (by rw [empty chunk]; exact nofun),
    fun ptr _ inUse => absurd (empty ptr) inUse⟩

theorem Backs.apart (backs : Backs before system) (inUse : system.blocks ptr ≠ none) :
    HeldAt before.memory.heap ptr ∧ ∀ other, system.blocks other ≠ none → other ≠ ptr →
      Disjoint (chainAt before.memory.heap ptr) (chainAt before.memory.heap other) := by
  obtain ⟨parts, backed⟩ := backs
  exact ⟨backed.heldAt inUse, fun other _ different => chainAt_disjoint different.symm⟩

theorem Backs.step {call : HeapCall × Addr} (backs : Backs before system) (fits : call.1.Fits system)
    (step : AnswersCall {kernelBelow load} before call after) :
    ∃ next, AnswersCall (Set.range Oracle.below) system call next ∧ Backs after next := by
  obtain ⟨parts, backed⟩ := backs
  obtain ⟨call, ptr⟩ := call
  obtain ⟨_, rfl, run⟩ := step
  cases call with
  | kzalloc use size =>
    obtain ⟨roundable, ordinary⟩ := fits
    rcases backed.kzalloc roundable ordinary run with ⟨rfl, rfl⟩ | ⟨nonnull, unused, fresh⟩
    · exact ⟨system, ⟨_, ⟨.answer 0, rfl⟩, Oracle.answer_null use size⟩, parts, backed⟩
    · exact ⟨_, ⟨_, ⟨.answer ptr, rfl⟩, Oracle.answer_kzalloc nonnull unused roundable⟩, fresh⟩
  | kfree freed =>
    cases run
    exact ⟨_, ⟨_, ⟨.answer 0, rfl⟩, rfl⟩, parts, backed.kfree fits⟩
  | pagingNew4gb process flags =>
    change Kernel.pagingNew4gb flags before = (.ok ptr, after) at run
    unfold Kernel.pagingNew4gb at run
    split at run
    · cases run
    next chunk memory built =>
      cases run
      obtain ⟨nonnull, unused, fresh⟩ := backed.pagingNew4gb built process
      exact ⟨_, ⟨_, ⟨.answer ptr, rfl⟩, Oracle.answer_pagingNew4gb nonnull unused⟩, fresh⟩
  | pagingFree4gb chunk =>
    obtain ⟨process, inUse⟩ := fits
    have nonnull : chunk ≠ 0 := by
      rintro rfl
      obtain ⟨start, held, same⟩ := backed.heldAt (inUse ▸ Option.some_ne_none _)
      exact backed.sound.kernel.nonnull same.clean.bound held.symm
    change (Kernel.pagingFree4gb chunk >>= fun _ => pure 0) before = _ at run
    unfold Kernel.pagingFree4gb at run
    rw [if_neg nonnull] at run
    cases run
    refine ⟨system.release chunk, ⟨_, ⟨.answer 0, rfl⟩, ?_⟩, parts, backed.pagingFree4gb inUse⟩
    change ((if chunk = 0 then fault else Oracle.kfree chunk) >>= fun _ => pure 0) system = _
    rw [if_neg nonnull]
    rfl

/-- The abstract heap follows the kernel's, whatever is asked of it and however often. -/
theorem heap_refined {trace : List (HeapCall × Addr)} (backs : Backs before system)
    (run : Trace (AnswersCall {kernelBelow load}) before trace after)
    (fits : Guarded (AnswersCall (Set.range Oracle.below)) (fun system call => call.1.Fits system) system trace) :
    ∃ last, Trace (AnswersCall (Set.range Oracle.below)) system trace last ∧ Backs after last :=
  run.simulated (fun _ _ _ _ related fits step => related.step fits step) backs fits

end Refinement

end PeachOS
