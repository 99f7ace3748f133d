import PeachOS.Below

/-! The kernel over an abstract heap: an allocator that hands out any address which is not
in use, and layers below that end in any way that the code has a case for. -/

namespace PeachOS
open Program

/-- The records of the kernel, and what every block in use was allocated for. -/
structure System where
  kernel : Kernel
  blocks : Addr → Option BlockUse

abbrev SystemProg (α : Type) : Type := Prog System Stop α

def System.mark (system : System) (ptr : Addr) (use : BlockUse) : System :=
  { system with blocks := Function.update system.blocks ptr (some use) }

def System.release (system : System) (ptr : Addr) : System :=
  { system with blocks := Function.update system.blocks ptr none }

def System.setKernel (system : System) (kernel : Kernel) : System := { system with kernel := kernel }

/-- What a request leaves of the heap. One whose size rounds to no block marks nothing, and the
address it gets stays in no use. -/
def System.serve (system : System) (ptr : Addr) (use : BlockUse) (size : Word) : System :=
  { system with
    blocks := if Roundable size then (system.mark ptr use).blocks else system.blocks }

/-- What a program file holds, as far as the process record says. `fread` refuses a file of no
bytes, so the memory of a program that was loaded is a block. -/
inductive ProgramFile where
  | elf (size : {size : Word // Roundable size})
  | binary (size : {size : Word // Roundable size})
  deriving DecidableEq

/-- What the layers below decide in the course of a call: the address for a request, how the
loader ends, how many blocks of its own it leaves behind, and the results of the two mappings. -/
structure Oracle where
  pick : System → (size : Word) → Addr
  loads : System → List Byte → Except {code : Int // code < 0} ProgramFile
  spills : System → List Byte → Nat
  mapTo : System → Int
  mapMemory : System → Int

namespace Oracle
variable (oracle : Oracle)

def onKernel {α : Type} (call : KernelProg α) : SystemProg α := fun system =>
  ((call system.kernel).1, system.setKernel (call system.kernel).2)

/-- An address that is not in use, or none. -/
def kzalloc (use : BlockUse) (size : Word) : SystemProg Addr := fun system =>
  if oracle.pick system size = 0 then (.ok 0, system)
  else if system.blocks (oracle.pick system size) ≠ none then (.error .fault, system)
  else (.ok (oracle.pick system size), system.serve (oracle.pick system size) use size)

/-- An allocation whose result the code does not check. -/
def take (use : BlockUse) (size : Word) : SystemProg Addr := do
  let ptr ← oracle.kzalloc use size
  if ptr = 0 then fault else pure ptr

def kfree (ptr : Addr) : SystemProg Unit := update (·.release ptr)

/-- The blocks that a load leaves behind: `fopen` never frees the parts of a path, nor
`elf_load` the file it gave up. -/
def spill : (count : Nat) → SystemProg Unit
  | 0 => pure ()
  | count + 1 => do
      let _ ← oracle.kzalloc .kernel (BitVec.ofNat 32 peachosMaxPath)
      spill count

/-- A loaded program is a block, or an ELF file's record and its memory. -/
def processLoadData (filename : List Byte) (process : Addr) : SystemProg Int := do
  let found ← read (oracle.loads · filename)
  let count ← read (oracle.spills · filename)
  oracle.spill count
  match found with
  | .error code => pure code.val
  | .ok (.binary size) =>
      let ptr ← oracle.kzalloc (.owned .image process) size
      if ptr = 0 then pure (-ENOMEM)
      else
        onKernel (update (fun kernel => kernel.setProcess process (fun record =>
          { record with size := size, ptr := ptr, filetype := processFiletypeBinary })))
        pure 0
  | .ok (.elf size) =>
      let file ← oracle.take (.owned .elfFile process) 128
      let memory ← oracle.take (.owned .image process) size
      onKernel (update (fun kernel => { kernel with
        elfFiles := Function.update kernel.elfFiles file ⟨memory, 0, 0, 0, 0⟩ }))
      onKernel (update (fun kernel => kernel.setProcess process (fun record =>
        { record with filetype := processFiletypeElf, ptr := file })))
      pure 0

def below : Below System where
  kernel := onKernel
  kzalloc := oracle.kzalloc
  kfree := kfree
  pagingNew4gb := fun process _ => oracle.take (.owned .space process) 4
  pagingFree4gb := fun chunk => if chunk = 0 then fault else kfree chunk
  pagingMapTo := fun _ _ _ _ _ => read oracle.mapTo
  processLoadData := oracle.processLoadData
  processMapMemory := fun _ => read oracle.mapMemory

end Oracle

section Calls
variable {α β : Type} {oracle : Oracle} {system after : System} {ptr : Addr} {use : BlockUse}
  {size : Word}

@[simp] theorem below_read_bind (part : Kernel → α) (next : α → SystemProg β) :
    (oracle.below.kernel (read part) >>= next) system = next (part system.kernel) system := rfl

@[simp] theorem below_update_bind (change : Kernel → Kernel) (next : Unit → SystemProg β) :
    (oracle.below.kernel (update change) >>= next) system =
      next () (system.setKernel (change system.kernel)) := rfl

theorem below_kernel_ok {call : KernelProg α} {result : α}
    (run : oracle.below.kernel call system = (.ok result, after)) :
    ∃ kernel, call system.kernel = (.ok result, kernel) ∧ after = system.setKernel kernel := by
  obtain ⟨resultEq, afterEq⟩ := Prod.mk.inj run
  exact ⟨(call system.kernel).2, Prod.ext resultEq rfl, afterEq.symm⟩

theorem below_kernel_run {call : KernelProg α} {result : α} {kernel : Kernel}
    (run : call system.kernel = (.ok result, kernel)) :
    oracle.below.kernel call system = (.ok result, system.setKernel kernel) := by
  change ((call system.kernel).1, system.setKernel (call system.kernel).2) = _
  rw [run]

theorem System.serve_mark (roundable : Roundable size) : system.serve ptr use size = system.mark ptr use := by
  unfold System.serve
  rw [if_pos roundable]
  rfl

theorem System.serve_nothing (none : ¬Roundable size) : system.serve ptr use size = system := by
  unfold System.serve
  rw [if_neg none]

theorem Oracle.kzalloc_served (run : oracle.kzalloc use size system = (.ok ptr, after)) :
    (ptr = 0 ∧ after = system) ∨
      (ptr ≠ 0 ∧ system.blocks ptr = none ∧ after = system.serve ptr use size) := by
  unfold Oracle.kzalloc at run
  split at run
  · cases run
    exact Or.inl ⟨rfl, rfl⟩
  next nonnull =>
    split at run
    · cases run
    next empty =>
      rw [ne_eq, not_not] at empty
      cases run
      exact Or.inr ⟨nonnull, empty, rfl⟩

theorem Oracle.kzalloc_ok (roundable : Roundable size) (run : oracle.kzalloc use size system = (.ok ptr, after)) :
    (ptr = 0 ∧ after = system) ∨
      (ptr ≠ 0 ∧ system.blocks ptr = none ∧ after = system.mark ptr use) := by
  have served := Oracle.kzalloc_served run
  rwa [System.serve_mark roundable] at served

theorem Oracle.kzalloc_pick (run : oracle.kzalloc use size system = (.ok ptr, after)) :
    ptr = oracle.pick system size := by
  unfold Oracle.kzalloc at run
  split at run
  next null =>
    cases run
    exact null.symm
  · split at run
    · cases run
    · cases run
      rfl

theorem Oracle.take_served (run : oracle.take use size system = (.ok ptr, after)) :
    ptr ≠ 0 ∧ system.blocks ptr = none ∧ after = system.serve ptr use size := by
  unfold Oracle.take at run
  obtain ⟨block, middle, allocated, rest⟩ := bind_eq_ok run
  split at rest
  · cases rest
  next nonnull =>
    cases rest
    exact (Oracle.kzalloc_served allocated).resolve_left (fun null => nonnull null.1)

theorem Oracle.take_ok (roundable : Roundable size) (run : oracle.take use size system = (.ok ptr, after)) :
    ptr ≠ 0 ∧ system.blocks ptr = none ∧ after = system.mark ptr use := by
  have served := Oracle.take_served run
  rwa [System.serve_mark roundable] at served

theorem below_kzalloc_served (run : oracle.below.kzalloc use size system = (.ok ptr, after)) :
    (ptr = 0 ∧ after = system) ∨
      (ptr ≠ 0 ∧ system.blocks ptr = none ∧ after = system.serve ptr use size) := by
  change oracle.kzalloc use size system = _ at run
  exact Oracle.kzalloc_served run

theorem below_kzalloc_ok (roundable : Roundable size)
    (run : oracle.below.kzalloc use size system = (.ok ptr, after)) :
    (ptr = 0 ∧ after = system) ∨
      (ptr ≠ 0 ∧ system.blocks ptr = none ∧ after = system.mark ptr use) := by
  change oracle.kzalloc use size system = _ at run
  exact Oracle.kzalloc_ok roundable run

theorem below_kzalloc_pick (run : oracle.below.kzalloc use size system = (.ok ptr, after)) :
    ptr = oracle.pick system size := by
  change oracle.kzalloc use size system = _ at run
  exact Oracle.kzalloc_pick run

theorem below_kfree_bind (ptr : Addr) (next : Unit → SystemProg β) :
    (oracle.below.kfree ptr >>= next) system = next () (system.release ptr) := rfl

end Calls

end PeachOS
