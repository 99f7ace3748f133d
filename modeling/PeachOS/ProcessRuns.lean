import Mathlib.Data.Set.Function
import PeachOS.HeapRoom
import PeachOS.Lib.Run
import PeachOS.ProcessEnd

/-! The table of processes and the tasks over any sequence of loads and terminations. -/

namespace PeachOS
open Program Transition

/-- The tasks that `task_new` has made and `task_free` has not freed. -/
def System.liveTasks (system : System) : Set Addr :=
  {task | ∃ process, system.blocks task = some (.owned .task process)}

def System.occupied (system : System) : Set Nat :=
  {i | i < peachosMaxProcesses ∧ system.kernel.processes i ≠ 0}

def System.taskOf (system : System) (i : Nat) : Addr :=
  (system.kernel.processRecords (system.kernel.processes i)).task

/-- Loads, and terminations of processes in the table. What the layers below decide may
be different in every call. -/
inductive TableStep : System → System → Prop where
  | load {before after : System} (oracle : Oracle) (filename : List Byte) (res : Int) (out : Addr)
      (run : oracle.below.processLoad filename before = (.ok (res, out), after)) :
      TableStep before after
  | terminate {before after : System} (oracle : Oracle) (i : Nat) (res : Int)
      (live : i ∈ before.occupied)
      (run : oracle.below.processTerminate (before.kernel.processes i) before = (.ok res, after)) :
      TableStep before after

/-- There is no process yet, and nothing that belongs to one. -/
structure NoProcesses (system : System) : Prop where
  null : system.blocks 0 = none
  unowned : ∀ ptr part process, system.blocks ptr ≠ some (.owned part process)
  processes : ∀ i, system.kernel.processes i = 0

/-- What a load does to the table: nothing when it fails, else it fills the first free slot
with a process that is not in it. -/
inductive FillsLowest (before : Nat → Addr) : Int → Addr → (Nat → Addr) → Prop where
  | failed {res : Int} {out : Addr} (negative : res < 0) : FillsLowest before res out before
  | filled {res : Int} {out : Addr} {i : Nat} (proper : 0 ≤ res) (bound : i < peachosMaxProcesses)
      (free : before i = 0) (lowest : ∀ j < i, before j ≠ 0) (nonnull : out ≠ 0)
      (new : ∀ j < peachosMaxProcesses, before j ≠ out) :
      FillsLowest before res out (Function.update before i out)

section Runs
variable {boot before after last : System} {oracle : Oracle} {filename : List Byte} {res : Int}
  {out : Addr} {i : Nat}

theorem NoProcesses.consistent (empty : NoProcesses boot) : Consistent ∅ boot where
  null := empty.null
  owners := fun ptr part process own => absurd own (empty.unowned ptr part process)
  entries := fun i _ taken _ => absurd (empty.processes i) taken
  tasks := fun task process own => absurd own (empty.unowned task .task process)

theorem Consistent.step (consistent : Consistent ∅ before) (step : TableStep before after) :
    Consistent ∅ after := by
  cases step with
  | load oracle filename res out run => exact consistent.load (processLoad_outcome consistent run)
  | terminate oracle i res live run =>
    exact (processTerminate_below_ok consistent live.1 rfl live.2 run).2.consistent

theorem Consistent.run (consistent : Consistent ∅ boot) (run : Run TableStep boot last) :
    Consistent ∅ last :=
  run.invariant (Consistent ∅) (fun _ _ held step => held.step step) consistent

theorem Consistent.entry (consistent : Consistent ∅ last) (live : i ∈ last.occupied) :
    Loaded last i (last.kernel.processes i) :=
  consistent.entries i live.1 live.2 (Set.notMem_empty _)

theorem Consistent.bijective (consistent : Consistent ∅ last) :
    Set.BijOn last.taskOf last.occupied last.liveTasks := by
  constructor
  · intro i live
    exact ⟨_, (consistent.entry live).task⟩
  · constructor
    · intro i live j other same
      have first := (consistent.entry live).task
      have second := (consistent.entry other).task
      change last.taskOf i = last.taskOf j at same
      change last.blocks (last.taskOf i) = _ at first
      change last.blocks (last.taskOf j) = _ at second
      rw [same, second] at first
      have process : last.kernel.processes j = last.kernel.processes i := by
        simpa using first
      exact (consistent.slot_unique live.2 live.1 rfl other.1 process).symm
    · rintro task ⟨process, own⟩
      obtain ⟨i, bound, here, points⟩ := (consistent.tasks task process own).resolve_left id
      have record := consistent.owners task .task process own
      refine ⟨i, ⟨bound, ?_⟩, ?_⟩
      · intro null
        rw [← here] at record
        change last.blocks (last.kernel.processes i) = _ at record
        rw [null, consistent.null] at record
        cases record
      · change (last.kernel.processRecords (last.kernel.processes i)).task = task
        rw [show last.kernel.processes i = process from here]
        exact points

theorem Consistent.fills (consistent : Consistent ∅ before)
    (run : oracle.below.processLoad filename before = (.ok (res, out), after)) :
    FillsLowest before.kernel.processes res out after.kernel.processes := by
  have outcome := processLoad_outcome consistent run
  cases outcome with
  | full taken => exact .failed (by decide)
  | short => exact .failed (by decide)
  | failed res process after negative abandoned =>
    have same : after.kernel.processes = before.kernel.processes := abandoned.beside.processes
    rw [same]
    exact .failed negative
  | loaded res process i made after proper bound free lowest complete blocks tables =>
    have slots : after.kernel.processes = Function.update before.kernel.processes i out := by
      change after.tables.processes = _
      rw [tables, ← show made.tables.processes = before.kernel.processes from complete.beside.processes]
      rfl
    rw [slots]
    have nonnull : out ≠ 0 := by
      rintro rfl
      have record := complete.beside.own
      rw [complete.beside.null] at record
      cases record
    apply FillsLowest.filled proper bound free lowest nonnull
    intro j within listed
    change before.kernel.processes j = out at listed
    have live : j ∈ before.occupied := ⟨within, by rw [listed]; exact nonnull⟩
    have record := (consistent.entry live).record
    rw [listed, complete.beside.fresh] at record
    cases record

/-- In every state that loads and terminations reach, occupied slots and live tasks
correspond one to one, with pointers both ways; a full table turns a load down unchanged,
a load fills the lowest free slot, and a termination empties its own slot. -/
theorem process_runs_bijective (empty : NoProcesses boot) (run : Run TableStep boot last) :
    (∀ i ∈ last.occupied,
      (last.kernel.processRecords (last.kernel.processes i)).id = BitVec.ofNat 16 i ∧
      (last.kernel.tasks (last.taskOf i)).process = last.kernel.processes i) ∧
    Set.BijOn last.taskOf last.occupied last.liveTasks ∧
    ((∀ i < peachosMaxProcesses, i ∈ last.occupied) → ∀ (oracle : Oracle) (filename : List Byte),
      oracle.below.processLoad filename last = (.ok (-EISTKN, 0), last)) ∧
    (∀ (oracle : Oracle) (filename : List Byte) (res : Int) (out : Addr) (after : System),
      oracle.below.processLoad filename last = (.ok (res, out), after) →
        FillsLowest last.kernel.processes res out after.kernel.processes) ∧
    ∀ (oracle : Oracle) (i : Nat) (res : Int) (after : System), i ∈ last.occupied →
      oracle.below.processTerminate (last.kernel.processes i) last = (.ok res, after) →
        after.kernel.processes = Function.update last.kernel.processes i 0 := by
  have consistent := empty.consistent.run run
  constructor
  · intro i live
    exact ⟨(consistent.entry live).id, (consistent.entry live).back⟩
  · constructor
    · exact consistent.bijective
    · constructor
      · intro taken oracle filename
        exact processLoad_full (fun i bound => (taken i bound).2)
      · constructor
        · intro oracle filename res out after load
          exact consistent.fills load
        · intro oracle i res after live terminate
          exact (processTerminate_below_ok consistent live.1 rfl live.2 terminate).2.processes

end Runs

/-- A heap that hands out the lowest free block, and a loader that takes every file for a
program of one block. -/
def pages : Oracle where
  pick := fun system _ =>
    match Search.firstIndex 256 (fun n => system.blocks (heapAddress + BitVec.ofNat 32 (4096 * n)) == none) with
    | some n => heapAddress + BitVec.ofNat 32 (4096 * n)
    | none => 0
  loads := fun _ _ => .ok (.binary ⟨4096, by decide⟩)
  spills := fun _ _ => 0
  mapTo := fun _ => 0
  mapMemory := fun _ => 0

def bootSystem : System := ⟨bootKernel, fun _ => none⟩

theorem bootSystem_noProcesses : NoProcesses bootSystem := ⟨rfl, by simp [bootSystem], fun _ => rfl⟩

/-- Two programs are loaded, and both tables hold them. -/
theorem process_runs_bijective_two : ∃ last, Run TableStep bootSystem last ∧
    0 ∈ last.occupied ∧ 1 ∈ last.occupied ∧ Set.BijOn last.taskOf last.occupied last.liveTasks := by
  have first : TableStep bootSystem (pages.below.processLoad [] bootSystem).2 :=
    .load pages [] 0 0x1000000 (Prod.ext rfl rfl)
  have second : TableStep _ (pages.below.processLoad [] (pages.below.processLoad [] bootSystem).2).2 :=
    .load pages [] 0 0x1005000 (Prod.ext rfl rfl)
  have run := (Relation.ReflTransGen.single first).tail second
  refine ⟨_, run, ⟨by decide, ?_⟩, ⟨by decide, ?_⟩,
    (process_runs_bijective bootSystem_noProcesses run).2.1⟩
  · intro null
    have address : (0x1000000 : Addr) = 0 := null
    exact absurd address (by decide)
  · intro null
    have address : (0x1005000 : Addr) = 0 := null
    exact absurd address (by decide)

end PeachOS
