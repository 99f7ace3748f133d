import PeachOS.ProcessCalls
import PeachOS.ProcessLoad

/-! `process_terminate` over the abstract heap: what it gives back, and that it keeps the
table of processes in step with the heap. -/

namespace PeachOS
open Program Search

/-- A block that can be given back without a trace: it is free already, or the process's. -/
def System.Owns (system : System) (process ptr : Addr) : Prop :=
  system.blocks ptr = none ∨ ∃ part, system.blocks ptr = some (.owned part process)

section Release
variable {system after : System} {process ptr other : Addr} {i : Nat}

theorem System.Owns.release (owns : system.Owns process other) :
    (system.release ptr).Owns process other := by
  unfold System.Owns
  rw [System.release_blocks]
  split
  · exact Or.inl rfl
  · exact owns

theorem Loaded.release (loaded : Loaded system i other) (owns : system.Owns process ptr)
    (different : other ≠ process) : Loaded (system.release ptr) i other := by
  have kept : ∀ target use, system.blocks target = some use →
      (∀ part, use ≠ .owned part process) → target ≠ ptr := by
    rintro target use here foreign rfl
    rcases owns with free | ⟨part, own⟩
    · rw [free] at here
      cases here
    · rw [own] at here
      exact foreign part (Option.some.inj here).symm
  apply loaded.keep
  · rintro target (here | ⟨part, here⟩)
    · rw [System.release_blocks, if_neg (kept target _ here (by simp))]
    · rw [System.release_blocks, if_neg (kept target _ here (by simp [different]))]
  · exact .of_eq rfl
  · rfl
  · exact fun _ _ _ => ⟨rfl, rfl, rfl⟩

theorem Consistent.releaseOwn (consistent : Consistent {process} system)
    (owns : system.Owns process ptr) : Consistent {process} (system.release ptr) where
  null := by rw [System.release_blocks, consistent.null, ite_self]
  owners := by
    intro target part owner own
    rw [System.release_blocks] at own ⊢
    split at own
    · cases own
    · have record := consistent.owners target part owner own
      rw [if_neg, record]
      rintro rfl
      rcases owns with free | ⟨part, own⟩
      · rw [free] at record
        cases record
      · rw [own] at record
        cases record
  entries := by
    intro j bound taken apart
    exact (consistent.entries j bound taken apart).release owns apart
  tasks := by
    intro task owner own
    rw [System.release_blocks] at own
    split at own
    · cases own
    · exact consistent.tasks task owner own

theorem Consistent.mono {few many : Set Addr} (consistent : Consistent few system)
    (subset : few ⊆ many) : Consistent many system where
  null := consistent.null
  owners := consistent.owners
  entries := fun j bound taken apart =>
    consistent.entries j bound taken (fun member => apart (subset member))
  tasks := fun task owner own => (consistent.tasks task owner own).imp_left (fun member => subset member)

theorem Consistent.slot_unique (consistent : Consistent ∅ system) (nonnull : process ≠ 0) {j : Nat}
    (bound : i < peachosMaxProcesses) (listed : system.tables.processes i = process)
    (within : j < peachosMaxProcesses) (again : system.tables.processes j = process) : j = i := by
  have first := (consistent.entries i bound (listed ▸ nonnull) (Set.notMem_empty _)).id
  have second := (consistent.entries j within (again ▸ nonnull) (Set.notMem_empty _)).id
  rw [listed] at first
  rw [again, first] at second
  have same := congrArg BitVec.toNat second
  rw [BitVec.toNat_ofNat, BitVec.toNat_ofNat] at same
  unfold peachosMaxProcesses at bound within
  omega

end Release

section Free
variable {oracle : Oracle} {system after : System} {process ptr : Addr} {i : Nat}

theorem processFree_below_ok (run : oracle.below.processFree process ptr system = (.ok (), after)) :
    after = system ∨ ∃ j < peachosMaxProgramAllocations,
      ((system.tables.processRecords process).allocations j).ptr = ptr ∧
      after.blocks = (system.release ptr).blocks ∧
      after.tables = system.tables.setRecord process (processAllocationUnjoin ptr) := by
  unfold Below.processFree at run
  rw [below_read_bind] at run
  cases scan : processGetAllocationByAddr (system.kernel.processRecords process) ptr with
  | none =>
    rw [scan] at run
    cases run
    exact Or.inl rfl
  | some j =>
    rw [scan] at run
    obtain ⟨bound, here, _⟩ := firstIndex_some scan
    obtain ⟨directory, paged, page, rest⟩ := bind_eq_ok run
    obtain ⟨kernel, looked, rfl⟩ := below_kernel_ok page
    obtain ⟨_, rfl⟩ := processPageDirectory_ok looked
    obtain ⟨res, mapped, mapping, rest⟩ := bind_eq_ok rest
    cases mapping
    split at rest
    · cases rest
      exact Or.inl rfl
    · cases rest
      exact Or.inr ⟨j, bound, eq_of_beq here, rfl, rfl⟩

theorem Loaded.unjoin (loaded : Loaded system i process) (null : system.blocks 0 = none)
    (data : ptr = 0 ∨ system.blocks ptr = some (.owned .data process))
    (blocks : after.blocks = (system.release ptr).blocks)
    (tables : after.tables = system.tables.setRecord process (processAllocationUnjoin ptr)) :
    Loaded after i process := by
  have kept : ∀ target use, system.blocks target = some use → use ≠ .owned .data process →
      after.blocks target = some use := by
    intro target use here other
    rw [blocks, System.release_blocks, if_neg, here]
    rintro rfl
    rcases data with rfl | own
    · rw [null] at here
      cases here
    · rw [own] at here
      exact other (Option.some.inj here).symm
  have record : after.tables.processRecords process =
      processAllocationUnjoin ptr (system.tables.processRecords process) := by
    rw [tables, Tables.setRecord_self]
  apply loaded.rebuild
  · exact fun target use here other _ => kept target use here other
  · rw [record]
    exact ⟨rfl, rfl, rfl, rfl, rfl⟩
  · intro target part here
    rw [tables]
    exact ⟨rfl, rfl, rfl⟩
  · intro j within
    rw [record]
    unfold processAllocationUnjoin
    dsimp only
    split
    · exact Or.inl rfl
    next other =>
      have different : ((system.tables.processRecords process).allocations j).ptr ≠ ptr :=
        fun same => other ⟨within, same⟩
      apply (loaded.data j within).imp_right
      intro own
      rw [blocks, System.release_blocks, if_neg different, own]

theorem Consistent.ownsData (consistent : Consistent ∅ system) (bound : i < peachosMaxProcesses)
    (listed : system.tables.processes i = process) (nonnull : process ≠ 0) {j : Nat}
    (within : j < peachosMaxProgramAllocations)
    (found : ((system.tables.processRecords process).allocations j).ptr = ptr) :
    system.Owns process ptr := by
  have loaded := consistent.entries i bound (listed ▸ nonnull) (Set.notMem_empty _)
  rw [listed] at loaded
  have data := loaded.data j within
  rw [found] at data
  rcases data with rfl | own
  · exact Or.inl consistent.null
  · exact Or.inr ⟨.data, own⟩

theorem Consistent.processFree (consistent : Consistent ∅ system) (bound : i < peachosMaxProcesses)
    (listed : system.tables.processes i = process) (nonnull : process ≠ 0)
    (run : oracle.below.processFree process ptr system = (.ok (), after)) : Consistent ∅ after := by
  rcases processFree_below_ok run with rfl | ⟨j, within, found, blocks, tables⟩
  · exact consistent
  · have loaded := consistent.entries i bound (listed ▸ nonnull) (Set.notMem_empty _)
    rw [listed] at loaded
    have data := loaded.data j within
    rw [found] at data
    have owns := consistent.ownsData bound listed nonnull within found
    have released := (consistent.mono (Set.empty_subset {process})).releaseOwn owns
    have slots : after.tables.processes = system.tables.processes := by
      rw [tables]
      rfl
    constructor
    · rw [blocks]
      exact released.null
    · rw [blocks]
      exact released.owners
    · intro k inside taken _
      rw [slots] at taken ⊢
      by_cases same : system.tables.processes k = process
      · have here := consistent.slot_unique nonnull bound listed inside same
        rw [same, here]
        exact loaded.unjoin consistent.null data blocks tables
      · apply (released.entries k inside taken same).keep
        · exact fun target _ => congrFun blocks target
        · rw [tables]
          exact .of_eq (Tables.setRecord_other same)
        · rw [tables]
          exact congrArg Process.allocations (Tables.setRecord_other same)
        · intro target part here
          rw [tables]
          exact ⟨rfl, rfl, rfl⟩
    · intro task owner own
      rw [blocks, System.release_blocks] at own
      split at own
      · cases own
      · obtain ⟨k, inside, here, points⟩ := (consistent.tasks task owner own).resolve_left id
        refine Or.inr ⟨k, inside, ?_, ?_⟩
        · rw [slots]
          exact here
        · rw [tables]
          by_cases same : owner = process
          · rw [same, Tables.setRecord_self]
            rw [same] at points
            exact points
          · rw [Tables.setRecord_other same]
            exact points

end Free

/-- Blocks only go. -/
def System.Shrinks (before after : System) : Prop :=
  ∀ ptr use, after.blocks ptr = some use → before.blocks ptr = some use

theorem System.shrinks_release {before after : System} {ptr : Addr}
    (blocks : after.blocks = (before.release ptr).blocks) : before.Shrinks after := by
  intro other use here
  rw [blocks, System.release_blocks] at here
  split at here
  · cases here
  · exact here

/-- The blocks that are not the process's stay. -/
def System.Spares (process : Addr) (before after : System) : Prop :=
  ∀ ptr use, before.blocks ptr = some use → (∀ part, use ≠ .owned part process) →
    after.blocks ptr = some use

theorem System.Spares.trans {process : Addr} {before middle after : System}
    (first : before.Spares process middle) (second : middle.Spares process after) :
    before.Spares process after :=
  fun ptr use here foreign => second ptr use (first ptr use here foreign) foreign

theorem System.Owns.spares {process ptr : Addr} {before after : System} (owns : before.Owns process ptr)
    (blocks : after.blocks = (before.release ptr).blocks) : before.Spares process after := by
  intro other use here foreign
  rw [blocks, System.release_blocks, if_neg, here]
  rintro rfl
  rcases owns with free | ⟨part, own⟩
  · rw [free] at here
    cases here
  · rw [own] at here
    exact foreign part (Option.some.inj here).symm

/-- Only the allocations in the process's record changed, and blocks went. -/
structure AllocationsFreed (process : Addr) (before after : System) : Prop where
  shrinks : before.Shrinks after
  spares : before.Spares process after
  record : ∃ allocations, after.tables = before.tables.setRecord process
    (fun record => { record with allocations := allocations })

/-- Some blocks of the process were given back, and nothing else happened. -/
structure Sheds (process : Addr) (before after : System) : Prop where
  shrinks : before.Shrinks after
  spares : before.Spares process after
  tables : after.tables = before.tables
  owns : ∀ ptr, before.Owns process ptr → after.Owns process ptr
  consistent : Consistent {process} before → Consistent {process} after

section Sheds
variable {oracle : Oracle} {before after last system : System} {process ptr : Addr} {i : Nat}

theorem AllocationsFreed.refl (process : Addr) (system : System) :
    AllocationsFreed process system system where
  shrinks := fun _ _ here => here
  spares := fun _ _ here _ => here
  record := ⟨(system.tables.processRecords process).allocations, by
    unfold Tables.setRecord
    rw [Function.update_eq_self]⟩

theorem AllocationsFreed.trans (first : AllocationsFreed process before after)
    (second : AllocationsFreed process after last) : AllocationsFreed process before last where
  shrinks := fun ptr use here => first.shrinks ptr use (second.shrinks ptr use here)
  spares := first.spares.trans second.spares
  record := by
    obtain ⟨_, middle⟩ := first.record
    obtain ⟨allocations, tables⟩ := second.record
    refine ⟨allocations, ?_⟩
    rw [tables, middle]
    simp only [Tables.setRecord, Function.update_self, Function.update_idem]

theorem Consistent.congr {between : Set Addr} (consistent : Consistent between before)
    (blocks : after.blocks = before.blocks) (tables : after.tables = before.tables) :
    Consistent between after where
  null := blocks ▸ consistent.null
  owners := blocks ▸ consistent.owners
  entries := by
    intro i bound taken apart
    rw [tables] at taken apart ⊢
    apply (consistent.entries i bound taken apart).keep
    · exact fun ptr _ => congrFun blocks ptr
    · exact .of_eq (by rw [tables])
    · rw [tables]
    · exact fun ptr part _ => by rw [tables]; exact ⟨rfl, rfl, rfl⟩
  tasks := by
    rw [tables, blocks]
    exact consistent.tasks

theorem Sheds.release (owns : before.Owns process ptr)
    (blocks : after.blocks = (before.release ptr).blocks) (tables : after.tables = before.tables) :
    Sheds process before after where
  shrinks := System.shrinks_release blocks
  spares := owns.spares blocks
  tables := tables
  owns := by
    intro other own
    unfold System.Owns
    rw [blocks]
    exact own.release
  consistent := fun consistent => (consistent.releaseOwn owns).congr blocks tables

theorem Sheds.trans (first : Sheds process before after) (second : Sheds process after last) :
    Sheds process before last where
  shrinks := fun ptr use here => first.shrinks ptr use (second.shrinks ptr use here)
  spares := first.spares.trans second.spares
  tables := second.tables.trans first.tables
  owns := fun ptr own => second.owns ptr (first.owns ptr own)
  consistent := fun consistent => second.consistent (first.consistent consistent)

theorem processTerminateAllocationsLoop_below_ok (remaining j : Nat)
    (consistent : Consistent ∅ system) (bound : i < peachosMaxProcesses)
    (listed : system.tables.processes i = process) (nonnull : process ≠ 0)
    (run : oracle.below.processTerminateAllocationsLoop process remaining j system = (.ok (), after)) :
    Consistent ∅ after ∧ AllocationsFreed process system after := by
  induction remaining generalizing system j with
  | zero =>
    cases run
    exact ⟨consistent, AllocationsFreed.refl process _⟩
  | succ remaining ih =>
    unfold Below.processTerminateAllocationsLoop at run
    rw [below_read_bind] at run
    obtain ⟨_, middle, free, rest⟩ := bind_eq_ok run
    have middleConsistent := consistent.processFree bound listed nonnull free
    have freed : AllocationsFreed process system middle := by
      rcases processFree_below_ok free with rfl | ⟨k, within, found, blocks, tables⟩
      · exact AllocationsFreed.refl process _
      · have owns := consistent.ownsData bound listed nonnull within found
        exact ⟨System.shrinks_release blocks, owns.spares blocks, _, tables⟩
    have slots : middle.tables.processes i = process := by
      obtain ⟨_, tables⟩ := freed.record
      rw [tables]
      exact listed
    obtain ⟨lastConsistent, restFreed⟩ := ih (j + 1) middleConsistent slots rest
    exact ⟨lastConsistent, freed.trans restFreed⟩

theorem elfClose_below_ok {file : Addr} (owns : system.Owns process file)
    (memory : system.Owns process (system.tables.elfFiles file).elfMemory)
    (run : oracle.below.elfClose file system = (.ok (), after)) : Sheds process system after := by
  unfold Below.elfClose at run
  split at run
  · cases run
    exact ⟨fun _ _ here => here, fun _ _ here _ => here, rfl, fun _ own => own, id⟩
  · rw [below_read_bind, below_kfree_bind] at run
    cases run
    have first : Sheds process system (system.release (system.tables.elfFiles file).elfMemory) :=
      Sheds.release memory rfl rfl
    exact first.trans (Sheds.release (first.owns file owns) rfl rfl)

theorem processFreeProgramData_below_ok {res : Int} (loaded : Loaded system i process)
    (run : oracle.below.processFreeProgramData process system = (.ok res, after)) :
    res = 0 ∧ Sheds process system after := by
  unfold Below.processFreeProgramData at run
  rw [below_read_bind] at run
  rcases loaded.image with ⟨binary, image⟩ | ⟨elf, file, image⟩
  · have isBinary : (system.kernel.processRecords process).filetype = processFiletypeBinary := binary
    rw [if_pos isBinary, below_kfree_bind] at run
    cases run
    exact ⟨rfl, Sheds.release (Or.inr ⟨.image, image⟩) rfl rfl⟩
  · have isElf : (system.kernel.processRecords process).filetype = processFiletypeElf := elf
    rw [if_neg (by rw [isElf]; decide), if_pos isElf] at run
    obtain ⟨_, closed, close, returned⟩ := bind_eq_ok run
    cases returned
    exact ⟨rfl, elfClose_below_ok (Or.inr ⟨.elfFile, file⟩) (Or.inr ⟨.image, image⟩) close⟩

theorem taskFree_below_sheds {res : Int} (loaded : Loaded before i process)
    (shed : Sheds process before system)
    (run : oracle.below.taskFree (before.tables.processRecords process).task system = (.ok res, after)) :
    Sheds process before after ∧
      after.blocks (before.tables.processRecords process).task = none := by
  obtain ⟨_, _, _, blocks, tables⟩ := taskFree_below_ok run
  rw [shed.tables] at blocks
  have space := shed.owns _ (Or.inr ⟨.space, loaded.space⟩)
  have first : Sheds process system (system.release (before.tables.taskSpace
      (before.tables.processRecords process).task)) := Sheds.release space rfl rfl
  have task := first.owns _ (shed.owns _ (Or.inr ⟨.task, loaded.task⟩))
  have both := (shed.trans first).trans (Sheds.release task blocks tables)
  refine ⟨both, ?_⟩
  rw [blocks, System.release_blocks, if_pos rfl]

theorem processUnlink_below_ok
    (run : oracle.below.kernel (processUnlink process) system = (.ok (), after)) :
    ∃ current, after.blocks = system.blocks ∧
      after.tables = { system.tables.setSlot (system.tables.processRecords process).id.toNat 0 with
        currentProcess := current } ∧
      (system.tables.currentProcess ≠ process → current = system.tables.currentProcess) ∧
      (system.tables.currentProcess = process → ∃ i < peachosMaxProcesses,
        current = after.tables.processes i ∧ current ≠ 0) := by
  obtain ⟨kernel, unlinked, rfl⟩ := below_kernel_ok run
  unfold processUnlink at unlinked
  rw [update_bind, read_bind] at unlinked
  split at unlinked
  next isCurrent =>
    unfold processSwitchToAny at unlinked
    rw [read_bind] at unlinked
    generalize slots : Function.update system.kernel.processes _ 0 = processes at unlinked
    cases found : firstIndex peachosMaxProcesses (fun i => processes i != 0) with
    | none =>
      simp only [found] at unlinked
      cases unlinked
    | some i =>
      simp only [found] at unlinked
      obtain ⟨bound, here, _⟩ := firstIndex_some found
      cases unlinked
      subst slots
      refine ⟨_, rfl, rfl, fun other => absurd isCurrent other, fun _ => ⟨i, bound, rfl, ?_⟩⟩
      exact bne_iff_ne.mp here
  next other =>
    cases unlinked
    exact ⟨_, rfl, rfl, fun _ => rfl, fun same => absurd same other⟩

/-- What a termination of the process in slot `i` leaves. -/
structure Terminated (system : System) (i : Nat) (process : Addr) (after : System) : Prop where
  consistent : Consistent ∅ after
  shrinks : system.Shrinks after
  spares : system.Spares process after
  processes : after.tables.processes = Function.update system.tables.processes i 0
  screen : after.tables.screen = system.tables.screen
  records : ∀ other, other ≠ process →
    after.tables.processRecords other = system.tables.processRecords other
  shell : (after.tables.processRecords process).shell = (system.tables.processRecords process).shell
  kept : system.tables.currentProcess ≠ process →
    after.tables.currentProcess = system.tables.currentProcess
  switched : system.tables.currentProcess = process → ∃ j < peachosMaxProcesses,
    after.tables.currentProcess = after.tables.processes j ∧ after.tables.currentProcess ≠ 0

theorem Consistent.unlisted {released : System} {current : Addr} (consistent : Consistent ∅ system)
    (nonnull : process ≠ 0) (bound : i < peachosMaxProcesses)
    (listed : system.tables.processes i = process) (shed : Sheds process system released)
    (gone : released.blocks (system.tables.processRecords process).task = none)
    (blocks : after.blocks = released.blocks)
    (tables : after.tables = { system.tables.setSlot i 0 with currentProcess := current }) :
    Consistent ∅ after := by
  have between := shed.consistent (consistent.mono (Set.empty_subset {process}))
  have slot : ∀ j, after.tables.processes j = if j = i then 0 else system.tables.processes j := by
    intro j
    rw [tables]
    exact Function.update_apply _ _ _ _
  constructor
  · rw [blocks]
    exact between.null
  · rw [blocks]
    exact between.owners
  · intro j within taken _
    rw [slot] at taken ⊢
    split at taken
    · exact absurd rfl taken
    next other =>
      rw [if_neg other]
      have different : system.tables.processes j ≠ process :=
        fun same => other (consistent.slot_unique nonnull bound listed within same)
      have entry := between.entries j within (by rw [shed.tables]; exact taken)
        (by rw [shed.tables]; exact different)
      rw [shed.tables] at entry
      apply entry.keep
      · exact fun ptr _ => congrFun blocks ptr
      · rw [tables, shed.tables]
        exact .of_eq rfl
      · rw [tables, shed.tables]
        rfl
      · intro ptr part here
        rw [tables, shed.tables]
        exact ⟨rfl, rfl, rfl⟩
  · intro task owner own
    rw [blocks] at own
    obtain ⟨j, within, here, points⟩ :=
      (consistent.tasks task owner (shed.shrinks _ _ own)).resolve_left id
    by_cases same : owner = process
    · subst same
      rw [points] at gone
      rw [gone] at own
      cases own
    · refine Or.inr ⟨j, within, ?_, ?_⟩
      · rw [slot, if_neg, here]
        rintro rfl
        exact same (here.symm.trans listed)
      · rw [tables]
        exact points

theorem processTerminate_below_ok {res : Int} (consistent : Consistent ∅ system)
    (bound : i < peachosMaxProcesses) (listed : system.tables.processes i = process)
    (nonnull : process ≠ 0)
    (run : oracle.below.processTerminate process system = (.ok res, after)) :
    res = 0 ∧ Terminated system i process after := by
  unfold Below.processTerminate at run
  obtain ⟨first, middle, allocations, rest⟩ := bind_eq_ok run
  unfold Below.processTerminateAllocations at allocations
  obtain ⟨_, emptied, loop, returned⟩ := bind_eq_ok allocations
  cases returned
  obtain ⟨middleConsistent, freed⟩ := processTerminateAllocationsLoop_below_ok
    peachosMaxProgramAllocations 0 consistent bound listed nonnull loop
  rw [if_neg (by decide)] at rest
  obtain ⟨kept, tables⟩ := freed.record
  have slot : middle.tables.processes i = process := by
    rw [tables]
    exact listed
  have loaded := middleConsistent.entries i bound (slot ▸ nonnull) (Set.notMem_empty _)
  rw [slot] at loaded
  obtain ⟨second, cleared, data, rest⟩ := bind_eq_ok rest
  obtain ⟨rfl, shed⟩ := processFreeProgramData_below_ok loaded data
  rw [if_neg (by decide), below_read_bind, below_kfree_bind] at rest
  have stack : Sheds process middle (cleared.release (middle.tables.processRecords process).stack) :=
    shed.trans (Sheds.release (shed.owns _ (Or.inr ⟨.stack, loaded.stack⟩)) rfl rfl)
  have record : cleared.kernel.processRecords process = middle.tables.processRecords process :=
    congrArg (fun tables => tables.processRecords process) shed.tables
  rw [record] at rest
  obtain ⟨_, released, free, rest⟩ := bind_eq_ok rest
  obtain ⟨all, gone⟩ := taskFree_below_sheds loaded stack free
  obtain ⟨_, last, unlink, returned⟩ := bind_eq_ok rest
  cases returned
  refine ⟨rfl, ?_⟩
  obtain ⟨current, blocks, unlinked, stays, switches⟩ := processUnlink_below_ok unlink
  rw [all.tables] at unlinked stays switches
  have number : (middle.tables.processRecords process).id.toNat = i := by
    rw [loaded.id, BitVec.toNat_ofNat]
    unfold peachosMaxProcesses at bound
    omega
  rw [number] at unlinked
  have slots : after.tables.processes = Function.update middle.tables.processes i 0 := by
    rw [unlinked]
    rfl
  constructor
  · exact middleConsistent.unlisted nonnull bound slot all gone blocks unlinked
  · intro ptr use here
    rw [blocks] at here
    exact freed.shrinks ptr use (all.shrinks ptr use here)
  · intro ptr use here foreign
    rw [blocks]
    exact freed.spares.trans all.spares ptr use here foreign
  · rw [slots, tables]
    rfl
  · rw [unlinked]
    change middle.tables.screen = _
    rw [tables]
    rfl
  · intro other different
    rw [unlinked]
    change middle.tables.processRecords other = _
    rw [tables, Tables.setRecord_other different]
  · rw [unlinked]
    change (middle.tables.processRecords process).shell = _
    rw [tables, Tables.setRecord_self]
  · intro other
    rw [tables] at stays
    rw [unlinked]
    exact stays other
  · intro same
    rw [tables] at switches
    obtain ⟨j, within, here, proper⟩ := switches same
    refine ⟨j, within, ?_, ?_⟩
    · rw [← here, unlinked]
    · rw [unlinked]
      exact proper

end Sheds

end PeachOS
