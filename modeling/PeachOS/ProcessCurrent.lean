import PeachOS.ProcessReturns
import PeachOS.ShellScreen

/-! The current process over any order of loads, terminations, new shells and switches: a
switch to a shell does not ask whether the shell's process is still there. -/

namespace PeachOS
open Program Transition

/-- The table has the process under the number that its record says. -/
def System.InTable (system : System) (process : Addr) : Prop :=
  process ≠ 0 ∧ (system.kernel.processRecords process).id.toNat < peachosMaxProcesses ∧
    system.kernel.processes (system.kernel.processRecords process).id.toNat = process

/-- A switch to the shell would find nothing to switch to, or a process in the table. -/
def System.ShellReady (system : System) (id : Int) : Prop :=
  system.screen.shells id = 0 ∨
    system.InTable (system.screen.shellRecords (system.screen.shells id)).process

/-- Loads, terminations of processes in the table, new shells, and switches of shells,
which are `ready`. -/
inductive CurrentStep (ready : System → Int → Prop) : System → System → Prop where
  | load {before after : System} (oracle : Oracle) (filename : List Byte) (res : Int) (out : Addr)
      (run : oracle.below.processLoad filename before = (.ok (res, out), after)) :
      CurrentStep ready before after
  | loadSwitch {before after : System} (oracle : Oracle) (filename : List Byte) (res : Int) (out : Addr)
      (run : oracle.below.processLoadSwitch filename before = (.ok (res, out), after)) :
      CurrentStep ready before after
  | terminate {before after : System} (oracle : Oracle) (i : Nat) (res : Int)
      (live : i ∈ before.occupied)
      (run : oracle.below.processTerminate (before.kernel.processes i) before = (.ok res, after)) :
      CurrentStep ready before after
  | make {before after : System} (oracle : Oracle) (id res : Int) (shell : Addr)
      (run : oracle.below.shellNew id before = (.ok (res, shell), after)) :
      CurrentStep ready before after
  | switch {before after : System} (oracle : Oracle) (id res : Int) (fit : ready before id)
      (run : oracle.below.kernel (shellSwitch id) before = (.ok res, after)) :
      CurrentStep ready before after
  | next {before after : System} (oracle : Oracle) (fit : ready before before.screen.nextShell)
      (run : oracle.below.kernel shellSwitchToNext before = (.ok (), after)) :
      CurrentStep ready before after

def Tables.Lists (tables : Tables) (process : Addr) : Prop :=
  process ≠ 0 ∧ ∃ i < peachosMaxProcesses, tables.processes i = process

/-- The current process is in the table, or there is none, where that is `allowed`. -/
structure CurrentSound (allowed : Prop) (system : System) : Prop where
  consistent : Consistent ∅ system
  current : (allowed ∧ system.tables.currentProcess = 0) ∨
    system.tables.Lists system.tables.currentProcess

section Steps
variable {allowed : Prop} {oracle : Oracle} {before middle after : System}
  {filename : List Byte} {process out shell : Addr} {id res : Int} {i : Nat}

theorem Consistent.inTable_iff (consistent : Consistent ∅ before) :
    before.InTable process ↔ before.tables.Lists process := by
  constructor
  · rintro ⟨nonnull, bound, here⟩
    exact ⟨nonnull, _, bound, here⟩
  · rintro ⟨nonnull, i, bound, here⟩
    have loaded := consistent.entries i bound (here ▸ nonnull) (Set.notMem_empty _)
    have number : (before.kernel.processRecords process).id.toNat = i := by
      rw [← here]
      change (before.tables.processRecords (before.tables.processes i)).id.toNat = i
      rw [loaded.id, BitVec.toNat_ofNat]
      unfold peachosMaxProcesses at bound
      omega
    exact ⟨nonnull, number ▸ bound, number ▸ here⟩

theorem Tables.Lists.fill {few many : Tables} (lists : few.Lists process)
    (free : few.processes i = 0) (processes : many.processes = Function.update few.processes i out) :
    many.Lists process := by
  obtain ⟨nonnull, j, bound, here⟩ := lists
  refine ⟨nonnull, j, bound, ?_⟩
  have different : j ≠ i := by
    rintro rfl
    exact nonnull (here.symm.trans free)
  rw [processes, Function.update_of_ne different, here]

theorem LoadOutcome.lists (outcome : LoadOutcome before res out after)
    (lists : before.tables.Lists process) : after.tables.Lists process := by
  by_cases proper : 0 ≤ res
  · obtain ⟨_, _, i, _, free, processes⟩ := outcome.entered proper
    exact lists.fill free processes
  · unfold Tables.Lists
    rw [outcome.refused (by omega)]
    exact lists

theorem CurrentSound.load (sound : CurrentSound allowed before)
    (outcome : LoadOutcome before res out after) : CurrentSound allowed after := by
  have effect := outcome.effect sound.consistent
  refine ⟨effect.consistent, ?_⟩
  rw [effect.current]
  exact sound.current.imp_right outcome.lists

theorem CurrentSound.loadSwitch (sound : CurrentSound allowed before)
    (run : oracle.below.processLoadSwitch filename before = (.ok (res, out), after)) :
    CurrentSound allowed after := by
  obtain ⟨middle, outcome, blocks, tables⟩ := processLoadSwitch_below_ok sound.consistent run
  have loaded := sound.load outcome
  constructor
  · apply loaded.consistent.retabled blocks <;> rw [tables]
    exact fun _ => ⟨.of_eq rfl, rfl⟩
  · rw [tables]
    change (allowed ∧ (if res = 0 then out else middle.tables.currentProcess) = 0) ∨
      middle.tables.Lists (if res = 0 then out else middle.tables.currentProcess)
    by_cases zero : res = 0
    · rw [if_pos zero]
      obtain ⟨nonnull, _, i, bound, free, processes⟩ := outcome.entered (by omega)
      refine Or.inr ⟨nonnull, i, bound, ?_⟩
      rw [processes, Function.update_self]
    · rw [if_neg zero]
      exact loaded.current

theorem CurrentSound.terminate (sound : CurrentSound allowed before) (live : i ∈ before.occupied)
    (run : oracle.below.processTerminate (before.kernel.processes i) before = (.ok res, after)) :
    CurrentSound allowed after := by
  obtain ⟨_, terminated⟩ := processTerminate_below_ok sound.consistent live.1 rfl live.2 run
  refine ⟨terminated.consistent, ?_⟩
  by_cases same : before.tables.currentProcess = before.kernel.processes i
  · obtain ⟨j, bound, here, nonnull⟩ := terminated.switched same
    exact Or.inr ⟨nonnull, j, bound, here.symm⟩
  · rw [terminated.kept same]
    apply sound.current.imp_right
    rintro ⟨nonnull, j, bound, here⟩
    refine ⟨nonnull, j, bound, ?_⟩
    have different : j ≠ i := by
      rintro rfl
      exact same here.symm
    rw [terminated.processes, Function.update_of_ne different, here]

theorem CurrentSound.switch (sound : CurrentSound allowed before) (fit : before.ShellReady id)
    (run : oracle.below.kernel (shellSwitch id) before = (.ok res, after)) : CurrentSound allowed after := by
  rcases shellSwitch_below_ok run with ⟨_, _, rfl⟩ | ⟨taken, _, blocks, tables⟩
  · exact sound
  · have lists := sound.consistent.inTable_iff.mp (fit.resolve_left taken)
    constructor
    · apply sound.consistent.retabled blocks <;> rw [tables]
      exact fun _ => ⟨.of_eq rfl, rfl⟩
    · rw [tables]
      exact Or.inr lists

theorem CurrentSound.make (sound : CurrentSound allowed before)
    (run : oracle.below.shellNew id before = (.ok (res, shell), after)) : CurrentSound allowed after := by
  cases shellNew_outcome sound.consistent run with
  | taken used => exact sound
  | failed shell record after building processes current =>
    refine ⟨building.consistent, ?_⟩
    unfold Tables.Lists
    rw [current, processes]
    exact sound.current
  | made _ shell record built after i proper empty nonnull building number videoMem terminal process speaker
      bound free processes blocks tables =>
    constructor
    · apply building.consistent.retabled blocks <;> rw [tables]
      exact fun _ => ⟨.of_eq rfl, rfl⟩
    · rw [tables]
      refine Or.inr ⟨process, i, bound, ?_⟩
      change built.tables.processes i = record.process
      rw [processes, Function.update_self]

theorem CurrentStep.sound (step : CurrentStep System.ShellReady before after)
    (sound : CurrentSound allowed before) : CurrentSound allowed after := by
  cases step with
  | load oracle filename res out run => exact sound.load (processLoad_outcome sound.consistent run)
  | loadSwitch oracle filename res out run => exact sound.loadSwitch run
  | terminate oracle i res live run => exact sound.terminate live run
  | make oracle id res shell run => exact sound.make run
  | switch oracle id res fit run => exact sound.switch fit run
  | next oracle fit run =>
    obtain ⟨_, res, switch⟩ := shellSwitchToNext_below.mp run
    exact sound.switch fit switch

end Steps

section Runs
variable {boot start last : System}

theorem keyboardPush_records {kernel after : Kernel} {c : Byte} {process : Addr}
    (run : keyboardPush c kernel = (.ok (), after))
    (changed : after.processRecords process ≠ kernel.processRecords process) :
    process = kernel.currentProcess := by
  by_contra other
  by_cases ignored : kernel.currentProcess = 0 ∨ c = 0
  · rw [keyboardPush_ignored ignored] at run
    cases run
    exact changed rfl
  · rw [not_or] at ignored
    rw [keyboardPush_run ignored.1 ignored.2] at run
    cases run
    apply changed
    unfold Kernel.setKeyboard
    rw [Kernel.setProcess_records, if_neg other]

/-- After a switch to a shell the current process is in the table if and only if the
shell's process was. -/
theorem shellSwitch_inTable {oracle : Oracle} {id res : Int} (taken : start.screen.shells id ≠ 0)
    (run : oracle.below.kernel (shellSwitch id) start = (.ok res, last)) :
    last.InTable last.kernel.currentProcess ↔ start.ShellReady id := by
  rcases shellSwitch_below_ok run with ⟨null, _⟩ | ⟨_, _, _, tables⟩
  · exact absurd null taken
  · have current : last.kernel.currentProcess =
        (start.screen.shellRecords (start.screen.shells id)).process :=
      congrArg Tables.currentProcess tables
    have records : last.kernel.processRecords = start.kernel.processRecords :=
      congrArg Tables.processRecords tables
    have processes : last.kernel.processes = start.kernel.processes := congrArg Tables.processes tables
    have same : last.InTable last.kernel.currentProcess ↔
        start.InTable (start.screen.shellRecords (start.screen.shells id)).process := by
      unfold System.InTable
      rw [current, records, processes]
    exact same.trans (or_iff_right taken).symm

/-- As long as every switch is to a shell whose process is in the table, the current process
is in the table too, and keys go to no other process; another switch ends that. -/
theorem current_runs_live (empty : NoProcesses boot) (idle : boot.kernel.currentProcess = 0)
    (first : Run (CurrentStep System.ShellReady) boot start) (running : start.kernel.currentProcess ≠ 0)
    (run : Run (CurrentStep System.ShellReady) start last) :
    last.InTable last.kernel.currentProcess ∧
    (∀ c after, keyboardPush c last.kernel = (.ok (), after) → ∀ process,
      after.processRecords process ≠ last.kernel.processRecords process → last.InTable process) ∧
    ∀ (oracle : Oracle) (id res : Int) (after : System), last.screen.shells id ≠ 0 →
      oracle.below.kernel (shellSwitch id) last = (.ok res, after) →
        (after.InTable after.kernel.currentProcess ↔ last.ShellReady id) := by
  have booted := first.invariant (CurrentSound True) (fun _ _ held step => step.sound held)
    ⟨empty.consistent, Or.inl ⟨trivial, idle⟩⟩
  have started : CurrentSound False start :=
    ⟨booted.consistent, Or.inr (booted.current.resolve_left (fun none => running none.2))⟩
  have held := run.invariant (CurrentSound False) (fun _ _ held step => step.sound held) started
  have live : last.InTable last.kernel.currentProcess :=
    held.consistent.inTable_iff.mpr (held.current.resolve_left (fun none => none.1))
  refine ⟨live, ?_, fun oracle id res after taken switch => shellSwitch_inTable taken switch⟩
  intro c after push process changed
  rw [keyboardPush_records push changed]
  exact live

end Runs

section Shells
variable {ready : System → Int → Prop}

theorem oneShellMade_step : CurrentStep ready bootSystem oneShellMade :=
  .make pages 0 0 0x1000000 oneShellMade_run

theorem twoShellsMade_step : CurrentStep ready oneShellMade twoShellsMade :=
  .make pages 1 0 0x100a000 twoShellsMade_run

end Shells

/-- Two shells are made, and a key switches to the first one, whose process lives. -/
theorem current_runs_live_two : firstShellAgain.InTable firstShellAgain.kernel.currentProcess := by
  have fit : twoShellsMade.ShellReady twoShellsMade.screen.nextShell :=
    Or.inr ⟨by decide +kernel, by decide +kernel, by decide +kernel⟩
  have switch : CurrentStep System.ShellReady twoShellsMade firstShellAgain :=
    .next pages fit firstShellAgain_run
  exact (current_runs_live bootSystem_noProcesses rfl (.single oneShellMade_step) (by decide +kernel)
    ((Relation.ReflTransGen.single twoShellsMade_step).tail switch)).1

/-- Two shells are made, the process of the first one exits, and a key switches back to it. -/
theorem current_dies : ¬∀ boot start last : System, NoProcesses boot → boot.kernel.currentProcess = 0 →
    Run (CurrentStep (fun _ _ => True)) boot start → start.kernel.currentProcess ≠ 0 →
      Run (CurrentStep (fun _ _ => True)) start last → last.InTable last.kernel.currentProcess := by
  intro always
  have step : CurrentStep (fun _ _ => True) oneShellMade twoShellsMade := twoShellsMade_step
  have sound : CurrentSound True twoShellsMade := twoShellsMade_step.sound
    (oneShellMade_step.sound ⟨bootSystem_noProcesses.consistent, Or.inl ⟨trivial, rfl⟩⟩)
  have process : twoShellsMade.kernel.processes 0 = 0x1003000 := by decide +kernel
  have other : twoShellsMade.kernel.processes 1 ≠ 0 := by decide +kernel
  have others : ∀ i < peachosMaxProcesses, i ≠ 0 → twoShellsMade.kernel.processes i ≠ 0x1003000 := by
    decide +kernel
  have current : twoShellsMade.screen.currentShell ≠ 0 := by decide +kernel
  have first : twoShellsMade.screen.nextShell = 0 := by decide +kernel
  have taken : twoShellsMade.screen.shells 0 ≠ 0 := by decide +kernel
  have videoMem : (twoShellsMade.screen.shellRecords (twoShellsMade.screen.shells 0)).videoMem ≠ 0 := by
    decide +kernel
  have points : (twoShellsMade.screen.shellRecords (twoShellsMade.screen.shells 0)).process =
      0x1003000 := by decide +kernel
  generalize twoShellsMade = made at *
  have live : 0 ∈ made.occupied := ⟨by decide, by rw [process]; decide⟩
  obtain ⟨dead, exit⟩ := processTerminate_below_returns pages sound.consistent live.1 rfl live.2
    (by decide : 1 < peachosMaxProcesses) other (by decide)
  have terminated := (processTerminate_below_ok sound.consistent live.1 rfl live.2 exit).2
  -- the shell still has the process
  have screen : made.screen = dead.screen := terminated.screen.symm
  rw [screen] at current first taken videoMem points
  obtain ⟨last, switch⟩ := shellSwitch_below_returns pages taken videoMem
  have next : pages.below.kernel shellSwitchToNext dead = (.ok (), last) := by
    apply shellSwitchToNext_below.mpr
    rw [first]
    exact ⟨current, 0, switch⟩
  have leave : CurrentStep (fun _ _ => True) made dead := .terminate pages 0 0 live exit
  have back : CurrentStep (fun _ _ => True) dead last := .next pages trivial next
  have held := always bootSystem oneShellMade last bootSystem_noProcesses rfl (.single oneShellMade_step)
    (by decide +kernel) (((Relation.ReflTransGen.single step).tail leave).tail back)
  have gone := ((shellSwitch_inTable taken switch).mp held).resolve_left taken
  rw [points] at gone
  obtain ⟨_, i, bound, here⟩ := terminated.consistent.inTable_iff.mp gone
  rw [terminated.processes] at here
  by_cases zero : i = 0
  · rw [zero, Function.update_self] at here
    exact absurd here (by decide)
  · rw [Function.update_of_ne zero] at here
    exact others i bound zero here

end PeachOS
