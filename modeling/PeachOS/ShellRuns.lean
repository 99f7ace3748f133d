import PeachOS.CallEffects

/-! Which processes belong to a shell, over any order of system calls, interrupts and new
shells: a process that a system call starts belongs to none. -/

namespace PeachOS
open Program Transition

/-- The processes in the table that a system call started, after one more call. -/
def System.startedBy (before after : System) (started : Set Addr) : Set Addr :=
  {process | after.tables.Lists process ∧ (process ∈ started ∨ ¬before.tables.Lists process)}

/-- A harmless system call or an interrupt while a live task runs, or a new shell, made or not.
With the system goes which processes in the table were started by a system call. -/
inductive KernelStep : System × Set Addr → System × Set Addr → Prop where
  | call {before after : System} {started : Set Addr} (oracle : Oracle) (caller : Caller) (command : Int)
      (frame : InterruptFrame) (ended : CommandEnd)
      (live : before.kernel.currentTask ∈ before.liveTasks) (harmless : before.Harmless caller command)
      (run : oracle.below.isr80hHandler caller command frame before = (.ok ended, after)) :
      KernelStep (before, started) (after, before.startedBy after started)
  | interrupt {before after : System} {started : Set Addr} (oracle : Oracle) (caller : Caller) (c : Int)
      (key : Option Byte) (interrupt : Nat) (frame : InterruptFrame) (ended : CommandEnd)
      (live : before.kernel.currentTask ∈ before.liveTasks)
      (run : oracle.below.interruptHandler caller c key interrupt frame before = (.ok ended, after)) :
      KernelStep (before, started) (after, {process ∈ started | after.tables.Lists process})
  | make {before after : System} {started : Set Addr} (oracle : Oracle) (id res : Int) (shell : Addr)
      (low : 0 ≤ id) (high : id + 1 < maxShells)
      (run : oracle.below.shellNew id before = (.ok (res, shell), after)) :
      KernelStep (before, started) (after, {process ∈ started | after.tables.Lists process})

/-- The shells are in order, and of the processes in the table exactly those that a system call
started have no shell. -/
structure Voiced (started : Set Addr) (system : System) : Prop where
  sound : ShellsSound system
  listed : ∀ process ∈ started, system.tables.Lists process
  mute : ∀ process, system.tables.Lists process →
    ((system.tables.processRecords process).shell = 0 ↔ process ∈ started)

def Kernel.running (kernel : Kernel) (task : Addr) : Kernel := { kernel with currentTask := task }

/-- The process of the task belongs to a shell of the table, and whatever the task prints gets
to the end. -/
structure System.Speaks (system : System) (task : Addr) : Prop where
  registered : system.screen.Lists (system.kernel.processRecords (system.kernel.tasks task).process).shell
  putchar : ∀ c colour, ∃ after, terminalWritechar c colour (system.kernel.running task) = (.ok (), after)
  print : ∀ text, ∃ after, print text (system.kernel.running task) = (.ok (), after)

section Steps
variable {before after : System} {started : Set Addr}

/-- Which processes have no shell after a call. -/
theorem Voiced.called (voiced : Voiced started before) (gains : before.Gains (· = 0) after) :
    Voiced (before.startedBy after started) after where
  sound := gains.sound
  listed := fun _ member => member.1
  mute := by
    intro process listed
    by_cases old : before.tables.Lists process
    · rw [gains.kept process old listed, voiced.mute process old]
      exact ⟨fun member => ⟨listed, Or.inl member⟩, fun member => member.2.resolve_right (not_not.mpr old)⟩
    · exact ⟨fun _ => ⟨listed, Or.inr old⟩, fun _ => gains.new process listed old⟩

theorem Voiced.gained (voiced : Voiced started before) (gains : before.Gains (· ≠ 0) after) :
    Voiced {process ∈ started | after.tables.Lists process} after where
  sound := gains.sound
  listed := fun _ member => member.2
  mute := by
    intro process listed
    by_cases old : before.tables.Lists process
    · rw [gains.kept process old listed, voiced.mute process old]
      exact ⟨fun member => ⟨member, listed⟩, fun member => member.1⟩
    · refine ⟨fun null => absurd null (gains.new process listed old), fun member => ?_⟩
      exact absurd (voiced.listed process member.1) old

theorem KernelStep.voiced {state last : System × Set Addr} (step : KernelStep state last)
    (voiced : Voiced state.2 state.1) : Voiced last.2 last.1 := by
  cases step with
  | call oracle caller command frame ended live harmless run =>
    exact voiced.called (isr80hHandler_gains voiced.sound live harmless.toAsks run)
  | interrupt oracle caller c key interrupt frame ended live run =>
    exact voiced.gained (interruptHandler_gains voiced.sound live run)
  | make oracle id res shell low high run => exact voiced.gained (shellNew_gains voiced.sound low high run)

end Steps

section Speaks
variable {system : System} {task : Addr}

theorem Kernel.Writes.print_returns {kernel : Kernel} {shell : Addr} (text : List Byte)
    (writes : kernel.Writes shell) : ∃ after, PeachOS.print text kernel = (.ok (), after) := by
  induction text generalizing kernel with
  | nil => exact ⟨kernel, rfl⟩
  | cons c rest ih =>
    obtain ⟨records, current⟩ := kernel.screen.written_kept shell c peachosColor
    have next : (kernel.setScreen (kernel.screen.written shell c peachosColor)).Writes shell :=
      writes.setScreen records current
    obtain ⟨after, printed⟩ := ih next
    exact ⟨after, (bind_ok (writes.run c peachosColor)).trans printed⟩

theorem ShellsSound.speaks (sound : ShellsSound system) (live : task ∈ system.liveTasks)
    (voice : (system.kernel.processRecords (system.kernel.tasks task).process).shell ≠ 0) :
    system.Speaks task := by
  obtain ⟨nonnull, listed⟩ := sound.consistent.taskProcess live
  -- the system with the task as the running one
  have steady : system.Steady (system.setKernel (system.kernel.running task)) :=
    System.Steady.congr sound rfl rfl
  have speaker : (system.kernel.running task).InShell
      (system.kernel.processRecords (system.kernel.tasks task).process).shell :=
    ⟨nonnull, listed.1, rfl, voice⟩
  have writes := steady.sound.writes speaker
  exact ⟨writes.1, fun c colour => ⟨_, writes.2.run c colour⟩, fun text => writes.2.print_returns text⟩

end Speaks

section Runs
variable {boot last : System} {started : Set Addr}

theorem voiced_of_run (processes : NoProcesses boot) (shells : NoShells boot)
    (run : Run KernelStep (boot, ∅) (last, started)) : Voiced started last := by
  have booted : Voiced ∅ boot := by
    refine ⟨shells.sound, fun _ member => member.elim, ?_⟩
    rintro process ⟨nonnull, i, _, here⟩
    exact absurd (here.symm.trans (processes.processes i)) nonnull
  exact run.invariant (fun state => Voiced state.2 state.1) (fun _ _ held step => step.voiced held) booted

end Runs

/-- The user program asks for a program `a`. -/
def asksForA : Caller where
  kernelChunk := 0x900000
  stackItem := fun _ => 0
  string := fun _ => [0x61]
  physical := fun address => address
  arguments := fun _ => []
  unread := []

def noFrame : InterruptFrame := ⟨0, 0, 0, 0, 0, 0, 0, 0, 0, 0, 0, 0, 0⟩

theorem oneShellMade_kernelStep : KernelStep (bootSystem, ∅) (oneShellMade, ∅) := by
  have step : KernelStep (bootSystem, ∅) (oneShellMade, {process ∈ ∅ | oneShellMade.tables.Lists process}) :=
    .make pages 0 0 0x1000000 (by decide) (by decide) oneShellMade_run
  rwa [Set.sep_empty] at step

theorem oneShellMade_owner :
    oneShellMade.blocks oneShellMade.kernel.currentTask = some (.owned .task 0x1003000) := by decide +kernel

end PeachOS
