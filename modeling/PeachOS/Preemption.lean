import PeachOS.CallResults
import PeachOS.Ledger

/-! Preemption: which task runs when the kernel goes back to user mode, in which address space and
with which registers, whatever was served in between. -/

namespace PeachOS
open Program Cpu Transition

def Kernel.Runs (task : Addr) (kernel : Kernel) : Prop := kernel.currentTask = task

def System.Runs (task : Addr) (system : System) : Prop := system.kernel.Runs task

/-- The task runs, its block is nobody else's, and there is a task list for others to be put into. -/
structure System.Anchored (task : Addr) (system : System) : Prop where
  runs : system.Runs task
  used : system.blocks task ≠ none
  head : system.kernel.taskHead ≠ 0

section Calls
variable {α : Type} {oracle : Oracle} {caller : Caller} {task process : Addr}

end Calls

section Loads
variable {oracle : Oracle} {task other process : Addr} {before after : System} {filename : List Byte}

theorem System.Anchored.serve (anchored : before.Anchored task) {ptr : Addr} (empty : before.blocks ptr = none)
    (use : BlockUse) (size : Word) : (before.serve ptr use size).Anchored task :=
  ⟨anchored.runs, (System.Grows.serve empty rfl).used anchored.used, anchored.head⟩

theorem System.Anchored.setProcess (anchored : before.Anchored task) (process : Addr) (change : Process → Process) :
    (before.setKernel (before.kernel.setProcess process change)).Anchored task :=
  ⟨anchored.runs, anchored.used, anchored.head⟩

end Loads

/-- The task runs, and its own address space is loaded. -/
structure System.BackIn (task : Addr) (system : System) : Prop where
  runs : system.Runs task
  nonnull : task ≠ 0
  space : system.kernel.pageDirectory =
    directoryEntry system.kernel.memory.bytes (system.kernel.tasks task).pageDirectory

/-- A program that leaves through `task_return` leaves to the task that runs, in its address space. -/
def Lands (program : SystemProg CommandEnd) : Prop :=
  ∀ before registers after, program before = (.ok (.taskReturn registers), after) →
    ∃ task, registers = taskRegisters task ∧ after.BackIn task

section Lands
variable {α : Type} {oracle : Oracle} {caller : Caller} {task process : Addr} {before after : System}
  {program : SystemProg α} {next : α → SystemProg CommandEnd} {yes no : SystemProg CommandEnd}

theorem Lands.result (value : Word) : Lands (pure (.result value)) := by
  intro before registers after run
  cases run

theorem Lands.bind (rest : ∀ result, Lands (next result)) : Lands (program >>= next) := by
  intro before registers after run
  obtain ⟨_, _, _, last⟩ := bind_eq_ok run
  exact rest _ _ _ _ last

theorem Lands.ite {condition : Prop} [Decidable condition] (first : Lands yes) (second : Lands no) :
    Lands (if condition then yes else no) := by
  split
  · exact first
  · exact second

theorem taskSwitch_backIn (run : oracle.below.kernel (taskSwitch task) before = (.ok (), after)) :
    after.BackIn task := by
  obtain ⟨kernel, switched, rfl⟩ := below_kernel_ok run
  unfold taskSwitch at switched
  split at switched
  · cases switched
  next nonnull =>
    rw [update_bind, read_bind] at switched
    unfold Kernel.pagingSwitch at switched
    split at switched
    · cases switched
    · cases switched
      exact ⟨rfl, nonnull, rfl⟩

theorem lands_startTask : Lands (oracle.below.startTask process) := by
  intro before registers after run
  unfold Below.startTask at run
  split at run
  · cases run
  · rw [below_read_bind] at run
    obtain ⟨_, _, switch, returned⟩ := bind_eq_ok run
    cases returned
    exact ⟨_, rfl, taskSwitch_backIn switch⟩

theorem lands_taskNext : Lands oracle.below.taskNext := by
  intro before registers after run
  unfold Below.taskNext at run
  obtain ⟨nextTask, _, _, run⟩ := bind_eq_ok run
  split at run
  · cases run
  · obtain ⟨_, _, switch, returned⟩ := bind_eq_ok run
    cases returned
    exact ⟨_, rfl, taskSwitch_backIn switch⟩

theorem lands_exit : Lands oracle.below.isr80hCommand9Exit :=
  .bind fun _ => .bind fun _ => lands_taskNext

theorem lands_isr80hHandleCommand (command : Int) : Lands (oracle.below.isr80hHandleCommand caller command) := by
  unfold Below.isr80hHandleCommand
  refine .ite (.result _) ?_
  cases found : oracle.below.isr80hCommands caller command with
  | none =>
    intro before registers after run
    obtain ⟨_, stopped, _⟩ := below_kernel_ok run
    cases stopped
  | some commandFunc =>
    dsimp only
    unfold Below.isr80hCommands at found
    split at found <;> cases found
    · exact .bind fun _ => .bind fun _ => .bind fun _ => .result _
    · exact .bind fun _ => .bind fun _ => .bind fun _ => .bind fun _ => .result _
    · exact .bind fun _ => .result _
    · exact .bind fun _ => .bind fun _ => .bind fun _ => .result _
    · exact .bind fun _ => .bind fun _ => .bind fun _ => .bind fun _ => .result _
    · exact .bind fun _ => .bind fun _ => .bind fun _ => .bind fun _ => .result _
    · refine .bind fun _ => .bind fun _ => .bind fun _ => ?_
      refine .ite (.result _) (.ite ?_ (.bind fun _ => .ite (.result _) lands_startTask))
      intro before registers after run
      cases run
    · refine .bind fun _ => .bind fun item => ?_
      dsimp only
      split
      · exact .result _
      · refine .ite (.result _) (.ite ?_ (.bind fun _ => .ite (.result _) ?_))
        · intro before registers after run
          cases run
        · exact .bind fun _ => .ite (.result _) lands_startTask
    · refine .bind fun _ => .bind fun _ => .bind fun _ => .ite ?_ ?_
      · intro before registers after run
        cases run
      · exact .bind fun _ => .bind fun _ => .result _
    · exact lands_exit

theorem lands_interruptCallbacks {c : Int} {key : Option Byte} {interrupt : Nat} {callback : SystemProg CommandEnd}
    (found : oracle.below.interruptCallbacks caller c key interrupt = some callback) : Lands callback := by
  unfold Below.interruptCallbacks at found
  split at found
  · cases found
    exact lands_exit
  · split at found
    · cases found
      exact .ite (.result _) lands_taskNext
    · split at found
      · cases found
        refine .bind fun _ => ?_
        cases key with
        | none => exact .result _
        | some c =>
          dsimp only
          exact .ite (.bind fun _ => .result _) (.bind fun _ => .bind fun _ => .result _)
      · cases found

end Lands

section Stays
variable {oracle : Oracle} {caller : Caller} {task process : Addr} {before after : System} {value : Word}

end Stays

section Serves
variable {oracle : Oracle} {caller : Caller} {frame : InterruptFrame} {task registers : Addr}
  {fits : System → Caller → Int → Prop} {before after : System} {ended : CommandEnd} {value : Word}

theorem enter_lands {work : SystemProg CommandEnd}
    (run : oracle.below.enter caller frame work before = (.ok (.taskReturn registers), after)) :
    ∃ start, work start = (.ok (.taskReturn registers), after) := by
  unfold Below.enter at run
  obtain ⟨_, _, _, run⟩ := bind_eq_ok run
  obtain ⟨_, saved, _, run⟩ := bind_eq_ok run
  obtain ⟨left, done, worked, run⟩ := bind_eq_ok run
  cases left with
  | taskReturn =>
    cases run
    exact ⟨saved, worked⟩
  | result =>
    obtain ⟨_, _, _, returned⟩ := bind_eq_ok run
    cases returned

theorem taskRegisters_injective {first second : Addr} (same : taskRegisters first = taskRegisters second) :
    first = second := by
  unfold taskRegisters at same
  bv_omega

theorem Serves.lands (serves : Serves fits (.taskReturn (taskRegisters task)) before after) : after.BackIn task := by
  have lands : ∃ other, taskRegisters task = taskRegisters other ∧ after.BackIn other := by
    cases serves with
    | call oracle caller command frame _ _ run =>
      obtain ⟨start, worked⟩ := enter_lands run
      exact lands_isr80hHandleCommand command _ _ _ worked
    | interrupt oracle caller c key interrupt frame _ run =>
      unfold Below.interruptHandler at run
      cases found : oracle.below.interruptCallbacks caller c key interrupt with
      | some callback =>
        rw [found] at run
        obtain ⟨start, worked⟩ := enter_lands run
        exact lands_interruptCallbacks found _ _ _ worked
      | none =>
        rw [found] at run
        obtain ⟨_, _, _, run⟩ := bind_eq_ok run
        obtain ⟨_, _, _, returned⟩ := bind_eq_ok run
        cases returned
  obtain ⟨other, same, back⟩ := lands
  rwa [taskRegisters_injective same]

end Serves

end PeachOS
