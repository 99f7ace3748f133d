import PeachOS.InterruptCode
import PeachOS.SavedRegisters

/-! The result register of a task that made a system call: `isr80h_wrapper` puts the result there,
`task_return` what was there when the call was made. -/

namespace PeachOS
open Program Cpu Transition

/-- A system call that `fits` or an interrupt, whichever task runs. -/
inductive Serves (fits : System → Caller → Int → Prop) : CommandEnd → System → System → Prop where
  | call {before after : System} (oracle : Oracle) (caller : Caller) (command : Int) (frame : InterruptFrame)
      (ended : CommandEnd) (fit : fits before caller command)
      (run : oracle.below.isr80hHandler caller command frame before = (.ok ended, after)) :
      Serves fits ended before after
  | interrupt {before after : System} (oracle : Oracle) (caller : Caller) (c : Int) (key : Option Byte)
      (interrupt : Nat) (frame : InterruptFrame) (ended : CommandEnd)
      (run : oracle.below.interruptHandler caller c key interrupt frame before = (.ok ended, after)) :
      Serves fits ended before after

/-- The kernel serves another task without harm, and the waiting one is not freed. -/
structure Waits (task : Addr) (before after : System) : Prop where
  other : before.kernel.currentTask ≠ task
  live : task ∈ after.liveTasks
  serves : ∃ ended, Serves System.Harmless ended before after

section Waiting
variable {oracle : Oracle} {caller : Caller} {frame : InterruptFrame} {task : Addr} {registers : Registers}
  {before after : System} {ended : CommandEnd} {fits : System → Caller → Int → Prop}

theorem System.used_of_live {system : System} (live : task ∈ system.liveTasks) : system.blocks task ≠ none := by
  obtain ⟨process, own⟩ := live
  rw [own]
  exact Option.some_ne_none _

theorem System.entered_other (used : before.blocks task ≠ none) (other : before.kernel.currentTask ≠ task) :
    (before.entered caller frame).Waiting task (before.kernel.tasks task).registers := by
  refine ⟨used, ?_⟩
  unfold System.SavedAs System.entered System.setKernel Kernel.SavedAs Kernel.entered
  rw [Kernel.setTask_tasks, if_neg other.symm]

theorem System.entered_current (used : before.blocks before.kernel.currentTask ≠ none) :
    (before.entered caller frame).Waiting before.kernel.currentTask frame.saved := by
  refine ⟨used, ?_⟩
  unfold System.SavedAs System.entered System.setKernel Kernel.SavedAs Kernel.entered
  rw [Kernel.setTask_tasks, if_pos rfl]

theorem Serves.savedAs (serves : Serves fits ended before after) (used : before.blocks task ≠ none)
    (other : before.kernel.currentTask ≠ task) : after.SavedAs task (before.kernel.tasks task).registers := by
  cases serves with
  | call oracle caller command frame ended _ run =>
    obtain ⟨done, work, _, kept⟩ := enter_work run
    exact kept _ _ (isr80hHandleCommand_savedAs (System.entered_other used other) work)
  | interrupt oracle caller c key interrupt frame ended run =>
    unfold Below.interruptHandler at run
    cases found : oracle.below.interruptCallbacks caller c key interrupt with
    | some callback =>
      rw [found] at run
      obtain ⟨done, work, _, kept⟩ := enter_work run
      exact kept _ _ (savedAs_interruptCallbacks found _ _ _ (System.entered_other used other).2 work)
    | none =>
      rw [found] at run
      refine Preserves.bind savedAs_free.kernelPage (fun _ => ?_) before ended after rfl run
      exact Preserves.bind savedAs_taskPage (fun _ => Preserves.pure _)

theorem Waits.run (waits : Run (Waits task) before after) (live : task ∈ before.liveTasks) :
    task ∈ after.liveTasks ∧ after.SavedAs task (before.kernel.tasks task).registers := by
  refine waits.invariant
    (fun system => task ∈ system.liveTasks ∧ system.SavedAs task (before.kernel.tasks task).registers) ?_ ⟨live, rfl⟩
  rintro middle last ⟨here, held⟩ step
  obtain ⟨ended, serves⟩ := step.serves
  have kept := serves.savedAs (System.used_of_live here) step.other
  rw [held] at kept
  exact ⟨step.live, kept⟩

theorem isr80hHandler_saves {command : Int} (live : before.kernel.currentTask ∈ before.liveTasks)
    (run : oracle.below.isr80hHandler caller command frame before = (.ok ended, after)) :
    after.SavedAs before.kernel.currentTask frame.saved := by
  obtain ⟨done, work, _, kept⟩ := enter_work run
  exact kept _ _ (isr80hHandleCommand_savedAs (System.entered_current (System.used_of_live live)) work)

end Waiting

/-- The program that the call asks for is loaded, with call 7 its arguments as well. -/
inductive StartsProgram (oracle : Oracle) (caller : Caller) (system : System) : Int → Prop where
  | processLoadStart {item : Word} {read res : Int} {filename : List Byte} {process : Addr}
      {looked copied loaded : System}
      (asked : oracle.below.taskGetStackItem caller system.kernel.currentTask 0 system = (.ok item, looked))
      (copy : oracle.below.copyStringFromTask caller system.kernel.currentTask item peachosMaxPath looked =
        (.ok (read, filename), copied))
      (named : 0 ≤ read)
      (load : oracle.below.processLoadSwitch (drivePrefix ++ filename.take (strlen filename)) copied =
        (.ok (res, process), loaded))
      (done : 0 ≤ res) : StartsProgram oracle caller system 6
  | invokeSystemCommand {item : Word} {res given : Int} {programName : List Byte} {others : List (List Byte)}
      {process : Addr} {looked loaded injected : System}
      (asked : oracle.below.taskGetStackItem caller system.kernel.currentTask 0 system = (.ok item, looked))
      (arguments : caller.arguments (caller.physical item) = programName :: others)
      (named : strlen programName ≠ 0)
      (load : oracle.below.processLoadSwitch (drivePrefix ++ strncpy programName peachosMaxPath) looked =
        (.ok (res, process), loaded))
      (done : 0 ≤ res)
      (inject : oracle.below.processInjectArguments process (programName :: others) loaded = (.ok given, injected))
      (ready : 0 ≤ given) : StartsProgram oracle caller system 7

section Ends
variable {oracle : Oracle} {caller : Caller} {frame : InterruptFrame} {task process registers : Addr}
  {before after system : System} {ended : CommandEnd} {command : Int} {value : Word}

theorem StartsProgram.number (starts : StartsProgram oracle caller system command) : command = 6 ∨ command = 7 := by
  cases starts with
  | processLoadStart => exact Or.inl rfl
  | invokeSystemCommand => exact Or.inr rfl

theorem startTask_yields : Yields (fun ended => ∃ registers, ended = .taskReturn registers)
    (oracle.below.startTask process) := by
  unfold Below.startTask
  refine Yields.ite (fun _ _ _ run => by cases run) ?_
  exact Yields.bind (fun task => Yields.bind (fun _ => Yields.pure ⟨_, rfl⟩))

theorem StartsProgram.not_result (starts : StartsProgram oracle caller system command) :
    oracle.below.isr80hHandleCommand caller command system ≠ (.ok (.result value), after) := by
  intro run
  cases starts with
  | processLoadStart asked copy named load done =>
    change oracle.below.isr80hCommand6ProcessLoadStart caller system = _ at run
    unfold Below.isr80hCommand6ProcessLoadStart at run
    rw [below_read_bind, bind_ok asked, bind_ok copy] at run
    dsimp only at run
    rw [if_neg (by omega)] at run
    split at run
    · cases run
    · rw [bind_ok load] at run
      dsimp only at run
      rw [if_neg (by omega)] at run
      obtain ⟨_, different⟩ := startTask_yields _ _ _ run
      cases different
  | invokeSystemCommand asked arguments named load done inject ready =>
    change oracle.below.isr80hCommand7InvokeSystemCommand caller system = _ at run
    unfold Below.isr80hCommand7InvokeSystemCommand at run
    rw [below_read_bind, bind_ok asked] at run
    dsimp only at run
    rw [arguments] at run
    dsimp only at run
    rw [if_neg named] at run
    split at run
    · cases run
    · rw [bind_ok load] at run
      dsimp only at run
      rw [if_neg (by omega), bind_ok inject, if_neg (by omega)] at run
      obtain ⟨_, different⟩ := startTask_yields _ _ _ run
      cases different

theorem exit_not_live (consistent : Consistent ∅ before) (live : before.kernel.currentTask ∈ before.liveTasks)
    (run : oracle.below.isr80hCommand9Exit before = (.ok ended, after)) :
    before.kernel.currentTask ∉ after.liveTasks := by
  unfold Below.isr80hCommand9Exit at run
  obtain ⟨process, same, owner, run⟩ := bind_eq_ok run
  obtain ⟨kernel, looked, rfl⟩ := below_kernel_ok owner
  unfold taskCurrentProcess at looked
  rw [read_bind] at looked
  split at looked
  · cases looked
  cases looked
  obtain ⟨_, terminated, terminate, next⟩ := bind_eq_ok run
  obtain ⟨_, nonnull, i, bound, here⟩ := consistent.taskProcess live
  have gone := (processTerminate_below_ok consistent bound here nonnull terminate).2
  have blocks : after.blocks = terminated.blocks := by
    unfold Below.taskNext at next
    obtain ⟨_, _, found, next⟩ := bind_eq_ok next
    obtain ⟨_, _, rfl⟩ := below_kernel_ok found
    split at next
    · cases next
    · obtain ⟨_, _, switch, returned⟩ := bind_eq_ok next
      obtain ⟨_, _, rfl⟩ := below_kernel_ok switch
      cases returned
      rfl
  rintro ⟨owner, own⟩
  rw [blocks] at own
  -- its owner would still be in the table, in another slot
  have old := gone.shrinks _ _ own
  obtain ⟨k, inside, listed, task⟩ := (consistent.tasks _ _ old).resolve_left id
  obtain ⟨j, within, again, _⟩ := (gone.consistent.tasks _ _ own).resolve_left id
  have record := consistent.owners _ _ _ old
  have proper : owner ≠ 0 := by
    rintro rfl
    rw [consistent.null] at record
    cases record
  have loaded := consistent.entries k inside (listed ▸ proper) (Set.notMem_empty _)
  rw [listed] at loaded
  have back := loaded.back
  rw [task] at back
  change (before.kernel.tasks before.kernel.currentTask).process = owner at back
  rw [back] at here
  rw [gone.processes] at again
  by_cases same : j = i
  · rw [same, Function.update_self] at again
    exact proper again.symm
  · rw [Function.update_of_ne same] at again
    exact same (consistent.slot_unique proper bound here within again)

theorem isr80hCommand6ProcessLoadStart_starts
    (run : oracle.below.isr80hCommand6ProcessLoadStart caller before = (.ok (.taskReturn registers), after)) :
    StartsProgram oracle caller before 6 := by
  unfold Below.isr80hCommand6ProcessLoadStart at run
  rw [below_read_bind] at run
  obtain ⟨item, looked, asked, run⟩ := bind_eq_ok run
  obtain ⟨⟨read, filename⟩, copied, copy, run⟩ := bind_eq_ok run
  dsimp only at run
  split at run
  · cases run
  · split at run
    · cases run
    · obtain ⟨⟨res, process⟩, loaded, load, run⟩ := bind_eq_ok run
      dsimp only at run
      split at run
      · cases run
      · exact .processLoadStart asked copy (by omega) load (by omega)

theorem isr80hCommand7InvokeSystemCommand_starts
    (run : oracle.below.isr80hCommand7InvokeSystemCommand caller before = (.ok (.taskReturn registers), after)) :
    StartsProgram oracle caller before 7 := by
  unfold Below.isr80hCommand7InvokeSystemCommand at run
  rw [below_read_bind] at run
  obtain ⟨item, looked, asked, run⟩ := bind_eq_ok run
  dsimp only at run
  rcases arguments : caller.arguments (caller.physical item) with _ | ⟨programName, others⟩
  · rw [arguments] at run
    cases run
  · rw [arguments] at run
    dsimp only at run
    split at run
    · cases run
    next named =>
      split at run
      · cases run
      · obtain ⟨⟨res, process⟩, loaded, load, run⟩ := bind_eq_ok run
        dsimp only at run
        split at run
        · cases run
        · obtain ⟨given, injected, inject, run⟩ := bind_eq_ok run
          split at run
          · cases run
          · exact .invokeSystemCommand asked arguments named load (by omega) inject (by omega)

/-- A call that leaves its task waiting starts a program. -/
theorem isr80hHandleCommand_starts (consistent : Consistent ∅ before)
    (live : before.kernel.currentTask ∈ before.liveTasks)
    (run : oracle.below.isr80hHandleCommand caller command before = (.ok (.taskReturn registers), after))
    (still : before.kernel.currentTask ∈ after.liveTasks) : StartsProgram oracle caller before command := by
  have returns : ∀ {program : SystemProg CommandEnd}, Yields (fun ended => ∃ value, ended = .result value) program →
      program before ≠ (.ok (.taskReturn registers), after) := by
    intro program yields run
    obtain ⟨_, different⟩ := yields _ _ _ run
    cases different
  unfold Below.isr80hHandleCommand at run
  split at run
  · cases run
  · cases found : oracle.below.isr80hCommands caller command with
    | none =>
      rw [found] at run
      cases run
    | some commandFunc =>
      rw [found] at run
      unfold Below.isr80hCommands at found
      split at found <;> cases found
      · exact absurd run (returns (.bind fun _ => .bind fun _ => .bind fun _ => .pure ⟨_, rfl⟩))
      · exact absurd run (returns (.bind fun _ => .bind fun _ => .bind fun _ => .bind fun _ => .pure ⟨_, rfl⟩))
      · exact absurd run (returns (.bind fun _ => .pure ⟨_, rfl⟩))
      · exact absurd run (returns (.bind fun _ => .bind fun _ => .bind fun _ => .pure ⟨_, rfl⟩))
      · exact absurd run (returns (.bind fun _ => .bind fun _ => .bind fun _ => .bind fun _ => .pure ⟨_, rfl⟩))
      · exact absurd run (returns (.bind fun _ => .bind fun _ => .bind fun _ => .bind fun _ => .pure ⟨_, rfl⟩))
      · exact isr80hCommand6ProcessLoadStart_starts run
      · exact isr80hCommand7InvokeSystemCommand_starts run
      · refine absurd run (returns (.bind fun _ => .bind fun _ => .bind fun _ => .ite ?_ ?_))
        · exact fun _ _ _ run => by cases run
        · exact .bind fun _ => .bind fun _ => .pure ⟨_, rfl⟩
      · exact absurd still (exit_not_live consistent live run)

end Ends

/-- The arguments of `isr80h_handler` as its caller pushed them. -/
def callCommand (user : Machine) (site : Word) : Int :=
  ((enterWrapper user site).load ((enterWrapper user site).reg .esp + 4)).toInt

def callFrame (user : Machine) (site : Word) : InterruptFrame :=
  loadFrame (enterWrapper user site).bytes ((enterWrapper user site).load ((enterWrapper user site).reg .esp + 8))

/-- The entry of `task_return` with the saved registers of the task. -/
structure AtTaskReturn (system : System) (task : Addr) (bottom : Machine) : Prop where
  argument : bottom.load (bottom.reg .esp + 4) = taskRegisters task
  place : RegistersAbove bottom (taskRegisters task)
  room : 32 ≤ (bottom.reg .esp).toNat
  saved : loadRegisters bottom.bytes (taskRegisters task) = (system.kernel.tasks task).registers

/-- The two ways in which the running task goes on after a system call, with the result of the call
and the machine in which user code continues: a handler that starts a program returns 0. -/
inductive Resumes (oracle : Oracle) (caller : Caller) (user : Machine) (site : Word) (before : System) :
    Word → Machine → Prop where
  | isr80hWrapper {value : Word} {after : System} {back : Machine} (tmpRes : Addr)
      (run : oracle.below.isr80hHandler caller (callCommand user site) (callFrame user site) before =
        (.ok (.result value), after))
      (eax : back.reg .eax = value) :
      Resumes oracle caller user site before value (exec back (isr80hExit tmpRes)).iret
  | taskReturn {registers : Addr} {after last final : System} {bottom : Machine} (returnSite : Word)
      (run : oracle.below.isr80hHandler caller (callCommand user site) (callFrame user site) before =
        (.ok (.taskReturn registers), after))
      (live : before.kernel.currentTask ∈ after.liveTasks)
      (waits : Run (Waits before.kernel.currentTask) after last)
      (other : last.kernel.currentTask ≠ before.kernel.currentTask)
      (serves : Serves System.Harmless (.taskReturn (taskRegisters before.kernel.currentTask)) last final)
      (entry : AtTaskReturn final before.kernel.currentTask bottom) :
      Resumes oracle caller user site before 0 (exec bottom (PeachOS.taskReturn returnSite)).iret

section Results
variable {oracle : Oracle} {caller : Caller} {user resumed : Machine} {site result : Word}
  {boot before after last final : System} {started : Set Addr}

theorem callCommand_eq (user : Machine) (site : Word) : callCommand user site = (user.reg .eax).toInt := by
  unfold callCommand
  rw [enterWrapper_eq, enterHandler_number]

theorem callFrame_saved (user : Machine) (site : Word) : (callFrame user site).saved = userRegisters user := by
  unfold callFrame
  rw [enterWrapper_eq, enterHandler_frame, enterHandler_saved]

theorem System.entered_quiet (caller : Caller) (frame : InterruptFrame) (system : System) :
    system.Quiet (system.entered caller frame) :=
  ⟨rfl, Kernel.tables_setTask_links rfl rfl, rfl⟩

section Later
variable {registers : Addr} (running : before.kernel.currentTask ∈ before.liveTasks)
  (run : oracle.below.isr80hHandler caller (callCommand user site) (callFrame user site) before =
    (.ok (.taskReturn registers), after))
  (live : before.kernel.currentTask ∈ after.liveTasks) (waits : Run (Waits before.kernel.currentTask) after last)
  (other : last.kernel.currentTask ≠ before.kernel.currentTask)
  (serves : Serves System.Harmless (.taskReturn (taskRegisters before.kernel.currentTask)) last final)
include running run live waits other serves

theorem taskReturn_saved : (final.kernel.tasks before.kernel.currentTask).registers = userRegisters user := by
  have saved := isr80hHandler_saves running run
  obtain ⟨still, waited⟩ := Waits.run waits live
  have kept := serves.savedAs (System.used_of_live still) other
  unfold System.SavedAs Kernel.SavedAs at saved waited kept
  rw [kept, waited, saved, callFrame_saved]

/-- A task that waited goes on with what it had in `eax` when it made the call. -/
theorem taskReturn_eax {bottom : Machine} (entry : AtTaskReturn final before.kernel.currentTask bottom)
    (returnSite : Word) : (exec bottom (taskReturn returnSite)).iret.reg .eax = user.reg .eax := by
  have resumes := taskReturn_resumes entry.place entry.argument entry.room returnSite
  generalize (exec bottom (taskReturn returnSite)).iret = resumed at resumes
  rw [entry.saved, taskReturn_saved running run live waits other serves] at resumes
  have eax : (userRegisters resumed).eax = (userRegisters user).eax := by rw [resumes]
  exact eax

end Later

/-- In every state that system calls, interrupts and new shells reach, the result of a call that a
task makes is in `eax` when its user code goes on if and only if the call starts no program. -/
theorem resumes_with_result (processes : NoProcesses boot) (shells : NoShells boot)
    (reached : Run KernelStep (boot, ∅) (before, started)) (running : before.kernel.currentTask ∈ before.liveTasks)
    (resumes : Resumes oracle caller user site before result resumed) :
    resumed.reg .eax = result ↔
      ¬StartsProgram oracle caller (before.entered caller (callFrame user site)) (callCommand user site) := by
  have quiet := before.entered_quiet caller (callFrame user site)
  cases resumes with
  | isr80hWrapper tmpRes run eax =>
    obtain ⟨done, work, _, _⟩ := enter_work run
    exact ⟨fun _ starts => starts.not_result work, fun _ => (isr80hExit_eax _ tmpRes).trans eax⟩
  | taskReturn returnSite run live waits other serves entry =>
    obtain ⟨done, work, blocks, _⟩ := enter_work run
    have consistent := (voiced_of_run processes shells reached).sound.consistent.congr quiet.blocks quiet.tables
    have still : before.kernel.currentTask ∈ done.liveTasks := by
      unfold System.liveTasks
      rw [← blocks]
      exact live
    have starts := isr80hHandleCommand_starts consistent (quiet.live running) work still
    have eax := taskReturn_eax running run live waits other serves entry returnSite
    refine ⟨fun result _ => ?_, fun none => absurd starts none⟩
    -- `eax` was the number of the call
    rw [callCommand_eq, ← eax, result] at starts
    rcases starts.number with six | seven
    · exact absurd six (by decide)
    · exact absurd seven (by decide)

end Results

def asking (command : Word) : Machine where
  reg := Function.update (fun _ => 0) .eax command
  seg := fun _ => 0
  eip := 0
  cs := 0
  eflags := 0
  ss := 0
  bytes := fun _ => 0

def asksForBlock : Caller := { asksForA with stackItem := fun _ => 4096 }

/-- The program of the first shell gets its block from call 4 at once. -/
theorem resumes_with_result_malloc : (exec (asking 0x100a000) (isr80hExit 0x120000)).iret.reg .eax = 0x100a000 := by
  have run : pages.below.isr80hHandler asksForBlock (callCommand (asking 4) 0) (callFrame (asking 4) 0) oneShellMade =
      (.ok (.result 0x100a000), _) := run_of_result (by
    rw [callCommand_eq]
    decide +kernel)
  refine (resumes_with_result bootSystem_noProcesses bootSystem_noShells (.single oneShellMade_kernelStep)
    ⟨_, oneShellMade_owner⟩ (.isr80hWrapper 0x120000 run rfl)).mpr ?_
  rw [callCommand_eq]
  rintro ⟨⟩

/-- After the program of the first shell made system call 6, with its registers saved. -/
def callerWaits : System := (pages.below.isr80hHandler asksForA (callCommand (asking 6) 0) (callFrame (asking 6) 0)
  oneShellMade).2

/-- After the clock interrupts the program that was started. -/
def callerSwitched : System := (pages.below.interruptHandler asksForA 10 none 0x20 noFrame callerWaits).2

/-- The kernel at the entry of `task_return` to the first task, which waits with 6 in `eax`. -/
def returnsToCaller : Machine where
  reg := Function.update (fun _ => 0) .esp 0x500000
  seg := fun _ => 0
  eip := 0
  cs := 0
  eflags := 0
  ss := 0
  bytes := ByteMemory.store32 (ByteMemory.store32 (fun _ => 0) (taskRegisters 0x1006000 + 24) 6) 0x500004
    (taskRegisters 0x1006000)

/-- The program of the first shell starts another one by call 6, and the clock comes back to it. -/
theorem resumes_with_number : ¬∀ boot before started oracle caller user site result resumed, NoProcesses boot →
    NoShells boot → Run KernelStep (boot, ∅) (before, started) → before.kernel.currentTask ∈ before.liveTasks →
      Resumes oracle caller user site before result resumed → resumed.reg .eax = result := by
  intro always
  have current : oneShellMade.kernel.currentTask = 0x1006000 := by decide +kernel
  have run : pages.below.isr80hHandler asksForA (callCommand (asking 6) 0) (callFrame (asking 6) 0) oneShellMade =
      (.ok (.taskReturn 0x100d004), callerWaits) := run_of_result (by
    rw [callCommand_eq]
    decide +kernel)
  have owner : callerWaits.blocks 0x1006000 = some (.owned .task 0x1003000) := by
    unfold callerWaits
    rw [callCommand_eq]
    decide +kernel
  have live : oneShellMade.kernel.currentTask ∈ callerWaits.liveTasks := ⟨_, current ▸ owner⟩
  have other : callerWaits.kernel.currentTask ≠ oneShellMade.kernel.currentTask := by
    unfold callerWaits
    rw [callCommand_eq]
    decide +kernel
  have clock : pages.below.interruptHandler asksForA 10 none 0x20 noFrame callerWaits =
      (.ok (.taskReturn (taskRegisters oneShellMade.kernel.currentTask)), callerSwitched) := run_of_result (by
    unfold callerWaits
    rw [callCommand_eq]
    decide +kernel)
  have serves := @Serves.interrupt System.Harmless _ _ pages asksForA 10 none 0x20 noFrame _ clock
  have running : oneShellMade.kernel.currentTask ∈ oneShellMade.liveTasks := ⟨_, oneShellMade_owner⟩
  have saved := taskReturn_saved running run live .refl other serves
  have entry : AtTaskReturn callerSwitched oneShellMade.kernel.currentTask returnsToCaller := by
    refine ⟨?_, ?_, by decide, saved ▸ ?_⟩
    · rw [current]
      decide +kernel
    · rw [current]
      exact ⟨by decide, by decide, by decide, by decide⟩
    · rw [current]
      apply Registers.ext <;> decide +kernel
  have result := always _ _ _ _ _ _ _ _ _ bootSystem_noProcesses bootSystem_noShells
    (.single oneShellMade_kernelStep) running (.taskReturn 0 run live .refl other serves entry)
  rw [taskReturn_eax running run live .refl other serves entry 0] at result
  exact absurd result (by decide)

end PeachOS
