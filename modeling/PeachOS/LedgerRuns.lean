import PeachOS.Ledger

/-! The books of the processes over whole runs, and what the end of a process gives back. -/

namespace PeachOS
open Program Transition

section Commands
variable {oracle : Oracle} {caller : Caller} {before middle after : System} {ended : CommandEnd}
  {frame : InterruptFrame} {process : Addr}

theorem booked_taskSwitch (task : Addr) : Preserves System.Booked (oracle.below.kernel (taskSwitch task)) := by
  intro before _ after booked run
  obtain ⟨kernel, switched, rfl⟩ := below_kernel_ok run
  exact booked.congr rfl (taskSwitch_tables switched)

theorem booked_taskPage : Preserves System.Booked oracle.below.taskPage := by
  unfold Below.taskPage
  exact Preserves.bind (preserves_read _) (fun _ => booked_taskSwitch _)

theorem booked_taskNext : Preserves System.Booked oracle.below.taskNext := by
  unfold Below.taskNext
  apply Preserves.bind
  · intro before next after booked run
    obtain ⟨kernel, looked, rfl⟩ := below_kernel_ok run
    rw [taskGetNext_same looked]
    exact booked
  intro next
  refine Preserves.ite ?_ (Preserves.bind (booked_taskSwitch _) (fun _ => Preserves.pure _))
  intro before _ after booked run
  obtain ⟨_, stopped, _⟩ := below_kernel_ok run
  cases stopped

theorem booked_startTask : Preserves System.Booked (oracle.below.startTask process) := by
  unfold Below.startTask
  refine Preserves.ite preserves_fault ?_
  refine Preserves.bind (preserves_read _) ?_
  intro task
  exact Preserves.bind (booked_taskSwitch _) (fun _ => Preserves.pure _)

theorem booked_taskCurrentProcess : Preserves System.Booked (oracle.below.kernel taskCurrentProcess) :=
  fun before _ _ booked run => (quiet_taskCurrentProcess _ _ _ (System.Quiet.refl before) run).booked booked

theorem booked_exit : Preserves System.Booked oracle.below.isr80hCommand9Exit := by
  unfold Below.isr80hCommand9Exit
  apply Preserves.bind booked_taskCurrentProcess
  intro process
  exact Preserves.bind booked_processTerminate (fun _ => booked_taskNext)

theorem booked_setKeyboard (keyboard : KeyboardBuffer) (booked : before.Booked) :
    (before.setKernel (before.kernel.setKeyboard process keyboard)).Booked := by
  change (before.setKernel (before.kernel.setProcess process ({ · with keyboard := keyboard }))).Booked
  exact booked.setProcess process (fun _ => ⟨rfl, rfl, rfl, rfl, rfl⟩) (fun _ => rfl)

theorem booked_keyboardPop : Preserves System.Booked (oracle.below.kernel keyboardPop) := by
  intro before c after booked run
  obtain ⟨kernel, popped, rfl⟩ := below_kernel_ok run
  by_cases idle : before.kernel.currentTask = 0
  · rw [keyboardPop_idle idle] at popped
    cases popped
    exact booked
  · by_cases null : (before.kernel.tasks before.kernel.currentTask).process = 0
    · rw [keyboardPop_null idle null] at popped
      cases popped
    · rw [keyboardPop_run idle rfl null] at popped
      cases popped
      split
      · exact booked
      · exact booked_setKeyboard _ booked

theorem booked_keyboardPush (c : Byte) : Preserves System.Booked (oracle.below.kernel (keyboardPush c)) := by
  intro before _ after booked run
  obtain ⟨kernel, pushed, rfl⟩ := below_kernel_ok run
  by_cases ignored : before.kernel.currentProcess = 0 ∨ c = 0
  · rw [keyboardPush_ignored ignored] at pushed
    cases pushed
    exact booked
  · rw [not_or] at ignored
    rw [keyboardPush_run ignored.1 ignored.2] at pushed
    cases pushed
    exact booked_setKeyboard _ booked

theorem booked_shellSwitch (id : Int) : Preserves System.Booked (oracle.below.kernel (shellSwitch id)) := by
  intro before res after booked run
  rcases shellSwitch_below_ok run with ⟨_, _, rfl⟩ | ⟨_, _, blocks, tables⟩
  · exact booked
  · apply booked.retabled blocks <;> rw [tables]
    · exact fun _ listed => listed
    · exact fun _ => ⟨.of_eq rfl, rfl⟩

theorem booked_shellSwitchToNext : Preserves System.Booked (oracle.below.kernel shellSwitchToNext) := by
  intro before _ after booked run
  obtain ⟨_, res, switch⟩ := shellSwitchToNext_below.mp run
  exact booked_shellSwitch _ before res after booked switch

theorem terminalWritechar_booked {c colour : Byte} (sound : ShellsSound before) (booked : before.Booked)
    (run : oracle.below.kernel (terminalWritechar c colour) before = (.ok (), after)) : after.Booked := by
  obtain ⟨kernel, written, rfl⟩ := below_kernel_ok run
  have speaker := needsShell_terminalWritechar before.kernel kernel ⟨rfl, rfl, rfl⟩ written
  rw [(sound.writes speaker).2.run] at written
  cases written
  exact booked.setScreen _

theorem print_booked (text : List Byte) (sound : ShellsSound before) (booked : before.Booked)
    (run : oracle.below.kernel (print text) before = (.ok (), after)) : after.Booked := by
  induction text generalizing before with
  | nil =>
    cases run
    exact booked
  | cons c rest ih =>
    obtain ⟨kernel, printed, rfl⟩ := below_kernel_ok run
    obtain ⟨_, middle, written, later⟩ := bind_eq_ok printed
    have step : oracle.below.kernel (terminalWritechar c peachosColor) before =
        (.ok (), before.setKernel middle) := below_kernel_run written
    exact ih (terminalWritechar_steady sound step).sound (terminalWritechar_booked sound booked step)
      (below_kernel_run later)

theorem isr80hCommand1Print_booked (sound : ShellsSound before) (booked : before.Booked)
    (run : oracle.below.isr80hCommand1Print caller before = (.ok ended, after)) : after.Booked := by
  unfold Below.isr80hCommand1Print at run
  rw [below_read_bind] at run
  obtain ⟨_, looked, first, steps⟩ := bind_eq_ok run
  obtain ⟨⟨_, buf⟩, copied, second, steps⟩ := bind_eq_ok steps
  obtain ⟨_, printed, print, rest⟩ := bind_eq_ok steps
  cases rest
  have quiet := (taskGetStackItem_quiet first).trans (copyStringFromTask_quiet second)
  exact print_booked _ (quiet.steady sound).sound (quiet.booked booked) print

theorem isr80hCommand3Putchar_booked (sound : ShellsSound before) (booked : before.Booked)
    (run : oracle.below.isr80hCommand3Putchar caller before = (.ok ended, after)) : after.Booked := by
  unfold Below.isr80hCommand3Putchar at run
  rw [below_read_bind] at run
  obtain ⟨_, looked, first, steps⟩ := bind_eq_ok run
  obtain ⟨_, written, write, rest⟩ := bind_eq_ok steps
  cases rest
  have quiet := taskGetStackItem_quiet first
  exact terminalWritechar_booked (quiet.steady sound).sound (quiet.booked booked) write

theorem isr80hCommand6ProcessLoadStart_booked (sound : ShellsSound before) (booked : before.Booked)
    (run : oracle.below.isr80hCommand6ProcessLoadStart caller before = (.ok ended, after)) : after.Booked := by
  unfold Below.isr80hCommand6ProcessLoadStart at run
  rw [below_read_bind] at run
  obtain ⟨_, looked, first, steps⟩ := bind_eq_ok run
  obtain ⟨⟨res, filename⟩, copied, second, steps⟩ := bind_eq_ok steps
  have quiet := (taskGetStackItem_quiet first).trans (copyStringFromTask_quiet second)
  dsimp only at steps
  split at steps
  · cases steps
    exact quiet.booked booked
  · split at steps
    · cases steps
    · obtain ⟨⟨res, process⟩, loaded, load, steps⟩ := bind_eq_ok steps
      have held := processLoadSwitch_booked (quiet.steady sound).sound.consistent (quiet.booked booked) load
      exact Preserves.ite (Preserves.pure _) booked_startTask _ _ _ held steps

theorem isr80hCommand7InvokeSystemCommand_booked (sound : ShellsSound before) (booked : before.Booked)
    (run : oracle.below.isr80hCommand7InvokeSystemCommand caller before = (.ok ended, after)) :
    after.Booked := by
  unfold Below.isr80hCommand7InvokeSystemCommand at run
  rw [below_read_bind] at run
  obtain ⟨item, looked, first, steps⟩ := bind_eq_ok run
  have quiet := taskGetStackItem_quiet first
  generalize caller.arguments (caller.physical item) = arguments at steps
  cases arguments with
  | nil =>
    cases steps
    exact quiet.booked booked
  | cons programName others =>
    dsimp only at steps
    split at steps
    · cases steps
      exact quiet.booked booked
    · split at steps
      · cases steps
      · obtain ⟨⟨res, process⟩, loaded, load, steps⟩ := bind_eq_ok steps
        have held := processLoadSwitch_booked (quiet.steady sound).sound.consistent (quiet.booked booked) load
        refine Preserves.ite (Preserves.pure _) ?_ _ _ _ held steps
        apply Preserves.bind (booked_processInjectArguments _)
        intro res
        exact Preserves.ite (Preserves.pure _) booked_startTask

theorem booked_isr80hCommand8 : Preserves System.Booked (oracle.below.isr80hCommand8GetProgramArguments caller) := by
  unfold Below.isr80hCommand8GetProgramArguments
  apply Preserves.bind booked_taskCurrentProcess
  intro process
  refine Preserves.bind (preserves_read _) ?_
  intro current
  apply Preserves.bind (booked_free.taskGetStackItem _ _)
  intro item
  refine Preserves.ite preserves_fault ?_
  refine Preserves.bind (preserves_read _) ?_
  intro record
  refine Preserves.bind (Preserves.update ?_) (fun _ => Preserves.pure _)
  exact fun system booked => booked_free system _ system.kernel.pageDirectory booked

theorem isr80hHandleCommand_booked {command : Int} (sound : ShellsSound before) (booked : before.Booked)
    (run : oracle.below.isr80hHandleCommand caller command before = (.ok ended, after)) : after.Booked := by
  unfold Below.isr80hHandleCommand at run
  split at run
  · cases run
    exact booked
  · cases found : oracle.below.isr80hCommands caller command with
    | none =>
      rw [found] at run
      cases run
    | some commandFunc =>
      rw [found] at run
      unfold Below.isr80hCommands at found
      split at found <;> cases found
      · refine Preserves.bind (preserves_read _) (fun current => ?_) _ _ _ booked run
        refine Preserves.bind (booked_free.taskGetStackItem _ _) (fun v2 => ?_)
        exact Preserves.bind (booked_free.taskGetStackItem _ _) (fun _ => Preserves.pure _)
      · exact isr80hCommand1Print_booked sound booked run
      · exact Preserves.bind booked_keyboardPop (fun _ => Preserves.pure _) _ _ _ booked run
      · exact isr80hCommand3Putchar_booked sound booked run
      · refine Preserves.bind (preserves_read _) (fun current => ?_) _ _ _ booked run
        refine Preserves.bind (booked_free.taskGetStackItem _ _) (fun size => ?_)
        refine Preserves.bind booked_taskCurrentProcess (fun process => ?_)
        exact Preserves.bind (booked_processMalloc _) (fun _ => Preserves.pure _)
      · refine Preserves.bind (preserves_read _) (fun current => ?_) _ _ _ booked run
        refine Preserves.bind (booked_free.taskGetStackItem _ _) (fun ptr => ?_)
        refine Preserves.bind booked_taskCurrentProcess (fun process => ?_)
        exact Preserves.bind booked_processFree (fun _ => Preserves.pure _)
      · exact isr80hCommand6ProcessLoadStart_booked sound booked run
      · exact isr80hCommand7InvokeSystemCommand_booked sound booked run
      · exact booked_isr80hCommand8 _ _ _ booked run
      · exact booked_exit _ _ _ booked run

theorem enter_booked {work : SystemProg CommandEnd} (sound : ShellsSound before) (booked : before.Booked)
    (worked : ∀ start last ended, ShellsSound start → start.Booked → work start = (.ok ended, last) → last.Booked)
    (run : oracle.below.enter caller frame work before = (.ok ended, after)) : after.Booked := by
  unfold Below.enter at run
  obtain ⟨_, paged, page, steps⟩ := bind_eq_ok run
  obtain ⟨_, saved, save, steps⟩ := bind_eq_ok steps
  obtain ⟨ended, done, work, steps⟩ := bind_eq_ok steps
  have quiet := quiet_taskCurrentSaveState _ _ _ _ (quiet_free.kernelPage _ _ _ (System.Quiet.refl _) page) save
  have held := worked _ _ _ (quiet.steady sound).sound (quiet.booked booked) work
  cases ended with
  | taskReturn registers =>
    cases steps
    exact held
  | result value => exact Preserves.bind booked_taskPage (fun _ => Preserves.pure _) _ _ _ held steps

theorem booked_classicKeyboard {key : Option Byte} :
    Preserves System.Booked (oracle.below.classicKeyboardInterruptHandler caller key) := by
  unfold Below.classicKeyboardInterruptHandler
  apply Preserves.bind booked_free.kernelPage
  intro _
  cases key with
  | none => exact Preserves.pure _
  | some c =>
    dsimp only
    refine Preserves.ite (Preserves.bind booked_shellSwitchToNext (fun _ => Preserves.pure _)) ?_
    apply Preserves.bind (Preserves.ite (booked_keyboardPush _) (Preserves.pure _))
    intro _
    exact Preserves.bind booked_taskPage (fun _ => Preserves.pure _)

theorem interruptHandler_booked {c : Int} {key : Option Byte} {interrupt : Nat} (sound : ShellsSound before)
    (booked : before.Booked)
    (run : oracle.below.interruptHandler caller c key interrupt frame before = (.ok ended, after)) :
    after.Booked := by
  unfold Below.interruptHandler at run
  cases found : oracle.below.interruptCallbacks caller c key interrupt with
  | some callback =>
    rw [found] at run
    apply enter_booked sound booked _ run
    intro start last ended _ held worked
    unfold Below.interruptCallbacks at found
    split at found
    · cases found
      exact booked_exit _ _ _ held worked
    · split at found
      · cases found
        exact Preserves.ite (Preserves.pure _) booked_taskNext _ _ _ held worked
      · split at found
        · cases found
          exact booked_classicKeyboard _ _ _ held worked
        · cases found
  | none =>
    rw [found] at run
    apply Preserves.bind booked_free.kernelPage _ _ _ _ booked run
    exact fun _ => Preserves.bind booked_taskPage (fun _ => Preserves.pure _)

theorem booked_shellVideoBuf (shell : Addr) : Preserves System.Booked (oracle.below.shellVideoBuf shell) := by
  intro before _ after booked run
  unfold Below.shellVideoBuf at run
  obtain ⟨videoBuf, allocated, alloc, rest⟩ := bind_eq_ok run
  rw [below_screen_bind] at rest
  cases rest
  rcases below_kzalloc_ok (by decide) alloc with ⟨_, rfl⟩ | ⟨nonnull, _, rfl⟩
  · exact (booked.setScreen _).setScreen _
  · exact ((booked.mark nonnull (by simp)).setScreen _).setScreen _

theorem booked_shellTerminal (shell : Addr) : Preserves System.Booked (oracle.below.shellTerminal shell) := by
  intro before _ after booked run
  unfold Below.shellTerminal at run
  obtain ⟨terminal, allocated, alloc, rest⟩ := bind_eq_ok run
  rcases below_kzalloc_ok (by decide) alloc with ⟨null, _⟩ | ⟨nonnull, _, rfl⟩
  · rw [if_pos null] at rest
    cases rest
  · rw [if_neg nonnull, below_screen_bind] at rest
    cases rest
    exact ((booked.mark nonnull (by simp)).setScreen _).setScreen _

theorem shellNew_booked {id : Int} {result : Int × Addr} (consistent : Consistent ∅ before) (booked : before.Booked)
    (run : oracle.below.shellNew id before = (.ok result, after)) : after.Booked := by
  unfold Below.shellNew at run
  rw [below_read_bind] at run
  split at run
  · cases run
    exact booked
  obtain ⟨shell, marked, allocated, rest⟩ := bind_eq_ok run
  rcases below_kzalloc_ok (by decide) allocated with ⟨null, _⟩ | ⟨nonnull, fresh, rfl⟩
  · rw [if_pos null] at rest
    cases rest
  rw [if_neg nonnull, below_screen_bind] at rest
  have begun := ShellBuild.begin consistent nonnull fresh id
  have marked : (before.mark shell .shell).Booked := booked.mark nonnull (by simp)
  obtain ⟨_, buffered, giving, rest⟩ := bind_eq_ok rest
  have held := booked_shellVideoBuf _ _ _ _ (marked.setScreen _) giving
  obtain ⟨_, videoBuf, withBuffer⟩ := begun.videoBuf giving
  obtain ⟨_, furnished, giving, rest⟩ := bind_eq_ok rest
  have ready := booked_shellTerminal _ _ _ _ held giving
  obtain ⟨_, terminal, _, furnish⟩ := withBuffer.giveTerminal giving
  obtain ⟨⟨res, process⟩, switched, loading, rest⟩ := bind_eq_ok rest
  have loaded := processLoadSwitch_booked furnish.consistent ready loading
  dsimp only at rest
  split at rest
  · cases rest
    exact loaded
  rw [below_update_bind, below_screen_bind] at rest
  have given : (switched.setKernel (switched.kernel.setProcess process ({ · with shell := shell }))).Booked :=
    loaded.setProcess process (fun _ => ⟨rfl, rfl, rfl, rfl, rfl⟩) (fun _ => rfl)
  obtain ⟨_, injected, injecting, rest⟩ := bind_eq_ok rest
  have served := booked_processInjectArguments _ _ _ _ (given.setScreen _) injecting
  obtain ⟨_, blanked, initializing, rest⟩ := bind_eq_ok rest
  have drawn : blanked.Booked := by
    rw [(shellInitialize_below_ok initializing).2]
    exact served.setScreen _
  rw [below_screen_bind] at rest
  exact Preserves.bind (booked_shellSwitch id) (fun _ => Preserves.pure _) _ _ _ (drawn.setScreen _) rest

end Commands

/-- The given blocks are free afterwards, and the others are as they were. -/
structure System.GivesBack (given : Set Addr) (before after : System) : Prop where
  gone : ∀ ptr ∈ given, after.blocks ptr = none
  kept : ∀ ptr ∉ given, after.blocks ptr = before.blocks ptr

section GivesBack
variable {before middle after : System} {given more : Set Addr} {ptr : Addr}

theorem System.GivesBack.release (blocks : after.blocks = (before.release ptr).blocks) :
    before.GivesBack {ptr} after where
  gone := by
    rintro _ rfl
    rw [blocks, System.release_blocks, if_pos rfl]
  kept := by
    intro other different
    rw [Set.mem_singleton_iff] at different
    rw [blocks, System.release_blocks, if_neg different]

theorem System.GivesBack.trans (first : before.GivesBack given middle) (second : middle.GivesBack more after) :
    before.GivesBack (given ∪ more) after where
  gone := by
    intro ptr member
    by_cases last : ptr ∈ more
    · exact second.gone ptr last
    · rw [second.kept ptr last]
      exact first.gone ptr (member.resolve_right last)
  kept := by
    intro ptr outside
    rw [Set.mem_union, not_or] at outside
    rw [second.kept ptr outside.2, first.kept ptr outside.1]

end GivesBack

section Terminate
variable {oracle : Oracle} {before middle after system : System} {process ptr : Addr} {i : Nat} {res : Int}

end Terminate

section Runs
variable {boot last : System} {started : Set Addr}

theorem KernelStep.booked {state last : System × Set Addr} (step : KernelStep state last)
    (sound : ShellsSound state.1) (booked : state.1.Booked) : last.1.Booked := by
  cases step with
  | call oracle caller command frame ended live harmless run =>
    exact enter_booked sound booked (fun _ _ _ sound booked run => isr80hHandleCommand_booked sound booked run) run
  | interrupt oracle caller c key interrupt frame ended live run => exact interruptHandler_booked sound booked run
  | make oracle id res shell low high run => exact shellNew_booked sound.consistent booked run

theorem NoProcesses.booked (processes : NoProcesses boot) : boot.Booked where
  null := processes.null
  named := by
    rintro process ⟨nonnull, i, _, here⟩
    exact absurd (here.symm.trans (processes.processes i)) nonnull

end Runs

section Loads
variable {boot last after : System} {started : Set Addr} {oracle : Oracle} {filename : List Byte} {res : Int}
  {process out : Addr}

theorem task_update_iff {before : Addr → Option BlockUse} {ptr task owner : Addr} {use : BlockUse}
    (empty : before ptr = none) (other : use ≠ .owned .task owner) :
    Function.update before ptr (some use) task = some (.owned .task owner) ↔
      before task = some (.owned .task owner) := by
  rw [Function.update_apply]
  split
  next here => simp [here, empty, other]
  next => rfl

theorem ProgramTaken.tasks {before left : Addr → Option BlockUse} (taken : ProgramTaken process before left)
    (task owner : Addr) : left task = some (.owned .task owner) ↔ before task = some (.owned .task owner) := by
  cases taken with
  | binary ptr nonnull empty => exact task_update_iff empty (by simp)
  | elf file memory nonnull empty memoryNonnull memoryEmpty different =>
    rw [task_update_iff _ (by simp), task_update_iff empty (by simp)]
    rw [Function.update_of_ne different, memoryEmpty]

theorem Spilled.tasks {before left : Addr → Option BlockUse} (spills : Spilled before left) (task owner : Addr) :
    left task = some (.owned .task owner) ↔ before task = some (.owned .task owner) := by
  induction spills with
  | done => rfl
  | block ptr _ _ empty ih => rw [task_update_iff empty (by simp), ih]

theorem LeftInUse.tasks {before left : Addr → Option BlockUse} (leaves : LeftInUse process before left)
    (fresh : before process = none) (task owner : Addr) :
    left task = some (.owned .task owner) ↔ before task = some (.owned .task owner) := by
  cases leaves with
  | record spills => rw [spills.tasks, task_update_iff fresh (by simp)]
  | program spills taken => rw [taken.tasks, spills.tasks, task_update_iff fresh (by simp)]
  | stack stack nonnull spills taken empty =>
    rw [task_update_iff empty (by simp), taken.tasks, spills.tasks, task_update_iff fresh (by simp)]

end Loads

end PeachOS
