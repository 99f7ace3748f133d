import PeachOS.ProcessCurrent
import PeachOS.SystemCalls

/-! What the system calls and the interrupts do to the table of processes and to the shells
that the processes belong to. -/

namespace PeachOS
open Program

/-- The blocks, the tables and the running task are those of `base`. -/
structure System.Quiet (base system : System) : Prop where
  blocks : system.blocks = base.blocks
  tables : system.tables = base.tables
  current : system.kernel.currentTask = base.kernel.currentTask

/-- The shells are in order, and the table of processes and what they belong to are as in
`base`. -/
structure System.Steady (base system : System) : Prop where
  sound : ShellsSound system
  processes : system.tables.processes = base.tables.processes
  shell : ∀ process,
    (system.tables.processRecords process).shell = (base.tables.processRecords process).shell

/-- The shells are in order, and a process that comes into the table has a shell that `fits`. -/
structure System.Gains (fits : Addr → Prop) (before after : System) : Prop where
  sound : ShellsSound after
  kept : ∀ process, before.tables.Lists process → after.tables.Lists process →
    (after.tables.processRecords process).shell = (before.tables.processRecords process).shell
  new : ∀ process, after.tables.Lists process → ¬before.tables.Lists process →
    fits (after.tables.processRecords process).shell

/-- A `malloc` that takes a block, and arguments whose array takes one. -/
structure Caller.Asks (caller : Caller) (command : Int) : Prop where
  malloc : command = 4 → Roundable (caller.stackItem 0)
  invoke : command = 7 → 4 * (caller.arguments (caller.physical (caller.stackItem 0))).length ≤ 0xFFFFF000

/-- The bytes of the kernel's own at a block; a program may write its data, stack and image. -/
def BlockUse.extent : BlockUse → Nat
  | .owned .data _ | .owned .stack _ | .owned .image _ => 0
  | .process => sizeofProcess.toNat
  | _ => heapBlockSize

/-- The eight bytes at an address are on the heap, and none of them is the kernel's own. -/
def System.Storable (system : System) (ptr : Addr) : Prop :=
  heapAddress.toNat ≤ ptr.toNat ∧ ptr.toNat + 8 ≤ 2 ^ 32 ∧
    ∀ block use, system.blocks block = some use → ∀ byte < 8,
      ptr.toNat + byte < block.toNat ∨ block.toNat + use.extent ≤ ptr.toNat + byte

/-- A call whose whole effect the kernel's records and blocks can tell. System call 8 stores
through a pointer that nothing checks, and here its stores reach bytes only. -/
structure System.Harmless (system : System) (caller : Caller) (command : Int) : Prop
    extends caller.Asks command where
  store : command = 8 → system.Storable (caller.physical (caller.stackItem 0))

section Relations
variable {fits : Addr → Prop} {base system before middle after : System}

theorem System.Quiet.refl (system : System) : system.Quiet system := ⟨rfl, rfl, rfl⟩

theorem System.Quiet.trans (first : before.Quiet middle) (second : middle.Quiet after) :
    before.Quiet after :=
  ⟨second.blocks.trans first.blocks, second.tables.trans first.tables, second.current.trans first.current⟩

theorem ShellsSound.offScreen (sound : ShellsSound before) (consistent : Consistent ∅ after)
    (blocks : ∀ ptr use, before.blocks ptr = some use → (∀ part process, use ≠ .owned part process) →
      after.blocks ptr = some use)
    (screen : after.tables.screen = before.tables.screen)
    (shell : ∀ process, (after.tables.processRecords process).shell =
      (before.tables.processRecords process).shell ∨ (after.tables.processRecords process).shell = 0) :
    ShellsSound after := by
  have same : after.screen = before.screen := screen
  refine ⟨consistent, ?_, ?_, ?_⟩
  · intro id low high taken
    rw [same] at taken ⊢
    have entry := sound.entries id low high taken
    refine ⟨blocks _ _ entry.own (by simp), entry.next, ?_, ?_, ?_⟩
    · rw [same]
      exact entry.number
    · rw [same]
      exact blocks _ _ entry.videoMem (by simp)
    · rw [same]
      exact blocks _ _ entry.terminal (by simp)
  · intro process
    rw [same]
    rcases shell process with kept | null
    · rw [kept]
      exact sound.voices process
    · exact Or.inl null
  · rw [same]
    exact sound.foreground

theorem System.Steady.congr (sound : ShellsSound before) (blocks : after.blocks = before.blocks)
    (tables : after.tables = before.tables) : before.Steady after := by
  refine ⟨?_, ?_, ?_⟩
  · apply sound.offScreen (sound.consistent.congr blocks tables)
    · intro ptr use here _
      rw [blocks, here]
    · rw [tables]
    · intro process
      rw [tables]
      exact Or.inl rfl
  · rw [tables]
  · intro process
    rw [tables]

theorem System.Quiet.steady (quiet : before.Quiet after) (sound : ShellsSound before) :
    before.Steady after := System.Steady.congr sound quiet.blocks quiet.tables

theorem System.Steady.refl (sound : ShellsSound system) : system.Steady system := ⟨sound, rfl, fun _ => rfl⟩

theorem System.Steady.trans (first : before.Steady middle) (second : middle.Steady after) :
    before.Steady after :=
  ⟨second.sound, second.processes.trans first.processes,
    fun process => (second.shell process).trans (first.shell process)⟩

theorem System.Steady.lists (steady : before.Steady after) (process : Addr) :
    after.tables.Lists process ↔ before.tables.Lists process := by
  unfold Tables.Lists
  rw [steady.processes]

theorem System.Steady.gains (steady : before.Steady after) : before.Gains fits after where
  sound := steady.sound
  kept := fun process _ _ => steady.shell process
  new := fun process listed unlisted => absurd ((steady.lists process).mp listed) unlisted

theorem System.Steady.gain (steady : before.Steady middle) (gains : middle.Gains fits after) :
    before.Gains fits after where
  sound := gains.sound
  kept := fun process old new =>
    (gains.kept process ((steady.lists process).mpr old) new).trans (steady.shell process)
  new := fun process new old => gains.new process new (fun listed => old ((steady.lists process).mp listed))

theorem System.Gains.steady (gains : before.Gains fits middle) (steady : middle.Steady after) :
    before.Gains fits after where
  sound := steady.sound
  kept := fun process old new =>
    (steady.shell process).trans (gains.kept process old ((steady.lists process).mp new))
  new := by
    intro process new old
    rw [steady.shell]
    exact gains.new process ((steady.lists process).mp new) old

end Relations

/-- What says nothing of the bytes of memory, nor of the directory that is loaded. -/
def BytesFree (held : System → Prop) : Prop :=
  ∀ (system : System) (bytes : ByteMemory.Bytes) (pageDirectory : Addr), held system → held (system.setKernel
    { system.kernel with memory := { system.kernel.memory with bytes := bytes }, pageDirectory := pageDirectory })

section BytesFree
variable {α : Type} {oracle : Oracle} {caller : Caller} {held : System → Prop}

theorem preserves_read (part : Kernel → α) : Preserves held (oracle.below.kernel (read part)) := by
  intro system result after keeps run
  obtain ⟨kernel, called, rfl⟩ := below_kernel_ok run
  cases called
  exact keeps

theorem preserves_fault : Preserves held (oracle.below.kernel (fault : KernelProg α)) := by
  intro system result after keeps run
  obtain ⟨kernel, called, rfl⟩ := below_kernel_ok run
  cases called

theorem BytesFree.onBytes (free : BytesFree held) (call : ByteMemory.Bytes → Int × ByteMemory.Bytes) :
    Preserves held (oracle.below.kernel (Kernel.onBytes call)) := by
  intro system result after keeps run
  obtain ⟨kernel, called, rfl⟩ := below_kernel_ok run
  cases called
  exact free system _ system.kernel.pageDirectory keeps

theorem BytesFree.switched (free : BytesFree held) {system : System} {chunk : Addr} {kernel : Kernel}
    (called : Kernel.pagingSwitch chunk system.kernel = (.ok (), kernel)) (keeps : held system) :
    held (system.setKernel kernel) := by
  unfold Kernel.pagingSwitch at called
  split at called
  · cases called
  · cases called
    exact free system system.kernel.memory.bytes _ keeps

theorem BytesFree.pagingSwitch (free : BytesFree held) (chunk : Addr) :
    Preserves held (oracle.below.kernel (Kernel.pagingSwitch chunk)) := by
  intro system result after keeps run
  obtain ⟨kernel, called, rfl⟩ := below_kernel_ok run
  exact free.switched called keeps

theorem BytesFree.kernelPage (free : BytesFree held) : Preserves held (oracle.below.kernelPage caller) :=
  free.pagingSwitch _

theorem BytesFree.taskGetStackItem (free : BytesFree held) (task : Addr) (index : Nat) :
    Preserves held (oracle.below.taskGetStackItem caller task index) := by
  unfold Below.taskGetStackItem
  refine Preserves.ite preserves_fault ?_
  · refine Preserves.bind ?_ ?_
    · intro system result after keeps run
      obtain ⟨kernel, called, rfl⟩ := below_kernel_ok run
      unfold taskPageTask at called
      rw [read_bind] at called
      exact free.switched called keeps
    · intro _
      refine Preserves.bind free.kernelPage ?_
      intro _
      exact Preserves.pure _

theorem BytesFree.copyThrough (free : BytesFree held) (task tmp virtual : Addr) (max : Nat) :
    Preserves held (oracle.below.copyThrough caller task tmp virtual max) := by
  unfold Below.copyThrough
  refine Preserves.ite preserves_fault ?_
  · refine Preserves.bind (preserves_read _) ?_
    intro pageDirectory
    refine Preserves.ite ?_ ?_
    · exact preserves_fault
    · refine Preserves.bind (preserves_read _) ?_
      intro bytes
      refine Preserves.bind (free.onBytes _) ?_
      intro _
      refine Preserves.bind (free.pagingSwitch _) ?_
      intro _
      refine Preserves.bind ?_ ?_
      · intro system result after keeps run
        cases run
        exact free system _ system.kernel.pageDirectory keeps
      · intro _
        refine Preserves.bind free.kernelPage ?_
        intro _
        exact free.onBytes _

end BytesFree

/-- What a kernel call that is quiet keeps. -/
def Kernel.Quiet (base kernel : Kernel) : Prop :=
  kernel.tables = base.tables ∧ kernel.currentTask = base.currentTask

section Quiet
variable {α : Type} {oracle : Oracle} {caller : Caller} {base : System}

theorem preserves_kernel {call : KernelProg α} (quiet : Preserves base.kernel.Quiet call) :
    Preserves base.Quiet (oracle.below.kernel call) := by
  intro system result after held run
  obtain ⟨kernel, called, rfl⟩ := below_kernel_ok run
  obtain ⟨tables, current⟩ := quiet system.kernel result kernel ⟨held.tables, held.current⟩ called
  exact ⟨held.blocks, tables, current⟩

theorem quiet_free : BytesFree base.Quiet := fun _ _ _ quiet => ⟨quiet.blocks, quiet.tables, quiet.current⟩

theorem quiet_taskCurrentProcess : Preserves base.Quiet (oracle.below.kernel taskCurrentProcess) := by
  apply preserves_kernel
  unfold taskCurrentProcess
  refine Preserves.bind (Preserves.read _) ?_
  intro task
  apply Preserves.ite
  · exact Preserves.stop _
  · exact Preserves.read _

theorem quiet_taskCurrentSaveState (frame : InterruptFrame) :
    Preserves base.Quiet (oracle.below.kernel (taskCurrentSaveState frame)) := by
  apply preserves_kernel
  unfold taskCurrentSaveState
  refine Preserves.bind (Preserves.read _) ?_
  intro task
  apply Preserves.ite
  · exact Preserves.stop _
  · apply Preserves.update
    rintro kernel ⟨tables, current⟩
    exact ⟨(Kernel.tables_setTask_links rfl rfl).trans tables, current⟩

theorem quiet_copyStringFromTask (task virtual : Addr) (max : Nat) :
    Preserves base.Quiet (oracle.below.copyStringFromTask caller task virtual max) := by
  intro system result after held run
  unfold Below.copyStringFromTask at run
  split at run
  · cases run
    exact held
  · obtain ⟨tmp, taken, allocated, steps⟩ := bind_eq_ok run
    rcases below_kzalloc_served allocated with ⟨null, rfl⟩ | ⟨nonnull, empty, rfl⟩
    · rw [if_pos null] at steps
      cases steps
      exact held
    · rw [if_neg nonnull] at steps
      obtain ⟨res, copied, copying, rest⟩ := bind_eq_ok steps
      have quiet := quiet_free.copyThrough _ _ _ _ _ _ _ (System.Quiet.refl _) copying
      have back : (copied.release tmp).blocks = system.blocks := by
        have given := congrArg System.blocks (System.serve_release empty .kernel (BitVec.ofNat 32 max))
        unfold System.release at given ⊢
        rwa [quiet.blocks]
      have returned : system.Quiet (copied.release tmp) := ⟨back, quiet.tables, quiet.current⟩
      rw [below_kfree_bind] at rest
      split at rest
      · cases rest
        exact held.trans returned
      · cases rest
        exact held.trans returned

end Quiet

section Live
variable {oracle : Oracle} {before after : System} {process ptr : Addr} {size : Word}

theorem Consistent.record (consistent : Consistent ∅ before) (listed : before.tables.Lists process) :
    before.blocks process = some .process := by
  obtain ⟨nonnull, i, bound, here⟩ := listed
  have loaded := consistent.entries i bound (here ▸ nonnull) (Set.notMem_empty _)
  rw [here] at loaded
  exact loaded.record

theorem Consistent.taskProcess {task : Addr} (consistent : Consistent ∅ before)
    (live : task ∈ before.liveTasks) :
    task ≠ 0 ∧ before.tables.Lists (before.kernel.tasks task).process := by
  obtain ⟨process, own⟩ := live
  obtain ⟨i, bound, here, points⟩ := (consistent.tasks task process own).resolve_left id
  have record := consistent.owners task .task process own
  have nonnull : process ≠ 0 := by
    rintro rfl
    rw [consistent.null] at record
    cases record
  have loaded := consistent.entries i bound (here ▸ nonnull) (Set.notMem_empty _)
  have back := loaded.back
  rw [here, points] at back
  refine ⟨?_, ?_⟩
  · rintro rfl
    rw [consistent.null] at own
    cases own
  · rw [show (before.kernel.tasks task).process = process from back]
    exact ⟨nonnull, i, bound, here⟩

theorem Served.steady (served : Served process before after) (sound : ShellsSound before) :
    before.Steady after where
  sound := sound.offScreen served.consistent (fun _ _ here _ => served.grows _ _ here) served.screen
    (fun other => Or.inl (served.shell other))
  processes := served.processes
  shell := served.shell

theorem processMalloc_steady (sound : ShellsSound before) (listed : before.tables.Lists process)
    (roundable : Roundable size)
    (run : oracle.below.processMalloc process size before = (.ok ptr, after)) : before.Steady after :=
  (processMalloc_served sound.consistent (sound.consistent.record listed) roundable run).steady sound

theorem processFree_steady (sound : ShellsSound before) (listed : before.tables.Lists process)
    (run : oracle.below.processFree process ptr before = (.ok (), after)) : before.Steady after := by
  obtain ⟨nonnull, i, bound, here⟩ := listed
  have consistent := sound.consistent.processFree bound here nonnull run
  rcases processFree_below_ok run with rfl | ⟨j, within, found, blocks, tables⟩
  · exact System.Steady.refl sound
  · have owns := sound.consistent.ownsData bound here nonnull within found
    have shell : ∀ other, (after.tables.processRecords other).shell =
        (before.tables.processRecords other).shell := by
      intro other
      rw [tables]
      exact Tables.setRecord_part Process.shell _ rfl other
    refine ⟨?_, ?_, shell⟩
    · apply sound.offScreen consistent
      · exact fun ptr use here foreign => owns.spares blocks ptr use here (fun part => foreign part process)
      · rw [tables]
        rfl
      · exact fun other => Or.inl (shell other)
    · rw [tables]
      rfl

theorem System.Steady.setProcess {change : Process → Process} (sound : ShellsSound before)
    (holdings : ∀ record, (change record).SameHoldings record)
    (allocations : ∀ record, (change record).allocations = record.allocations)
    (shell : ∀ record, (change record).shell = record.shell) :
    before.Steady (before.setKernel (before.kernel.setProcess process change)) :=
  have served : Served process before (before.setKernel (before.kernel.setProcess process change)) :=
    Served.setRecord sound.consistent holdings allocations shell
  served.steady sound

theorem setKeyboard_steady (sound : ShellsSound before) (keyboard : KeyboardBuffer) :
    before.Steady (before.setKernel (before.kernel.setKeyboard process keyboard)) :=
  System.Steady.setProcess sound (fun _ => ⟨rfl, rfl, rfl, rfl, rfl⟩) (fun _ => rfl) (fun _ => rfl)

theorem keyboardPop_steady {c : Byte} (sound : ShellsSound before)
    (run : oracle.below.kernel keyboardPop before = (.ok c, after)) : before.Steady after := by
  obtain ⟨kernel, popped, rfl⟩ := below_kernel_ok run
  by_cases idle : before.kernel.currentTask = 0
  · rw [keyboardPop_idle idle] at popped
    cases popped
    exact System.Steady.refl sound
  · by_cases null : (before.kernel.tasks before.kernel.currentTask).process = 0
    · rw [keyboardPop_null idle null] at popped
      cases popped
    · rw [keyboardPop_run idle rfl null] at popped
      cases popped
      split
      · exact System.Steady.refl sound
      · exact setKeyboard_steady sound _

theorem keyboardPush_steady {c : Byte} (sound : ShellsSound before)
    (run : oracle.below.kernel (keyboardPush c) before = (.ok (), after)) : before.Steady after := by
  obtain ⟨kernel, pushed, rfl⟩ := below_kernel_ok run
  by_cases ignored : before.kernel.currentProcess = 0 ∨ c = 0
  · rw [keyboardPush_ignored ignored] at pushed
    cases pushed
    exact System.Steady.refl sound
  · rw [not_or] at ignored
    rw [keyboardPush_run ignored.1 ignored.2] at pushed
    cases pushed
    exact setKeyboard_steady sound _

end Live

def Kernel.SameRunning (base kernel : Kernel) : Prop :=
  kernel.currentTask = base.currentTask ∧ kernel.tasks = base.tasks ∧
    kernel.processRecords = base.processRecords

/-- The program returns only when the running task belongs to a shell. -/
def NeedsShell (base : Kernel) (program : KernelProg Unit) : Prop :=
  ∀ kernel after, base.SameRunning kernel → program kernel = (.ok (), after) →
    base.InShell (base.processRecords base.owner).shell

section Terminal
variable {base : Kernel} {oracle : Oracle} {before after : System} {c colour : Byte}

theorem NeedsShell.bind {α : Type} {program : KernelProg α} {next : α → KernelProg Unit}
    (first : Preserves base.SameRunning program) (rest : ∀ result, NeedsShell base (next result)) :
    NeedsShell base (program >>= next) := by
  intro kernel after same run
  obtain ⟨result, middle, firstRun, restRun⟩ := bind_eq_ok run
  exact rest result middle after (first kernel result middle same firstRun) restRun

theorem sameRunning_updateScreen (change : Screen → Screen) :
    Preserves base.SameRunning (Kernel.updateScreen change) :=
  Preserves.update (fun _ same => same)

theorem sameRunning_getCurrentTaskShell : Preserves base.SameRunning getCurrentTaskShell := by
  unfold getCurrentTaskShell
  refine Preserves.bind (Preserves.read _) ?_
  intro task
  refine Preserves.ite (Preserves.stop _) ?_
  refine Preserves.bind (Preserves.read _) ?_
  intro process
  exact Preserves.ite (Preserves.stop _) (Preserves.read _)

theorem sameRunning_getCurrentTerminal : Preserves base.SameRunning getCurrentTerminal := by
  unfold getCurrentTerminal
  apply Preserves.bind sameRunning_getCurrentTaskShell
  intro shell
  exact Preserves.ite (Preserves.stop _) (Preserves.read _)

theorem needsShell_save : NeedsShell base (getCurrentTerminal >>= terminalSave) := by
  rintro kernel after ⟨current, tasks, records⟩ run
  obtain ⟨terminal, _, found, _⟩ := bind_eq_ok run
  unfold getCurrentTerminal getCurrentTaskShell at found
  obtain ⟨shell, middle, looked, rest⟩ := bind_eq_ok found
  rw [read_bind] at looked
  split at looked
  · cases looked
  next running =>
    rw [read_bind] at looked
    split at looked
    · cases looked
    next owned =>
      cases looked
      split at rest
      · cases rest
      next voiced =>
        rw [tasks, current] at owned
        change ¬(kernel.processRecords (kernel.tasks kernel.currentTask).process).shell = 0 at voiced
        rw [records, tasks, current] at voiced
        rw [current] at running
        exact ⟨running, owned, rfl, voiced⟩

theorem sameRunning_terminalInit : Preserves base.SameRunning terminalInit := by
  unfold terminalInit
  apply Preserves.bind sameRunning_getCurrentTerminal
  intro terminal
  exact Preserves.ite (Preserves.stop _) (sameRunning_updateScreen _)

theorem sameRunning_save : Preserves base.SameRunning (getCurrentTerminal >>= terminalSave) := by
  apply Preserves.bind sameRunning_getCurrentTerminal
  intro terminal
  exact Preserves.ite (Preserves.stop _) (sameRunning_updateScreen _)

theorem sameRunning_terminalPutchar (x y : Nat) :
    Preserves base.SameRunning (terminalPutchar x y c colour) := by
  unfold terminalPutchar
  apply Preserves.bind sameRunning_getCurrentTaskShell
  intro shell
  refine Preserves.ite (Preserves.stop _) ?_
  refine Preserves.bind (Preserves.read _) ?_
  intro record
  refine Preserves.ite (Preserves.stop _) ?_
  apply Preserves.bind (sameRunning_updateScreen _)
  intro _
  refine Preserves.bind (Preserves.read _) ?_
  intro current
  refine Preserves.ite (Preserves.stop _) ?_
  refine Preserves.bind (Preserves.read _) ?_
  intro id
  exact Preserves.ite (sameRunning_updateScreen _) (Preserves.pure _)

/-- What holds of the end of every branch, and of what comes before such an end, holds of
`terminal_writechar`. -/
theorem terminalWritecharWith_rule (holds : KernelProg Unit → Prop)
    (step : ∀ {α : Type} (program : KernelProg α) (next : α → KernelProg Unit),
      Preserves base.SameRunning program → (∀ result, holds (next result)) → holds (program >>= next))
    (save : holds (getCurrentTerminal >>= terminalSave)) {backspace : KernelProg Unit}
    (kept : Preserves base.SameRunning backspace) : holds (terminalWritecharWith backspace c colour) := by
  unfold terminalWritecharWith
  apply step _ _ (Preserves.read _)
  intro flag
  apply step _ _ (Preserves.ite (Preserves.pure _) sameRunning_terminalInit)
  intro _
  split
  · exact step _ _ (sameRunning_updateScreen _) (fun _ => save)
  · split
    · exact step _ _ kept (fun _ => save)
    · apply step _ _ (Preserves.read _)
      intro screen
      apply step _ _ (sameRunning_terminalPutchar _ _)
      intro _
      exact step _ _ (sameRunning_updateScreen _) (fun _ => save)

theorem sameRunning_writechar {backspace : KernelProg Unit} (kept : Preserves base.SameRunning backspace) :
    Preserves base.SameRunning (terminalWritecharWith backspace c colour) :=
  terminalWritecharWith_rule _ (fun _ _ => Preserves.bind) sameRunning_save kept

theorem sameRunning_backspace {writechar : Byte → Byte → KernelProg Unit}
    (kept : ∀ c colour, Preserves base.SameRunning (writechar c colour)) :
    Preserves base.SameRunning (terminalBackspace writechar) := by
  unfold terminalBackspace
  apply Preserves.bind (sameRunning_updateScreen _)
  intro _
  refine Preserves.bind (Preserves.read _) ?_
  intro screen
  refine Preserves.ite (Preserves.pure _) ?_
  apply Preserves.bind (sameRunning_updateScreen _)
  intro _
  apply Preserves.bind (sameRunning_updateScreen _)
  intro _
  apply Preserves.bind (kept _ _)
  intro _
  apply Preserves.bind (sameRunning_updateScreen _)
  intro _
  exact sameRunning_updateScreen _

theorem needsShell_terminalWritechar : NeedsShell base (terminalWritechar c colour) :=
  terminalWritecharWith_rule _ (fun _ _ => NeedsShell.bind) needsShell_save
    (sameRunning_backspace (fun _ _ => sameRunning_writechar (Preserves.stop _)))

theorem terminalWritechar_steady (sound : ShellsSound before)
    (run : oracle.below.kernel (terminalWritechar c colour) before = (.ok (), after)) :
    before.Steady after := by
  obtain ⟨kernel, written, same⟩ := below_kernel_ok run
  have speaker := needsShell_terminalWritechar before.kernel kernel ⟨rfl, rfl, rfl⟩ written
  have kept := (sound.write speaker run).sound
  rw [(sound.writes speaker).2.run] at written
  cases written
  rw [same] at kept ⊢
  exact ⟨kept, rfl, fun _ => rfl⟩

theorem print_steady (text : List Byte) (sound : ShellsSound before)
    (run : oracle.below.kernel (print text) before = (.ok (), after)) : before.Steady after := by
  induction text generalizing before with
  | nil =>
    cases run
    exact System.Steady.refl sound
  | cons c rest ih =>
    obtain ⟨kernel, printed, rfl⟩ := below_kernel_ok run
    obtain ⟨_, middle, written, later⟩ := bind_eq_ok printed
    have step : oracle.below.kernel (terminalWritechar c peachosColor) before =
        (.ok (), before.setKernel middle) := below_kernel_run written
    have first := terminalWritechar_steady sound step
    exact first.trans (ih first.sound (below_kernel_run later))

end Terminal

section Tasks
variable {oracle : Oracle} {before after : System} {fits : Addr → Prop} {process : Addr} {i : Nat}
  {ended : CommandEnd}

theorem taskSwitch_steady {task : Addr} (sound : ShellsSound before)
    (run : oracle.below.kernel (taskSwitch task) before = (.ok (), after)) : before.Steady after := by
  obtain ⟨kernel, switched, rfl⟩ := below_kernel_ok run
  exact System.Steady.congr sound rfl (taskSwitch_tables switched)

theorem taskPage_steady (sound : ShellsSound before) (run : oracle.below.taskPage before = (.ok (), after)) :
    before.Steady after := by
  unfold Below.taskPage at run
  rw [below_read_bind] at run
  exact taskSwitch_steady sound run

theorem taskGetNext_same {kernel last : Kernel} {next : Addr} (run : taskGetNext kernel = (.ok next, last)) :
    last = kernel := by
  unfold taskGetNext at run
  rw [read_bind] at run
  split at run
  · cases run
  · rw [read_bind] at run
    split at run <;> cases run <;> rfl

theorem taskNext_steady (sound : ShellsSound before) (run : oracle.below.taskNext before = (.ok ended, after)) :
    before.Steady after := by
  unfold Below.taskNext at run
  obtain ⟨next, middle, found, steps⟩ := bind_eq_ok run
  obtain ⟨kernel, looked, rfl⟩ := below_kernel_ok found
  rw [taskGetNext_same looked] at steps
  split at steps
  · cases steps
  · obtain ⟨_, switched, switch, rest⟩ := bind_eq_ok steps
    cases rest
    exact taskSwitch_steady sound switch

theorem startTask_steady (sound : ShellsSound before)
    (run : oracle.below.startTask process before = (.ok ended, after)) : before.Steady after := by
  unfold Below.startTask at run
  split at run
  · cases run
  · rw [below_read_bind] at run
    obtain ⟨_, switched, switch, rest⟩ := bind_eq_ok run
    cases rest
    exact taskSwitch_steady sound switch

theorem Terminated.gains (terminated : Terminated before i process after) (sound : ShellsSound before) :
    before.Gains fits after := by
  have shell : ∀ other, (after.tables.processRecords other).shell =
      (before.tables.processRecords other).shell := by
    intro other
    by_cases same : other = process
    · rw [same]
      exact terminated.shell
    · exact congrArg Process.shell (terminated.records other same)
  refine ⟨?_, fun other _ _ => shell other, ?_⟩
  · apply sound.offScreen terminated.consistent
    · exact fun ptr use here foreign => terminated.spares ptr use here (fun part => foreign part process)
    · exact terminated.screen
    · exact fun other => Or.inl (shell other)
  · rintro other ⟨nonnull, j, bound, here⟩ unlisted
    refine absurd ⟨nonnull, j, bound, ?_⟩ unlisted
    rw [terminated.processes] at here
    by_cases same : j = i
    · rw [same, Function.update_self] at here
      exact absurd here.symm nonnull
    · rw [Function.update_of_ne same] at here
      exact here

theorem processTerminate_gains {res : Int} (sound : ShellsSound before) (listed : before.tables.Lists process)
    (run : oracle.below.processTerminate process before = (.ok res, after)) : before.Gains fits after := by
  obtain ⟨nonnull, i, bound, here⟩ := listed
  exact (processTerminate_below_ok sound.consistent bound here nonnull run).2.gains sound

theorem shellSwitch_steady {id res : Int} (sound : ShellsSound before) (low : 0 ≤ id) (high : id < maxShells)
    (run : oracle.below.kernel (shellSwitch id) before = (.ok res, after)) : before.Steady after := by
  have kept := (sound.switch low high run).sound
  rcases shellSwitch_below_ok run with ⟨_, _, rfl⟩ | ⟨_, _, _, tables⟩
  · exact System.Steady.refl sound
  · refine ⟨kept, ?_, ?_⟩
    · rw [tables]
    · intro other
      rw [tables]

theorem shellSwitchToNext_steady (sound : ShellsSound before)
    (run : oracle.below.kernel shellSwitchToNext before = (.ok (), after)) : before.Steady after := by
  obtain ⟨running, res, switch⟩ := shellSwitchToNext_below.mp run
  obtain ⟨low, high⟩ := sound.nextShell (sound.foreground.resolve_left (fun none => running none.1)).1
  exact shellSwitch_steady sound low high switch

end Tasks

section Loads
variable {oracle : Oracle} {before after : System} {filename : List Byte} {out shell : Addr} {id res : Int}

theorem Tables.Lists.entered {few many : Tables} {process : Addr} {i : Nat} (listed : many.Lists process)
    (processes : many.processes = Function.update few.processes i out) : process = out ∨ few.Lists process := by
  obtain ⟨nonnull, j, bound, here⟩ := listed
  rw [processes] at here
  by_cases same : j = i
  · rw [same, Function.update_self] at here
    exact Or.inl here.symm
  · rw [Function.update_of_ne same] at here
    exact Or.inr ⟨nonnull, j, bound, here⟩

theorem processLoadSwitch_gains (sound : ShellsSound before)
    (run : oracle.below.processLoadSwitch filename before = (.ok (res, out), after)) :
    before.Gains (· = 0) after ∧ (0 ≤ res → after.tables.Lists out) := by
  obtain ⟨middle, outcome, blocks, tables⟩ := processLoadSwitch_below_ok sound.consistent run
  have effect := outcome.effect sound.consistent
  have shells : ∀ process, (after.tables.processRecords process).shell =
      (middle.tables.processRecords process).shell := by
    intro process
    rw [tables]
  have consistent : Consistent ∅ after := by
    apply effect.consistent.retabled blocks <;> rw [tables]
    exact fun _ => ⟨.of_eq rfl, rfl⟩
  refine ⟨⟨?_, ?_, ?_⟩, ?_⟩
  · apply sound.offScreen consistent
    · intro ptr use here _
      rw [blocks]
      exact effect.grows ptr use here
    · rw [tables]
      exact effect.screen
    · intro process
      rw [shells]
      exact (effect.shell process).imp_right And.right
  · intro process listed _
    rw [shells]
    apply (effect.shell process).resolve_right
    rintro ⟨empty, _⟩
    rw [sound.consistent.record listed] at empty
    cases empty
  · intro process listed unlisted
    rw [shells]
    by_cases proper : 0 ≤ res
    · obtain ⟨_, _, i, _, _, processes⟩ := outcome.entered proper
      have same : process = out := by
        apply (Tables.Lists.entered listed _).resolve_right unlisted
        · exact i
        · rw [tables]
          exact processes
      rw [same]
      exact outcome.mute proper
    · refine absurd ?_ unlisted
      unfold Tables.Lists at listed ⊢
      rw [tables] at listed
      rw [← outcome.refused (by omega)]
      exact listed
  · intro proper
    obtain ⟨nonnull, _, i, bound, _, processes⟩ := outcome.entered proper
    refine ⟨nonnull, i, bound, ?_⟩
    rw [tables]
    exact (congrFun processes i).trans (Function.update_self _ _ _)

theorem shellNew_gains (sound : ShellsSound before) (low : 0 ≤ id) (high : id + 1 < maxShells)
    (run : oracle.below.shellNew id before = (.ok (res, shell), after)) : before.Gains (· ≠ 0) after := by
  have kept := (sound.make low high run).1.sound
  cases shellNew_outcome sound.consistent run with
  | taken used => exact (System.Steady.refl sound).gains
  | failed shell record after building processes current =>
    refine ⟨kept, ?_, ?_⟩
    · intro process listed _
      apply (building.voice process).resolve_right
      rintro ⟨empty, _⟩
      rw [sound.consistent.record listed] at empty
      cases empty
    · intro process listed unlisted
      refine absurd ?_ unlisted
      unfold Tables.Lists at listed ⊢
      rw [← processes]
      exact listed
  | made _ shell record built after i proper empty nonnull building number videoMem terminal process speaker
      bound free processes blocks tables =>
    have shells : ∀ process, (after.tables.processRecords process).shell =
        (built.tables.processRecords process).shell := by
      intro process
      rw [tables]
    refine ⟨kept, ?_, ?_⟩
    · intro process listed _
      rw [shells]
      apply (building.voice process).resolve_right
      rintro ⟨empty, _⟩
      rw [sound.consistent.record listed] at empty
      cases empty
    · intro process listed unlisted
      have same : process = record.process := by
        apply (Tables.Lists.entered listed _).resolve_right unlisted
        · exact i
        · rw [tables]
          exact processes
      rw [shells, same, speaker]
      exact nonnull

end Loads

section Commands
variable {oracle : Oracle} {caller : Caller} {before middle after : System} {ended : CommandEnd}
  {fits : Addr → Prop} {frame : InterruptFrame}

theorem System.Quiet.live (quiet : before.Quiet after)
    (live : before.kernel.currentTask ∈ before.liveTasks) : after.kernel.currentTask ∈ after.liveTasks := by
  obtain ⟨process, own⟩ := live
  refine ⟨process, ?_⟩
  rw [quiet.blocks, quiet.current, own]

theorem taskGetStackItem_quiet {task : Addr} {index : Nat} {item : Word}
    (run : oracle.below.taskGetStackItem caller task index before = (.ok item, after)) : before.Quiet after :=
  quiet_free.taskGetStackItem task index before item after (System.Quiet.refl _) run

theorem taskGetStackItem_value {task : Addr} {index : Nat} {item : Word}
    (run : oracle.below.taskGetStackItem caller task index before = (.ok item, after)) :
    item = caller.stackItem index := by
  unfold Below.taskGetStackItem at run
  split at run
  · obtain ⟨_, faulted, _⟩ := below_kernel_ok run
    cases faulted
  · obtain ⟨_, _, _, run⟩ := bind_eq_ok run
    obtain ⟨_, _, _, run⟩ := bind_eq_ok run
    cases run
    rfl

theorem copyStringFromTask_quiet {task virtual : Addr} {max : Nat} {result : Int × List Byte}
    (run : oracle.below.copyStringFromTask caller task virtual max before = (.ok result, after)) :
    before.Quiet after :=
  quiet_copyStringFromTask task virtual max before result after (System.Quiet.refl _) run

theorem taskCurrentProcess_listed {process : Addr} (sound : ShellsSound before)
    (live : before.kernel.currentTask ∈ before.liveTasks)
    (run : oracle.below.kernel taskCurrentProcess before = (.ok process, after)) :
    after = before ∧ before.tables.Lists process := by
  obtain ⟨kernel, looked, rfl⟩ := below_kernel_ok run
  unfold taskCurrentProcess at looked
  rw [read_bind] at looked
  split at looked
  · cases looked
  · cases looked
    exact ⟨rfl, (sound.consistent.taskProcess live).2⟩

theorem isr80hCommand0Sum_steady (sound : ShellsSound before)
    (run : oracle.below.isr80hCommand0Sum caller before = (.ok ended, after)) : before.Steady after := by
  unfold Below.isr80hCommand0Sum at run
  rw [below_read_bind] at run
  obtain ⟨_, middle, first, steps⟩ := bind_eq_ok run
  obtain ⟨_, last, second, rest⟩ := bind_eq_ok steps
  cases rest
  exact ((taskGetStackItem_quiet first).trans (taskGetStackItem_quiet second)).steady sound

theorem isr80hCommand1Print_steady (sound : ShellsSound before)
    (run : oracle.below.isr80hCommand1Print caller before = (.ok ended, after)) : before.Steady after := by
  unfold Below.isr80hCommand1Print at run
  rw [below_read_bind] at run
  obtain ⟨_, looked, first, steps⟩ := bind_eq_ok run
  obtain ⟨⟨_, buf⟩, copied, second, steps⟩ := bind_eq_ok steps
  obtain ⟨_, printed, print, rest⟩ := bind_eq_ok steps
  cases rest
  have quiet := ((taskGetStackItem_quiet first).trans (copyStringFromTask_quiet second)).steady sound
  exact quiet.trans (print_steady _ quiet.sound print)

theorem isr80hCommand2GetKey_steady (sound : ShellsSound before)
    (run : oracle.below.isr80hCommand2GetKey before = (.ok ended, after)) : before.Steady after := by
  unfold Below.isr80hCommand2GetKey at run
  obtain ⟨_, popped, pop, rest⟩ := bind_eq_ok run
  cases rest
  exact keyboardPop_steady sound pop

theorem isr80hCommand3Putchar_steady (sound : ShellsSound before)
    (run : oracle.below.isr80hCommand3Putchar caller before = (.ok ended, after)) : before.Steady after := by
  unfold Below.isr80hCommand3Putchar at run
  rw [below_read_bind] at run
  obtain ⟨_, looked, first, steps⟩ := bind_eq_ok run
  obtain ⟨_, written, write, rest⟩ := bind_eq_ok steps
  cases rest
  have quiet := (taskGetStackItem_quiet first).steady sound
  exact quiet.trans (terminalWritechar_steady quiet.sound write)

theorem isr80hCommand4Malloc_steady (sound : ShellsSound before)
    (live : before.kernel.currentTask ∈ before.liveTasks) (roundable : Roundable (caller.stackItem 0))
    (run : oracle.below.isr80hCommand4Malloc caller before = (.ok ended, after)) : before.Steady after := by
  unfold Below.isr80hCommand4Malloc at run
  rw [below_read_bind] at run
  obtain ⟨size, looked, first, steps⟩ := bind_eq_ok run
  obtain ⟨process, _, owner, steps⟩ := bind_eq_ok steps
  obtain ⟨_, allocated, malloc, rest⟩ := bind_eq_ok steps
  cases rest
  have quiet := taskGetStackItem_quiet first
  rw [taskGetStackItem_value first] at malloc
  have steady := quiet.steady sound
  obtain ⟨rfl, listed⟩ := taskCurrentProcess_listed steady.sound (quiet.live live) owner
  exact steady.trans (processMalloc_steady steady.sound listed roundable malloc)

theorem isr80hCommand5Free_steady (sound : ShellsSound before)
    (live : before.kernel.currentTask ∈ before.liveTasks)
    (run : oracle.below.isr80hCommand5Free caller before = (.ok ended, after)) : before.Steady after := by
  unfold Below.isr80hCommand5Free at run
  rw [below_read_bind] at run
  obtain ⟨_, looked, first, steps⟩ := bind_eq_ok run
  obtain ⟨process, _, owner, steps⟩ := bind_eq_ok steps
  obtain ⟨_, freed, free, rest⟩ := bind_eq_ok steps
  cases rest
  have quiet := taskGetStackItem_quiet first
  have steady := quiet.steady sound
  obtain ⟨rfl, listed⟩ := taskCurrentProcess_listed steady.sound (quiet.live live) owner
  exact steady.trans (processFree_steady steady.sound listed free)

theorem isr80hCommand6ProcessLoadStart_gains (sound : ShellsSound before)
    (run : oracle.below.isr80hCommand6ProcessLoadStart caller before = (.ok ended, after)) :
    before.Gains (· = 0) after := by
  unfold Below.isr80hCommand6ProcessLoadStart at run
  rw [below_read_bind] at run
  obtain ⟨_, looked, first, steps⟩ := bind_eq_ok run
  obtain ⟨⟨res, filename⟩, copied, second, steps⟩ := bind_eq_ok steps
  have quiet := ((taskGetStackItem_quiet first).trans (copyStringFromTask_quiet second)).steady sound
  dsimp only at steps
  split at steps
  · cases steps
    exact quiet.gains
  · split at steps
    · cases steps
    · obtain ⟨⟨res, process⟩, loaded, load, steps⟩ := bind_eq_ok steps
      have gains := quiet.gain (processLoadSwitch_gains quiet.sound load).1
      dsimp only at steps
      split at steps
      · cases steps
        exact gains
      · exact gains.steady (startTask_steady gains.sound steps)

theorem isr80hCommand7InvokeSystemCommand_gains (sound : ShellsSound before)
    (bounded : 4 * (caller.arguments (caller.physical (caller.stackItem 0))).length ≤ 0xFFFFF000)
    (run : oracle.below.isr80hCommand7InvokeSystemCommand caller before = (.ok ended, after)) :
    before.Gains (· = 0) after := by
  unfold Below.isr80hCommand7InvokeSystemCommand at run
  rw [below_read_bind] at run
  obtain ⟨item, looked, first, steps⟩ := bind_eq_ok run
  have quiet := (taskGetStackItem_quiet first).steady sound
  rw [taskGetStackItem_value first] at steps
  generalize caller.arguments (caller.physical (caller.stackItem 0)) = arguments at steps bounded
  cases arguments with
  | nil =>
    cases steps
    exact quiet.gains
  | cons programName others =>
    dsimp only at steps
    split at steps
    · cases steps
      exact quiet.gains
    · split at steps
      · cases steps
      · obtain ⟨⟨res, process⟩, loaded, load, steps⟩ := bind_eq_ok steps
        obtain ⟨gains, listed⟩ := processLoadSwitch_gains quiet.sound load
        dsimp only at steps
        split at steps
        · cases steps
          exact quiet.gain gains
        next proper =>
          obtain ⟨_, injected, inject, steps⟩ := bind_eq_ok steps
          have record := gains.sound.consistent.record (listed (by omega))
          have served := (processInjectArguments_served _ gains.sound.consistent record bounded inject).steady gains.sound
          have all := quiet.gain (gains.steady served)
          split at steps
          · cases steps
            exact all
          · exact all.steady (startTask_steady all.sound steps)

theorem isr80hCommand8GetProgramArguments_steady (sound : ShellsSound before)
    (run : oracle.below.isr80hCommand8GetProgramArguments caller before = (.ok ended, after)) :
    before.Steady after := by
  unfold Below.isr80hCommand8GetProgramArguments at run
  obtain ⟨process, owned, owner, steps⟩ := bind_eq_ok run
  rw [below_read_bind] at steps
  obtain ⟨_, looked, first, steps⟩ := bind_eq_ok steps
  have quiet := (quiet_taskCurrentProcess _ _ _ (System.Quiet.refl _) owner).trans (taskGetStackItem_quiet first)
  dsimp only at steps
  split at steps
  · cases steps
  · rw [below_read_bind, below_update_bind] at steps
    cases steps
    exact System.Steady.congr sound quiet.blocks quiet.tables

theorem exit_gains (sound : ShellsSound before) (live : before.kernel.currentTask ∈ before.liveTasks)
    (run : oracle.below.isr80hCommand9Exit before = (.ok ended, after)) : before.Gains fits after := by
  unfold Below.isr80hCommand9Exit at run
  obtain ⟨process, _, owner, steps⟩ := bind_eq_ok run
  obtain ⟨rfl, listed⟩ := taskCurrentProcess_listed sound live owner
  obtain ⟨_, terminated, terminate, next⟩ := bind_eq_ok steps
  have gains : System.Gains fits _ terminated := processTerminate_gains sound listed terminate
  exact gains.steady (taskNext_steady gains.sound next)

theorem isr80hHandleCommand_gains {command : Int} (sound : ShellsSound before)
    (live : before.kernel.currentTask ∈ before.liveTasks) (asks : caller.Asks command)
    (run : oracle.below.isr80hHandleCommand caller command before = (.ok ended, after)) :
    before.Gains (· = 0) after := by
  unfold Below.isr80hHandleCommand at run
  split at run
  · cases run
    exact (System.Steady.refl sound).gains
  · cases found : oracle.below.isr80hCommands caller command with
    | none =>
      rw [found] at run
      cases run
    | some commandFunc =>
      rw [found] at run
      unfold Below.isr80hCommands at found
      split at found <;> cases found
      · exact (isr80hCommand0Sum_steady sound run).gains
      · exact (isr80hCommand1Print_steady sound run).gains
      · exact (isr80hCommand2GetKey_steady sound run).gains
      · exact (isr80hCommand3Putchar_steady sound run).gains
      · exact (isr80hCommand4Malloc_steady sound live (asks.malloc rfl) run).gains
      · exact (isr80hCommand5Free_steady sound live run).gains
      · exact isr80hCommand6ProcessLoadStart_gains sound run
      · exact isr80hCommand7InvokeSystemCommand_gains sound (asks.invoke rfl) run
      · exact (isr80hCommand8GetProgramArguments_steady sound run).gains
      · exact exit_gains sound live run

theorem enter_gains {work : SystemProg CommandEnd} (sound : ShellsSound before)
    (live : before.kernel.currentTask ∈ before.liveTasks)
    (worked : ∀ start last ended, ShellsSound start → start.kernel.currentTask ∈ start.liveTasks →
      work start = (.ok ended, last) → start.Gains fits last)
    (run : oracle.below.enter caller frame work before = (.ok ended, after)) : before.Gains fits after := by
  unfold Below.enter at run
  obtain ⟨_, paged, page, steps⟩ := bind_eq_ok run
  obtain ⟨_, saved, save, steps⟩ := bind_eq_ok steps
  obtain ⟨ended, done, work, steps⟩ := bind_eq_ok steps
  have quiet := quiet_taskCurrentSaveState _ _ _ _ (quiet_free.kernelPage _ _ _ (System.Quiet.refl _) page) save
  have steady := quiet.steady sound
  have gains := steady.gain (worked _ _ _ steady.sound (quiet.live live) work)
  cases ended with
  | taskReturn registers =>
    cases steps
    exact gains
  | result value =>
    obtain ⟨_, back, page, rest⟩ := bind_eq_ok steps
    cases rest
    exact gains.steady (taskPage_steady gains.sound page)

theorem isr80hHandler_gains {command : Int} (sound : ShellsSound before)
    (live : before.kernel.currentTask ∈ before.liveTasks) (asks : caller.Asks command)
    (run : oracle.below.isr80hHandler caller command frame before = (.ok ended, after)) :
    before.Gains (· = 0) after :=
  enter_gains sound live (fun _ _ _ sound live run => isr80hHandleCommand_gains sound live asks run) run

theorem classicKeyboard_steady {key : Option Byte} (sound : ShellsSound before)
    (run : oracle.below.classicKeyboardInterruptHandler caller key before = (.ok ended, after)) :
    before.Steady after := by
  unfold Below.classicKeyboardInterruptHandler at run
  obtain ⟨_, paged, page, steps⟩ := bind_eq_ok run
  have quiet := (quiet_free.kernelPage _ _ _ (System.Quiet.refl _) page).steady sound
  cases key with
  | none =>
    cases steps
    exact quiet
  | some c =>
    dsimp only at steps
    split at steps
    · obtain ⟨_, switched, switch, rest⟩ := bind_eq_ok steps
      cases rest
      exact quiet.trans (shellSwitchToNext_steady quiet.sound switch)
    · obtain ⟨_, pushed, push, steps⟩ := bind_eq_ok steps
      obtain ⟨_, back, page, rest⟩ := bind_eq_ok steps
      cases rest
      have stored : paged.Steady pushed := by
        split at push
        · exact keyboardPush_steady quiet.sound push
        · cases push
          exact System.Steady.refl quiet.sound
      exact (quiet.trans stored).trans (taskPage_steady stored.sound page)

theorem interruptHandler_gains {c : Int} {key : Option Byte} {interrupt : Nat} (sound : ShellsSound before)
    (live : before.kernel.currentTask ∈ before.liveTasks)
    (run : oracle.below.interruptHandler caller c key interrupt frame before = (.ok ended, after)) :
    before.Gains fits after := by
  unfold Below.interruptHandler at run
  cases found : oracle.below.interruptCallbacks caller c key interrupt with
  | some callback =>
    rw [found] at run
    apply enter_gains sound live _ run
    intro start last ended sound live worked
    unfold Below.interruptCallbacks at found
    split at found
    · cases found
      exact exit_gains sound live worked
    · split at found
      · cases found
        unfold Below.idtClock at worked
        split at worked
        · cases worked
          exact (System.Steady.refl sound).gains
        · exact (taskNext_steady sound worked).gains
      · split at found
        · cases found
          exact (classicKeyboard_steady sound worked).gains
        · cases found
  | none =>
    rw [found] at run
    obtain ⟨_, paged, page, steps⟩ := bind_eq_ok run
    obtain ⟨_, back, again, rest⟩ := bind_eq_ok steps
    cases rest
    have quiet := (quiet_free.kernelPage _ _ _ (System.Quiet.refl _) page).steady sound
    exact (quiet.trans (taskPage_steady quiet.sound again)).gains

end Commands

end PeachOS
