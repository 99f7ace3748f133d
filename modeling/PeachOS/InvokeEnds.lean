import PeachOS.InvokeCommand
import PeachOS.ProcessRuns

/-! How system call 7 ends on any list of arguments, and when it ends well. -/

namespace PeachOS
open Program ByteMemory

section Memory
variable {oracle : Oracle} {memory : Memory} {process task ptr : Addr} {use : BlockUse} {size : Word} {res : Int}
  {filename : List Byte}

def System.Holds (memory : Memory) (system : System) : Prop := system.kernel.memory = memory

theorem below_kernel_holds {α : Type} {call : KernelProg α} (kept : Keeps (fun kernel => kernel.memory = memory) call) :
    Keeps (System.Holds memory) (oracle.below.kernel call) := fun system held => kept system.kernel held

theorem below_update_holds {change : Kernel → Kernel} (kept : ∀ kernel, (change kernel).memory = kernel.memory) :
    Keeps (System.Holds memory) (oracle.below.kernel (update change)) :=
  below_kernel_holds (Keeps.update (fun kernel held => (kept kernel).trans held))

theorem below_read_holds {α : Type} (part : Kernel → α) : Keeps (System.Holds memory) (oracle.below.kernel (read part)) :=
  below_kernel_holds (Keeps.read part)

theorem kzalloc_holds : Keeps (System.Holds memory) (oracle.kzalloc use size) := by
  intro system held
  unfold Oracle.kzalloc
  split
  · exact held
  · split
    · exact held
    · exact held

theorem below_kzalloc_holds : Keeps (System.Holds memory) (oracle.below.kzalloc use size) :=
  @kzalloc_holds oracle memory use size

theorem take_holds : Keeps (System.Holds memory) (oracle.take use size) := by
  unfold Oracle.take
  refine Keeps.bind kzalloc_holds (fun ptr => ?_)
  exact Keeps.ite (Keeps.stop _) (Keeps.pure _)

theorem taskListAppend_holds : Keeps (fun kernel => kernel.memory = memory) (taskListAppend task) := by
  intro kernel held
  unfold taskListAppend
  rw [read_bind]
  split
  · exact held
  · exact held

theorem taskGetNext_holds : Keeps (fun kernel => kernel.memory = memory) taskGetNext := by
  unfold taskGetNext
  refine Keeps.bind (Keeps.read _) (fun current => Keeps.ite (Keeps.stop _) ?_)
  refine Keeps.bind (Keeps.read _) (fun next => ?_)
  exact Keeps.ite (Keeps.read _) (Keeps.pure _)

theorem taskListRemove_holds : Keeps (fun kernel => kernel.memory = memory) (taskListRemove task) := by
  unfold taskListRemove
  refine Keeps.bind (Keeps.read _) (fun record => ?_)
  refine Keeps.bind (Keeps.update ?_) (fun _ => ?_)
  · intro kernel held
    split
    · exact held
    · exact held
  refine Keeps.bind (Keeps.update (fun _ held => held)) (fun _ => ?_)
  refine Keeps.bind (Keeps.update (fun _ held => held)) (fun _ => ?_)
  refine Keeps.bind (Keeps.read _) (fun current => Keeps.ite ?_ (Keeps.pure _))
  refine Keeps.bind taskGetNext_holds (fun next => ?_)
  exact Keeps.update (fun _ held => held)

theorem taskFree_holds : Keeps (System.Holds memory) (oracle.below.taskFree task) := by
  unfold Below.taskFree
  refine Keeps.ite (Keeps.stop _) (Keeps.bind (below_read_holds _) (fun record => ?_))
  refine Keeps.bind ?_ (fun _ => ?_)
  · exact Keeps.ite (Keeps.stop _) (Keeps.update (fun _ held => held))
  refine Keeps.bind (below_kernel_holds taskListRemove_holds) (fun _ => ?_)
  refine Keeps.bind (Keeps.update (fun _ held => held)) (fun _ => ?_)
  exact Keeps.pure _

theorem taskInit_holds : Keeps (System.Holds memory) (oracle.below.taskInit task process) := by
  unfold Below.taskInit
  refine Keeps.bind (below_update_holds (fun _ => rfl)) (fun _ => ?_)
  refine Keeps.bind (@take_holds oracle memory (.owned .space process) 4) (fun chunk => ?_)
  refine Keeps.bind (below_update_holds (fun _ => rfl)) (fun _ => Keeps.ite (Keeps.pure _) ?_)
  refine Keeps.bind (below_read_holds _) (fun kernel => ?_)
  refine Keeps.bind (below_update_holds (fun _ => rfl)) (fun _ => ?_)
  exact Keeps.pure _

theorem taskNew_holds : Keeps (System.Holds memory) (oracle.below.taskNew process) := by
  unfold Below.taskNew
  refine Keeps.bind below_kzalloc_holds (fun task => ?_)
  refine Keeps.bind (Keeps.ite (Keeps.pure _) taskInit_holds) (fun res => ?_)
  refine Keeps.ite (Keeps.bind taskFree_holds (fun _ => Keeps.pure _)) ?_
  exact Keeps.bind (below_kernel_holds taskListAppend_holds) (fun _ => Keeps.pure _)

theorem spill_holds (count : Nat) : Keeps (System.Holds memory) (oracle.spill count) := by
  induction count with
  | zero => exact Keeps.pure _
  | succ count ih => exact Keeps.bind kzalloc_holds (fun _ => ih)

theorem processLoadData_holds : Keeps (System.Holds memory) (oracle.processLoadData filename process) := by
  unfold Oracle.processLoadData
  refine Keeps.bind (Keeps.read _) (fun found => ?_)
  refine Keeps.bind (Keeps.read _) (fun count => ?_)
  refine Keeps.bind (spill_holds count) (fun _ => ?_)
  cases found with
  | error code => exact Keeps.pure _
  | ok file =>
    cases file with
    | binary size =>
      refine Keeps.bind kzalloc_holds (fun ptr => Keeps.ite (Keeps.pure _) ?_)
      exact Keeps.bind (@below_update_holds oracle _ _ (fun _ => rfl)) (fun _ => Keeps.pure _)
    | elf =>
      refine Keeps.bind take_holds (fun file => Keeps.bind take_holds (fun image => ?_))
      refine Keeps.bind (@below_update_holds oracle _ _ (fun _ => rfl)) (fun _ => ?_)
      exact Keeps.bind (@below_update_holds oracle _ _ (fun _ => rfl)) (fun _ => Keeps.pure _)

theorem processLoadRest_holds {slot : Int} :
    Keeps (System.Holds memory) (oracle.below.processLoadRest filename process slot) := by
  unfold Below.processLoadRest
  refine Keeps.bind below_kzalloc_holds (fun stack => Keeps.ite (Keeps.pure _) ?_)
  refine Keeps.bind (below_update_holds (fun _ => rfl)) (fun _ => ?_)
  refine Keeps.bind taskNew_holds (fun task => Keeps.ite (Keeps.pure _) ?_)
  refine Keeps.bind (below_update_holds (fun _ => rfl)) (fun _ => ?_)
  refine Keeps.bind (Keeps.read _) (fun res => Keeps.ite (Keeps.pure _) ?_)
  exact Keeps.bind (below_update_holds (fun _ => rfl)) (fun _ => Keeps.pure _)

theorem processLoadForSlot_holds {slot : Int} :
    Keeps (System.Holds memory) (oracle.below.processLoadForSlot filename slot) := by
  unfold Below.processLoadForSlot
  refine Keeps.bind (below_read_holds _) (fun taken => Keeps.ite (Keeps.pure _) ?_)
  refine Keeps.bind below_kzalloc_holds (fun process => Keeps.ite (Keeps.pure _) ?_)
  refine Keeps.bind (below_update_holds (fun _ => rfl)) (fun _ => ?_)
  refine Keeps.bind processLoadData_holds (fun loaded => ?_)
  refine Keeps.bind (Keeps.ite (Keeps.pure _) processLoadRest_holds) (fun result => ?_)
  refine Keeps.bind ?_ (fun _ => Keeps.pure _)
  refine Keeps.bind (below_read_holds _) (fun record => Keeps.ite ?_ (Keeps.pure _))
  exact Keeps.bind taskFree_holds (fun _ => Keeps.pure _)

theorem processLoad_holds : Keeps (System.Holds memory) (oracle.below.processLoad filename) := by
  unfold Below.processLoad
  refine Keeps.bind (below_read_holds _) (fun slot => ?_)
  exact Keeps.ite (Keeps.pure _) processLoadForSlot_holds

end Memory

def Caller.rootArgument (caller : Caller) : Addr := caller.physical (caller.stackItem 0)

/-- A task makes the call, and the kernel serves it in its own address space. -/
structure CallerReady (caller : Caller) (kernel : Kernel) : Prop where
  task : kernel.currentTask ≠ 0
  taskSpace : (kernel.tasks kernel.currentTask).pageDirectory ≠ 0
  kernelSpace : caller.kernelChunk ≠ 0
  kernelPage : kernel.pageDirectory = directoryEntry kernel.memory.bytes caller.kernelChunk

/-- The call comes back with a negative code, and the kernel has nothing more than before it. -/
structure CommandRefused (before after : System) (finish : CommandEnd) : Prop where
  code : ∃ value : Word, value.toInt < 0 ∧ finish = .result value
  processes : after.kernel.processes = before.kernel.processes
  tasks : after.kernel.taskHead = before.kernel.taskHead ∧ after.kernel.tasks = before.kernel.tasks
  current : after.kernel.currentProcess = before.kernel.currentProcess
  blocks : after.blocks = before.blocks

/-- The program that was loaded from `path` runs as a new process with these arguments. -/
structure ProgramStarted (oracle : Oracle) (path : List Byte) (arguments : List (List Byte)) (before after : System)
    (process : Addr) (finish : CommandEnd) : Prop where
  program : ∃ loaded, oracle.below.processLoad path before = (.ok (0, process), loaded)
  listed : ∃ i < peachosMaxProcesses, before.kernel.processes i = 0 ∧
    after.kernel.processes = Function.update before.kernel.processes i process
  current : after.kernel.currentProcess = process
  task : after.kernel.currentTask = (after.kernel.processRecords process).task
  owner : (after.kernel.tasks after.kernel.currentTask).process = process
  space : after.kernel.pageDirectory = directoryEntry after.kernel.memory.bytes
    (after.kernel.tasks after.kernel.currentTask).pageDirectory
  runs : finish = .taskReturn (taskRegisters after.kernel.currentTask)
  arguments : ArgumentsGiven after process arguments

/-- The call ends, with the program started or with nothing changed. -/
def CommandSettles (oracle : Oracle) (caller : Caller) (before : System) : Prop :=
  ∃ fuel finish after, oracle.below.isr80hCommand7InvokeLinked caller fuel before = (.ok (some finish), after) ∧
    (CommandRefused before after finish ∨ ∃ arguments process,
      ArgumentList before.kernel.memory.bytes (fun _ => True) caller.rootArgument arguments ∧
        ProgramStarted oracle (programPath before.kernel.memory.bytes caller.rootArgument) arguments before after process
          finish)

def System.switched (system : System) (process : Addr) : System :=
  system.setKernel { system.kernel with currentProcess := process }

/-- No slot for a process, or no block for its record. -/
def LoadRefused (oracle : Oracle) (before : System) : Prop :=
  (∀ i < peachosMaxProcesses, before.kernel.processes i ≠ 0) ∨ oracle.pick before sizeofProcess = 0

/-- The list ends, the program is loaded, and each block for its arguments is served. -/
def AllServed (oracle : Oracle) (caller : Caller) (before : System) : Prop :=
  ∃ arguments process loaded,
    ArgumentList before.kernel.memory.bytes (fun _ => True) caller.rootArgument arguments ∧
      oracle.below.processLoad (programPath before.kernel.memory.bytes caller.rootArgument) before =
        (.ok (0, process), loaded) ∧
      oracle.ServesArguments process arguments (loaded.switched process)

/-- No program is named; or its name fits behind `0:/`, and the load is refused before anything is allocated or
everything that the call asks for is served. -/
def CommandServed (oracle : Oracle) (caller : Caller) (before : System) : Prop :=
  caller.rootArgument = 0 ∨ strlen (argumentOf before.kernel.memory.bytes caller.rootArgument) = 0 ∨
    strlen (argumentOf before.kernel.memory.bytes caller.rootArgument) + 4 ≤ peachosMaxPath ∧
      (LoadRefused oracle before ∨ AllServed oracle caller before)

def System.paged (system : System) (directory : Addr) : System :=
  system.setKernel { system.kernel with pageDirectory := directory }

def System.running (system : System) (process : Addr) : System :=
  system.setKernel { system.kernel with
    currentTask := (system.kernel.processRecords process).task
    pageDirectory := directoryEntry system.kernel.memory.bytes
      (system.kernel.tasks (system.kernel.processRecords process).task).pageDirectory }

section Command
variable {oracle : Oracle} {caller : Caller} {before loaded state middle after : System} {process out root : Addr}
  {path : List Byte} {res : Int} {finish : CommandEnd}

theorem CallerReady.stackItem (ready : CallerReady caller before.kernel) (index : Nat) :
    oracle.below.taskGetStackItem caller before.kernel.currentTask index before =
      (.ok (caller.stackItem index), before) := by
  have taskSwitched : oracle.below.kernel (taskPageTask before.kernel.currentTask) before =
      (.ok (), before.paged (directoryEntry before.kernel.memory.bytes
        (before.kernel.tasks before.kernel.currentTask).pageDirectory)) := by
    apply below_kernel_run
    unfold taskPageTask Kernel.pagingSwitch
    rw [read_bind, if_neg ready.taskSpace]
    rfl
  unfold Below.taskGetStackItem Below.kernelPage Kernel.pagingSwitch
  rw [if_neg ready.task, bind_ok taskSwitched, if_neg ready.kernelSpace, below_update_bind]
  change (Except.ok (caller.stackItem index),
    before.paged (directoryEntry before.kernel.memory.bytes caller.kernelChunk)) = _
  rw [← ready.kernelPage]
  rfl

theorem argumentOf_append {bytes : Bytes} {text : List Byte} (holds : HoldsString bytes root text)
    (short : text.length < sizeofArgument) : argumentOf bytes root =
      text ++ 0 :: loadBytes bytes (root + BitVec.ofNat 32 (text.length + 1)) (sizeofArgument - (text.length + 1)) := by
  have split : sizeofArgument = (text.length + 1) + (sizeofArgument - (text.length + 1)) := by omega
  unfold argumentOf
  rw [split, loadBytes_add, holds.2, List.append_assoc, Nat.add_sub_cancel_left]
  rfl

theorem strlen_argumentOf {bytes : Bytes} {text : List Byte} (holds : HoldsString bytes root text)
    (short : text.length < sizeofArgument) : strlen (argumentOf bytes root) = text.length := by
  rw [argumentOf_append holds short]
  exact strlen_append_zero holds.1 _

theorem programPath_length (bytes : Bytes) (root : Addr) :
    (programPath bytes root).length ≤ peachosMaxPath ↔ strlen (argumentOf bytes root) + 4 ≤ peachosMaxPath := by
  unfold programPath strncpy drivePrefix peachosMaxPath
  rw [List.length_append, List.length_append, List.length_take, strnlen_eq_min]
  have inside := strlen_le (argumentOf bytes root)
  simp only [List.length_cons, List.length_nil]
  omega

theorem CallerReady.command (ready : CallerReady caller before.kernel) (fuel : Nat) :
    oracle.below.isr80hCommand7InvokeLinked caller fuel before =
      (if caller.rootArgument = 0 ∨ strlen (argumentOf before.kernel.memory.bytes caller.rootArgument) = 0 then
        pure (some (.result (BitVec.ofInt 32 (-EINVARG))))
      else if peachosMaxPath < (programPath before.kernel.memory.bytes caller.rootArgument).length then
        oracle.below.kernel fault
      else oracle.below.invokeProgram fuel (programPath before.kernel.memory.bytes caller.rootArgument)
        caller.rootArgument : SystemProg (Option CommandEnd)) before := by
  unfold Below.isr80hCommand7InvokeLinked
  rw [below_read_bind, bind_ok (ready.stackItem 0)]
  rfl

theorem processLoadSwitch_zero (load : oracle.below.processLoad path before = (.ok (0, process), loaded)) :
    oracle.below.processLoadSwitch path before = (.ok (0, process), loaded.switched process) := by
  unfold Below.processLoadSwitch
  rw [bind_ok load]
  rfl

theorem processLoadSwitch_nonzero (nonzero : res ≠ 0)
    (load : oracle.below.processLoad path before = (.ok (res, out), loaded)) :
    oracle.below.processLoadSwitch path before = (.ok (res, out), loaded) := by
  unfold Below.processLoadSwitch
  rw [bind_ok load]
  dsimp only
  rw [if_neg nonzero]
  rfl

theorem processLoadSwitch_ends (run : oracle.below.processLoadSwitch path before = (.ok (res, out), middle)) :
    ∃ loaded, oracle.below.processLoad path before = (.ok (res, out), loaded) ∧
      (res = 0 ∧ middle = loaded.switched out ∨ res ≠ 0 ∧ middle = loaded) := by
  have whole := run
  unfold Below.processLoadSwitch at run
  obtain ⟨⟨found, process⟩, loaded, load, _⟩ := bind_eq_ok run
  by_cases zero : found = 0
  · subst zero
    rw [processLoadSwitch_zero load] at whole
    cases whole
    exact ⟨loaded, load, Or.inl ⟨rfl, rfl⟩⟩
  · rw [processLoadSwitch_nonzero zero load] at whole
    cases whole
    exact ⟨_, load, Or.inr ⟨zero, rfl⟩⟩

/-- What a program that was loaded starts from. -/
structure Startable (before state : System) (process : Addr) : Prop where
  grows : before.Grows state
  memory : state.kernel.memory = before.kernel.memory
  nonnull : process ≠ 0
  listed : ∃ i < peachosMaxProcesses, before.kernel.processes i = 0 ∧
    state.kernel.processes = Function.update before.kernel.processes i process
  task : (state.kernel.processRecords process).task ≠ 0
  owner : (state.kernel.tasks (state.kernel.processRecords process).task).process = process
  space : (state.kernel.tasks (state.kernel.processRecords process).task).pageDirectory ≠ 0

theorem Startable.of_load (consistent : Consistent ∅ before) (proper : 0 ≤ res)
    (load : oracle.below.processLoad path before = (.ok (res, process), loaded)) : Startable before loaded process := by
  have outcome := processLoad_outcome consistent load
  have kept := consistent.load outcome
  obtain ⟨nonnull, _, i, bound, free, processes⟩ := outcome.entered proper
  have here : loaded.tables.processes i = process := by
    rw [processes, Function.update_self]
  have entry := kept.entries i bound (here ▸ nonnull) (Set.notMem_empty _)
  rw [here] at entry
  have used : ∀ ptr use, loaded.blocks ptr = some use → ptr ≠ 0 := by
    intro ptr use own null
    rw [null, kept.null] at own
    cases own
  have memory : loaded.kernel.memory = before.kernel.memory := by
    have held : System.Holds before.kernel.memory (oracle.below.processLoad path before).2 :=
      processLoad_holds before rfl
    rw [load] at held
    exact held
  exact ⟨(outcome.effect consistent).grows, memory, nonnull, ⟨i, bound, free, processes⟩, used _ _ entry.task,
    entry.back, used _ _ entry.space⟩

theorem Startable.switched (start : Startable before state process) : Startable before (state.switched process) process :=
  ⟨start.grows, start.memory, start.nonnull, start.listed, start.task, start.owner, start.space⟩

theorem processLoadSwitch_startable (consistent : Consistent ∅ before) (proper : 0 ≤ res)
    (run : oracle.below.processLoadSwitch path before = (.ok (res, process), middle)) :
    Startable before middle process := by
  obtain ⟨loaded, load, state⟩ := processLoadSwitch_ends run
  have start := Startable.of_load consistent proper load
  rcases state with ⟨_, rfl⟩ | ⟨_, rfl⟩
  · exact start.switched
  · exact start

theorem startTask_run (nonnull : process ≠ 0) (task : (state.kernel.processRecords process).task ≠ 0)
    (space : (state.kernel.tasks (state.kernel.processRecords process).task).pageDirectory ≠ 0) :
    oracle.below.startTask process state =
      (.ok (.taskReturn (taskRegisters (state.kernel.processRecords process).task)), state.running process) := by
  have switch : oracle.below.kernel (taskSwitch (state.kernel.processRecords process).task) state =
      (.ok (), state.running process) := by
    apply below_kernel_run
    unfold taskSwitch Kernel.pagingSwitch
    rw [if_neg task, update_bind, read_bind]
    dsimp only
    rw [if_neg space]
    rfl
  unfold Below.startTask
  rw [if_neg nonnull, below_read_bind, bind_ok switch]
  rfl

theorem AllServed.settles (served : AllServed oracle caller before) (consistent : Consistent ∅ before)
    (ready : CallerReady caller before.kernel) (blocks : ∀ system size, PageAligned (oracle.pick system size))
    (held : ArgumentsHeld before.kernel.memory.bytes (oracle.Spared before) caller.rootArgument)
    (named : ¬(caller.rootArgument = 0 ∨ strlen (argumentOf before.kernel.memory.bytes caller.rootArgument) = 0))
    (fits : ¬peachosMaxPath < (programPath before.kernel.memory.bytes caller.rootArgument).length) :
    CommandSettles oracle caller before := by
  obtain ⟨arguments, process, loaded, listed, load, serves⟩ := served
  have start := (Startable.of_load consistent le_rfl load).switched
  have nonempty : arguments ≠ [] := by
    rintro rfl
    exact named (Or.inl listed)
  have lives := held.lives listed
  rw [← start.memory] at lives
  obtain ⟨after, run, kept, given⟩ := processInjectLinked_serves start.grows blocks nonempty lives serves
  have task : (after.kernel.processRecords process).task ≠ 0 := by
    rw [kept.task]
    exact start.task
  have owner : (after.kernel.tasks (after.kernel.processRecords process).task).process = process := by
    rw [kept.task, kept.tasks]
    exact start.owner
  have space : (after.kernel.tasks (after.kernel.processRecords process).task).pageDirectory ≠ 0 := by
    rw [kept.task, kept.tasks]
    exact start.space
  obtain ⟨i, bound, free, processes⟩ := start.listed
  refine ⟨arguments.length, .taskReturn (taskRegisters (after.kernel.processRecords process).task),
    after.running process, ?_, Or.inr ⟨arguments, process, listed, ?_⟩⟩
  · rw [ready.command, if_neg named, if_neg fits, Below.invokeProgram, bind_ok (processLoadSwitch_zero load)]
    dsimp only
    rw [if_neg (lt_irrefl _), bind_ok (run _ le_rfl)]
    dsimp only
    rw [if_neg (lt_irrefl _), bind_ok (startTask_run start.nonnull task space)]
    rfl
  · exact ⟨⟨loaded, load⟩, ⟨i, bound, free, kept.processes.trans processes⟩, kept.current, rfl, owner, rfl, rfl,
      ⟨given.argc, given.argv⟩⟩

theorem LoadRefused.settles (refused : LoadRefused oracle before) (ready : CallerReady caller before.kernel)
    (named : ¬(caller.rootArgument = 0 ∨ strlen (argumentOf before.kernel.memory.bytes caller.rootArgument) = 0))
    (fits : ¬peachosMaxPath < (programPath before.kernel.memory.bytes caller.rootArgument).length) :
    CommandSettles oracle caller before := by
  have load : ∃ code : Int, code < 0 ∧ (BitVec.ofInt 32 code).toInt < 0 ∧
      oracle.below.processLoad (programPath before.kernel.memory.bytes caller.rootArgument) before =
        (.ok (code, 0), before) := by
    by_cases full : ∀ i < peachosMaxProcesses, before.kernel.processes i ≠ 0
    · exact ⟨-EISTKN, by decide, by decide, processLoad_full full⟩
    · obtain ⟨i, bound, free⟩ : ∃ i < peachosMaxProcesses, before.kernel.processes i = 0 := by
        by_contra none
        exact full (fun i bound null => none ⟨i, bound, null⟩)
      exact ⟨-ENOMEM, by decide, by decide, processLoad_short bound free (refused.resolve_left full)⟩
  obtain ⟨code, negative, value, load⟩ := load
  refine ⟨0, .result (BitVec.ofInt 32 code), before, ?_, Or.inl ⟨⟨_, value, rfl⟩, rfl, ⟨rfl, rfl⟩, rfl, rfl⟩⟩
  rw [ready.command, if_neg named, if_neg fits, Below.invokeProgram,
    bind_ok (processLoadSwitch_nonzero negative.ne load)]
  dsimp only
  rw [if_pos negative]
  rfl

theorem startTask_returns {ended : CommandEnd} (run : oracle.below.startTask process state = (.ok ended, after)) :
    ∃ registers, ended = .taskReturn registers := by
  unfold Below.startTask at run
  split at run
  · cases run
  · rw [below_read_bind] at run
    obtain ⟨_, _, _, last⟩ := bind_eq_ok run
    cases last
    exact ⟨_, rfl⟩

theorem Startable.entered (start : Startable before state process) :
    state.kernel.processes ≠ before.kernel.processes := by
  obtain ⟨i, _, free, processes⟩ := start.listed
  intro same
  rw [same] at processes
  have here := congrFun processes i
  rw [free, Function.update_self] at here
  exact start.nonnull here.symm

theorem invokeProgram_served (consistent : Consistent ∅ before) (blocks : ∀ system size, PageAligned (oracle.pick system size))
    (held : ArgumentsHeld before.kernel.memory.bytes (oracle.Spared before) caller.rootArgument)
    (granted : ¬LoadRefused oracle before) {fuel : Nat}
    (run : oracle.below.invokeProgram fuel (programPath before.kernel.memory.bytes caller.rootArgument)
      caller.rootArgument before = (.ok (some finish), after))
    (ends : CommandRefused before after finish ∨ ∃ arguments process,
      ProgramStarted oracle (programPath before.kernel.memory.bytes caller.rootArgument) arguments before after process
        finish) : AllServed oracle caller before := by
  -- a call that returned did so with nothing more in the kernel
  have refused : ∀ value, finish = .result value → CommandRefused before after finish := by
    intro value result
    rcases ends with refused | ⟨_, _, started⟩
    · exact refused
    · rw [started.runs] at result
      cases result
  unfold Below.invokeProgram at run
  obtain ⟨⟨res, process⟩, middle, switch, rest⟩ := bind_eq_ok run
  obtain ⟨loaded, load, state⟩ := processLoadSwitch_ends switch
  dsimp only at rest
  split at rest
  next negative =>
    cases rest
    have same : after = loaded := (state.resolve_left (fun zero => negative.ne zero.1)).2
    have given := (refused _ rfl).blocks
    rw [same] at given
    rcases (processLoad_ends consistent load).2 with full | none | taken
    · exact absurd (Or.inl full) granted
    · exact absurd (Or.inr none) granted
    · exact absurd given taken
  next proper =>
    have start := processLoadSwitch_startable consistent (not_lt.mp proper) switch
    obtain ⟨injected, filled, inject, last⟩ := bind_eq_ok rest
    cases injected with
    | none => cases last
    | some code =>
      by_cases ending : ∃ n, argumentAt before.kernel.memory.bytes caller.rootArgument n = 0
      · obtain ⟨n, null⟩ := ending
        obtain ⟨arguments, listed⟩ := held.listed null
        have lives := listed
        rw [← start.memory] at lives
        obtain ⟨processes, served⟩ := processInjectLinked_ends start.grows blocks lives inject
        have entered : filled.kernel.processes ≠ before.kernel.processes := processes ▸ start.entered
        dsimp only at last
        split at last
        · cases last
          exact absurd (refused _ rfl).processes entered
        next succeeded =>
          rcases state with ⟨rfl, rfl⟩ | ⟨nonzero, rfl⟩
          · exact ⟨arguments, process, loaded, listed.congr (fun _ _ => rfl) (fun _ _ => trivial), load,
              (served.resolve_right succeeded).2⟩
          · obtain ⟨ended, _, starting, returned⟩ := bind_eq_ok last
            cases returned
            obtain ⟨registers, rfl⟩ := startTask_returns starting
            rcases ends with refused | ⟨_, _, started⟩
            · obtain ⟨value, _, result⟩ := refused.code
              cases result
            · obtain ⟨other, zero⟩ := started.program
              rw [load] at zero
              cases zero
              exact absurd rfl nonzero
      · have endless : ∀ n, argumentAt middle.kernel.memory.bytes caller.rootArgument n ≠ 0 := by
          rw [start.memory]
          exact fun n null => ending ⟨n, null⟩
        rw [processInjectLinked_endless endless] at inject
        cases inject

theorem isr80hCommand7InvokeLinked_listed (consistent : Consistent ∅ before) (ready : CallerReady caller before.kernel)
    (blocks : ∀ system size, PageAligned (oracle.pick system size))
    (listed : ArgumentList before.kernel.memory.bytes (oracle.Spared before) caller.rootArgument
      (caller.arguments caller.rootArgument))
    (few : (caller.arguments caller.rootArgument).length < 2 ^ 32) {fuel : Nat}
    (enough : (caller.arguments caller.rootArgument).length ≤ fuel) :
    oracle.below.isr80hCommand7InvokeLinked caller fuel before =
      (oracle.below.isr80hCommand7InvokeSystemCommand caller >>= fun ended => pure (some ended)) before := by
  rw [ready.command]
  unfold Below.isr80hCommand7InvokeSystemCommand
  rw [bind_assoc_run, below_read_bind, bind_assoc_run, bind_ok (ready.stackItem 0)]
  change ArgumentList _ _ _ (caller.arguments (caller.physical (caller.stackItem 0))) at listed
  change (caller.arguments (caller.physical (caller.stackItem 0))).length < _ at few
  change (caller.arguments (caller.physical (caller.stackItem 0))).length ≤ _ at enough
  rcases found : caller.arguments (caller.physical (caller.stackItem 0)) with _ | ⟨programName, rest⟩
  · rw [found] at listed
    have null : caller.rootArgument = 0 := listed
    rw [if_pos (Or.inl null)]
    rfl
  rw [found] at listed few enough
  have whole := listed
  obtain ⟨nonnull, _, short, holds, _⟩ := whole
  have name := strlen_argumentOf holds short
  rw [← strlen_of_nonzero holds.1] at name
  have path : programPath before.kernel.memory.bytes caller.rootArgument =
      drivePrefix ++ strncpy programName peachosMaxPath := by
    unfold programPath
    rw [argumentOf_append holds short, strncpy_append_zero holds.1]
  by_cases unnamed : strlen programName = 0
  · rw [if_pos (Or.inr (name.trans unnamed))]
    dsimp only
    rw [if_pos unnamed]
    rfl
  rw [if_neg (not_or.mpr ⟨nonnull, fun none => unnamed (name.symm.trans none)⟩), path]
  dsimp only
  rw [if_neg unnamed]
  by_cases long : peachosMaxPath < (drivePrefix ++ strncpy programName peachosMaxPath).length
  · rw [if_pos long, if_pos long]
    rfl
  rw [if_neg long, if_neg long, Below.invokeProgram, bind_assoc_run]
  refine bind_congr (fun result middle switch => ?_)
  obtain ⟨res, process⟩ := result
  dsimp only
  by_cases negative : res < 0
  · rw [if_pos negative, if_pos negative]
    rfl
  have start := processLoadSwitch_startable consistent (not_lt.mp negative) switch
  have lives := listed
  rw [← start.memory] at lives
  have inject := @processInjectLinked_listed _ _ _ process _ _ start.grows blocks lives few _ enough
  rw [if_neg negative, if_neg negative, bind_assoc_run]
  rcases ended : oracle.below.processInjectArguments process (programName :: rest) middle with ⟨stopped | res, filled⟩
  · rw [bind_error ended] at inject
    rw [bind_error inject, bind_error ended]
  · rw [bind_ok ended] at inject
    rw [bind_ok inject, bind_ok ended]
    dsimp only
    split <;> rfl

theorem CommandSettles.served (settles : CommandSettles oracle caller before) (consistent : Consistent ∅ before)
    (ready : CallerReady caller before.kernel) (blocks : ∀ system size, PageAligned (oracle.pick system size))
    (held : ArgumentsHeld before.kernel.memory.bytes (oracle.Spared before) caller.rootArgument) :
    CommandServed oracle caller before := by
  obtain ⟨fuel, finish, after, run, ends⟩ := settles
  rw [ready.command] at run
  split at run
  next unnamed => exact unnamed.imp id Or.inl
  · split at run
    · cases run
    next fits =>
      refine Or.inr (Or.inr ⟨(programPath_length _ _).mp (not_lt.mp fits), ?_⟩)
      by_cases refused : LoadRefused oracle before
      · exact Or.inl refused
      · exact Or.inr (invokeProgram_served consistent blocks held refused run
          (ends.imp id (fun ⟨arguments, process, _, started⟩ => ⟨arguments, process, started⟩)))

theorem CommandServed.settles (served : CommandServed oracle caller before) (consistent : Consistent ∅ before)
    (ready : CallerReady caller before.kernel) (blocks : ∀ system size, PageAligned (oracle.pick system size))
    (held : ArgumentsHeld before.kernel.memory.bytes (oracle.Spared before) caller.rootArgument) :
    CommandSettles oracle caller before := by
  by_cases unnamed : caller.rootArgument = 0 ∨ strlen (argumentOf before.kernel.memory.bytes caller.rootArgument) = 0
  · refine ⟨0, _, before, ?_, Or.inl ⟨⟨BitVec.ofInt 32 (-EINVARG), by decide, rfl⟩, rfl, ⟨rfl, rfl⟩, rfl, rfl⟩⟩
    rw [ready.command, if_pos unnamed]
    rfl
  · obtain ⟨fits, refused | all⟩ := (served.resolve_left (unnamed ∘ Or.inl)).resolve_left (unnamed ∘ Or.inr)
    · exact refused.settles ready unnamed (not_lt.mpr ((programPath_length _ _).mpr fits))
    · exact all.settles consistent ready blocks held unnamed (not_lt.mpr ((programPath_length _ _).mpr fits))

/-- System call 7 starts the program or leaves everything as it was exactly where it is refused before the load
allocates, or everything is served. -/
theorem isr80hCommand7InvokeLinked_settles_iff (consistent : Consistent ∅ before)
    (ready : CallerReady caller before.kernel) (blocks : ∀ system size, PageAligned (oracle.pick system size))
    (held : ArgumentsHeld before.kernel.memory.bytes (oracle.Spared before) caller.rootArgument) :
    CommandSettles oracle caller before ↔ CommandServed oracle caller before :=
  ⟨fun settles => settles.served consistent ready blocks held, fun served => served.settles consistent ready blocks held⟩

end Command

/-- The first program, started from a kernel without processes. -/
def firstProgram : System := (pages.below.processLoad [] bootSystem).2

def argumentBytes (next : Addr) : Bytes := store32 (storeBytes (fun _ => 0) 0x200000 [0x61, 0]) 0x200200 next

def linkedSystem (next : Addr) : System := firstProgram.setKernel (firstProgram.kernel.setBytes (argumentBytes next))

def passesArgument : Caller where
  kernelChunk := 0x900000
  stackItem := fun _ => 0x200000
  string := fun _ => []
  physical := fun address => address
  arguments := fun _ => []
  unread := []

theorem Consistent.setBytes {system : System} (consistent : Consistent ∅ system) (bytes : Bytes) :
    Consistent ∅ (system.setKernel (system.kernel.setBytes bytes)) :=
  consistent.congr rfl rfl

theorem linkedSystem_consistent (next : Addr) : Consistent ∅ (linkedSystem next) := by
  have loaded : TableStep bootSystem firstProgram := .load pages [] 0 0x1000000 (Prod.ext rfl rfl)
  exact (bootSystem_noProcesses.consistent.step loaded).setBytes _

theorem argumentBytes_next (next : Addr) : argumentNext (argumentBytes next) 0x200000 = next :=
  load32_store32 _ _ _

theorem argumentBytes_zero (next : Addr) : load32 (argumentBytes next) 0x900000 = 0 := by
  unfold argumentBytes
  rw [load32_store32_ne _ _ (by decide) (by decide) (by decide)]
  rfl

theorem CallerReady.setBytes {kernel : Kernel} {caller : Caller} {bytes : Bytes} (task : kernel.currentTask ≠ 0)
    (space : (kernel.tasks kernel.currentTask).pageDirectory ≠ 0) (chunk : caller.kernelChunk ≠ 0)
    (page : kernel.pageDirectory = load32 bytes caller.kernelChunk) : CallerReady caller (kernel.setBytes bytes) :=
  ⟨task, space, chunk, page⟩

theorem linkedSystem_ready (next : Addr) : CallerReady passesArgument (linkedSystem next).kernel := by
  have task : firstProgram.kernel.currentTask ≠ 0 := by decide +kernel
  have space : (firstProgram.kernel.tasks firstProgram.kernel.currentTask).pageDirectory ≠ 0 := by decide +kernel
  have page : firstProgram.kernel.pageDirectory = 0 := by decide +kernel
  exact CallerReady.setBytes task space (by decide) (page.trans (argumentBytes_zero next).symm)

theorem pages_pick (system : System) (size : Word) :
    pages.pick system size = 0 ∨ ∃ n < 256, pages.pick system size = heapAddress + BitVec.ofNat 32 (4096 * n) := by
  unfold pages
  dsimp only
  split
  next n found => exact Or.inr ⟨n, (Search.firstIndex_some found).1, rfl⟩
  next => exact Or.inl rfl

theorem pages_aligned (system : System) (size : Word) : PageAligned (pages.pick system size) := by
  rcases pages_pick system size with none | ⟨n, bound, page⟩
  · rw [none]
    rfl
  · have start : heapAddress.toNat = 0x1000000 := rfl
    rw [page]
    unfold PageAligned pagingPageSize
    rw [BitVec.toNat_add, BitVec.toNat_ofNat, start]
    omega

theorem pages_spared {address : Addr} (low : address.toNat < 0x1000000) (before : System) :
    pages.Spared before address := by
  intro system size _ nonnull same
  obtain ⟨n, bound, page⟩ := (pages_pick system size).resolve_left nonnull
  have start : heapAddress.toNat = 0x1000000 := rfl
  have value := congrArg BitVec.toNat (same.symm.trans page)
  rw [frameOf_toNat, BitVec.toNat_add, BitVec.toNat_ofNat, start] at value
  omega

theorem argumentBytes_holds (next : Addr) : HoldsString (argumentBytes next) 0x200000 [0x61] := by
  have stored : HoldsString (storeBytes (fun _ => 0) 0x200000 [0x61, 0]) 0x200000 [0x61] := by
    unfold HoldsString
    decide
  refine stored.congr (fun j bound => store32_other _ _ (fun b small same => ?_))
  have few : j ≤ 1 := bound
  have value := congrArg BitVec.toNat same
  rw [BitVec.toNat_add, BitVec.toNat_add, BitVec.toNat_ofNat, BitVec.toNat_ofNat] at value
  simp at value
  omega

theorem linkedSystem_held (next : Addr) (stays : next = 0 ∨ next = 0x200000) :
    ArgumentsHeld (argumentBytes next) (pages.Spared (linkedSystem next)) 0x200000 := by
  intro k reached
  have here : argumentAt (argumentBytes next) 0x200000 k = 0x200000 := by
    induction k with
    | zero => rfl
    | succ k ih =>
      have before := ih (fun j bound => reached j (Nat.le_succ_of_le bound))
      have last := reached (k + 1) le_rfl
      rw [argumentAt, before, argumentBytes_next] at last ⊢
      exact stays.resolve_left last
  rw [here]
  refine ⟨fun b bound => pages_spared ?_ _, [0x61], by decide, argumentBytes_holds next⟩
  unfold sizeofCommandArgument sizeofArgument at bound
  rw [BitVec.toNat_add, BitVec.toNat_ofNat]
  simp
  omega

theorem linkedSystem_named (next : Addr) :
    strlen (argumentOf (linkedSystem next).kernel.memory.bytes passesArgument.rootArgument) = 1 :=
  strlen_argumentOf (argumentBytes_holds next) (by decide)

theorem linkedSystem_listed : ArgumentList (argumentBytes 0) (fun _ => True) 0x200000 [[0x61]] :=
  ⟨by decide, fun _ _ => trivial, by decide, argumentBytes_holds 0, argumentBytes_next 0⟩

/-- A program with one argument starts. -/
theorem isr80hCommand7InvokeLinked_settles_iff_started : CommandSettles pages passesArgument (linkedSystem 0) := by
  refine (isr80hCommand7InvokeLinked_settles_iff (linkedSystem_consistent 0) (linkedSystem_ready 0) pages_aligned
    (linkedSystem_held 0 (Or.inl rfl))).mpr (Or.inr (Or.inr ⟨?_, Or.inr ?_⟩))
  · rw [linkedSystem_named]
    decide
  · exact ⟨[[0x61]], 0x1005000, _, linkedSystem_listed, run_of_result (by decide +kernel), 0x100a000, _,
      run_of_result (by decide +kernel), by decide, 0x100b000, _, run_of_result (by decide +kernel), by decide, trivial⟩

/-- A list that is linked in a cycle keeps the call from ending. -/
theorem isr80hCommand7InvokeLinked_cycle : ¬∀ (oracle : Oracle) (caller : Caller) (before : System),
    Consistent ∅ before → CallerReady caller before.kernel → (∀ system size, PageAligned (oracle.pick system size)) →
      ArgumentsHeld before.kernel.memory.bytes (oracle.Spared before) caller.rootArgument →
        CommandSettles oracle caller before := by
  intro always
  have consistent := linkedSystem_consistent 0x200000
  have ready := linkedSystem_ready 0x200000
  have held := linkedSystem_held 0x200000 (Or.inr rfl)
  have settles := always pages passesArgument (linkedSystem 0x200000) consistent ready pages_aligned held
  rcases settles.served consistent ready pages_aligned held with null | unnamed | ⟨_, refused | all⟩
  · exact absurd null (by decide)
  · rw [linkedSystem_named] at unnamed
    exact absurd unnamed (by decide)
  · rcases refused with full | none
    · have free : firstProgram.kernel.processes 1 = 0 := by decide +kernel
      exact full 1 (by decide) free
    · have page : pages.pick (linkedSystem 0x200000) sizeofProcess ≠ 0 := by decide +kernel
      exact page none
  · obtain ⟨arguments, _, _, listed, _, _⟩ := all
    have cycle : ∀ k, argumentAt (argumentBytes 0x200000) 0x200000 k = 0x200000 := by
      intro k
      induction k with
      | zero => rfl
      | succ k ih => rw [argumentAt, ih, argumentBytes_next]
    have ends := listed.ends
    change argumentAt (argumentBytes 0x200000) 0x200000 arguments.length = 0 at ends
    rw [cycle] at ends
    exact absurd ends (by decide)

end PeachOS
