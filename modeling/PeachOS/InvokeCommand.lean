import PeachOS.ArgumentInjection
import PeachOS.ProcessServe
import PeachOS.SystemCalls

/-! System call 7 on the linked list that the caller's memory holds, whatever its links are, over what lies below:
the injection of the arguments into a process that was loaded. -/

namespace PeachOS
open Program ByteMemory

def argumentOf (bytes : Bytes) (argument : Addr) : List Byte := loadBytes bytes argument sizeofArgument

/-- `0:/` and the first argument, as it is copied to `path`. -/
def programPath (bytes : Bytes) (rootArgument : Addr) : List Byte :=
  drivePrefix ++ strncpy (argumentOf bytes rootArgument) peachosMaxPath

namespace Below
variable {σ : Type} (below : Below σ) (caller : Caller)

/-- The loop of `process_inject_arguments` from argument `i` on; none when it does not end in `fuel` rounds. -/
def injectLinkedLoop (process argv : Addr) : (fuel i : Nat) → (current : Addr) → Prog σ Stop (Option Int)
  | 0, _, current => if current = 0 then pure (some 0) else pure none
  | fuel + 1, i, current =>
      if current = 0 then pure (some 0)
      else do
        let argumentStr ← below.processMalloc process (BitVec.ofNat 32 sizeofArgument)
        if argumentStr = 0 then pure (some (-ENOMEM))
        else
          below.kernel (update (fun kernel =>
            kernel.setBytes (strncpyAt kernel.memory.bytes argumentStr current sizeofArgument)))
          below.kernel (update (fun kernel => kernel.setBytes
            (store32 kernel.memory.bytes (argv + BitVec.ofNat 32 (4 * i)) argumentStr)))
          let next ← below.kernel (read (fun kernel => argumentNext kernel.memory.bytes current))
          injectLinkedLoop process argv fuel (i + 1) next

/-- `process_inject_arguments` with `fuel` rounds for each of its two loops. -/
def processInjectLinked (fuel : Nat) (process rootArgument : Addr) : Prog σ Stop (Option Int) := do
  let bytes ← below.kernel (read (fun kernel => kernel.memory.bytes))
  match processCountCommandArguments bytes fuel rootArgument with
  | none => pure none
  | some count =>
      let argc := BitVec.ofNat 32 count
      if argc = 0 then pure (some (- EIO))
      else
        let argv ← below.processMalloc process (4 * argc)
        if argv = 0 then pure (some (-ENOMEM))
        else
          let res ← below.injectLinkedLoop process argv fuel 0 rootArgument
          if res = some 0 then do
            below.kernel (update (fun kernel =>
              kernel.setProcess process (fun record => { record with arguments := ⟨argc, argv⟩ })))
            pure res
          else pure res

/-- The part of `isr80h_command7_invoke_system_command` after `path` is made; none when the list does not end in
`fuel` rounds. -/
def invokeProgram (fuel : Nat) (path : List Byte) (arguments : Addr) : Prog σ Stop (Option CommandEnd) := do
  let (res, process) ← below.processLoadSwitch path
  if res < 0 then pure (some (.result (BitVec.ofInt 32 res)))
  else
    let injected ← below.processInjectLinked fuel process arguments
    match injected with
    | none => pure none
    | some res =>
        if res < 0 then pure (some (.result (BitVec.ofInt 32 res)))
        else do
          let ended ← below.startTask process
          pure (some ended)

/-- A name that does not fit behind `0:/` is written past the end of `path`. -/
def isr80hCommand7InvokeLinked (fuel : Nat) : Prog σ Stop (Option CommandEnd) := do
  let current ← below.kernel (read Kernel.currentTask)
  let item ← below.taskGetStackItem caller current 0
  let arguments := caller.physical item
  let bytes ← below.kernel (read (fun kernel => kernel.memory.bytes))
  if arguments = 0 ∨ strlen (argumentOf bytes arguments) = 0 then pure (some (.result (BitVec.ofInt 32 (-EINVARG))))
  else if peachosMaxPath < (programPath bytes arguments).length then below.kernel fault
  else below.invokeProgram fuel (programPath bytes arguments) arguments

end Below

section Same
variable (processLoadData : List Byte → Addr → KernelProg Int)

theorem injectLinkedLoop_below (process argv : Addr) (fuel i : Nat) (current : Addr) :
    (kernelBelow processLoadData).injectLinkedLoop process argv fuel i current =
      injectArgumentsLoop process argv fuel i current := by
  induction fuel generalizing i current with
  | zero => rfl
  | succ fuel ih =>
    unfold Below.injectLinkedLoop injectArgumentsLoop
    simp only [ih]
    rfl

theorem processInjectLinked_below (fuel : Nat) :
    (kernelBelow processLoadData).processInjectLinked fuel = processInjectArguments fuel := by
  funext process root kernel
  unfold Below.processInjectLinked processInjectArguments
  simp only [injectLinkedLoop_below]
  rfl

end Same

/-- Memory that the heap does not hand out for as long as what is in use stays so. -/
def Oracle.Spared (oracle : Oracle) (before : System) (address : Addr) : Prop :=
  ∀ system size, before.Grows system → oracle.pick system size ≠ 0 → oracle.pick system size ≠ frameOf address

/-- The state with the string of a round and the pointer to it. -/
def System.argumentStored (system : System) (ptr argv : Addr) (i : Nat) (text : List Byte) : System :=
  system.setKernel (system.kernel.setBytes (argumentWritten system.kernel.memory.bytes ptr argv i text))

/-- A block for the process is served and recorded. -/
structure DataTaken (oracle : Oracle) (state after : System) (process ptr : Addr) (size : Word) : Prop where
  nonnull : ptr ≠ 0
  picked : ptr = oracle.pick state size
  fresh : state.blocks ptr = none
  recorded : ∃ index < peachosMaxProgramAllocations, (state.kernel.allocation process index).ptr = 0 ∧
    after = (state.serve ptr (.owned .data process) size).setKernel (state.kernel.recordAllocation process index ptr size)

/-- What an injection leaves of the kernel's records. -/
structure RecordsKept (process : Addr) (before after : System) : Prop where
  processes : after.kernel.processes = before.kernel.processes
  current : after.kernel.currentProcess = before.kernel.currentProcess
  tasks : after.kernel.tasks = before.kernel.tasks
  task : (after.kernel.processRecords process).task = (before.kernel.processRecords process).task

section Taken
variable {oracle : Oracle} {before state middle after : System} {process ptr argv page address : Addr} {size : Word}
  {i : Nat} {text : List Byte}

theorem RecordsKept.refl (process : Addr) (system : System) : RecordsKept process system system := ⟨rfl, rfl, rfl, rfl⟩

theorem RecordsKept.trans (first : RecordsKept process before middle) (second : RecordsKept process middle after) :
    RecordsKept process before after where
  processes := second.processes.trans first.processes
  current := second.current.trans first.current
  tasks := second.tasks.trans first.tasks
  task := second.task.trans first.task

theorem processMalloc_below_taken (run : oracle.below.processMalloc process size state = (.ok ptr, after))
    (nonnull : ptr ≠ 0) : DataTaken oracle state after process ptr size := by
  rcases processMalloc_below_ends run with ⟨null, _⟩ | ⟨_, picked, fresh, recorded⟩
  · exact absurd null nonnull
  · exact ⟨nonnull, picked, fresh, recorded⟩

theorem DataTaken.memory (taken : DataTaken oracle state after process ptr size) :
    after.kernel.memory = state.kernel.memory := by
  obtain ⟨index, _, _, rfl⟩ := taken.recorded
  rfl

theorem DataTaken.blocks (taken : DataTaken oracle state after process ptr size) :
    after.blocks = (state.serve ptr (.owned .data process) size).blocks := by
  obtain ⟨index, _, _, rfl⟩ := taken.recorded
  rfl

theorem DataTaken.grows (taken : DataTaken oracle state after process ptr size) : state.Grows after :=
  System.Grows.serve taken.fresh taken.blocks

theorem DataTaken.used (taken : DataTaken oracle state after process ptr size) (roundable : Roundable size) :
    after.blocks ptr ≠ none := by
  rw [taken.blocks, System.serve_mark roundable, System.mark_blocks, if_pos rfl]
  exact Option.some_ne_none _

theorem DataTaken.kept (taken : DataTaken oracle state after process ptr size) : RecordsKept process state after := by
  obtain ⟨index, _, _, rfl⟩ := taken.recorded
  exact ⟨rfl, rfl, rfl, Kernel.recordAllocation_task _ _ _ _ _ _⟩

theorem DataTaken.slots (taken : DataTaken oracle state after process ptr size) :
    (emptySlots after.kernel process).card + 1 ≤ (emptySlots state.kernel process).card := by
  have nonnull := taken.nonnull
  obtain ⟨index, bound, empty, rfl⟩ := taken.recorded
  have slot : ∀ j, (Kernel.recordAllocation state.kernel process index ptr size).allocation process j =
      if j = index then ⟨ptr, size⟩ else state.kernel.allocation process j := by
    intro j
    rw [Kernel.recordAllocation_allocation]
    simp only [true_and]
  exact emptySlots_recorded nonnull bound empty slot

theorem DataTaken.stored_kept (taken : DataTaken oracle state middle process ptr size) :
    RecordsKept process state (middle.argumentStored ptr argv i text) :=
  taken.kept.trans ⟨rfl, rfl, rfl, rfl⟩

theorem OwnPage.only (own : OwnPage ptr size page) (aligned : PageAligned ptr) (small : size.toNat ≤ 4096) :
    page = ptr := by
  obtain ⟨k, bound, rfl⟩ := (ownPage_iff aligned).mp own
  unfold blocksFor heapBlockSize at bound
  obtain rfl : k = 0 := by omega
  rw [Nat.zero_mul]
  exact BitVec.add_zero ptr

end Taken

/-- In the course of an injection with `i` strings done: the page of `argv` is the process's. -/
structure Injecting (oracle : Oracle) (before state : System) (process argv : Addr) (i : Nat) : Prop where
  grows : before.Grows state
  aligned : PageAligned argv
  apart : ∀ address, oracle.Spared before address → argv ≠ frameOf address
  slots : i + 1 + (emptySlots state.kernel process).card ≤ peachosMaxProgramAllocations

/-- The strings that are there, each in a page of its own. -/
def StringsCopied (state : System) (argv : Addr) (arguments : List (List Byte)) (i : Nat) : Prop :=
  ∀ k < i, ∃ ptr, load32 state.kernel.memory.bytes (argv + BitVec.ofNat 32 (4 * k)) = ptr ∧
    HoldsString state.kernel.memory.bytes ptr (arguments.getD k []) ∧ PageAligned ptr ∧ ptr ≠ argv ∧
      state.blocks ptr ≠ none

/-- Each string that is left has a block served for it, when the loop comes to it. -/
def Oracle.ServesStrings (oracle : Oracle) (process argv : Addr) : (i : Nat) → List (List Byte) → System → Prop :=
  StringsServed (oracle.below.processMalloc process (BitVec.ofNat 32 sizeofArgument))
    (fun ptr i text system => system.argumentStored ptr argv i text)

/-- The blocks for `argv` and for the strings are all served. -/
def Oracle.ServesArguments (oracle : Oracle) (process : Addr) (arguments : List (List Byte)) (state : System) : Prop :=
  ∃ argv middle, oracle.below.processMalloc process (4 * BitVec.ofNat 32 arguments.length) state = (.ok argv, middle) ∧
    argv ≠ 0 ∧ oracle.ServesStrings process argv 0 arguments middle

abbrev pageBytes : Word := 4096

section Rounds
variable {oracle : Oracle} {before state middle after : System} {process ptr argv current address : Addr} {i : Nat}
  {text : List Byte} {arguments rest : List (List Byte)}

theorem injectLinkedLoop_null (null : current = 0) (fuel : Nat) :
    oracle.below.injectLinkedLoop process argv fuel i current state = (.ok (some 0), state) := by
  cases fuel <;> rw [Below.injectLinkedLoop, if_pos null] <;> rfl

theorem Injecting.inside (injecting : Injecting oracle before state process argv i)
    (taken : DataTaken oracle state middle process ptr (BitVec.ofNat 32 sizeofArgument)) :
    4 * i + 4 ≤ pageBytes.toNat := by
  have slots := injecting.slots
  have fewer := taken.slots
  have page : pageBytes.toNat = 4096 := rfl
  unfold peachosMaxProgramAllocations at slots
  omega

theorem Injecting.written (injecting : Injecting oracle before state process argv i)
    (taken : DataTaken oracle state middle process ptr (BitVec.ofNat 32 sizeofArgument)) (aligned : PageAligned ptr)
    (short : text.length < sizeofArgument) (noString : frameOf address ≠ ptr) (noPointer : frameOf address ≠ argv) :
    argumentWritten middle.kernel.memory.bytes ptr argv i text address = state.kernel.memory.bytes address := by
  rw [← taken.memory]
  exact argumentWritten_other short (injecting.inside taken) (fun own => noString (own.only aligned (by decide)))
    (fun own => noPointer (own.only injecting.aligned (by decide)))

theorem Injecting.spared (injecting : Injecting oracle before state process argv i)
    (taken : DataTaken oracle state middle process ptr (BitVec.ofNat 32 sizeofArgument)) (aligned : PageAligned ptr)
    (short : text.length < sizeofArgument) (spared : oracle.Spared before address) :
    argumentWritten middle.kernel.memory.bytes ptr argv i text address = state.kernel.memory.bytes address := by
  have nonnull := taken.nonnull
  have picked := taken.picked
  refine injecting.written taken aligned short (fun same => ?_) (injecting.apart _ spared).symm
  rw [picked] at nonnull same
  exact spared state _ injecting.grows nonnull same.symm

theorem Injecting.next (injecting : Injecting oracle before state process argv i)
    (taken : DataTaken oracle state middle process ptr (BitVec.ofNat 32 sizeofArgument)) :
    Injecting oracle before (middle.argumentStored ptr argv i text) process argv (i + 1) := by
  refine ⟨injecting.grows.trans taken.grows, injecting.aligned, injecting.apart, ?_⟩
  have slots := injecting.slots
  have fewer := taken.slots
  change i + 1 + 1 + (emptySlots middle.kernel process).card ≤ _
  omega

theorem Injecting.round (injecting : Injecting oracle before state process argv i)
    (call : oracle.below.processMalloc process (BitVec.ofNat 32 sizeofArgument) state = (.ok ptr, middle))
    (taken : DataTaken oracle state middle process ptr (BitVec.ofNat 32 sizeofArgument)) (aligned : PageAligned ptr)
    (listed : ArgumentList state.kernel.memory.bytes (oracle.Spared before) current (text :: rest)) (fuel : Nat) :
    oracle.below.injectLinkedLoop process argv (fuel + 1) i current state =
        oracle.below.injectLinkedLoop process argv fuel (i + 1) (argumentNext state.kernel.memory.bytes current)
          (middle.argumentStored ptr argv i text) ∧
      ArgumentList (middle.argumentStored ptr argv i text).kernel.memory.bytes (oracle.Spared before)
        (argumentNext state.kernel.memory.bytes current) rest := by
  obtain ⟨nonnull, lives, short, holds, tail⟩ := listed
  have same : ∀ address, oracle.Spared before address →
      argumentWritten middle.kernel.memory.bytes ptr argv i text address = state.kernel.memory.bytes address :=
    fun _ => injecting.spared taken aligned short
  have bytes : middle.kernel.memory.bytes = state.kernel.memory.bytes := congrArg Memory.bytes taken.memory
  have picked := taken.picked
  have full := taken.nonnull
  have string : strncpyAt middle.kernel.memory.bytes ptr current sizeofArgument =
      storeBytes middle.kernel.memory.bytes ptr (text ++ [0]) := by
    rw [bytes]
    refine strncpyAt_stores holds short (fun a aLow b bLow here => ?_)
    have spared := lives b (by unfold sizeofCommandArgument; omega)
    have own : OwnPage ptr (BitVec.ofNat 32 sizeofArgument) (frameOf (current + BitVec.ofNat 32 b)) := by
      rw [here]
      exact ⟨a, lt_of_le_of_lt aLow short, rfl⟩
    have page := own.only aligned (by decide)
    rw [picked] at full page
    exact spared state _ injecting.grows full page.symm
  have link := argumentNext_congr (fun j small => same _ (lives j small))
  constructor
  · rw [Below.injectLinkedLoop, if_neg nonnull, bind_ok call, if_neg taken.nonnull, below_update_bind, below_update_bind,
      below_read_bind]
    show oracle.below.injectLinkedLoop process argv fuel (i + 1)
      (argumentNext (store32 (strncpyAt middle.kernel.memory.bytes ptr current sizeofArgument) _ ptr) current)
      (middle.setKernel (middle.kernel.setBytes
        (store32 (strncpyAt middle.kernel.memory.bytes ptr current sizeofArgument) _ ptr))) = _
    rw [string]
    exact congrArg (fun next => oracle.below.injectLinkedLoop process argv fuel (i + 1) next
      (middle.argumentStored ptr argv i text)) link
  · exact tail.congr same (fun _ spared => spared)

theorem frameOf_buffer (aligned : PageAligned ptr) {j : Nat} (inside : j < sizeofArgument) :
    frameOf (ptr + BitVec.ofNat 32 j) = ptr := by
  have own : OwnPage ptr (BitVec.ofNat 32 sizeofArgument) (frameOf (ptr + BitVec.ofNat 32 j)) := ⟨j, inside, rfl⟩
  exact own.only aligned (by decide)

theorem StringsCopied.next (copied : StringsCopied state argv arguments i)
    (injecting : Injecting oracle before state process argv i) (argvUsed : state.blocks argv ≠ none)
    (taken : DataTaken oracle state middle process ptr (BitVec.ofNat 32 sizeofArgument)) (aligned : PageAligned ptr)
    (shorts : ∀ k, (arguments.getD k []).length < sizeofArgument) (this : arguments.getD i [] = text)
    (nonzero : ∀ c ∈ text, c ≠ 0) : StringsCopied (middle.argumentStored ptr argv i text) argv arguments (i + 1) := by
  have short : text.length < sizeofArgument := this ▸ shorts i
  have inside := injecting.inside taken
  have other : ptr ≠ argv := fun same => argvUsed (same ▸ taken.fresh)
  have apart : ∀ page, OwnPage argv pageBytes page → ¬OwnPage ptr (BitVec.ofNat 32 sizeofArgument) page := by
    intro page argvPage ptrPage
    rw [argvPage.only injecting.aligned (by decide)] at ptrPage
    exact other (ptrPage.only aligned (by decide)).symm
  intro k high
  rcases Nat.lt_succ_iff_lt_or_eq.mp high with low | rfl
  · obtain ⟨earlier, pointer, holds, earlierAligned, notArgv, used⟩ := copied k low
    have notPtr : earlier ≠ ptr := fun same => used (same ▸ taken.fresh)
    refine ⟨earlier, ?_, holds.congr (fun j bound => ?_), earlierAligned, notArgv, ?_⟩
    · rw [← pointer, ← taken.memory]
      exact argumentWritten_pointers injecting.aligned low.ne (by decide) inside (by omega) short apart
    · have page := frameOf_buffer earlierAligned (lt_of_le_of_lt bound (shorts k))
      exact injecting.written taken aligned short (fun same => notPtr (page.symm.trans same))
        (fun same => notArgv (page.symm.trans same))
    · exact taken.grows.used used
  · refine ⟨ptr, argumentWritten_pointer, ?_, aligned, other, taken.used (by decide)⟩
    rw [this]
    exact argumentWritten_string nonzero short inside (fun page ptrPage argvPage => apart page argvPage ptrPage)

theorem Injecting.count (injecting : Injecting oracle before state process argv i)
    (serves : oracle.ServesStrings process argv i rest state) :
    i + 1 + rest.length ≤ peachosMaxProgramAllocations := by
  induction rest generalizing state i with
  | nil => exact (Nat.le_add_right _ _).trans injecting.slots
  | cons text rest ih =>
    obtain ⟨ptr, middle, call, nonnull, later⟩ := serves
    have bound := ih (injecting.next (processMalloc_below_taken call nonnull)) later
    rw [List.length_cons]
    omega

/-- A loop that ends has had each string served, or it is refused. -/
theorem Injecting.loop_ends (injecting : Injecting oracle before state process argv i)
    (blocks : ∀ system size, PageAligned (oracle.pick system size))
    (listed : ArgumentList state.kernel.memory.bytes (oracle.Spared before) current rest) {fuel : Nat} {res : Int}
    (run : oracle.below.injectLinkedLoop process argv fuel i current state = (.ok (some res), after)) :
    after.kernel.processes = state.kernel.processes ∧
      (res = 0 ∧ oracle.ServesStrings process argv i rest state ∨ res < 0) := by
  induction rest generalizing state i current fuel with
  | nil =>
    rw [injectLinkedLoop_null listed] at run
    cases run
    exact ⟨rfl, Or.inl ⟨rfl, trivial⟩⟩
  | cons text rest ih =>
    have nonnull := listed.1
    cases fuel with
    | zero =>
      rw [Below.injectLinkedLoop, if_neg nonnull] at run
      cases run
    | succ fuel =>
      have first := run
      rw [Below.injectLinkedLoop, if_neg nonnull] at first
      obtain ⟨ptr, middle, call, more⟩ := bind_eq_ok first
      by_cases null : ptr = 0
      · rw [if_pos null] at more
        cases more
        rcases processMalloc_below_ends call with ⟨_, rfl⟩ | ⟨full, _⟩
        · exact ⟨rfl, Or.inr (by decide)⟩
        · exact absurd null full
      · have taken := processMalloc_below_taken call null
        have aligned : PageAligned ptr := taken.picked ▸ blocks state _
        obtain ⟨round, tail⟩ := injecting.round call taken aligned listed fuel
        rw [round] at run
        obtain ⟨processes, ends⟩ := ih (injecting.next taken) tail run
        refine ⟨processes.trans taken.stored_kept.processes, ends.imp (fun served => ?_) id⟩
        exact ⟨served.1, ptr, middle, call, null, served.2⟩

theorem Injecting.loop_serves (injecting : Injecting oracle before state process argv i)
    (argvUsed : state.blocks argv ≠ none)
    (blocks : ∀ system size, PageAligned (oracle.pick system size))
    (listed : ArgumentList state.kernel.memory.bytes (oracle.Spared before) current rest)
    (shorts : ∀ k, (arguments.getD k []).length < sizeofArgument) (low : i ≤ arguments.length)
    (left : arguments.drop i = rest) (copied : StringsCopied state argv arguments i)
    (serves : oracle.ServesStrings process argv i rest state) :
    ∃ after, (∀ fuel, rest.length ≤ fuel →
        oracle.below.injectLinkedLoop process argv fuel i current state = (.ok (some 0), after)) ∧
      RecordsKept process state after ∧ StringsCopied after argv arguments arguments.length := by
  induction rest generalizing state i current with
  | nil =>
    obtain rfl : i = arguments.length := le_antisymm low (List.drop_eq_nil_iff.mp left)
    exact ⟨state, fun fuel _ => injectLinkedLoop_null listed fuel, .refl process state, copied⟩
  | cons text rest ih =>
    obtain ⟨ptr, middle, call, nonnull, later⟩ := serves
    obtain ⟨bound, this, left⟩ := drop_cons left
    have taken := processMalloc_below_taken call nonnull
    have aligned : PageAligned ptr := taken.picked ▸ blocks state _
    have nonzero : ∀ c ∈ text, c ≠ 0 := listed.2.2.2.1.1
    have tail := (injecting.round call taken aligned listed 0).2
    obtain ⟨after, run, kept, done⟩ := ih (injecting.next taken) (taken.grows.used argvUsed) tail bound left
      (copied.next injecting argvUsed taken aligned shorts this nonzero) later
    refine ⟨after, fun fuel enough => ?_, taken.stored_kept.trans kept, done⟩
    cases fuel with
    | zero => exact absurd enough (Nat.not_succ_le_zero _)
    | succ fuel =>
      rw [(injecting.round call taken aligned listed fuel).1]
      exact run fuel (Nat.le_of_succ_le_succ enough)

theorem Injecting.loop_listed (injecting : Injecting oracle before state process argv i)
    (blocks : ∀ system size, PageAligned (oracle.pick system size))
    (listed : ArgumentList state.kernel.memory.bytes (oracle.Spared before) current rest) {fuel : Nat}
    (enough : rest.length ≤ fuel) : oracle.below.injectLinkedLoop process argv fuel i current state =
      (oracle.below.processInjectLoop process argv i rest >>= fun res => pure (some res)) state := by
  induction rest generalizing state i current fuel with
  | nil => exact injectLinkedLoop_null listed fuel
  | cons text rest ih =>
    have whole := listed
    obtain ⟨nonnull, _, short, holds, _⟩ := whole
    cases fuel with
    | zero => exact absurd enough (Nat.not_succ_le_zero _)
    | succ fuel =>
      rw [Below.processInjectLoop, bind_assoc_run]
      rcases call : oracle.below.processMalloc process (BitVec.ofNat 32 sizeofArgument) state with
        ⟨stopped | ptr, middle⟩
      · have same : oracle.below.processMalloc process 512 state = (.error stopped, middle) := call
        rw [Below.injectLinkedLoop, if_neg nonnull, bind_error call, bind_error same]
      · have same : oracle.below.processMalloc process 512 state = (.ok ptr, middle) := call
        rw [bind_ok same]
        by_cases null : ptr = 0
        · rw [Below.injectLinkedLoop, if_neg nonnull, bind_ok call, if_pos null, if_pos null]
          rfl
        · have taken := processMalloc_below_taken call null
          have aligned : PageAligned ptr := taken.picked ▸ blocks state _
          obtain ⟨round, tail⟩ := injecting.round call taken aligned listed fuel
          have stored : (middle.kernel.setMemory { middle.kernel.memory with
              bytes := store32 (storeBytes middle.kernel.memory.bytes ptr (strncpy text 512))
                (argv + BitVec.ofNat 32 (4 * i)) ptr }) =
              middle.kernel.setBytes (argumentWritten middle.kernel.memory.bytes ptr argv i text) := by
            rw [strncpy_short holds.1 short]
            rfl
          rw [round, ih (injecting.next taken) tail (Nat.le_of_succ_le_succ enough), if_neg null, bind_assoc_run,
            below_update_bind, stored]
          rfl

end Rounds

/-- The process has the arguments: their number, and a pointer to each as a string. -/
structure ArgumentsGiven (state : System) (process : Addr) (arguments : List (List Byte)) : Prop where
  argc : (state.kernel.processRecords process).arguments.argc.toNat = arguments.length
  argv : ∀ k < arguments.length, HoldsString state.kernel.memory.bytes (load32 state.kernel.memory.bytes
    ((state.kernel.processRecords process).arguments.argv + BitVec.ofNat 32 (4 * k))) (arguments.getD k [])

def System.setArguments (system : System) (process : Addr) (given : ProcessArguments) : System :=
  system.setKernel (system.kernel.setProcess process (fun record => { record with arguments := given }))

theorem System.setArguments_record (system : System) (process : Addr) (given : ProcessArguments) :
    (system.setArguments process given).kernel.processRecords process =
      { system.kernel.processRecords process with arguments := given } := by
  have record := Kernel.setProcess_records system.kernel process process
    (fun record => { record with arguments := given })
  rw [if_pos rfl] at record
  exact record

theorem System.setArguments_kept (system : System) (process : Addr) (given : ProcessArguments) :
    RecordsKept process system (system.setArguments process given) := by
  refine ⟨rfl, rfl, rfl, ?_⟩
  rw [System.setArguments_record]

section Inject
variable {oracle : Oracle} {before state middle after : System} {process argv root : Addr} {size : Word}
  {arguments : List (List Byte)}

theorem DataTaken.injecting (taken : DataTaken oracle state middle process argv size) (grows : before.Grows state)
    (aligned : PageAligned argv) : Injecting oracle before middle process argv 0 := by
  have picked := taken.picked
  have nonnull := taken.nonnull
  refine ⟨grows.trans taken.grows, aligned, fun address spared => ?_, ?_⟩
  · rw [picked] at nonnull ⊢
    exact spared state _ grows nonnull
  · have fewer := taken.slots
    have all := emptySlots_le state.kernel process
    omega

theorem processInjectLinked_ends (grows : before.Grows state) (blocks : ∀ system size, PageAligned (oracle.pick system size))
    (listed : ArgumentList state.kernel.memory.bytes (oracle.Spared before) root arguments) {fuel : Nat} {res : Int}
    (run : oracle.below.processInjectLinked fuel process root state = (.ok (some res), after)) :
    after.kernel.processes = state.kernel.processes ∧
      (res = 0 ∧ oracle.ServesArguments process arguments state ∨ res < 0) := by
  unfold Below.processInjectLinked processCountCommandArguments at run
  rw [below_read_bind] at run
  by_cases few : fuel < arguments.length
  · rw [listed.counted_short fuel 0 few] at run
    cases run
  rw [listed.counted fuel 0 (not_lt.mp few), Nat.zero_add] at run
  dsimp only at run
  split at run
  · cases run
    exact ⟨rfl, Or.inr (by decide)⟩
  · obtain ⟨argv, middle, call, rest⟩ := bind_eq_ok run
    by_cases null : argv = 0
    · rw [if_pos null] at rest
      cases rest
      rcases processMalloc_below_ends call with ⟨_, rfl⟩ | ⟨full, _⟩
      · exact ⟨rfl, Or.inr (by decide)⟩
      · exact absurd null full
    · rw [if_neg null] at rest
      have taken := processMalloc_below_taken call null
      have aligned : PageAligned argv := taken.picked ▸ blocks state _
      have same : middle.kernel.memory.bytes = state.kernel.memory.bytes := congrArg Memory.bytes taken.memory
      obtain ⟨ended, filled, loop, last⟩ := bind_eq_ok rest
      have result : ended = some res ∧ after.kernel.processes = filled.kernel.processes := by
        split at last <;> cases last <;> exact ⟨rfl, rfl⟩
      obtain ⟨rfl, unchanged⟩ := result
      obtain ⟨processes, ends⟩ := (taken.injecting grows aligned).loop_ends blocks (same ▸ listed) loop
      refine ⟨unchanged.trans (processes.trans taken.kept.processes), ends.imp (fun served => ?_) id⟩
      exact ⟨served.1, argv, middle, call, null, served.2⟩

/-- A list that goes on keeps the injection from ending. -/
theorem processInjectLinked_endless (endless : ∀ k, argumentAt state.kernel.memory.bytes root k ≠ 0) (fuel : Nat) :
    oracle.below.processInjectLinked fuel process root state = (.ok none, state) := by
  unfold Below.processInjectLinked processCountCommandArguments
  rw [below_read_bind, counted_endless endless]
  rfl

theorem processInjectLinked_serves (grows : before.Grows state) (blocks : ∀ system size, PageAligned (oracle.pick system size))
    (nonempty : arguments ≠ [])
    (listed : ArgumentList state.kernel.memory.bytes (oracle.Spared before) root arguments)
    (serves : oracle.ServesArguments process arguments state) :
    ∃ after, (∀ fuel, arguments.length ≤ fuel →
        oracle.below.processInjectLinked fuel process root state = (.ok (some 0), after)) ∧
      RecordsKept process state after ∧ ArgumentsGiven after process arguments := by
  obtain ⟨argv, middle, call, nonnull, strings⟩ := serves
  have taken := processMalloc_below_taken call nonnull
  have aligned : PageAligned argv := taken.picked ▸ blocks state _
  have same : middle.kernel.memory.bytes = state.kernel.memory.bytes := congrArg Memory.bytes taken.memory
  have injecting := taken.injecting grows aligned
  have small := injecting.count strings
  have positive : 0 < arguments.length := List.length_pos_iff.mpr nonempty
  unfold peachosMaxProgramAllocations at small
  have value : (BitVec.ofNat 32 arguments.length).toNat = arguments.length := by
    rw [BitVec.toNat_ofNat]
    omega
  have argc : BitVec.ofNat 32 arguments.length ≠ 0 := by
    intro zero
    rw [zero] at value
    exact positive.ne value
  have roundable : Roundable (4 * BitVec.ofNat 32 arguments.length) := by
    have product : 4 * BitVec.ofNat 32 arguments.length = BitVec.ofNat 32 (4 * arguments.length) :=
      (BitVec.ofNat_mul 4 _).symm
    rw [product]
    exact roundable_argv positive.ne' (by omega)
  obtain ⟨filled, run, kept, copied⟩ := injecting.loop_serves (taken.used roundable) blocks (same ▸ listed) (fun k => (text_getD listed.texts k).1)
    (Nat.zero_le _) rfl (fun k none => absurd none (Nat.not_lt_zero k)) strings
  refine ⟨filled.setArguments process ⟨BitVec.ofNat 32 arguments.length, argv⟩, fun fuel enough => ?_,
    (taken.kept.trans kept).trans (filled.setArguments_kept _ _), ?_, fun k bound => ?_⟩
  · have counted := listed.counted fuel 0 enough
    rw [Nat.zero_add] at counted
    unfold Below.processInjectLinked processCountCommandArguments
    rw [below_read_bind, counted]
    dsimp only
    rw [if_neg argc, bind_ok call, if_neg nonnull, bind_ok (run fuel enough), if_pos rfl, below_update_bind]
    rfl
  · rw [System.setArguments_record]
    exact value
  · rw [System.setArguments_record]
    obtain ⟨ptr, pointer, holds, _⟩ := copied k bound
    rw [← pointer] at holds
    exact holds

theorem processInjectLinked_listed (grows : before.Grows state) (blocks : ∀ system size, PageAligned (oracle.pick system size))
    (listed : ArgumentList state.kernel.memory.bytes (oracle.Spared before) root arguments)
    (few : arguments.length < 2 ^ 32) {fuel : Nat} (enough : arguments.length ≤ fuel) :
    oracle.below.processInjectLinked fuel process root state =
      (oracle.below.processInjectArguments process arguments >>= fun res => pure (some res)) state := by
  have counted := listed.counted fuel 0 enough
  rw [Nat.zero_add] at counted
  have argc : BitVec.ofNat 32 arguments.length = 0 ↔ arguments.length = 0 := by
    constructor
    · intro zero
      have value := congrArg BitVec.toNat zero
      rwa [BitVec.toNat_ofNat, Nat.mod_eq_of_lt few] at value
    · intro zero
      rw [zero]
      rfl
  have size : 4 * BitVec.ofNat 32 arguments.length = BitVec.ofNat 32 (4 * arguments.length) := (BitVec.ofNat_mul 4 _).symm
  unfold Below.processInjectLinked processCountCommandArguments Below.processInjectArguments
  rw [below_read_bind, counted]
  dsimp only
  by_cases none : arguments.length = 0
  · rw [if_pos (argc.mpr none), if_pos none]
    rfl
  rw [if_neg (mt argc.mp none), if_neg none, size, bind_assoc_run]
  refine bind_congr (fun argv middle call => ?_)
  by_cases null : argv = 0
  · rw [if_pos null, if_pos null]
    rfl
  have taken := processMalloc_below_taken call null
  have aligned : PageAligned argv := taken.picked ▸ blocks state _
  have same : middle.kernel.memory.bytes = state.kernel.memory.bytes := congrArg Memory.bytes taken.memory
  have injecting := taken.injecting grows aligned
  have lives := listed
  rw [← same] at lives
  have loop := injecting.loop_listed blocks lives enough
  rw [if_neg null, if_neg null, bind_assoc_run]
  rcases ended : oracle.below.processInjectLoop process argv 0 arguments middle with ⟨stopped | res, filled⟩
  · rw [bind_error ended] at loop
    rw [bind_error loop, bind_error ended]
  · rw [bind_ok ended] at loop
    rw [bind_ok loop, bind_ok ended]
    rcases (injecting.loop_ends blocks lives loop).2 with ⟨rfl, _⟩ | negative
    · rfl
    · rw [if_pos negative, if_neg (fun zero => negative.ne (Option.some.inj zero))]
      rfl

end Inject

end PeachOS
