import PeachOS.Lib.Ring
import PeachOS.Process

/-! The keyboard buffers of processes, from `keyboard/keyboard.c`. -/

namespace PeachOS
open Program

abbrev peachosKeyboardBufferSize : Nat := 1024

/-- `sizeof` makes the division unsigned, whatever the sign of the counter. -/
def keyboardGetTailIndex (process : Process) : Nat :=
  process.keyboard.tail.toNat % peachosKeyboardBufferSize

def Process.withKeyboard (process : Process) (change : KeyboardBuffer → KeyboardBuffer) : Process :=
  { process with keyboard := change process.keyboard }

def keyboardBackspace (process : Addr) : KernelProg Unit := do
  if process = 0 then fault
  else
    update (fun kernel => kernel.setProcess process (·.withKeyboard (fun keyboard =>
      { keyboard with tail := keyboard.tail - 1 })))
    let realIndex ← read (fun kernel => keyboardGetTailIndex (kernel.processRecords process))
    update (fun kernel => kernel.setProcess process (·.withKeyboard (fun keyboard =>
      { keyboard with buffer := Function.update keyboard.buffer realIndex 0x00 })))

def keyboardPush (c : Byte) : KernelProg Unit := do
  let process ← processCurrent
  if process = 0 then pure ()
  else if c = 0x00 then pure ()
  else
    let realIndex ← read (fun kernel => keyboardGetTailIndex (kernel.processRecords process))
    update (fun kernel => kernel.setProcess process (·.withKeyboard (fun keyboard =>
      { keyboard with buffer := Function.update keyboard.buffer realIndex c })))
    update (fun kernel => kernel.setProcess process (·.withKeyboard (fun keyboard =>
      { keyboard with tail := keyboard.tail + 1 })))

def keyboardPop : KernelProg Byte := do
  let task ← read Kernel.currentTask
  if task = 0 then pure 0
  else
    let process ← read (fun kernel => (kernel.tasks task).process)
    if process = 0 then fault
    else
      let keyboard ← read (fun kernel => (kernel.processRecords process).keyboard)
      let realIndex := keyboard.head.toNat % peachosKeyboardBufferSize
      let c := keyboard.buffer realIndex
      if c = 0x00 then pure 0
      else
        update (fun kernel => kernel.setProcess process (·.withKeyboard (fun keyboard =>
          { keyboard with buffer := Function.update keyboard.buffer realIndex 0 })))
        update (fun kernel => kernel.setProcess process (·.withKeyboard (fun keyboard =>
          { keyboard with head := keyboard.head + 1 })))
        pure c

theorem taskSwitch_kept {kernel after : Kernel} {task : Addr}
    (run : taskSwitch task kernel = (.ok (), after)) : after.screen = kernel.screen ∧
      after.tasks = kernel.tasks ∧ after.processRecords = kernel.processRecords ∧
      after.currentTask = task := by
  unfold taskSwitch at run
  split at run
  · cases run
  · rw [update_bind, read_bind] at run
    unfold Kernel.pagingSwitch at run
    split at run
    · cases run
    · rw [update_run, Prod.mk.injEq] at run
      rw [← run.2]
      exact ⟨rfl, rfl, rfl, rfl⟩

/-- What the three calls do to the buffer that they work on. -/
def KeyboardBuffer.backspaced (keyboard : KeyboardBuffer) : KeyboardBuffer where
  buffer := Function.update keyboard.buffer ((keyboard.tail - 1).toNat % peachosKeyboardBufferSize) 0
  tail := keyboard.tail - 1
  head := keyboard.head

def KeyboardBuffer.pushed (keyboard : KeyboardBuffer) (c : Byte) : KeyboardBuffer where
  buffer := Function.update keyboard.buffer (keyboard.tail.toNat % peachosKeyboardBufferSize) c
  tail := keyboard.tail + 1
  head := keyboard.head

def KeyboardBuffer.popped (keyboard : KeyboardBuffer) : KeyboardBuffer where
  buffer := Function.update keyboard.buffer (keyboard.head.toNat % peachosKeyboardBufferSize) 0
  tail := keyboard.tail
  head := keyboard.head + 1

/-- The character at the head, zero when there is none. -/
def KeyboardBuffer.front (keyboard : KeyboardBuffer) : Byte :=
  keyboard.buffer (keyboard.head.toNat % peachosKeyboardBufferSize)

def Kernel.keyboard (kernel : Kernel) (process : Addr) : KeyboardBuffer :=
  (kernel.processRecords process).keyboard

def Kernel.setKeyboard (kernel : Kernel) (process : Addr) (keyboard : KeyboardBuffer) : Kernel :=
  kernel.setProcess process (·.withKeyboard (fun _ => keyboard))

/-- The process of the running task. -/
def Kernel.owner (kernel : Kernel) : Addr := (kernel.tasks kernel.currentTask).process

theorem Kernel.setKeyboard_keyboard (kernel : Kernel) (process : Addr) (keyboard : KeyboardBuffer) :
    (kernel.setKeyboard process keyboard).keyboard =
      Function.update kernel.keyboard process keyboard := by
  funext other
  unfold Kernel.keyboard Kernel.setKeyboard
  rw [Kernel.setProcess_records, Function.update_apply]
  split <;> rfl

section Calls
variable {kernel : Kernel} {process task : Addr}

theorem Kernel.setProcess_twice (kernel : Kernel) (process : Addr) (first second : Process → Process) :
    (kernel.setProcess process first).setProcess process second =
      kernel.setProcess process (second ∘ first) := by
  unfold Kernel.setProcess
  simp only [Function.update_self, Function.update_idem, Function.comp_apply]

theorem keyboardBackspace_run (nonnull : process ≠ 0) : keyboardBackspace process kernel =
    (.ok (), kernel.setKeyboard process (kernel.keyboard process).backspaced) := by
  unfold keyboardBackspace
  rw [if_neg nonnull, update_bind, read_bind, update_run, Kernel.setProcess_twice]
  simp only [Kernel.setProcess, Function.update_self]
  rfl

theorem keyboardPush_run (nonnull : kernel.currentProcess ≠ 0) {c : Byte} (proper : c ≠ 0) :
    keyboardPush c kernel = (.ok (), kernel.setKeyboard kernel.currentProcess
      ((kernel.keyboard kernel.currentProcess).pushed c)) := by
  unfold keyboardPush processCurrent
  rw [read_bind, if_neg nonnull, if_neg proper, read_bind, update_bind, update_run,
    Kernel.setProcess_twice]
  rfl

theorem keyboardPush_ignored {c : Byte} (ignored : kernel.currentProcess = 0 ∨ c = 0) :
    keyboardPush c kernel = (.ok (), kernel) := by
  unfold keyboardPush processCurrent
  rw [read_bind]
  by_cases null : kernel.currentProcess = 0
  · rw [if_pos null]
    rfl
  · rw [if_neg null, if_pos (ignored.resolve_left null)]
    rfl

theorem keyboardPop_run (running : kernel.currentTask ≠ 0)
    (owner : (kernel.tasks kernel.currentTask).process = process) (nonnull : process ≠ 0) :
    keyboardPop kernel = (.ok (kernel.keyboard process).front,
      if (kernel.keyboard process).front = 0 then kernel
      else kernel.setKeyboard process (kernel.keyboard process).popped) := by
  unfold keyboardPop
  rw [read_bind, if_neg running, read_bind, owner, if_neg nonnull, read_bind]
  by_cases empty : (kernel.keyboard process).front = 0
  · rw [if_pos empty, empty]
    exact congrFun (if_pos empty) kernel
  · rw [if_neg empty]
    refine (congrFun (if_neg empty) kernel).trans ?_
    rw [update_bind, update_bind, Kernel.setProcess_twice]
    rfl

theorem keyboardPop_null (running : kernel.currentTask ≠ 0)
    (null : (kernel.tasks kernel.currentTask).process = 0) :
    keyboardPop kernel = (.error .fault, kernel) := by
  unfold keyboardPop
  rw [read_bind, if_neg running, read_bind, if_pos null]
  rfl

theorem keyboardPop_idle (idle : kernel.currentTask = 0) : keyboardPop kernel = (.ok 0, kernel) := by
  unfold keyboardPop
  rw [read_bind, if_pos idle]
  rfl

end Calls

end PeachOS
