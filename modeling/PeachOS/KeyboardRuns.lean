import PeachOS.HeapRoom
import PeachOS.Keyboard

/-! The keyboard buffers over any interleaving of pushes, pops and backspaces with
switches of the current process and of the running task. -/

namespace PeachOS
open Program Transition

/-- The buffer holds the characters of `unread`, the oldest at its head. -/
structure KeyboardBuffer.Unread (keyboard : KeyboardBuffer) (unread : List Byte) : Prop where
  ring : Ring.Holds peachosKeyboardBufferSize 0 keyboard.buffer keyboard.head.toNat unread
  tail : keyboard.tail = keyboard.head + BitVec.ofNat 32 unread.length

/-- The characters between the two counters, whose difference wraps as they do. -/
def KeyboardBuffer.unread (keyboard : KeyboardBuffer) : List Byte :=
  Ring.contents peachosKeyboardBufferSize keyboard.buffer keyboard.head.toNat
    (keyboard.tail - keyboard.head).toNat

section Unread
variable {keyboard : KeyboardBuffer} {unread : List Byte}

/-- The capacity divides `2 ^ 32`, so a counter that wraps stays on its slot. -/
theorem counter_slot (counter : Word) (count : Nat) :
    (counter + BitVec.ofNat 32 count).toNat % peachosKeyboardBufferSize =
      (counter.toNat + count) % peachosKeyboardBufferSize := by
  rw [BitVec.toNat_add, BitVec.toNat_ofNat]
  unfold peachosKeyboardBufferSize
  omega

theorem KeyboardBuffer.Unread.count (held : keyboard.Unread unread) :
    (keyboard.tail - keyboard.head).toNat = unread.length := by
  have short : unread.length ≤ 1024 := held.ring.short
  rw [held.tail]
  bv_omega

theorem KeyboardBuffer.Unread.eq (held : keyboard.Unread unread) : keyboard.unread = unread := by
  unfold KeyboardBuffer.unread
  rw [held.count]
  exact held.ring.contents

theorem KeyboardBuffer.Unread.tail_slot (held : keyboard.Unread unread) :
    keyboard.tail.toNat % peachosKeyboardBufferSize =
      (keyboard.head.toNat + unread.length) % peachosKeyboardBufferSize := by
  rw [held.tail]
  exact counter_slot _ _

theorem KeyboardBuffer.Unread.pushed (held : keyboard.Unread unread) {c : Byte} (proper : c ≠ 0)
    (room : unread.length < peachosKeyboardBufferSize) :
    (keyboard.pushed c).Unread (unread ++ [c]) := by
  constructor
  · unfold KeyboardBuffer.pushed
    rw [held.tail_slot]
    exact held.ring.push room proper
  · show keyboard.tail + 1 = keyboard.head + _
    rw [held.tail, List.length_append, List.length_singleton]
    bv_omega

theorem KeyboardBuffer.Unread.front (held : keyboard.Unread unread) :
    keyboard.front = unread.headD 0 := held.ring.front (by decide)

theorem KeyboardBuffer.Unread.front_eq_zero_iff (held : keyboard.Unread unread) :
    keyboard.front = 0 ↔ unread = [] := held.ring.head_blank_iff (by decide)

theorem KeyboardBuffer.Unread.popped {first : Byte} {rest : List Byte}
    (held : keyboard.Unread (first :: rest)) : keyboard.popped.Unread rest := by
  constructor
  · exact held.ring.pop.shift (counter_slot keyboard.head 1)
  · show keyboard.tail = keyboard.head + 1 + _
    rw [held.tail, List.length_cons]
    bv_omega

theorem KeyboardBuffer.Unread.backspaced {last : Byte} (held : keyboard.Unread (unread ++ [last])) :
    keyboard.backspaced.Unread unread := by
  have tail : keyboard.tail - 1 = keyboard.head + BitVec.ofNat 32 unread.length := by
    rw [held.tail, List.length_append, List.length_singleton]
    bv_omega
  constructor
  · unfold KeyboardBuffer.backspaced
    rw [tail, counter_slot]
    exact held.ring.dropLast
  · exact tail

end Unread

/-- `0 ≤ tail - head ≤ 1024`, and the slots of the positions from `head` on and below
`tail` are the ones that are not zero. -/
structure KeyboardBuffer.Wellformed (keyboard : KeyboardBuffer) : Prop where
  low : 0 ≤ (keyboard.tail - keyboard.head).toInt
  high : (keyboard.tail - keyboard.head).toInt ≤ peachosKeyboardBufferSize
  used : ∀ k < peachosKeyboardBufferSize,
    keyboard.buffer ((keyboard.head.toNat + k) % peachosKeyboardBufferSize) ≠ 0 ↔
      k < (keyboard.tail - keyboard.head).toNat

theorem KeyboardBuffer.wellformed_count {difference : Word} :
    (0 ≤ difference.toInt ∧ difference.toInt ≤ peachosKeyboardBufferSize) ↔
      difference.toNat ≤ peachosKeyboardBufferSize := by
  have bound := difference.isLt
  rw [BitVec.toInt_eq_toNat_cond]
  unfold peachosKeyboardBufferSize
  split <;> omega

theorem KeyboardBuffer.wellformed_iff {keyboard : KeyboardBuffer} :
    keyboard.Wellformed ↔ ∃ unread, keyboard.Unread unread := by
  constructor
  · intro formed
    have short := KeyboardBuffer.wellformed_count.mp ⟨formed.low, formed.high⟩
    obtain ⟨_, ring⟩ := Ring.holds_contents_iff.mp ⟨short, formed.used⟩
    refine ⟨keyboard.unread, ring, ?_⟩
    have length : keyboard.unread.length = (keyboard.tail - keyboard.head).toNat := by
      simp [KeyboardBuffer.unread, Ring.contents]
    rw [length, BitVec.ofNat_toNat, BitVec.setWidth_eq]
    bv_omega
  · rintro ⟨unread, held⟩
    have short := held.ring.short
    rw [← held.count] at short
    have ring := held.ring
    rw [← held.eq] at ring
    have formed := Ring.holds_contents_iff.mpr ⟨short, ring⟩
    exact ⟨(KeyboardBuffer.wellformed_count.mpr short).1, (KeyboardBuffer.wellformed_count.mpr short).2,
      formed.2⟩

/-- Every process's buffer holds its queue. -/
def QueuesHold (kernel : Kernel) (queues : Addr → List Byte) : Prop :=
  ∀ process, (kernel.keyboard process).Unread (queues process)

section Queues
variable {kernel after : Kernel} {queues : Addr → List Byte} {process : Addr}

theorem QueuesHold.set (held : QueuesHold kernel queues) {keyboard : KeyboardBuffer}
    {queue : List Byte} (new : keyboard.Unread queue) :
    QueuesHold (kernel.setKeyboard process keyboard) (Function.update queues process queue) := by
  intro other
  rw [Kernel.setKeyboard_keyboard, Function.update_apply, Function.update_apply]
  split
  · exact new
  · exact held other

theorem QueuesHold.congr (held : QueuesHold kernel queues)
    (same : after.processRecords = kernel.processRecords) : QueuesHold after queues := by
  intro other
  unfold Kernel.keyboard
  rw [same]
  exact held other

theorem QueuesHold.pop (held : QueuesHold kernel queues) (running : kernel.currentTask ≠ 0) {c : Byte}
    (run : keyboardPop kernel = (.ok c, after)) : c = (queues kernel.owner).headD 0 ∧
      QueuesHold after (Function.update queues kernel.owner (queues kernel.owner).tail) := by
  have owner : kernel.owner ≠ 0 := by
    intro null
    rw [keyboardPop_null running null] at run
    cases run
  have buffer := held kernel.owner
  rw [keyboardPop_run running rfl owner, Prod.mk.injEq, Except.ok.injEq] at run
  obtain ⟨rfl, rfl⟩ := run
  refine ⟨buffer.front, ?_⟩
  change QueuesHold (if (kernel.keyboard kernel.owner).front = 0 then kernel
    else kernel.setKeyboard kernel.owner (kernel.keyboard kernel.owner).popped) _
  by_cases empty : (kernel.keyboard kernel.owner).front = 0
  · have none := buffer.front_eq_zero_iff.mp empty
    rw [if_pos empty, none, List.tail_nil]
    conv => rw [← none]
    rw [Function.update_eq_self]
    exact held
  · rw [if_neg empty]
    cases queue : queues kernel.owner with
    | nil => exact absurd (buffer.front_eq_zero_iff.mpr queue) empty
    | cons first rest =>
      rw [queue] at buffer
      exact held.set buffer.popped

theorem QueuesHold.push (held : QueuesHold kernel queues) {c : Byte}
    (nonnull : kernel.currentProcess ≠ 0) (proper : c ≠ 0)
    (room : (queues kernel.currentProcess).length < peachosKeyboardBufferSize)
    (run : keyboardPush c kernel = (.ok (), after)) : QueuesHold after
      (Function.update queues kernel.currentProcess (queues kernel.currentProcess ++ [c])) := by
  rw [keyboardPush_run nonnull proper, Prod.mk.injEq] at run
  rw [← run.2]
  exact held.set ((held kernel.currentProcess).pushed proper room)

theorem QueuesHold.backspace (held : QueuesHold kernel queues) (some : queues process ≠ [])
    (nonnull : process ≠ 0) (run : keyboardBackspace process kernel = (.ok (), after)) :
    QueuesHold after (Function.update queues process (queues process).dropLast) := by
  rw [keyboardBackspace_run nonnull, Prod.mk.injEq] at run
  rw [← run.2]
  have buffer := held process
  rw [← List.dropLast_append_getLast some] at buffer
  exact held.set buffer.backspaced

end Queues

/-- The kernel with what was pushed for each process and what its pops returned. -/
structure Keys where
  kernel : Kernel
  pushed : Addr → List Byte
  popped : Addr → List Byte

inductive KeyStep : Keys → Keys → Prop
  | push {keys : Keys} {after : Kernel} (c : Byte)
      (run : keyboardPush c keys.kernel = (.ok (), after)) :
      KeyStep keys ⟨after,
        if keys.kernel.currentProcess = 0 ∨ c = 0 then keys.pushed
        else Function.update keys.pushed keys.kernel.currentProcess
          (keys.pushed keys.kernel.currentProcess ++ [c]), keys.popped⟩
  | pop {keys : Keys} {after : Kernel} (c : Byte)
      (run : keyboardPop keys.kernel = (.ok c, after)) :
      KeyStep keys ⟨after, keys.pushed,
        if c = 0 then keys.popped
        else Function.update keys.popped keys.kernel.owner (keys.popped keys.kernel.owner ++ [c])⟩
  | switch {keys : Keys} {after : Kernel} (process : Addr)
      (run : processSwitch process keys.kernel = (.ok (), after)) :
      KeyStep keys ⟨after, keys.pushed, keys.popped⟩
  | run {keys : Keys} {after : Kernel} (task : Addr)
      (run : taskSwitch task keys.kernel = (.ok (), after)) :
      KeyStep keys ⟨after, keys.pushed, keys.popped⟩

/-- No process has more than 1024 unread characters. -/
def Keys.Bounded (keys : Keys) : Prop :=
  ∀ process, (keys.pushed process).length ≤ (keys.popped process).length + peachosKeyboardBufferSize

/-- Nothing was pushed yet and every buffer is empty, whatever its counters stand at. -/
structure Keys.Fresh (keys : Keys) : Prop where
  pushed : keys.pushed = fun _ => []
  popped : keys.popped = fun _ => []
  blank : ∀ process, ∀ i < peachosKeyboardBufferSize, (keys.kernel.keyboard process).buffer i = 0
  level : ∀ process, (keys.kernel.keyboard process).tail = (keys.kernel.keyboard process).head

/-- The buffers hold what was pushed and not popped yet. -/
def Keys.Delivering (keys : Keys) : Prop :=
  ∃ queues, QueuesHold keys.kernel queues ∧
    ∀ process, keys.popped process ++ queues process = keys.pushed process

theorem Keys.Fresh.delivering {keys : Keys} (fresh : keys.Fresh) : keys.Delivering := by
  refine ⟨fun _ => [], fun process => ⟨Ring.Holds.empty (fresh.blank process), ?_⟩, fun process => ?_⟩
  · rw [fresh.level process, List.length_nil]
    exact (BitVec.add_zero _).symm
  · rw [fresh.popped, fresh.pushed]
    rfl

theorem KeyStep.delivering {before after : Keys} (step : KeyStep before after)
    (bounded : after.Bounded) (held : before.Delivering) : after.Delivering := by
  obtain ⟨queues, hold, split⟩ := held
  cases step with
  | push c run =>
    by_cases ignored : before.kernel.currentProcess = 0 ∨ c = 0
    · rw [keyboardPush_ignored ignored, Prod.mk.injEq] at run
      rw [if_pos ignored, ← run.2]
      exact ⟨queues, hold, split⟩
    · rw [if_neg ignored] at bounded ⊢
      rw [not_or] at ignored
      have room := bounded before.kernel.currentProcess
      simp only [Function.update_self, List.length_append, List.length_singleton] at room
      rw [← split, List.length_append] at room
      refine ⟨_, hold.push ignored.1 ignored.2 (by omega) run, fun process => ?_⟩
      simp only [Function.update_apply]
      by_cases here : process = before.kernel.currentProcess
      · rw [if_pos here, if_pos here, here, ← List.append_assoc, split]
      · rw [if_neg here, if_neg here, split]
  | pop c run =>
    by_cases running : before.kernel.currentTask = 0
    · rw [keyboardPop_idle running, Prod.mk.injEq, Except.ok.injEq] at run
      rw [← run.1, ← run.2]
      exact ⟨queues, hold, split⟩
    · obtain ⟨front, popped⟩ := hold.pop running run
      refine ⟨_, popped, fun process => ?_⟩
      have owner := split before.kernel.owner
      have proper := (hold before.kernel.owner).ring.proper
      simp only [Function.update_apply]
      cases queue : queues before.kernel.owner with
      | nil =>
        rw [queue] at front
        rw [if_pos (show c = 0 from front)]
        by_cases here : process = before.kernel.owner
        · rw [if_pos here, here, List.tail_nil, ← queue, owner]
        · rw [if_neg here, split]
      | cons first rest =>
        rw [queue] at front owner proper
        rw [List.mem_cons, not_or] at proper
        rw [show c = first from front, if_neg (Ne.symm proper.1)]
        by_cases here : process = before.kernel.owner
        · rw [here, if_pos rfl, Function.update_self, List.tail_cons, List.append_assoc, ← owner]
          rfl
        · rw [if_neg here, Function.update_of_ne here, split]
  | switch process run =>
    refine ⟨queues, hold.congr ?_, split⟩
    unfold processSwitch at run
    rw [update_run, Prod.mk.injEq] at run
    rw [← run.2]
  | run task run => exact ⟨queues, hold.congr (taskSwitch_kept run).2.2.1, split⟩

/-- What the pops of a process returned, followed by its unread characters, is what was
pushed while it was the current process; and a pop returns zero exactly when its process
has nothing unread. -/
theorem keyboard_delivers {start last : Keys} (fresh : start.Fresh)
    (run : Run (fun before after => KeyStep before after ∧ after.Bounded) start last) :
    (∀ process, last.popped process ++ (last.kernel.keyboard process).unread = last.pushed process) ∧
      ∀ c after, last.kernel.currentTask ≠ 0 → keyboardPop last.kernel = (.ok c, after) →
        (c = 0 ↔ (last.kernel.keyboard last.kernel.owner).unread = []) := by
  obtain ⟨queues, hold, split⟩ := run.invariant Keys.Delivering
    (fun _ _ held step => step.1.delivering step.2 held) fresh.delivering
  refine ⟨fun process => ?_, fun c after running pop => ?_⟩
  · rw [(hold process).eq]
    exact split process
  · have owner := hold last.kernel.owner
    rw [owner.eq, ← owner.front_eq_zero_iff, owner.front, (hold.pop running pop).1]

/-- A process that is current and whose task runs. -/
def keyboardKernel : Kernel :=
  { bootKernel with
    currentProcess := 0x900000
    currentTask := 0x901000
    tasks := fun _ => { Task.zero with process := 0x900000 } }

theorem keyboardKernel_fresh : Keys.Fresh ⟨keyboardKernel, fun _ => [], fun _ => []⟩ :=
  ⟨rfl, rfl, fun _ _ _ => rfl, fun _ => rfl⟩

theorem keyboard_delivers_push : ∃ last : Keys,
    last.pushed 0x900000 = [97] ∧ last.popped 0x900000 = [] ∧
      (last.kernel.keyboard 0x900000).unread = [97] := by
  have current : keyboardKernel.currentProcess ≠ 0 := by decide
  have push := keyboardPush_run current (by decide : (97 : Byte) ≠ 0)
  have bounded : Keys.Bounded ⟨keyboardKernel.setKeyboard 0x900000
      ((keyboardKernel.keyboard 0x900000).pushed 97),
      Function.update (fun _ => []) 0x900000 [97], fun _ => []⟩ := by
    intro process
    dsimp only
    rw [Function.update_apply]
    split <;> decide
  have delivered := (keyboard_delivers keyboardKernel_fresh
    (Relation.ReflTransGen.single ⟨KeyStep.push 97 push, bounded⟩)).1 0x900000
  exact ⟨_, rfl, rfl, delivered⟩

/-- A call on the keyboard buffers, or a switch between processes or tasks. -/
inductive KeyCall where
  | push (c : Byte)
  | pop
  | backspace (process : Addr)
  | switch (process : Addr)
  | run (task : Addr)

def KeyCall.exec : KeyCall → KernelProg Unit
  | push c => keyboardPush c
  | pop => do
      let _ ← keyboardPop
      pure ()
  | backspace process => keyboardBackspace process
  | switch process => processSwitch process
  | run task => taskSwitch task

/-- What a call means for the queues of unread characters. -/
def KeyCall.queues (kernel : Kernel) (queues : Addr → List Byte) : KeyCall → Addr → List Byte
  | push c =>
      if kernel.currentProcess = 0 ∨ c = 0 then queues
      else Function.update queues kernel.currentProcess (queues kernel.currentProcess ++ [c])
  | pop =>
      if kernel.currentTask = 0 then queues
      else Function.update queues kernel.owner (queues kernel.owner).tail
  | backspace process => Function.update queues process (queues process).dropLast
  | switch _ => queues
  | run _ => queues

/-- A push finds room and a backspace finds an unread character. -/
def KeyCall.Fits (kernel : Kernel) (queues : Addr → List Byte) : KeyCall → Prop
  | push c => kernel.currentProcess = 0 ∨ c = 0 ∨
      (queues kernel.currentProcess).length < peachosKeyboardBufferSize
  | backspace process => queues process ≠ []
  | _ => True

inductive QueueStep : Kernel × (Addr → List Byte) → Kernel × (Addr → List Byte) → Prop
  | call {kernel after : Kernel} {queues : Addr → List Byte} (call : KeyCall)
      (fits : call.Fits kernel queues) (run : call.exec kernel = (.ok (), after)) :
      QueueStep (kernel, queues) (after, call.queues kernel queues)

section Calls
variable {kernel after : Kernel} {queues : Addr → List Byte}

theorem KeyCall.backspace_nonnull {process : Addr}
    (run : keyboardBackspace process kernel = (.ok (), after)) : process ≠ 0 := by
  rintro rfl
  unfold keyboardBackspace at run
  rw [if_pos rfl] at run
  cases run

theorem KeyCall.holds (call : KeyCall) (held : QueuesHold kernel queues)
    (fits : call.Fits kernel queues) (run : call.exec kernel = (.ok (), after)) :
    QueuesHold after (call.queues kernel queues) := by
  cases call with
  | push c =>
    dsimp only [KeyCall.queues]
    by_cases ignored : kernel.currentProcess = 0 ∨ c = 0
    · have same : keyboardPush c kernel = (.ok (), after) := run
      rw [keyboardPush_ignored ignored, Prod.mk.injEq] at same
      rw [if_pos ignored, ← same.2]
      exact held
    · rw [if_neg ignored]
      rw [not_or] at ignored
      exact held.push ignored.1 ignored.2 ((fits.resolve_left ignored.1).resolve_left ignored.2) run
  | pop =>
    dsimp only [KeyCall.queues]
    obtain ⟨c, middle, pop, last⟩ := bind_eq_ok run
    rw [pure_run, Prod.mk.injEq] at last
    rw [← last.2]
    by_cases running : kernel.currentTask = 0
    · rw [keyboardPop_idle running, Prod.mk.injEq] at pop
      rw [if_pos running, ← pop.2]
      exact held
    · rw [if_neg running]
      exact (held.pop running pop).2
  | backspace process => exact held.backspace fits (backspace_nonnull run) run
  | switch process =>
    have same : processSwitch process kernel = (.ok (), after) := run
    unfold processSwitch at same
    rw [update_run, Prod.mk.injEq] at same
    rw [← same.2]
    exact held.congr rfl
  | run task => exact held.congr (taskSwitch_kept run).2.2.1

/-- A push into a full buffer and a backspace in an empty one break it. -/
theorem KeyCall.fits_of_wellformed (call : KeyCall) (held : QueuesHold kernel queues)
    (run : call.exec kernel = (.ok (), after))
    (formed : ∀ process, (after.keyboard process).Wellformed) : call.Fits kernel queues := by
  cases call with
  | push c =>
    by_cases ignored : kernel.currentProcess = 0 ∨ c = 0
    · rcases ignored with null | zero
      · exact Or.inl null
      · exact Or.inr (Or.inl zero)
    · rw [not_or] at ignored
      have same : keyboardPush c kernel = (.ok (), after) := run
      rw [keyboardPush_run ignored.1 ignored.2, Prod.mk.injEq] at same
      have broken := formed kernel.currentProcess
      rw [← same.2, Kernel.setKeyboard_keyboard, Function.update_self] at broken
      have count := KeyboardBuffer.wellformed_count.mp ⟨broken.low, broken.high⟩
      have buffer := held kernel.currentProcess
      have short : (queues kernel.currentProcess).length ≤ 1024 := buffer.ring.short
      have tail := buffer.tail
      unfold KeyboardBuffer.pushed peachosKeyboardBufferSize at count
      dsimp only at count
      rw [tail] at count
      refine Or.inr (Or.inr ?_)
      unfold peachosKeyboardBufferSize
      bv_omega
  | backspace process =>
    intro empty
    have same : keyboardBackspace process kernel = (.ok (), after) := run
    rw [keyboardBackspace_run (backspace_nonnull run), Prod.mk.injEq] at same
    have broken := formed process
    rw [← same.2, Kernel.setKeyboard_keyboard, Function.update_self] at broken
    have count := KeyboardBuffer.wellformed_count.mp ⟨broken.low, broken.high⟩
    have tail := (held process).tail
    rw [empty, List.length_nil] at tail
    unfold KeyboardBuffer.backspaced peachosKeyboardBufferSize at count
    dsimp only at count
    rw [tail] at count
    bv_omega
  | pop => trivial
  | switch _ => trivial
  | run _ => trivial

end Calls

/-- Over calls that fit, every buffer is well formed and holds the queue that the calls
built up, so a pop returns its oldest character; and a call keeps this up exactly when it
fits. -/
theorem keyboard_wellformed {start last : Kernel × (Addr → List Byte)}
    (begins : QueuesHold start.1 start.2) (run : Run QueueStep start last) :
    (∀ process, (last.1.keyboard process).Wellformed ∧
      (last.1.keyboard process).unread = last.2 process) ∧
    (∀ c after, last.1.currentTask ≠ 0 → keyboardPop last.1 = (.ok c, after) →
      c = (last.2 last.1.owner).headD 0) ∧
    ∀ (call : KeyCall) (after : Kernel), call.exec last.1 = (.ok (), after) →
      ((∀ process, (after.keyboard process).Wellformed) ↔ call.Fits last.1 last.2) := by
  have held : QueuesHold last.1 last.2 := run.invariant (fun state => QueuesHold state.1 state.2)
    (fun _ _ held step => by
      cases step with
      | call call fits run => exact call.holds held fits run) begins
  refine ⟨fun process => ⟨KeyboardBuffer.wellformed_iff.mpr ⟨_, held process⟩, (held process).eq⟩,
    fun c after running pop => (held.pop running pop).1, fun call after exec => ⟨?_, ?_⟩⟩
  · exact call.fits_of_wellformed held exec
  · intro fits process
    exact KeyboardBuffer.wellformed_iff.mpr ⟨_, call.holds held fits exec process⟩

theorem keyboardKernel_holds : QueuesHold keyboardKernel (fun _ => []) :=
  fun _ => ⟨Ring.Holds.empty (fun _ _ => rfl), rfl⟩

theorem keyboard_wellformed_push : ∃ last : Kernel × (Addr → List Byte),
    last.2 0x900000 = [97] ∧ (last.1.keyboard 0x900000).Wellformed := by
  have current : keyboardKernel.currentProcess ≠ 0 := by decide
  have push := keyboardPush_run current (by decide : (97 : Byte) ≠ 0)
  have fits : (KeyCall.push 97).Fits keyboardKernel (fun _ => []) := Or.inr (Or.inr (by decide))
  have step := QueueStep.call (KeyCall.push 97) fits push
  have formed := (keyboard_wellformed keyboardKernel_holds (Relation.ReflTransGen.single step)).1
  exact ⟨_, rfl, (formed 0x900000).1⟩

/-- A backspace in an empty buffer moves the tail below the head. -/
theorem keyboardBackspace_breaks : ¬∀ (kernel after : Kernel) (process : Addr),
    (kernel.keyboard process).Wellformed → keyboardBackspace process kernel = (.ok (), after) →
      (after.keyboard process).Wellformed := by
  intro always
  have nonnull : (0x900000 : Addr) ≠ 0 := by decide
  have formed := always keyboardKernel _ 0x900000
    (KeyboardBuffer.wellformed_iff.mpr ⟨[], keyboardKernel_holds 0x900000⟩)
    (keyboardBackspace_run nonnull)
  rw [Kernel.setKeyboard_keyboard, Function.update_self] at formed
  have low := formed.low
  have difference : (keyboardKernel.keyboard 0x900000).backspaced.tail -
      (keyboardKernel.keyboard 0x900000).backspaced.head = -1 := rfl
  rw [difference] at low
  exact absurd low (by decide)

end PeachOS
