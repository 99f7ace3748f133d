import PeachOS.Preemption

/-! A task that the kernel interrupts goes on with the registers it had, whichever way the kernel goes
back to it and whatever it serves in between. -/

namespace PeachOS
open Program ByteMemory Cpu Transition

def interruptFrame (user : Machine) (number site : Word) : InterruptFrame :=
  loadFrame (enterHandler user number site).bytes
    ((enterHandler user number site).load ((enterHandler user number site).reg .esp + 8))

/-- The entry code: the gate of `int 80h`, or `int%1` of another number. -/
inductive EntryCode where
  | isr80hWrapper
  | int (number : Word)

/-- User code comes into the kernel: by a harmless system call, or by an interrupt that has a
callback. -/
inductive EntersKernel (oracle : Oracle) (caller : Caller) (user : Machine) (before : System) :
    EntryCode → CommandEnd → System → Prop where
  | call {ended : CommandEnd} {after : System} (site : Word)
      (harmless : before.Harmless caller (callCommand user site))
      (run : oracle.below.isr80hHandler caller (callCommand user site) (callFrame user site) before =
        (.ok ended, after)) : EntersKernel oracle caller user before .isr80hWrapper ended after
  | interrupt {ended : CommandEnd} {after : System} (c : Int) (key : Option Byte) (number site : Word)
      (registered : number.toNat ≤ 0x21)
      (run : oracle.below.interruptHandler caller c key number.toNat (interruptFrame user number site) before =
        (.ok ended, after)) : EntersKernel oracle caller user before (.int number) ended after

/-- The kernel ends in a `task_return` to the task: at once, or after it served other tasks. -/
inductive Away (task : Addr) : CommandEnd → System → System → Prop where
  | atOnce (after : System) : Away task (.taskReturn (taskRegisters task)) after after
  | later {registers : Addr} {after last final : System} (live : task ∈ after.liveTasks)
      (waits : Run (Waits task) after last) (other : last.kernel.currentTask ≠ task)
      (serves : Serves System.Harmless (.taskReturn (taskRegisters task)) last final) :
      Away task (.taskReturn registers) after final

/-- The handler comes back to the entry code: the stack is as that code left it, the frame too. -/
structure HandlerBack (user : Machine) (number site : Word) (back : Machine) : Prop where
  stack : back.reg .esp = kernelFrame - 8
  frame : loadFrame back.bytes kernelFrame = loadFrame (enterHandler user number site).bytes kernelFrame

/-- The ways in which the running task goes on in user mode: the state of the kernel by then, the registers
that are due to it, and the machine. -/
inductive GoesOn (oracle : Oracle) (caller : Caller) (user : Machine) (before : System) :
    EntryCode → System → Registers → Machine → Prop where
  | isr80hWrapper {value : Word} {after : System} {back : Machine} (site tmpRes : Word) (harmless : before.Harmless caller (callCommand user site))
      (run : oracle.below.isr80hHandler caller (callCommand user site) (callFrame user site) before =
        (.ok (.result value), after))
      (back_at : HandlerBack user (user.reg .eax) site back) (eax : back.reg .eax = value)
      (aligned : tmpRes.toNat % 4 = 0) (apart : tmpRes.toNat + 4 ≤ kernelFrame.toNat) :
      GoesOn oracle caller user before .isr80hWrapper after { userRegisters user with eax := value }
        (exec back (isr80hExit tmpRes)).iret
  | interrupt {value : Word} {after : System} {back : Machine} (c : Int) (key : Option Byte) (number site : Word)
      (run : oracle.below.interruptHandler caller c key number.toNat (interruptFrame user number site) before =
        (.ok (.result value), after))
      (back_at : HandlerBack user number site back) :
      GoesOn oracle caller user before (.int number) after (userRegisters user) (exec back interruptExit).iret
  | taskReturn {entryCode : EntryCode} {ended : CommandEnd} {after final : System} {bottom : Machine} (returnSite : Word)
      (enters : EntersKernel oracle caller user before entryCode ended after)
      (away : Away before.kernel.currentTask ended after final)
      (entry : AtTaskReturn final before.kernel.currentTask bottom) :
      GoesOn oracle caller user before entryCode final { userRegisters user with flags := bottom.eflags ||| 0x200 }
        (exec bottom (PeachOS.taskReturn returnSite)).iret

section Exit
variable {user back : Machine} {number site tmpRes : Word}

theorem interruptFrame_saved (user : Machine) (number site : Word) :
    (interruptFrame user number site).saved = userRegisters user := by
  unfold interruptFrame
  rw [enterHandler_frame, enterHandler_saved]

theorem HandlerBack.interruptExit (back_at : HandlerBack user number site back) :
    userRegisters (exec back PeachOS.interruptExit).iret = userRegisters user := by
  rw [interruptExit_loads back_at.stack, back_at.frame, enterHandler_saved]

/-- The result of a call is kept outside the frame. -/
theorem loadFrame_store {bytes : Bytes} {value : Word} (aligned : tmpRes.toNat % 4 = 0)
    (apart : tmpRes.toNat + 4 ≤ kernelFrame.toNat) :
    loadFrame (store32 bytes tmpRes value) kernelFrame = loadFrame bytes kernelFrame := by
  have frame : kernelFrame.toNat = 0x5fffcc := rfl
  have field : ∀ offset : Word, offset.toNat % 4 = 0 → offset.toNat < 52 →
      load32 (store32 bytes tmpRes value) (kernelFrame + offset) = load32 bytes (kernelFrame + offset) := by
    intro offset multiple bound
    have place : (kernelFrame + offset).toNat = 0x5fffcc + offset.toNat := by
      rw [BitVec.toNat_add, frame]
      omega
    apply load32_store32_ne
    · exact aligned
    · omega
    · rintro same
      rw [same] at place
      omega
  have base := field 0 (by decide) (by decide)
  rw [show kernelFrame + 0 = kernelFrame from rfl] at base
  unfold loadFrame
  rw [base]
  congr 1 <;> exact field _ (by decide) (by decide)

theorem userRegisters_iret_setReg (machine : Machine) (value : Word) :
    userRegisters (machine.setReg .eax value).iret = { userRegisters machine.iret with eax := value } := by
  unfold userRegisters
  apply Registers.ext <;> simp [Machine.iret, Machine.setReg, Machine.load]

theorem isr80hExit_eq (machine : Machine) (tmpRes : Word) :
    exec machine (isr80hExit tmpRes) =
      (exec (Instr.exec machine (.storeTo tmpRes .eax)) interruptExit).setReg .eax (machine.reg .eax) := by
  have stored : load32 (store32 machine.bytes tmpRes (machine.reg .eax)) tmpRes = machine.reg .eax :=
    load32_store32 _ _ _
  rw [← stored]
  rfl

theorem HandlerBack.isr80hExit (back_at : HandlerBack user number site back) (aligned : tmpRes.toNat % 4 = 0)
    (apart : tmpRes.toNat + 4 ≤ kernelFrame.toNat) :
    userRegisters (exec back (PeachOS.isr80hExit tmpRes)).iret =
      { userRegisters user with eax := back.reg .eax } := by
  rw [isr80hExit_eq, userRegisters_iret_setReg]
  have stored : HandlerBack user number site (Instr.exec back (.storeTo tmpRes .eax)) :=
    ⟨back_at.stack, (loadFrame_store aligned apart).trans back_at.frame⟩
  rw [stored.interruptExit]

end Exit

section Resumes
variable {oracle : Oracle} {caller : Caller} {user resumed : Machine} {before after final : System}
  {ended : CommandEnd} {task : Addr} {expected : Registers} {entryCode : EntryCode}

theorem EntersKernel.serves (enters : EntersKernel oracle caller user before entryCode ended after) :
    Serves System.Harmless ended before after := by
  cases enters with
  | call site harmless run => exact .call oracle caller _ _ ended harmless run
  | interrupt c key number site registered run => exact .interrupt oracle caller c key _ _ ended run

theorem EntersKernel.saves (enters : EntersKernel oracle caller user before entryCode ended after)
    (live : before.kernel.currentTask ∈ before.liveTasks) :
    after.SavedAs before.kernel.currentTask (userRegisters user) := by
  cases enters with
  | call site harmless run =>
    rw [← callFrame_saved user site]
    exact isr80hHandler_saves live run
  | interrupt c key number site registered run =>
    rw [← interruptFrame_saved user number site]
    unfold Below.interruptHandler at run
    cases found : oracle.below.interruptCallbacks caller c key number.toNat with
    | some callback =>
      rw [found] at run
      obtain ⟨done, work, _, kept⟩ := enter_work run
      have saved : (before.entered caller _).Waiting before.kernel.currentTask
          (interruptFrame user number site).saved := System.entered_current (System.used_of_live live)
      exact kept _ _ (savedAs_interruptCallbacks found _ _ _ saved.2 work)
    | none =>
      unfold Below.interruptCallbacks at found
      split at found
      · cases found
      · split at found
        · cases found
        · split at found
          · cases found
          · omega

theorem Away.taskReturns (away : Away task ended after final) : ∃ registers, ended = .taskReturn registers := by
  cases away with
  | atOnce | later => exact ⟨_, rfl⟩

/-- What was saved is there when the kernel ends in a `task_return` to the task, whose address space it has
loaded by then. -/
theorem Away.returns (away : Away task ended after final) {registers : Registers} (saved : after.SavedAs task registers)
    (serves : Serves System.Harmless ended before after) : final.SavedAs task registers ∧ final.BackIn task := by
  cases away with
  | atOnce => exact ⟨saved, serves.lands⟩
  | later live waits other last =>
    obtain ⟨still, waited⟩ := Waits.run waits live
    have kept := last.savedAs (System.used_of_live still) other
    unfold System.SavedAs Kernel.SavedAs at saved waited kept ⊢
    rw [kept, waited, saved]
    exact ⟨rfl, last.lands⟩

theorem GoesOn.registers (goes : GoesOn oracle caller user before entryCode final expected resumed)
    (live : before.kernel.currentTask ∈ before.liveTasks) : userRegisters resumed = expected := by
  cases goes with
  | isr80hWrapper site tmpRes harmless run back_at eax aligned apart =>
    rw [back_at.isr80hExit aligned apart, eax]
  | interrupt c key number site run back_at => exact back_at.interruptExit
  | taskReturn returnSite enters away entry =>
    have saved := (away.returns (enters.saves live) enters.serves).1
    rw [taskReturn_resumes entry.place entry.argument entry.room, entry.saved]
    unfold System.SavedAs Kernel.SavedAs at saved
    rw [saved]

theorem GoesOn.expected_eq (goes : GoesOn oracle caller user before entryCode final expected resumed) :
    ∃ eax flags, expected = { userRegisters user with eax := eax, flags := flags } := by
  cases goes with
  | isr80hWrapper | interrupt | taskReturn => exact ⟨_, _, rfl⟩

theorem GoesOn.same (goes : GoesOn oracle caller user before entryCode final expected resumed)
    (live : before.kernel.currentTask ∈ before.liveTasks) {other : Reg} (different : other ≠ .eax) :
    resumed.reg other = user.reg other := by
  have registers := goes.registers live
  obtain ⟨eax, flags, shape⟩ := goes.expected_eq
  rw [shape] at registers
  cases other with
  | eax => exact absurd rfl different
  | ecx => exact congrArg Registers.ecx registers
  | edx => exact congrArg Registers.edx registers
  | ebx => exact congrArg Registers.ebx registers
  | esp => exact congrArg Registers.esp registers
  | ebp => exact congrArg Registers.ebp registers
  | esi => exact congrArg Registers.esi registers
  | edi => exact congrArg Registers.edi registers

end Resumes

end PeachOS
