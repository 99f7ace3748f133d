import PeachOS.Interrupt

/-! What the entry and exit code does: the frame that a clock interrupt finds holds the
interrupted registers, `int%1` loads them again, and `task_return` loads a task's saved
registers with the flags of the kernel. -/

namespace PeachOS
open ByteMemory Cpu

attribute [ext] Registers

def userRegisters (machine : Machine) : Registers where
  edi := machine.reg .edi
  esi := machine.reg .esi
  ebp := machine.reg .ebp
  ebx := machine.reg .ebx
  edx := machine.reg .edx
  ecx := machine.reg .ecx
  eax := machine.reg .eax
  ip := machine.eip
  cs := machine.cs
  flags := machine.eflags
  esp := machine.reg .esp
  ss := machine.ss

def enterHandler (machine : Machine) (number site : Word) : Machine :=
  exec (machine.interrupt kernelCodeSelector kernelDataSelector kernelStack) (interruptEntry number site)

abbrev kernelFrame : Addr := kernelStack - 52

section Entry
variable (machine : Machine) (number site : Word)

/-- The stack at the entry of `interrupt_handler`: its two arguments are the number and
the address of the frame above them. -/
theorem enterHandler_stacked : Stacked (machine.setReg .esp kernelStack)
    [site, number, kernelFrame, machine.reg .edi, machine.reg .esi, machine.reg .ebp,
      kernelStack - 20, machine.reg .ebx, machine.reg .edx, machine.reg .ecx, machine.reg .eax,
      machine.eip, machine.cs, machine.eflags, machine.reg .esp, machine.ss]
    (enterHandler machine number site) := by
  have stack : (machine.setReg .esp kernelStack).reg .esp = kernelStack := machine.setReg_self _ _
  have size : kernelStack.toNat = 0x600000 := rfl
  have aligned : ((machine.setReg .esp kernelStack).reg .esp).toNat % 4 = 0 := by
    rw [stack, size]
  have room : ∀ count ≤ 16, 4 * count ≤ ((machine.setReg .esp kernelStack).reg .esp).toNat := by
    intro count small
    rw [stack, size]
    omega
  -- what the processor pushes
  have pushed := (Stacked.refl (machine.setReg .esp kernelStack)).pushWords
    [machine.ss, machine.reg .esp, machine.eflags, machine.cs, machine.eip] aligned (room 5 (by omega))
  have first : Stacked (machine.setReg .esp kernelStack) _
      (machine.interrupt kernelCodeSelector kernelDataSelector kernelStack) := pushed.congr rfl rfl
  unfold enterHandler
  generalize same : machine.interrupt kernelCodeSelector kernelDataSelector kernelStack = inside at *
  have others : ∀ other, other ≠ Reg.esp → inside.reg other = machine.reg other := by
    intro other different
    rw [← same]
    exact machine.interrupt_reg _ _ _ different
  have second : Stacked (machine.setReg .esp kernelStack) _ (Instr.exec inside .pushad) :=
    first.pushWords [inside.reg .eax, inside.reg .ecx, inside.reg .edx, inside.reg .ebx,
      inside.reg .esp, inside.reg .ebp, inside.reg .esi, inside.reg .edi] aligned (room 13 (by omega))
  have top : inside.reg .esp = kernelStack - 20 := by rw [first.esp, stack]; rfl
  rw [others .eax (by decide), others .ecx (by decide), others .edx (by decide),
    others .ebx (by decide), others .ebp (by decide), others .esi (by decide),
    others .edi (by decide), top] at second
  have frame : (Instr.exec inside .pushad).reg .esp = kernelFrame := by rw [second.esp, stack]; rfl
  have third : Stacked (machine.setReg .esp kernelStack) _
      (Instr.exec (Instr.exec inside .pushad) (.push .esp)) :=
    second.push aligned (room 14 (by omega)) ((Instr.exec inside .pushad).reg .esp)
  rw [frame] at third
  exact (third.push aligned (room 15 (by omega)) number).push aligned (room 16 (by omega)) site

theorem enterHandler_esp : (enterHandler machine number site).reg .esp = kernelStack - 64 := by
  rw [(enterHandler_stacked machine number site).esp, machine.setReg_self]
  rfl

theorem enterHandler_number :
    (enterHandler machine number site).load ((enterHandler machine number site).reg .esp + 4) = number :=
  (enterHandler_stacked machine number site).pushed 1 number rfl

theorem enterHandler_frame :
    (enterHandler machine number site).load ((enterHandler machine number site).reg .esp + 8) =
      kernelFrame :=
  (enterHandler_stacked machine number site).pushed 2 kernelFrame rfl

theorem enterHandler_saved :
    (loadFrame (enterHandler machine number site).bytes kernelFrame).saved = userRegisters machine := by
  have words := (enterHandler_stacked machine number site).pushed
  rw [enterHandler_esp] at words
  unfold loadFrame InterruptFrame.saved userRegisters
  apply Registers.ext
  · exact words 3 _ rfl
  · exact words 4 _ rfl
  · exact words 5 _ rfl
  · exact words 7 _ rfl
  · exact words 8 _ rfl
  · exact words 9 _ rfl
  · exact words 10 _ rfl
  · exact words 11 _ rfl
  · exact words 12 _ rfl
  · exact words 13 _ rfl
  · exact words 14 _ rfl
  · exact words 15 _ rfl

end Entry

theorem interruptExit_loads {machine : Machine} (stack : machine.reg .esp = kernelFrame - 8) :
    userRegisters (exec machine interruptExit).iret = (loadFrame machine.bytes kernelFrame).saved := by
  have opened : (Instr.exec machine (.add .esp 8)).reg .esp = kernelFrame := by
    refine (machine.setReg_self .esp _).trans ?_
    rw [stack]
    rfl
  have popped : (Instr.exec (Instr.exec machine (.add .esp 8)) .popad).reg .esp = kernelFrame + 32 := by
    show (Instr.exec machine (.add .esp 8)).reg .esp + 32 = _
    rw [opened]
  have others : ∀ other, other ≠ Reg.esp → (exec machine interruptExit).iret.reg other =
      (Instr.exec (Instr.exec machine (.add .esp 8)) .popad).reg other :=
    fun other different => Machine.iret_reg _ different
  have general : ∀ i, (Instr.exec machine (.add .esp 8)).load
      ((Instr.exec machine (.add .esp 8)).reg .esp + BitVec.ofNat 32 (4 * i)) =
      load32 machine.bytes (kernelFrame + BitVec.ofNat 32 (4 * i)) := by
    intro i
    rw [opened]
    rfl
  have special : ∀ i, (Instr.exec (Instr.exec machine (.add .esp 8)) .popad).load
      ((Instr.exec (Instr.exec machine (.add .esp 8)) .popad).reg .esp + BitVec.ofNat 32 (4 * i)) =
      load32 machine.bytes (kernelFrame + 32 + BitVec.ofNat 32 (4 * i)) := by
    intro i
    rw [popped]
    rfl
  unfold loadFrame InterruptFrame.saved userRegisters
  apply Registers.ext
  · exact (others .edi (by decide)).trans (general 0)
  · exact (others .esi (by decide)).trans (general 1)
  · exact (others .ebp (by decide)).trans (general 2)
  · exact (others .ebx (by decide)).trans (general 4)
  · exact (others .edx (by decide)).trans (general 5)
  · exact (others .ecx (by decide)).trans (general 6)
  · exact (others .eax (by decide)).trans (general 7)
  · exact special 0
  · exact special 1
  · exact special 2
  · exact (Machine.iret_esp _).trans (special 3)
  · exact special 4

def enterWrapper (machine : Machine) (site : Word) : Machine :=
  exec (machine.interrupt kernelCodeSelector kernelDataSelector kernelStack) (isr80hEntry site)

theorem enterWrapper_eq (machine : Machine) (site : Word) :
    enterWrapper machine site = enterHandler machine (machine.reg .eax) site := by
  have eax := machine.interrupt_reg kernelCodeSelector kernelDataSelector kernelStack
    (show Reg.eax ≠ .esp by decide)
  unfold enterWrapper enterHandler isr80hEntry interruptEntry
  generalize machine.interrupt kernelCodeSelector kernelDataSelector kernelStack = inside at *
  have kept : (Instr.exec (Instr.exec inside .pushad) (.push .esp)).reg .eax = machine.reg .eax :=
    (Machine.pushWord_reg _ _ (by decide)).trans ((inside.pushWords_reg _ (by decide)).trans eax)
  simp only [exec_cons, exec_nil]
  rw [← kept]
  rfl

theorem isr80hExit_eax (machine : Machine) (tmpRes : Addr) :
    (exec machine (isr80hExit tmpRes)).iret.reg .eax = machine.reg .eax := by
  have result : (exec machine (isr80hExit tmpRes)).reg .eax =
      load32 (store32 machine.bytes tmpRes (machine.reg .eax)) tmpRes := Machine.setReg_self _ _ _
  rw [Machine.iret_reg _ (by decide), result]
  exact load32_store32 _ _ _

/-- A `struct registers` that lies above the stack and its two words at the top. -/
structure RegistersAbove (bottom : Machine) (registers : Addr) : Prop where
  stack : (bottom.reg .esp).toNat % 4 = 0
  above : (bottom.reg .esp).toNat + 8 ≤ registers.toNat
  aligned : registers.toNat % 4 = 0
  inside : registers.toNat + 48 ≤ 2 ^ 32

theorem RegistersAbove.load {bottom machine : Machine} {registers : Addr} {words : List Word}
    (place : RegistersAbove bottom registers) (stacked : Stacked bottom words machine) {offset : Word}
    (field : offset.toNat % 4 = 0 ∧ offset.toNat < 48) :
    machine.load (registers + offset) = bottom.load (registers + offset) := by
  have above := place.above
  have aligned := place.aligned
  have inside := place.inside
  have place : (registers + offset).toNat = registers.toNat + offset.toNat := by
    rw [BitVec.toNat_add]
    omega
  exact stacked.above _ (by omega) (by omega)

/-- The general registers but `esp` are those of `registers`. -/
structure GeneralLoaded (registers : Registers) (machine : Machine) : Prop where
  edi : machine.reg .edi = registers.edi
  esi : machine.reg .esi = registers.esi
  ebp : machine.reg .ebp = registers.ebp
  ebx : machine.reg .ebx = registers.ebx
  edx : machine.reg .edx = registers.edx
  ecx : machine.reg .ecx = registers.ecx
  eax : machine.reg .eax = registers.eax

theorem GeneralLoaded.congr {registers : Registers} {machine after : Machine}
    (loaded : GeneralLoaded registers machine)
    (same : ∀ other, other ≠ Reg.esp → after.reg other = machine.reg other) :
    GeneralLoaded registers after where
  edi := (same .edi (by decide)).trans loaded.edi
  esi := (same .esi (by decide)).trans loaded.esi
  ebp := (same .ebp (by decide)).trans loaded.ebp
  ebx := (same .ebx (by decide)).trans loaded.ebx
  edx := (same .edx (by decide)).trans loaded.edx
  ecx := (same .ecx (by decide)).trans loaded.ecx
  eax := (same .eax (by decide)).trans loaded.eax

section TaskReturn
variable {bottom machine : Machine} {registers site : Word} {words : List Word}

theorem restoreGeneralPurposeRegisters_loads (place : RegistersAbove bottom registers)
    (stacked : Stacked bottom (site :: registers :: words) machine)
    (room : 4 * (words.length + 3) ≤ (bottom.reg .esp).toNat) :
    Stacked bottom (registers :: words) (exec machine restoreGeneralPurposeRegisters) ∧
      GeneralLoaded (loadRegisters bottom.bytes registers) (exec machine restoreGeneralPurposeRegisters) := by
  have first : Stacked bottom (machine.reg .ebp :: site :: registers :: words)
      (Instr.exec machine (.push .ebp)) := stacked.push place.stack room _
  have split : exec machine restoreGeneralPurposeRegisters =
      exec (Instr.exec machine (.push .ebp)) (restoreGeneralPurposeRegisters.drop 1) := rfl
  rw [split]
  generalize Instr.exec machine (.push .ebp) = pushed at first
  have argument : load32 pushed.bytes (pushed.reg .esp + 8#32) = registers :=
    first.pushed 2 registers rfl
  have field : ∀ offset : Word, offset.toNat % 4 = 0 ∧ offset.toNat < 48 →
      load32 pushed.bytes (registers + offset) = load32 bottom.bytes (registers + offset) :=
    fun offset bound => place.load first bound
  have base := field 0#32 (by decide)
  rw [BitVec.add_zero] at base
  constructor
  · -- the saved `ebp` and the return address go
    have saved : Stacked bottom _ (pushed.setReg .esp (pushed.reg .esp + 4)) := first.drop (by simp) rfl
    apply saved.drop
    · simp [restoreGeneralPurposeRegisters, exec, Instr.exec, Machine.setReg]
    · simp [restoreGeneralPurposeRegisters, exec, Instr.exec, Machine.setReg]
  · constructor <;>
      simp [restoreGeneralPurposeRegisters, exec, Instr.exec, Machine.setReg, Machine.load,
        loadRegisters, argument, base, field]

/-- `task_return` on its way: `bottom` is the machine at its entry. -/
structure Returning (bottom : Machine) (registers : Addr) (words : List Word) (machine : Machine) :
    Prop where
  stacked : Stacked bottom words machine
  ebx : machine.reg .ebx = registers
  ebp : machine.reg .ebp = bottom.reg .esp
  flags : machine.eflags = bottom.eflags

theorem Returning.start (argument : bottom.load (bottom.reg .esp + 4) = registers) :
    Returning bottom registers [] (exec bottom taskReturnArgument) where
  stacked := (Stacked.refl bottom).congr
    (by simp [taskReturnArgument, exec, Instr.exec, Machine.setReg]) rfl
  ebx := by
    rw [← argument]
    simp [taskReturnArgument, exec, Instr.exec, Machine.setReg, Machine.load]
  ebp := by simp [taskReturnArgument, exec, Instr.exec, Machine.setReg]
  flags := rfl

theorem Returning.push (returning : Returning bottom registers words machine)
    (aligned : (bottom.reg .esp).toNat % 4 = 0)
    (room : 4 * (words.length + 1) ≤ (bottom.reg .esp).toNat) (value : Word) :
    Returning bottom registers (value :: words) (machine.pushWord value) where
  stacked := returning.stacked.push aligned room value
  ebx := (machine.pushWord_reg value (by decide)).trans returning.ebx
  ebp := (machine.pushWord_reg value (by decide)).trans returning.ebp
  flags := returning.flags

theorem Returning.pushField (returning : Returning bottom registers words machine)
    (place : RegistersAbove bottom registers)
    (room : 4 * (words.length + 1) ≤ (bottom.reg .esp).toNat) (offset : Word)
    (field : offset.toNat % 4 = 0 ∧ offset.toNat < 48) :
    Returning bottom registers (load32 bottom.bytes (registers + offset) :: words)
      (Instr.exec machine (.pushAt .ebx offset)) := by
  have value : machine.load (machine.reg .ebx + offset) = bottom.load (registers + offset) := by
    rw [returning.ebx]
    exact place.load returning.stacked field
  have pushed : Returning bottom registers (_ :: words) (Instr.exec machine (.pushAt .ebx offset)) :=
    returning.push place.stack room (machine.load (machine.reg .ebx + offset))
  rw [value] at pushed
  exact pushed

theorem Returning.pushFlags (returning : Returning bottom registers words machine)
    (aligned : (bottom.reg .esp).toNat % 4 = 0)
    (room : 4 * (words.length + 1) ≤ (bottom.reg .esp).toNat) :
    Returning bottom registers ((bottom.eflags ||| 0x200) :: words) (exec machine taskReturnFlags) := by
  have read : Returning bottom registers words (exec machine [.pushf, .pop .eax, .or .eax 0x200]) := by
    constructor
    · apply (returning.push aligned room machine.eflags).stacked.drop
      · simp [exec, Instr.exec, Machine.setReg]
      · simp [exec, Instr.exec, Machine.setReg]
    · rw [← returning.ebx]
      simp [exec, Instr.exec, Machine.setReg, Machine.pushWord]
    · rw [← returning.ebp]
      simp [exec, Instr.exec, Machine.setReg, Machine.pushWord]
    · exact returning.flags
  have eax : (exec machine [.pushf, .pop .eax, .or .eax 0x200]).reg .eax = bottom.eflags ||| 0x200 := by
    rw [← returning.flags]
    simp [exec, Instr.exec, Machine.setReg, Machine.load, Machine.pushWord]
  have pushed : Returning bottom registers (_ :: words) (exec machine taskReturnFlags) :=
    read.push aligned room ((exec machine [.pushf, .pop .eax, .or .eax 0x200]).reg .eax)
  rw [eax] at pushed
  exact pushed

theorem Returning.segments (returning : Returning bottom registers words machine) :
    Returning bottom registers words (exec machine taskReturnSegments) where
  stacked := returning.stacked.congr
    (by simp [taskReturnSegments, exec, Instr.exec, Machine.setReg]) rfl
  ebx := by
    rw [← returning.ebx]
    simp [taskReturnSegments, exec, Instr.exec, Machine.setReg]
  ebp := by
    rw [← returning.ebp]
    simp [taskReturnSegments, exec, Instr.exec, Machine.setReg]
  flags := returning.flags

/-- The argument of `task_return` is pushed once more, for
`restore_general_purpose_registers`. -/
theorem Returning.pushArgument (returning : Returning bottom registers words machine)
    (place : RegistersAbove bottom registers)
    (argument : bottom.load (bottom.reg .esp + 4) = registers)
    (room : 4 * (words.length + 1) ≤ (bottom.reg .esp).toNat) :
    Returning bottom registers (registers :: words) (Instr.exec machine (.pushAt .ebp 4)) := by
  have stack := place.stack
  have above := place.above
  have inside := place.inside
  have slot : (bottom.reg .esp + 4).toNat = (bottom.reg .esp).toNat + 4 := by
    rw [BitVec.toNat_add]
    have four : (4 : Word).toNat = 4 := rfl
    omega
  have value : machine.load (machine.reg .ebp + 4) = registers := by
    rw [returning.ebp, ← argument]
    exact returning.stacked.above _ (by omega) (by omega)
  have pushed : Returning bottom registers (_ :: words) (Instr.exec machine (.pushAt .ebp 4)) :=
    returning.push stack room (machine.load (machine.reg .ebp + 4))
  rw [value] at pushed
  exact pushed

theorem taskReturn_loads (place : RegistersAbove bottom registers)
    (argument : bottom.load (bottom.reg .esp + 4) = registers)
    (room : 32 ≤ (bottom.reg .esp).toNat) (site : Word) :
    Stacked bottom [load32 bottom.bytes (registers + 28), load32 bottom.bytes (registers + 32),
        bottom.eflags ||| 0x200, load32 bottom.bytes (registers + 40),
        load32 bottom.bytes (registers + 44)] (exec bottom (taskReturn site)) ∧
      GeneralLoaded (loadRegisters bottom.bytes registers) (exec bottom (taskReturn site)) := by
  have space : ∀ count ≤ 8, 4 * count ≤ (bottom.reg .esp).toNat := by
    intro count small
    omega
  have ss := (Returning.start argument).pushField place (space 1 (by omega)) 44 (by decide)
  have esp := ss.pushField place (space 2 (by omega)) 40 (by decide)
  have flags := esp.pushFlags place.stack (space 3 (by omega))
  have cs := flags.pushField place (space 4 (by omega)) 32 (by decide)
  have ip := cs.pushField place (space 5 (by omega)) 28 (by decide)
  have again := ip.segments.pushArgument place argument (space 6 (by omega))
  have called : Returning bottom registers (site :: _) (Instr.exec (Instr.exec _ (.pushAt .ebp 4)) (.call site)) :=
    again.push place.stack (space 7 (by omega)) site
  obtain ⟨restored, general⟩ :=
    restoreGeneralPurposeRegisters_loads place called.stacked (space 8 (by omega))
  unfold taskReturn
  simp only [exec_append, exec_cons, exec_nil]
  generalize exec _ restoreGeneralPurposeRegisters = machine at restored general ⊢
  constructor
  · exact restored.drop (machine.setReg_self _ _) rfl
  · exact general.congr (fun other different => machine.setReg_of_ne _ different)

/-- `task_return` loads the saved registers, with the kernel's flags in place of the
saved ones. -/
theorem taskReturn_resumes (place : RegistersAbove bottom registers)
    (argument : bottom.load (bottom.reg .esp + 4) = registers)
    (room : 32 ≤ (bottom.reg .esp).toNat) (site : Word) :
    userRegisters (exec bottom (taskReturn site)).iret =
      { loadRegisters bottom.bytes registers with flags := bottom.eflags ||| 0x200 } := by
  obtain ⟨stacked, loaded⟩ := taskReturn_loads place argument room site
  generalize exec bottom (taskReturn site) = machine at *
  have general := loaded.congr (fun other different => machine.iret_reg different)
  unfold userRegisters
  apply Registers.ext
  · exact general.edi
  · exact general.esi
  · exact general.ebp
  · exact general.ebx
  · exact general.edx
  · exact general.ecx
  · exact general.eax
  · exact stacked.pushed 0 _ rfl
  · exact stacked.pushed 1 _ rfl
  · exact stacked.pushed 2 _ rfl
  · exact machine.iret_esp.trans (stacked.pushed 3 _ rfl)
  · exact stacked.pushed 4 _ rfl

end TaskReturn

end PeachOS
