import PeachOS.Resumption

/-! The system calls as a user program makes them: the assembly of `peachos.asm` around `int 80h`. -/

namespace PeachOS.Stubs
open Program ByteMemory Cpu

inductive StubInstr where
  | instr (instr : Instr)
  | movImm (dst : Reg) (value : Word)
  | int80h

/-- A call with its only argument on the stack: all of them but `print` load the number first. -/
def oneArgument (number : Word) : List StubInstr :=
  [.instr (.push .ebp), .instr (.mov .ebp .esp), .movImm .eax number, .instr (.pushAt .ebp 8), .int80h,
    .instr (.add .esp 4), .instr (.pop .ebp), .instr .ret]

def print : List StubInstr :=
  [.instr (.push .ebp), .instr (.mov .ebp .esp), .instr (.pushAt .ebp 8), .movImm .eax 1, .int80h,
    .instr (.add .esp 4), .instr (.pop .ebp), .instr .ret]

def peachosGetkey : List StubInstr :=
  [.instr (.push .ebp), .instr (.mov .ebp .esp), .movImm .eax 2, .int80h, .instr (.pop .ebp), .instr .ret]

def peachosPutchar : List StubInstr := oneArgument 3
def peachosMalloc : List StubInstr := oneArgument 4
def peachosFree : List StubInstr := oneArgument 5
def peachosProcessLoadStart : List StubInstr := oneArgument 6
def peachosSystem : List StubInstr := oneArgument 7
def peachosProcessGetArguments : List StubInstr := oneArgument 8

/-- The second instruction has its operands the other way round than in the others. -/
def peachosExit : List StubInstr :=
  [.instr (.push .ebp), .instr (.mov .esp .ebp), .movImm .eax 9, .int80h, .instr (.pop .ebp), .instr .ret]

/-- Straight code with `int 80h` in it: `kernel` relates the machine there to the one in which the code goes on. -/
inductive Executes (kernel : Machine → Machine → Prop) : List StubInstr → Machine → Machine → Prop where
  | done (machine : Machine) : Executes kernel [] machine machine
  | instr {machine last : Machine} {rest : List StubInstr} (instr : Instr)
      (run : Executes kernel rest (instr.exec machine) last) : Executes kernel (.instr instr :: rest) machine last
  | movImm {machine last : Machine} {rest : List StubInstr} (dst : Reg) (value : Word)
      (run : Executes kernel rest (machine.setReg dst value) last) :
      Executes kernel (.movImm dst value :: rest) machine last
  | int80h {user resumed last : Machine} {rest : List StubInstr} (served : kernel user resumed)
      (run : Executes kernel rest resumed last) : Executes kernel (.int80h :: rest) user last

/-- The stubs that come back, each with the number of its call and how many arguments it passes on. -/
def returning : List (List StubInstr × Word × Nat) :=
  [(print, 1, 1), (peachosGetkey, 2, 0), (peachosPutchar, 3, 1), (peachosMalloc, 4, 1), (peachosFree, 5, 1),
    (peachosProcessLoadStart, 6, 1), (peachosSystem, 7, 1), (peachosProcessGetArguments, 8, 1)]

/-- The stack at the entry of a stub: the return address, and the argument above it. -/
structure CallPlace (entry : Machine) : Prop where
  aligned : (entry.reg .esp).toNat % 4 = 0
  room : 8 ≤ (entry.reg .esp).toNat
  top : (entry.reg .esp).toNat + 8 ≤ 2 ^ 32

/-- The machine at the `int 80h` of a stub. -/
structure AtTrap (entry : Machine) (number : Word) (arguments : List Word) (user : Machine) : Prop where
  stacked : Stacked entry (arguments ++ [entry.reg .ebp]) user
  eax : user.reg .eax = number
  others : ∀ other, other ≠ Reg.eax → other ≠ .ebp → other ≠ .esp → user.reg other = entry.reg other

/-- The eight bytes at the pointer and the word at the address have no byte in common. -/
def Beyond (pointer address : Addr) : Prop :=
  ∀ i < 8, ∀ j < 4, pointer + BitVec.ofNat 32 i ≠ address + BitVec.ofNat 32 j

/-- User code goes on after `int 80h`. The kernel read the stack items where the task's stack is, and nobody wrote
into the stack frame of the stub but system call 8 through its pointer. -/
structure Served (oracle : Oracle) (caller : Caller) (before final : System) (entry user resumed : Machine) : Prop where
  goes : ∃ expected, GoesOn oracle caller user before .isr80hWrapper final expected resumed
  items : ∀ i, caller.stackItem i = user.load (user.reg .esp + BitVec.ofNat 32 (4 * i))
  frame : ∀ address : Addr, (user.reg .esp).toNat ≤ address.toNat → address.toNat ≤ (entry.reg .esp).toNat →
    address.toNat % 4 = 0 → (user.reg .eax = 8 → Beyond (user.load (user.reg .esp)) address) →
      resumed.load address = user.load address

/-- The pointer that `peachos_process_get_arguments` gets is not to the three words of its own stack frame. -/
def OffFrame (entry : Machine) : Prop :=
  ∀ i < 8, ∀ j < 12, entry.load (entry.reg .esp + 4) + BitVec.ofNat 32 i ≠ entry.reg .esp - 8 + BitVec.ofNat 32 j

section Trap
variable {kernel : Machine → Machine → Prop} {entry machine user resumed last : Machine} {number : Word}
  {arguments : List Word}

theorem setReg_stacked {bottom : Machine} {words : List Word} {dst : Reg} (value : Word) (different : dst ≠ .esp)
    (stacked : Stacked bottom words machine) : Stacked bottom words (machine.setReg dst value) :=
  stacked.congr (machine.setReg_of_ne value different.symm) rfl

theorem enters (place : CallPlace entry) :
    Stacked entry [entry.reg .ebp] (exec entry [.push .ebp, .mov .ebp .esp]) ∧
      (exec entry [.push .ebp, .mov .ebp .esp]).reg .ebp = entry.reg .esp - 4 ∧
      ∀ other, other ≠ Reg.ebp → other ≠ .esp → (exec entry [.push .ebp, .mov .ebp .esp]).reg other = entry.reg other := by
  have room := place.room
  have pushed := (Stacked.refl entry).push place.aligned
    (by simp only [List.length_nil]; omega) (entry.reg .ebp)
  refine ⟨setReg_stacked _ (by decide) pushed, Machine.setReg_self _ _ _, ?_⟩
  intro other base top
  exact (Machine.setReg_of_ne _ _ base).trans (entry.pushWord_reg _ top)

theorem peachosExit_traps (run : Executes kernel peachosExit entry last) :
    ∃ user resumed, kernel user resumed ∧ user.reg .eax = 9 ∧ user.reg .esp = entry.reg .ebp := by
  cases run with | instr _ run =>
  cases run with | instr _ run =>
  cases run with | movImm _ _ run =>
  cases run with | int80h served run =>
  refine ⟨_, _, served, Machine.setReg_self _ _ _, ?_⟩
  have swapped : ((Instr.exec entry (.push .ebp)).setReg .esp ((Instr.exec entry (.push .ebp)).reg .ebp)).reg .esp =
      (entry.pushWord (entry.reg .ebp)).reg .ebp := Machine.setReg_self _ _ _
  exact (Machine.setReg_of_ne _ _ (by decide)).trans (swapped.trans (entry.pushWord_reg _ (by decide)))

end Trap

section Return
variable {oracle : Oracle} {caller : Caller} {before final : System} {entry machine user resumed last : Machine}
  {number : Word} {arguments : List Word}

/-- The stub is back in its caller. -/
structure Returned (entry last : Machine) : Prop where
  eip : last.eip = entry.load (entry.reg .esp)
  esp : last.reg .esp = entry.reg .esp + 4
  others : ∀ other, other ≠ Reg.eax → other ≠ .esp → last.reg other = entry.reg other

/-- The stack frame of the stub, once the argument is off it. -/
structure InFrame (entry machine : Machine) : Prop where
  esp : machine.reg .esp = entry.reg .esp - 4
  base : machine.load (entry.reg .esp - 4) = entry.reg .ebp
  site : machine.load (entry.reg .esp) = entry.load (entry.reg .esp)
  others : ∀ other, other ≠ Reg.eax → other ≠ .ebp → other ≠ .esp → machine.reg other = entry.reg other

theorem InFrame.returns (frame : InFrame entry machine) : Returned entry (exec machine [.pop .ebp, .ret]) ∧
    (exec machine [.pop .ebp, .ret]).reg .eax = machine.reg .eax := by
  have popped : (Instr.exec machine (.pop .ebp)).reg .esp = entry.reg .esp := by
    refine (Machine.setReg_of_ne _ _ (by decide)).trans ((Machine.setReg_self _ _ _).trans ?_)
    rw [frame.esp]
    bv_omega
  have base : (Instr.exec machine (.pop .ebp)).reg .ebp = entry.reg .ebp := by
    refine (Machine.setReg_self _ _ _).trans ?_
    rw [frame.esp]
    exact frame.base
  have kept : ∀ other, other ≠ Reg.ebp → other ≠ .esp → (Instr.exec machine (.pop .ebp)).reg other = machine.reg other :=
    fun other frame top => (Machine.setReg_of_ne _ _ frame).trans (Machine.setReg_of_ne _ _ top)
  have site : (Instr.exec machine (.pop .ebp)).load (entry.reg .esp) = entry.load (entry.reg .esp) := frame.site
  change Returned entry (Instr.exec (Instr.exec machine (.pop .ebp)) .ret) ∧
    (Instr.exec (Instr.exec machine (.pop .ebp)) .ret).reg .eax = _
  generalize Instr.exec machine (.pop .ebp) = left at popped base kept site
  have returned : ∀ other, other ≠ Reg.esp → (Instr.exec left .ret).reg other = left.reg other :=
    fun other top => left.setReg_of_ne _ top
  refine ⟨⟨?_, ?_, ?_⟩, (returned .eax (by decide)).trans (kept .eax (by decide) (by decide))⟩
  · change left.load (left.reg .esp) = _
    rw [popped, site]
  · change (left.setReg .esp (left.reg .esp + 4)).reg .esp = _
    rw [Machine.setReg_self, popped]
  · intro other result top
    rw [returned other top]
    by_cases frameReg : other = .ebp
    · rw [frameReg, base]
    · rw [kept other frameReg top, frame.others other result frameReg top]

theorem AtTrap.beyond (trap : AtTrap entry number [entry.load (entry.reg .esp + 4)] user) (place : CallPlace entry)
    (off : OffFrame entry) (address : Addr) (low : (user.reg .esp).toNat ≤ address.toNat)
    (high : address.toNat ≤ (entry.reg .esp).toNat) (aligned : address.toNat % 4 = 0) :
    Beyond (user.load (user.reg .esp)) address := by
  have room := place.room
  have multiple := place.aligned
  have userEsp : user.reg .esp = entry.reg .esp - 8 := by
    rw [trap.stacked.esp]
    rfl
  have pushed := trap.stacked.pushed 0 _ rfl
  rw [Nat.mul_zero, BitVec.add_zero] at pushed
  rw [pushed]
  have eight : (entry.reg .esp - 8).toNat = (entry.reg .esp).toNat - 8 := by bv_omega
  intro i iBound j jBound same
  -- the word is one of the three
  refine off i iBound (address.toNat - (entry.reg .esp - 8).toNat + j) (by rw [userEsp] at low; omega) ?_
  rw [same]
  rw [userEsp] at low
  bv_omega

theorem isr80hHandleCommand_results {oracle : Oracle} {caller : Caller} {command : Int}
    (plain : command ≠ 6 ∧ command ≠ 7 ∧ command ≠ 9) :
    Yields (fun ended => ∃ value, ended = .result value) (oracle.below.isr80hHandleCommand caller command) := by
  unfold Below.isr80hHandleCommand
  refine .ite (.pure ⟨_, rfl⟩) ?_
  cases found : oracle.below.isr80hCommands caller command with
  | none => exact fun _ _ _ run => by cases run
  | some commandFunc =>
    unfold Below.isr80hCommands at found
    split at found <;> cases found
    · exact .bind fun _ => .bind fun _ => .bind fun _ => .pure ⟨_, rfl⟩
    · exact .bind fun _ => .bind fun _ => .bind fun _ => .bind fun _ => .pure ⟨_, rfl⟩
    · exact .bind fun _ => .pure ⟨_, rfl⟩
    · exact .bind fun _ => .bind fun _ => .bind fun _ => .pure ⟨_, rfl⟩
    · exact .bind fun _ => .bind fun _ => .bind fun _ => .bind fun _ => .pure ⟨_, rfl⟩
    · exact .bind fun _ => .bind fun _ => .bind fun _ => .bind fun _ => .pure ⟨_, rfl⟩
    · exact absurd rfl plain.1
    · exact absurd rfl plain.2.1
    · refine .bind fun _ => .bind fun _ => .bind fun _ => .ite ?_ ?_
      · exact fun _ _ _ run => by cases run
      · exact .bind fun _ => .bind fun _ => .pure ⟨_, rfl⟩
    · exact absurd rfl plain.2.2

theorem Served.result (served : Served oracle caller before final entry user resumed)
    (live : before.kernel.currentTask ∈ before.liveTasks) (not_exit : user.reg .eax ≠ 9) :
    ∃ site ended after, oracle.below.isr80hHandler caller (user.reg .eax).toInt (callFrame user site) before =
        (.ok ended, after) ∧
      (ended = .result (resumed.reg .eax) ∨ (∃ registers, ended = .taskReturn registers) ∧
        (user.reg .eax = 6 ∨ user.reg .eax = 7) ∧ resumed.reg .eax = user.reg .eax) := by
  obtain ⟨expected, goes⟩ := served.goes
  have eax := congrArg Registers.eax (goes.registers live)
  change resumed.reg .eax = expected.eax at eax
  rw [eax]
  cases goes with
  | isr80hWrapper site tmpRes harmless run back_at same aligned apart =>
    rw [callCommand_eq] at run
    exact ⟨site, _, _, run, Or.inl rfl⟩
  | taskReturn returnSite enters away entry =>
    cases enters with
    | call site harmless run =>
      obtain ⟨done, work, _, _⟩ := enter_work run
      rw [callCommand_eq] at work run
      obtain ⟨registers, rfl⟩ := away.taskReturns
      refine ⟨site, _, _, run, Or.inr ⟨⟨registers, rfl⟩, ?_, rfl⟩⟩
      by_contra other
      obtain ⟨not_six, not_seven⟩ := not_or.mp other
      have starts : (user.reg .eax).toInt ≠ 6 ∧ (user.reg .eax).toInt ≠ 7 ∧ (user.reg .eax).toInt ≠ 9 :=
        ⟨fun same => not_six (BitVec.eq_of_toInt_eq same), fun same => not_seven (BitVec.eq_of_toInt_eq same),
          fun same => not_exit (BitVec.eq_of_toInt_eq same)⟩
      obtain ⟨value, different⟩ := isr80hHandleCommand_results starts _ _ _ work
      cases different

def callArguments (entry : Machine) (count : Nat) : List Word :=
  (List.range count).map (fun i => entry.load (entry.reg .esp + 4 + BitVec.ofNat 32 (4 * i)))

/-- The kernel served the call that the stub makes with the arguments of the C call as its stack items, and what it
answered is in `eax`; where it started a program, the call's number is there. -/
def Answered (oracle : Oracle) (caller : Caller) (before : System) (entry last : Machine) (number : Word)
    (count : Nat) : Prop :=
  (∀ i < count, caller.stackItem i = entry.load (entry.reg .esp + 4 + BitVec.ofNat 32 (4 * i))) ∧
    ∃ user site ended after, AtTrap entry number (callArguments entry count) user ∧
      oracle.below.isr80hHandler caller number.toInt (callFrame user site) before = (.ok ended, after) ∧
      (ended = .result (last.reg .eax) ∨ (∃ registers, ended = .taskReturn registers) ∧
        (number = 6 ∨ number = 7) ∧ last.reg .eax = number)

theorem AtTrap.answered {count : Nat} (trap : AtTrap entry number (callArguments entry count) user)
    (live : before.kernel.currentTask ∈ before.liveTasks)
    (served : Served oracle caller before final entry user resumed)
    (not_exit : number ≠ 9) (frame : InFrame entry machine) (eax : machine.reg .eax = resumed.reg .eax) :
    Returned entry (exec machine [.pop .ebp, .ret]) ∧
      Answered oracle caller before entry (exec machine [.pop .ebp, .ret]) number count := by
  obtain ⟨returned, result⟩ := frame.returns
  obtain ⟨site, ended, after, run, answer⟩ := served.result live (by rw [trap.eax]; exact not_exit)
  rw [trap.eax] at run answer
  rw [← eax, ← result] at answer
  refine ⟨returned, fun i bound => ?_, user, site, ended, after, trap, run, answer⟩
  rw [served.items]
  have here : (callArguments entry count ++ [entry.reg .ebp])[i]? =
      some (entry.load (entry.reg .esp + 4 + BitVec.ofNat 32 (4 * i))) := by
    unfold callArguments
    rw [List.getElem?_append_left (by simpa using bound), List.getElem?_map, List.getElem?_range bound]
    rfl
  exact trap.stacked.pushed i _ here

end Return

end PeachOS.Stubs
