import PeachOS.Lib.Bytes

/-! The part of a 32-bit processor that hand-written kernel entry and exit code uses:
register moves, the stack, `pushad` and `popad`, and the switch between user and kernel
mode. Code runs straight through; a call pushes its return address and a return pops it
into `eip`. `Stacked` says what straight code has pushed since it started. -/

namespace Cpu
open ByteMemory

inductive Reg where
  | eax | ecx | edx | ebx | esp | ebp | esi | edi
  deriving DecidableEq, Repr

inductive Seg where
  | ds | es | fs | gs
  deriving DecidableEq, Repr

structure Machine where
  reg : Reg → BitVec 32
  seg : Seg → BitVec 16
  eip : BitVec 32
  cs : BitVec 32
  eflags : BitVec 32
  ss : BitVec 32
  bytes : Bytes

inductive Instr where
  | mov (dst src : Reg)
  | load (dst base : Reg) (offset : BitVec 32)
  | loadLow (dst base : Reg) (offset : BitVec 32)
  | loadFrom (dst : Reg) (address : BitVec 32)
  | storeTo (address : BitVec 32) (src : Reg)
  | movSeg (dst : Seg) (src : Reg)
  | push (src : Reg)
  | pushAt (base : Reg) (offset : BitVec 32)
  | pushImm (value : BitVec 32)
  | pushf
  | pop (dst : Reg)
  | or (dst : Reg) (value : BitVec 32)
  | add (dst : Reg) (value : BitVec 32)
  | pushad
  | popad
  | call (site : BitVec 32)
  | ret

namespace Machine
variable (machine : Machine)

def setReg (dst : Reg) (value : BitVec 32) : Machine :=
  { machine with reg := Function.update machine.reg dst value }

@[simp] theorem setReg_self (dst : Reg) (value : BitVec 32) :
    (machine.setReg dst value).reg dst = value := Function.update_self _ _ _

theorem setReg_of_ne {dst other : Reg} (value : BitVec 32) (different : other ≠ dst) :
    (machine.setReg dst value).reg other = machine.reg other := Function.update_of_ne different _ _

def load (address : BitVec 32) : BitVec 32 := load32 machine.bytes address

def pushWord (value : BitVec 32) : Machine :=
  { machine with
    reg := Function.update machine.reg .esp (machine.reg .esp - 4)
    bytes := store32 machine.bytes (machine.reg .esp - 4) value }

@[simp] theorem pushWord_esp (value : BitVec 32) :
    (machine.pushWord value).reg .esp = machine.reg .esp - 4 := rfl

theorem pushWord_reg {other : Reg} (value : BitVec 32) (different : other ≠ .esp) :
    (machine.pushWord value).reg other = machine.reg other := by
  unfold pushWord
  exact Function.update_of_ne different _ _

def pushWords (values : List (BitVec 32)) : Machine := values.foldl Machine.pushWord machine

theorem pushWords_reg {other : Reg} (values : List (BitVec 32)) (different : other ≠ .esp) :
    (machine.pushWords values).reg other = machine.reg other := by
  induction values generalizing machine with
  | nil => rfl
  | cons value rest ih => exact (ih _).trans (machine.pushWord_reg value different)

end Machine

/-- `popad` drops the word it finds for `esp`. The flags that `or` and `add` set are left
out: the code that this is for loads the flags anew before anything reads them. -/
def Instr.exec (machine : Machine) : Instr → Machine
  | mov dst src => machine.setReg dst (machine.reg src)
  | load dst base offset => machine.setReg dst (machine.load (machine.reg base + offset))
  | loadLow dst base offset => machine.setReg dst
      ((machine.reg dst).extractLsb' 16 16 ++ load16 machine.bytes (machine.reg base + offset))
  | loadFrom dst address => machine.setReg dst (machine.load address)
  | storeTo address src => { machine with bytes := store32 machine.bytes address (machine.reg src) }
  | movSeg dst src =>
      { machine with seg := Function.update machine.seg dst ((machine.reg src).setWidth 16) }
  | push src => machine.pushWord (machine.reg src)
  | pushAt base offset => machine.pushWord (machine.load (machine.reg base + offset))
  | pushImm value => machine.pushWord value
  | pushf => machine.pushWord machine.eflags
  | pop dst => (machine.setReg .esp (machine.reg .esp + 4)).setReg dst (machine.load (machine.reg .esp))
  | or dst value => machine.setReg dst (machine.reg dst ||| value)
  | add dst value => machine.setReg dst (machine.reg dst + value)
  | pushad => machine.pushWords [machine.reg .eax, machine.reg .ecx, machine.reg .edx, machine.reg .ebx,
      machine.reg .esp, machine.reg .ebp, machine.reg .esi, machine.reg .edi]
  | popad =>
      let word := fun index => machine.load (machine.reg .esp + BitVec.ofNat 32 (4 * index))
      { machine with
        reg := fun
          | .edi => word 0
          | .esi => word 1
          | .ebp => word 2
          | .esp => machine.reg .esp + 32
          | .ebx => word 4
          | .edx => word 5
          | .ecx => word 6
          | .eax => word 7 }
  | call site => machine.pushWord site
  | ret => { machine.setReg .esp (machine.reg .esp + 4) with eip := machine.load (machine.reg .esp) }

def exec (machine : Machine) (code : List Instr) : Machine := code.foldl Instr.exec machine

theorem exec_append (machine : Machine) (first second : List Instr) :
    exec machine (first ++ second) = exec (exec machine first) second := List.foldl_append

@[simp] theorem exec_nil (machine : Machine) : exec machine [] = machine := rfl

theorem exec_cons (machine : Machine) (first : Instr) (rest : List Instr) :
    exec machine (first :: rest) = exec (first.exec machine) rest := rfl

/-- What the processor does on an interrupt in user mode: it goes to the kernel's stack,
pushes what it needs to come back, and clears the flags TF, IF, NT, RF and VM. -/
def Machine.interrupt (machine : Machine) (kernelCode kernelData stack : BitVec 32) : Machine :=
  { Machine.pushWords (machine.setReg .esp stack)
      [machine.ss, machine.reg .esp, machine.eflags, machine.cs, machine.eip] with
    cs := kernelCode
    ss := kernelData
    eflags := machine.eflags &&& ~~~0x34300 }

theorem Machine.interrupt_reg (machine : Machine) {other : Reg} (kernelCode kernelData stack : BitVec 32)
    (different : other ≠ .esp) :
    (machine.interrupt kernelCode kernelData stack).reg other = machine.reg other := by
  have pushed := (machine.setReg .esp stack).pushWords_reg
    [machine.ss, machine.reg .esp, machine.eflags, machine.cs, machine.eip] different
  exact pushed.trans (machine.setReg_of_ne _ different)

def Machine.iret (machine : Machine) : Machine :=
  let word := fun index => machine.load (machine.reg .esp + BitVec.ofNat 32 (4 * index))
  { machine with
    reg := Function.update machine.reg .esp (word 3)
    eip := word 0
    cs := word 1
    eflags := word 2
    ss := word 4 }

theorem Machine.iret_esp (machine : Machine) :
    machine.iret.reg .esp = machine.load (machine.reg .esp + BitVec.ofNat 32 (4 * 3)) := by
  simp [Machine.iret]

theorem Machine.iret_reg (machine : Machine) {other : Reg} (different : other ≠ .esp) :
    machine.iret.reg other = machine.reg other := by
  simp [Machine.iret, different]

/-- Straight code that started on `bottom` has pushed `words`, the last one first, and has
changed no word from `bottom`'s stack pointer on. -/
structure Stacked (bottom : Machine) (words : List (BitVec 32)) (machine : Machine) : Prop where
  room : 4 * words.length ≤ (bottom.reg .esp).toNat
  esp : machine.reg .esp = bottom.reg .esp - BitVec.ofNat 32 (4 * words.length)
  pushed : ∀ i word, words[i]? = some word →
    machine.load (machine.reg .esp + BitVec.ofNat 32 (4 * i)) = word
  above : ∀ address, (bottom.reg .esp).toNat ≤ address.toNat → address.toNat % 4 = 0 →
    machine.load address = bottom.load address

section Stacked
variable {bottom machine after : Machine} {words rest : List (BitVec 32)} {value top : BitVec 32}

theorem Stacked.refl (machine : Machine) : Stacked machine [] machine where
  room := Nat.zero_le _
  esp := by simp
  pushed := fun i word here => by simp at here
  above := fun _ _ _ => rfl

theorem Stacked.congr (stacked : Stacked bottom words machine)
    (esp : after.reg .esp = machine.reg .esp) (bytes : after.bytes = machine.bytes) :
    Stacked bottom words after where
  room := stacked.room
  esp := esp.trans stacked.esp
  pushed := by
    intro i word here
    unfold Machine.load
    rw [esp, bytes]
    exact stacked.pushed i word here
  above := by
    intro address high aligned
    unfold Machine.load
    rw [bytes]
    exact stacked.above address high aligned

theorem Stacked.push (stacked : Stacked bottom words machine) (aligned : (bottom.reg .esp).toNat % 4 = 0)
    (room : 4 * (words.length + 1) ≤ (bottom.reg .esp).toNat) (value : BitVec 32) :
    Stacked bottom (value :: words) (machine.pushWord value) := by
  have esp := stacked.esp
  have place : (machine.reg .esp - 4).toNat = (bottom.reg .esp).toNat - 4 * (words.length + 1) := by
    rw [esp]
    bv_omega
  constructor
  · exact room
  · rw [Machine.pushWord_esp, esp, List.length_cons]
    bv_omega
  · intro i word found
    rw [Machine.pushWord_esp]
    cases i with
    | zero =>
      cases found
      rw [Nat.mul_zero, BitVec.add_zero]
      exact load32_store32 _ _ _
    | succ i =>
      have bound := (List.getElem?_eq_some_iff.mp found).1
      rw [List.length_cons] at bound
      have address : machine.reg .esp - 4 + BitVec.ofNat 32 (4 * (i + 1)) =
          machine.reg .esp + BitVec.ofNat 32 (4 * i) := by bv_omega
      rw [address, ← stacked.pushed i word found]
      apply load32_store32_ne
      · omega
      · rw [esp]
        bv_omega
      · rw [esp]
        bv_omega
  · intro address high alignedHere
    rw [← stacked.above address high alignedHere]
    apply load32_store32_ne
    · omega
    · exact alignedHere
    · rintro rfl
      omega

theorem Stacked.drop (stacked : Stacked bottom (top :: rest) machine)
    (esp : after.reg .esp = machine.reg .esp + 4) (bytes : after.bytes = machine.bytes) :
    Stacked bottom rest after := by
  have room := stacked.room
  have place := stacked.esp
  rw [List.length_cons] at room place
  constructor
  · omega
  · rw [esp, place]
    bv_omega
  · intro i word found
    have address : machine.reg .esp + 4 + BitVec.ofNat 32 (4 * i) =
        machine.reg .esp + BitVec.ofNat 32 (4 * (i + 1)) := by bv_omega
    unfold Machine.load
    rw [esp, bytes, address]
    exact stacked.pushed (i + 1) word found
  · intro address high aligned
    unfold Machine.load
    rw [bytes]
    exact stacked.above address high aligned

theorem Stacked.pushWords (values : List (BitVec 32)) (stacked : Stacked bottom words machine)
    (aligned : (bottom.reg .esp).toNat % 4 = 0)
    (room : 4 * (words.length + values.length) ≤ (bottom.reg .esp).toNat) :
    Stacked bottom (values.reverse ++ words) (machine.pushWords values) := by
  induction values generalizing words machine with
  | nil => exact stacked
  | cons value rest ih =>
    rw [List.length_cons] at room
    rw [List.reverse_cons, List.append_assoc]
    apply ih (stacked.push aligned (by omega) value)
    rw [List.length_cons]
    omega

end Stacked

end Cpu
