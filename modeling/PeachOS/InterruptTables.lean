import Mathlib.Tactic.IntervalCases
import PeachOS.ClassicKeyboard

/-! The tables that the kernel fills when it starts: the gates of the processor and the callbacks of `idt/idt.c`,
the commands of `isr80h/isr80h.c`, and the keyboards of `keyboard/keyboard.c`. -/

namespace PeachOS
open Program

abbrev peachosTotalInterrupts : Nat := 512

structure IdtDesc where
  offset1 : HalfWord
  selector : HalfWord
  zero : Byte
  typeAttr : Byte
  offset2 : HalfWord
  deriving DecidableEq

/-- The functions that are registered for an interrupt. -/
inductive InterruptCallback where
  | idtHandleExecption
  | idtClock
  | classicKeyboardInterruptHandler
  deriving DecidableEq

/-- The functions that are registered for a system call. -/
inductive Isr80hCommand where
  | command0Sum
  | command1Print
  | command2GetKey
  | command3Putchar
  | command4Malloc
  | command5Free
  | command6ProcessLoadStart
  | command7InvokeSystemCommand
  | command8GetProgramArguments
  | command9Exit
  deriving DecidableEq

/-- `struct keyboard`; the one `init` function there is belongs to the classic keyboard. -/
structure KeyboardRecord where
  hasInit : Bool
  capslockState : Word
  next : Addr

/-- `static` data of the three files. -/
structure Registry where
  idtDescriptors : Nat → IdtDesc
  interruptCallbacks : Nat → Option InterruptCallback
  isr80hCommands : Nat → Option Isr80hCommand
  keyboards : Addr → KeyboardRecord
  keyboardListHead : Addr
  keyboardListLast : Addr

abbrev RegistryProg (α : Type) : Type := Prog Registry Stop α

def idtSet (interruptNo : Nat) (address : Word) : RegistryProg Unit :=
  update (fun registry => { registry with
    idtDescriptors := Function.update registry.idtDescriptors interruptNo
      { offset1 := (address &&& 0x0000ffff).setWidth 16
        selector := kernelCodeSelector.setWidth 16
        zero := 0x00
        typeAttr := 0xEE
        offset2 := (address >>> 16).setWidth 16 } })

def idtRegisterInterruptCallback (interrupt : Int) (callback : InterruptCallback) : RegistryProg Int := do
  if interrupt < 0 ∨ peachosTotalInterrupts ≤ interrupt then pure (-EINVARG)
  else
    update (fun registry => { registry with
      interruptCallbacks := Function.update registry.interruptCallbacks interrupt.toNat (some callback) })
    pure 0

/-- The first loop of `idt_init`. -/
def idtSetAll (interruptPointerTable : Nat → Word) : (count : Nat) → RegistryProg Unit
  | 0 => pure ()
  | i + 1 => do
      idtSetAll interruptPointerTable i
      idtSet i (interruptPointerTable i)

/-- The second loop of `idt_init`. -/
def idtRegisterExceptions : (count : Nat) → RegistryProg Unit
  | 0 => pure ()
  | i + 1 => do
      idtRegisterExceptions i
      let _ ← idtRegisterInterruptCallback i .idtHandleExecption
      pure ()

def IdtDesc.blank : IdtDesc := ⟨0, 0, 0, 0, 0⟩

def idtInit (interruptPointerTable : Nat → Word) (isr80hWrapper : Word) : RegistryProg Unit := do
  update (fun registry => { registry with idtDescriptors := fun _ => IdtDesc.blank })
  idtSetAll interruptPointerTable peachosTotalInterrupts
  idtSet 0x80 isr80hWrapper
  idtRegisterExceptions 0x20
  let _ ← idtRegisterInterruptCallback 0x20 .idtClock
  pure ()

def isr80hRegisterCommand (commandId : Int) (command : Isr80hCommand) : RegistryProg Unit := do
  if commandId < 0 ∨ peachosMaxIsr80hCommands ≤ commandId then panic "\nThe command is out of bound"
  else
    let taken ← read (fun registry => registry.isr80hCommands commandId.toNat)
    if taken.isSome then panic "\nYou're attempting to overwrite an existing command"
    else update (fun registry => { registry with
      isr80hCommands := Function.update registry.isr80hCommands commandId.toNat (some command) })

def registerEach : List (Int × Isr80hCommand) → RegistryProg Unit
  | [] => pure ()
  | registration :: rest => do
      isr80hRegisterCommand registration.1 registration.2
      registerEach rest

def isr80hRegisterCommands : RegistryProg Unit := do
  isr80hRegisterCommand 0 .command0Sum
  isr80hRegisterCommand 1 .command1Print
  isr80hRegisterCommand 2 .command2GetKey
  isr80hRegisterCommand 3 .command3Putchar
  isr80hRegisterCommand 4 .command4Malloc
  isr80hRegisterCommand 5 .command5Free
  isr80hRegisterCommand 6 .command6ProcessLoadStart
  isr80hRegisterCommand 7 .command7InvokeSystemCommand
  isr80hRegisterCommand 8 .command8GetProgramArguments
  isr80hRegisterCommand 9 .command9Exit

def Registry.setKeyboard (registry : Registry) (keyboard : Addr) (change : KeyboardRecord → KeyboardRecord) : Registry :=
  { registry with keyboards := Function.update registry.keyboards keyboard (change (registry.keyboards keyboard)) }

/-- The result of the registration is not looked at. -/
def classicKeyboardInit (classicKeyboard : Addr) : RegistryProg Int := do
  let _ ← idtRegisterInterruptCallback 0x21 .classicKeyboardInterruptHandler
  update (fun registry => registry.setKeyboard classicKeyboard ({ · with capslockState := keyboardCapsLockOff }))
  pure 0

def keyboardInsert (classicKeyboard keyboard : Addr) : RegistryProg Int := do
  let record ← read (fun registry => registry.keyboards keyboard)
  if !record.hasInit then pure (-EINVARG)
  else
    let last ← read Registry.keyboardListLast
    if last ≠ 0 then
      update (fun registry => registry.setKeyboard last ({ · with next := keyboard }))
      update (fun registry => { registry with keyboardListLast := keyboard })
    else update (fun registry => { registry with keyboardListHead := keyboard, keyboardListLast := keyboard })
    classicKeyboardInit classicKeyboard

def keyboardInit (classicKeyboard : Addr) : RegistryProg Unit := do
  let _ ← keyboardInsert classicKeyboard classicKeyboard
  pure ()

/-- The part of `kernel_main` that fills the tables. -/
def kernelMainTables (interruptPointerTable : Nat → Word) (isr80hWrapper : Word) (classicKeyboard : Addr) :
    RegistryProg Unit := do
  idtInit interruptPointerTable isr80hWrapper
  isr80hRegisterCommands
  keyboardInit classicKeyboard

/-- A gate as the processor reads it. -/
structure Gate where
  offset : Word
  selector : HalfWord
  present : Bool
  privilege : BitVec 2
  type : BitVec 5
  deriving DecidableEq

def IdtDesc.packed (desc : IdtDesc) : BitVec 64 :=
  desc.offset2 ++ desc.typeAttr ++ desc.zero ++ desc.selector ++ desc.offset1

def decodeGate (entry : BitVec 64) : Gate where
  offset := entry.extractLsb' 48 16 ++ entry.extractLsb' 0 16
  selector := entry.extractLsb' 16 16
  present := entry.getLsbD 47
  privilege := entry.extractLsb' 45 2
  type := entry.extractLsb' 40 5

/-- A 32-bit interrupt gate that user code may call. -/
def userGate (address : Word) : Gate := ⟨address, 0x08, true, 3, 0x0E⟩

/-- What `idt_set` stores for an address. -/
def IdtDesc.of (address : Word) : IdtDesc where
  offset1 := (address &&& 0x0000ffff).setWidth 16
  selector := kernelCodeSelector.setWidth 16
  zero := 0x00
  typeAttr := 0xEE
  offset2 := (address >>> 16).setWidth 16

section Gates
variable {registry : Registry} {interruptPointerTable : Nat → Word}

theorem halves (address : Word) :
    (address >>> 16).setWidth 16 ++ (address &&& 0x0000ffff).setWidth 16 = address := by
  have low : (address &&& 0x0000ffff).setWidth 16 = address.extractLsb' 0 16 := by
    rw [BitVec.setWidth_and, show (0x0000ffff : Word).setWidth 16 = BitVec.allOnes 16 from rfl, BitVec.and_allOnes]
    rfl
  rw [low, BitVec.setWidth_ushiftRight_eq_extractLsb]
  refine BitVec.eq_of_getLsbD_eq (fun i bound => ?_)
  simp only [BitVec.getLsbD_append, BitVec.getLsbD_extractLsb']
  grind

theorem decodeGate_packed (desc : IdtDesc) : decodeGate desc.packed =
    ⟨desc.offset2 ++ desc.offset1, desc.selector, desc.typeAttr.getLsbD 7, desc.typeAttr.extractLsb' 5 2,
      desc.typeAttr.extractLsb' 0 5⟩ := by
  unfold decodeGate IdtDesc.packed
  rw [Gate.mk.injEq]
  refine ⟨?whole, ?segment, ?loaded, ?ring, ?kind⟩
  case loaded =>
    simp only [BitVec.getLsbD_append]
    grind
  all_goals
    refine BitVec.eq_of_getLsbD_eq (fun i bound => ?_)
    simp only [BitVec.getLsbD_append, BitVec.getLsbD_extractLsb']
    grind

theorem IdtDesc.of_gate (address : Word) : decodeGate (IdtDesc.of address).packed = userGate address := by
  rw [decodeGate_packed]
  have constants : kernelCodeSelector.setWidth 16 = 0x08#16 ∧ (0xEE : Byte).getLsbD 7 = true ∧
      (0xEE : Byte).extractLsb' 5 2 = 3 ∧ (0xEE : Byte).extractLsb' 0 5 = 0x0E := by decide
  unfold IdtDesc.of userGate
  rw [halves, constants.2.1, constants.2.2.1, constants.2.2.2]
  exact congrArg (Gate.mk address · true 3 0x0E) constants.1

theorem idtSetAll_run : (count : Nat) → idtSetAll interruptPointerTable count registry = (.ok (), { registry with
    idtDescriptors := fun i => if i < count then IdtDesc.of (interruptPointerTable i) else registry.idtDescriptors i })
  | 0 => rfl
  | count + 1 => by
    refine (bind_ok (idtSetAll_run count)).trans ?_
    unfold idtSet
    rw [update_run]
    congr 2
    funext i
    by_cases last : i = count
    · subst last
      simp [IdtDesc.of]
    · rw [Function.update_of_ne last]
      exact if_congr (by omega) rfl rfl

theorem idtRegisterInterruptCallback_run {interrupt : Int} {callback : InterruptCallback} (low : 0 ≤ interrupt)
    (high : interrupt < peachosTotalInterrupts) :
    idtRegisterInterruptCallback interrupt callback registry = (.ok 0, { registry with
      interruptCallbacks := Function.update registry.interruptCallbacks interrupt.toNat (some callback) }) := by
  unfold idtRegisterInterruptCallback
  rw [if_neg (by omega)]
  rfl

theorem idtRegisterExceptions_run : {count : Nat} → (bounded : count ≤ peachosTotalInterrupts) →
    idtRegisterExceptions count registry = (.ok (), { registry with
      interruptCallbacks := fun i => if i < count then some .idtHandleExecption else registry.interruptCallbacks i })
  | 0, _ => rfl
  | count + 1, bounded => by
    refine (bind_ok (idtRegisterExceptions_run (by omega))).trans ?_
    refine (bind_ok (idtRegisterInterruptCallback_run (Int.natCast_nonneg count)
      (Int.ofNat_lt.mpr (show count < peachosTotalInterrupts by omega)))).trans ?_
    change ((.ok (), _) : Except Stop Unit × Registry) = _
    congr 2
    funext i
    by_cases last : i = count
    · subst last
      simp
    · rw [Int.toNat_natCast, Function.update_of_ne last]
      exact if_congr (by omega) rfl rfl

end Gates

section Commands
variable {registry after : Registry} {commandId : Int} {command : Isr80hCommand}

theorem isr80hRegisterCommand_iff : isr80hRegisterCommand commandId command registry = (.ok (), after) ↔
    (0 ≤ commandId ∧ commandId < peachosMaxIsr80hCommands ∧ registry.isr80hCommands commandId.toNat = none) ∧
      after = { registry with
        isr80hCommands := Function.update registry.isr80hCommands commandId.toNat (some command) } := by
  unfold isr80hRegisterCommand
  by_cases outside : commandId < 0 ∨ peachosMaxIsr80hCommands ≤ commandId
  · rw [if_pos outside]
    refine iff_of_false (fun run => by cases run) ?_
    rintro ⟨⟨low, high, _⟩, _⟩
    omega
  · rw [if_neg outside, read_bind]
    cases taken : registry.isr80hCommands commandId.toNat with
    | some other =>
      refine iff_of_false (fun run => by cases run) ?_
      rintro ⟨⟨_, _, free⟩, _⟩
      cases free
    | none =>
      rw [if_neg (by simp), update_run, Prod.mk.injEq]
      constructor
      · rintro ⟨_, rfl⟩
        exact ⟨⟨by omega, by omega, rfl⟩, rfl⟩
      · rintro ⟨_, rfl⟩
        exact ⟨rfl, rfl⟩

/-- The table of commands after registrations. -/
def registered : List (Int × Isr80hCommand) → (Nat → Option Isr80hCommand) → (Nat → Option Isr80hCommand)
  | [], commands => commands
  | registration :: rest, commands =>
      registered rest (Function.update commands registration.1.toNat (some registration.2))

/-- The registrations whose numbers lie in the table, are free there and differ from one another. -/
structure Fitting (registrations : List (Int × Isr80hCommand)) (commands : Nat → Option Isr80hCommand) : Prop where
  within : ∀ registration ∈ registrations, 0 ≤ registration.1 ∧ registration.1 < peachosMaxIsr80hCommands
  free : ∀ registration ∈ registrations, commands registration.1.toNat = none
  different : (registrations.map Prod.fst).Nodup

variable {registrations : List (Int × Isr80hCommand)} {commands : Nat → Option Isr80hCommand}

theorem registered_of_not_mem {number : Nat} : {registrations : List (Int × Isr80hCommand)} →
    {commands : Nat → Option Isr80hCommand} →
    (other : ∀ registration ∈ registrations, registration.1.toNat ≠ number) →
    registered registrations commands number = commands number
  | [], _, _ => rfl
  | registration :: rest, commands, other => by
    have here := other registration List.mem_cons_self
    have later := fun entry (among : entry ∈ rest) => other entry (List.mem_cons_of_mem _ among)
    unfold registered
    rw [registered_of_not_mem later, Function.update_of_ne here.symm]

theorem Fitting.others {number : Nat} {command : Isr80hCommand}
    (fitting : Fitting registrations (Function.update commands number (some command))) :
    ∀ registration ∈ registrations, registration.1.toNat ≠ number := by
  intro registration among same
  have taken := fitting.free registration among
  rw [same, Function.update_self] at taken
  cases taken

theorem fitting_cons {registration : Int × Isr80hCommand} {rest : List (Int × Isr80hCommand)} :
    Fitting (registration :: rest) commands ↔
      (0 ≤ registration.1 ∧ registration.1 < peachosMaxIsr80hCommands ∧ commands registration.1.toNat = none) ∧
        Fitting rest (Function.update commands registration.1.toNat (some registration.2)) := by
  constructor
  · intro fitting
    have inside := fitting.within registration List.mem_cons_self
    have apart := List.nodup_cons.mp fitting.different
    refine ⟨⟨inside.1, inside.2, fitting.free registration List.mem_cons_self⟩,
      fun entry among => fitting.within entry (List.mem_cons_of_mem _ among), fun entry among => ?_, apart.2⟩
    have bounds := fitting.within entry (List.mem_cons_of_mem _ among)
    have differs : entry.1 ≠ registration.1 := fun same => apart.1 (same ▸ List.mem_map_of_mem among)
    rw [Function.update_of_ne (by omega)]
    exact fitting.free entry (List.mem_cons_of_mem _ among)
  · rintro ⟨⟨low, high, free⟩, fitting⟩
    have later := fitting.others
    refine ⟨List.forall_mem_cons.mpr ⟨⟨low, high⟩, fitting.within⟩,
      List.forall_mem_cons.mpr ⟨free, fun entry among => ?_⟩, List.nodup_cons.mpr ⟨fun among => ?_, fitting.different⟩⟩
    · have kept := fitting.free entry among
      rwa [Function.update_of_ne (later entry among)] at kept
    · obtain ⟨entry, among, same⟩ := List.mem_map.mp among
      exact later entry among (congrArg Int.toNat same)

theorem registerEach_iff : {registrations : List (Int × Isr80hCommand)} → {registry after : Registry} →
    (registerEach registrations registry = (.ok (), after) ↔ Fitting registrations registry.isr80hCommands ∧
      after = { registry with isr80hCommands := registered registrations registry.isr80hCommands })
  | [], registry, _ => by
    have empty : Fitting [] registry.isr80hCommands := ⟨by simp, by simp, List.nodup_nil⟩
    refine ⟨fun run => ⟨empty, ?_⟩, fun ⟨_, same⟩ => ?_⟩
    · cases run
      rfl
    · subst same
      rfl
  | registration :: rest, registry, _ => by
    rw [fitting_cons]
    constructor
    · intro run
      obtain ⟨_, middle, first, run⟩ := bind_eq_ok run
      obtain ⟨fits, rfl⟩ := isr80hRegisterCommand_iff.mp first
      obtain ⟨fitting, rfl⟩ := registerEach_iff.mp run
      exact ⟨⟨fits, fitting⟩, rfl⟩
    · rintro ⟨⟨fits, fitting⟩, rfl⟩
      exact (bind_ok (isr80hRegisterCommand_iff.mpr ⟨fits, rfl⟩)).trans (registerEach_iff.mpr ⟨fitting, rfl⟩)

theorem registered_of_mem : {registrations : List (Int × Isr80hCommand)} →
    {commands : Nat → Option Isr80hCommand} → (fitting : Fitting registrations commands) →
    {registration : Int × Isr80hCommand} → (among : registration ∈ registrations) →
    registered registrations commands registration.1.toNat = some registration.2
  | first :: rest, commands, fitting, registration, among => by
    obtain ⟨_, later⟩ := fitting_cons.mp fitting
    unfold registered
    rcases List.mem_cons.mp among with rfl | among
    · rw [registered_of_not_mem later.others, Function.update_self]
    · exact registered_of_mem later among

end Commands

section Dispatch
variable {σ : Type} (below : Below σ) (caller : Caller)

def InterruptCallback.run (c : Int) (key : Option Byte) : InterruptCallback → Prog σ Stop CommandEnd
  | .idtHandleExecption => below.idtHandleExecption
  | .idtClock => below.idtClock c
  | .classicKeyboardInterruptHandler => below.classicKeyboardInterruptHandler caller key

def Isr80hCommand.run : Isr80hCommand → Prog σ Stop CommandEnd
  | .command0Sum => below.isr80hCommand0Sum caller
  | .command1Print => below.isr80hCommand1Print caller
  | .command2GetKey => below.isr80hCommand2GetKey
  | .command3Putchar => below.isr80hCommand3Putchar caller
  | .command4Malloc => below.isr80hCommand4Malloc caller
  | .command5Free => below.isr80hCommand5Free caller
  | .command6ProcessLoadStart => below.isr80hCommand6ProcessLoadStart caller
  | .command7InvokeSystemCommand => below.isr80hCommand7InvokeSystemCommand caller
  | .command8GetProgramArguments => below.isr80hCommand8GetProgramArguments caller
  | .command9Exit => below.isr80hCommand9Exit

/-- `interrupt_handler` over a table of callbacks. -/
def Registry.interruptHandler (registry : Registry) (c : Int) (key : Option Byte) (interrupt : Nat)
    (frame : InterruptFrame) : Prog σ Stop CommandEnd :=
  match registry.interruptCallbacks interrupt with
  | some callback => below.enter caller frame (callback.run below caller c key)
  | none => do
      below.kernelPage caller
      below.taskPage
      pure (.result 0)

/-- `isr80h_handle_command` over a table of commands. -/
def Registry.isr80hHandleCommand (registry : Registry) (command : Int) : Prog σ Stop CommandEnd :=
  if command < 0 ∨ peachosMaxIsr80hCommands ≤ command then pure (.result 0)
  else
    match registry.isr80hCommands command.toNat with
    | some commandFunc => commandFunc.run below caller
    | none => below.kernel (panic "\n Command doesnt exist")

end Dispatch

/-- The tables before `kernel_main`, with the classic keyboard as it is compiled in. -/
structure Registry.AtStart (registry : Registry) (classicKeyboard : Addr) : Prop where
  callbacks : registry.interruptCallbacks = fun _ => none
  commands : registry.isr80hCommands = fun _ => none
  last : registry.keyboardListLast = 0
  hasInit : (registry.keyboards classicKeyboard).hasInit = true

/-- The commands of `isr80h_register_commands`, in its order. -/
def systemCommands : List (Int × Isr80hCommand) :=
  [(0, .command0Sum), (1, .command1Print), (2, .command2GetKey), (3, .command3Putchar), (4, .command4Malloc),
    (5, .command5Free), (6, .command6ProcessLoadStart), (7, .command7InvokeSystemCommand),
    (8, .command8GetProgramArguments), (9, .command9Exit)]

def exceptionCallbacks (interrupt : Nat) : Option InterruptCallback :=
  if interrupt < 0x20 then some .idtHandleExecption else none

def bootCallbacks : Nat → Option InterruptCallback :=
  Function.update (Function.update exceptionCallbacks 0x20 (some .idtClock)) 0x21
    (some .classicKeyboardInterruptHandler)

section Boot
variable {registry after : Registry} {interruptPointerTable : Nat → Word} {isr80hWrapper : Word}
  {classicKeyboard : Addr}

theorem isr80hRegisterCommands_eq : isr80hRegisterCommands registry = registerEach systemCommands registry := by
  have last : ∀ program : RegistryProg Unit, (program >>= fun _ => pure ()) = program := by
    intro program
    funext state
    rw [bind_run]
    cases found : program state with
    | mk result after => cases result <;> rfl
  unfold isr80hRegisterCommands systemCommands
  simp only [registerEach, last]

theorem systemCommands_fitting : Fitting systemCommands (fun _ => none) := by
  refine ⟨?_, fun _ _ => rfl, by decide⟩
  decide

theorem isr80hRegisterCommands_run (empty : registry.isr80hCommands = fun _ => none) :
    isr80hRegisterCommands registry =
      (.ok (), { registry with isr80hCommands := registered systemCommands fun _ => none }) := by
  rw [isr80hRegisterCommands_eq]
  refine registerEach_iff.mpr ⟨?_, ?_⟩
  · rw [empty]
    exact systemCommands_fitting
  · rw [empty]

def bootDescriptors (interruptPointerTable : Nat → Word) (isr80hWrapper : Word) : Nat → IdtDesc :=
  Function.update (fun i => if i < peachosTotalInterrupts then IdtDesc.of (interruptPointerTable i) else IdtDesc.blank)
    0x80 (IdtDesc.of isr80hWrapper)

theorem idtInit_run (empty : registry.interruptCallbacks = fun _ => none) :
    idtInit interruptPointerTable isr80hWrapper registry = (.ok (), { registry with
      idtDescriptors := bootDescriptors interruptPointerTable isr80hWrapper
      interruptCallbacks := Function.update exceptionCallbacks 0x20 (some .idtClock) }) := by
  unfold idtInit
  rw [update_bind]
  refine (bind_ok (idtSetAll_run peachosTotalInterrupts)).trans ?_
  unfold idtSet
  rw [update_bind]
  refine (bind_ok (idtRegisterExceptions_run (by decide))).trans ?_
  refine (bind_ok (idtRegisterInterruptCallback_run (by decide) (by decide))).trans ?_
  rw [pure_run]
  dsimp only
  rw [empty]
  rfl

def Registry.booted (registry : Registry) (interruptPointerTable : Nat → Word) (isr80hWrapper : Word)
    (classicKeyboard : Addr) : Registry where
  idtDescriptors := bootDescriptors interruptPointerTable isr80hWrapper
  interruptCallbacks := bootCallbacks
  isr80hCommands := registered systemCommands fun _ => none
  keyboards := Function.update registry.keyboards classicKeyboard
    { registry.keyboards classicKeyboard with capslockState := keyboardCapsLockOff }
  keyboardListHead := classicKeyboard
  keyboardListLast := classicKeyboard

theorem classicKeyboardInit_run : classicKeyboardInit classicKeyboard registry = (.ok 0, { registry with
    interruptCallbacks := Function.update registry.interruptCallbacks 0x21 (some .classicKeyboardInterruptHandler)
    keyboards := Function.update registry.keyboards classicKeyboard
      { registry.keyboards classicKeyboard with capslockState := keyboardCapsLockOff } }) := by
  unfold classicKeyboardInit
  refine (bind_ok (idtRegisterInterruptCallback_run (by decide) (by decide))).trans ?_
  rw [update_bind, pure_run]
  rfl

theorem keyboardInit_run (none : registry.keyboardListLast = 0)
    (hasInit : (registry.keyboards classicKeyboard).hasInit = true) :
    keyboardInit classicKeyboard registry = (.ok (), { registry with
      interruptCallbacks := Function.update registry.interruptCallbacks 0x21 (some .classicKeyboardInterruptHandler)
      keyboards := Function.update registry.keyboards classicKeyboard
        { registry.keyboards classicKeyboard with capslockState := keyboardCapsLockOff }
      keyboardListHead := classicKeyboard
      keyboardListLast := classicKeyboard }) := by
  unfold keyboardInit
  have same : keyboardInsert classicKeyboard classicKeyboard registry = classicKeyboardInit classicKeyboard { registry with
      keyboardListHead := classicKeyboard, keyboardListLast := classicKeyboard } := by
    unfold keyboardInsert
    rw [read_bind, hasInit, if_neg (by decide), read_bind, none, if_neg (by simp), update_bind]
  exact bind_ok (same.trans classicKeyboardInit_run)

theorem kernelMainTables_run (start : registry.AtStart classicKeyboard) :
    kernelMainTables interruptPointerTable isr80hWrapper classicKeyboard registry =
      (.ok (), registry.booted interruptPointerTable isr80hWrapper classicKeyboard) := by
  unfold kernelMainTables
  refine (bind_ok (idtInit_run start.callbacks)).trans ?_
  refine (bind_ok (isr80hRegisterCommands_run ?_)).trans ?_
  · exact start.commands
  · exact keyboardInit_run start.last start.hasInit

end Boot

section Dispatch
variable {σ : Type} {below : Below σ} {caller : Caller} {registry after : Registry} {interruptPointerTable : Nat → Word}
  {isr80hWrapper : Word} {classicKeyboard : Addr} {more : List (Int × Isr80hCommand)}

theorem booted_callbacks (c : Int) (key : Option Byte) (interrupt : Nat) :
    (bootCallbacks interrupt).map (fun callback => callback.run below caller c key) =
      below.interruptCallbacks caller c key interrupt := by
  unfold Below.interruptCallbacks bootCallbacks exceptionCallbacks
  by_cases keyboard : interrupt = 0x21
  · subst keyboard
    rfl
  by_cases clock : interrupt = 0x20
  · subst clock
    rfl
  rw [Function.update_of_ne keyboard, Function.update_of_ne clock, if_neg clock, if_neg keyboard]
  split <;> rfl

theorem booted_interruptHandler (c : Int) (key : Option Byte) (interrupt : Nat) (frame : InterruptFrame) :
    (registry.booted interruptPointerTable isr80hWrapper classicKeyboard).interruptHandler below caller c key interrupt
      frame = below.interruptHandler caller c key interrupt frame := by
  unfold Registry.interruptHandler Below.interruptHandler
  rw [← booted_callbacks, show (registry.booted interruptPointerTable isr80hWrapper classicKeyboard).interruptCallbacks =
    bootCallbacks from rfl]
  cases bootCallbacks interrupt <;> rfl

theorem booted_free {number : Nat} (past : 10 ≤ number) : registered systemCommands (fun _ => none) number = none := by
  refine registered_of_not_mem (fun registration among => ?_)
  have small : ∀ registration ∈ systemCommands, registration.1.toNat < 10 := by decide
  have bound := small registration among
  omega

theorem booted_commands (command : Nat) :
    (registered systemCommands (fun _ => none) command).map (fun commandFunc => commandFunc.run below caller) =
      below.isr80hCommands caller command := by
  by_cases known : command < 10
  · interval_cases command <;> rfl
  · rw [booted_free (by omega), Option.map_none]
    unfold Below.isr80hCommands
    split <;> first | rfl | omega

theorem booted_isr80hHandleCommand (command : Int) :
    (registry.booted interruptPointerTable isr80hWrapper classicKeyboard).isr80hHandleCommand below caller command =
      below.isr80hHandleCommand caller command := by
  unfold Registry.isr80hHandleCommand Below.isr80hHandleCommand
  by_cases outside : command < 0 ∨ peachosMaxIsr80hCommands ≤ command
  · rw [if_pos outside, if_pos outside]
  · obtain ⟨number, rfl⟩ := Int.eq_ofNat_of_zero_le (show 0 ≤ command by omega)
    rw [if_neg outside, if_neg outside, ← booted_commands, Int.toNat_natCast,
      show (registry.booted interruptPointerTable isr80hWrapper classicKeyboard).isr80hCommands =
        registered systemCommands (fun _ => none) from rfl]
    cases registered systemCommands (fun _ => none) number <;> rfl

theorem registered_handles (fitting : Fitting more registry.isr80hCommands) {registration : Int × Isr80hCommand}
    (among : registration ∈ more) :
    ({ registry with isr80hCommands := registered more registry.isr80hCommands } : Registry).isr80hHandleCommand below
      caller registration.1 = registration.2.run below caller := by
  have bounds := fitting.within registration among
  unfold Registry.isr80hHandleCommand
  rw [if_neg (by omega)]
  dsimp only
  rw [registered_of_mem fitting among]

/-- Every other number calls what it called before. -/
theorem registered_others (fitting : Fitting more registry.isr80hCommands) {command : Int}
    (other : ∀ registration ∈ more, registration.1 ≠ command) :
    ({ registry with isr80hCommands := registered more registry.isr80hCommands } : Registry).isr80hHandleCommand below
      caller command = registry.isr80hHandleCommand below caller command := by
  unfold Registry.isr80hHandleCommand
  by_cases outside : command < 0 ∨ peachosMaxIsr80hCommands ≤ command
  · rw [if_pos outside, if_pos outside]
  · have apart : ∀ registration ∈ more, registration.1.toNat ≠ command.toNat := by
      intro registration among same
      have bounds := fitting.within registration among
      exact other registration among (by omega)
    rw [if_neg outside, if_neg outside]
    dsimp only
    rw [registered_of_not_mem apart]

theorem booted_fitting : Fitting more (registered systemCommands fun _ => none) ↔
    (∀ registration ∈ more, 10 ≤ registration.1 ∧ registration.1 < peachosMaxIsr80hCommands) ∧
      (more.map Prod.fst).Nodup := by
  constructor
  · intro fitting
    refine ⟨fun registration among => ⟨?_, (fitting.within registration among).2⟩, fitting.different⟩
    by_contra small
    have bounds := fitting.within registration among
    have free := fitting.free registration among
    have below10 : registration.1.toNat < 10 := by omega
    generalize registration.1.toNat = number at free below10
    interval_cases number <;> cases free
  · rintro ⟨within, different⟩
    refine ⟨fun registration among => ?_, fun registration among => booted_free ?_, different⟩
    · have bounds := within registration among
      omega
    · have bounds := within registration among
      omega

/-- The tables that `kernel_main` fills send every interrupt and every system call to its handler, and leave the
numbers from 10 on to further commands. -/
theorem tables_dispatch (start : registry.AtStart classicKeyboard) :
    ∃ booted, kernelMainTables interruptPointerTable isr80hWrapper classicKeyboard registry = (.ok (), booted) ∧
      (∀ interrupt < peachosTotalInterrupts, decodeGate (booted.idtDescriptors interrupt).packed =
        userGate (if interrupt = 0x80 then isr80hWrapper else interruptPointerTable interrupt)) ∧
      (∀ {σ : Type} (below : Below σ) caller c key interrupt frame,
        booted.interruptHandler below caller c key interrupt frame =
          below.interruptHandler caller c key interrupt frame) ∧
      (∀ {σ : Type} (below : Below σ) caller command,
        booted.isr80hHandleCommand below caller command = below.isr80hHandleCommand caller command) ∧
      (booted.keyboards classicKeyboard).capslockState = keyboardCapsLockOff ∧
      ∀ more, ((∃ extended, registerEach more booted = (.ok (), extended)) ↔
          (∀ registration ∈ more, 10 ≤ registration.1 ∧ registration.1 < peachosMaxIsr80hCommands) ∧
            (more.map Prod.fst).Nodup) ∧
        ∀ extended, registerEach more booted = (.ok (), extended) →
          ∀ {σ : Type} (below : Below σ) caller,
            (∀ registration ∈ more,
              extended.isr80hHandleCommand below caller registration.1 = registration.2.run below caller) ∧
            ∀ command, (∀ registration ∈ more, registration.1 ≠ command) →
              extended.isr80hHandleCommand below caller command = below.isr80hHandleCommand caller command := by
  refine ⟨_, kernelMainTables_run start, fun interrupt inside => ?_, fun _ _ _ _ _ _ => booted_interruptHandler ..,
    fun _ _ _ => booted_isr80hHandleCommand _, ?_, fun more => ⟨?_, fun extended run _ below caller => ?_⟩⟩
  · rw [show (registry.booted interruptPointerTable isr80hWrapper classicKeyboard).idtDescriptors =
      bootDescriptors interruptPointerTable isr80hWrapper from rfl]
    unfold bootDescriptors
    by_cases wrapped : interrupt = 0x80
    · rw [if_pos wrapped, wrapped, Function.update_self, IdtDesc.of_gate]
    · rw [if_neg wrapped, Function.update_of_ne wrapped, if_pos inside, IdtDesc.of_gate]
  · rw [show (registry.booted interruptPointerTable isr80hWrapper classicKeyboard).keyboards =
      Function.update registry.keyboards classicKeyboard
        { registry.keyboards classicKeyboard with capslockState := keyboardCapsLockOff } from rfl, Function.update_self]
  · constructor
    · rintro ⟨extended, run⟩
      exact booted_fitting.mp (registerEach_iff.mp run).1
    · exact fun fits => ⟨_, registerEach_iff.mpr ⟨booted_fitting.mpr fits, rfl⟩⟩
  · obtain ⟨fitting, rfl⟩ := registerEach_iff.mp run
    refine ⟨fun registration among => registered_handles fitting among, fun command other => ?_⟩
    rw [registered_others fitting other, booted_isr80hHandleCommand]

/-- The tables of a kernel whose data is zero but for the classic keyboard at address 1. -/
def tablesAtStart : Registry where
  idtDescriptors := fun _ => IdtDesc.blank
  interruptCallbacks := fun _ => none
  isr80hCommands := fun _ => none
  keyboards := fun keyboard => ⟨keyboard = 1, 0, 0⟩
  keyboardListHead := 0
  keyboardListLast := 0

/-- The gate of the system calls, that of the timer, and a further command with the number 10. -/
theorem tables_dispatch_blank : ∃ booted extended,
    kernelMainTables (fun interrupt => BitVec.ofNat 32 (0x1000 + interrupt)) 0x5000 1 tablesAtStart = (.ok (), booted) ∧
      decodeGate (booted.idtDescriptors 0x80).packed = userGate 0x5000 ∧
      decodeGate (booted.idtDescriptors 0x20).packed = userGate 0x1020 ∧
      registerEach [(10, .command0Sum)] booted = (.ok (), extended) ∧
      ∀ {σ : Type} (below : Below σ) caller,
        extended.isr80hHandleCommand below caller 10 = Isr80hCommand.run below caller .command0Sum ∧
          extended.isr80hHandleCommand below caller 1 = below.isr80hHandleCommand caller 1 := by
  have start : tablesAtStart.AtStart 1 := ⟨rfl, rfl, rfl, rfl⟩
  obtain ⟨booted, run, gates, _, _, _, further⟩ :=
    @tables_dispatch tablesAtStart (fun interrupt => BitVec.ofNat 32 (0x1000 + interrupt)) 0x5000 1 start
  obtain ⟨fits, handled⟩ := further [(10, .command0Sum)]
  obtain ⟨extended, registered⟩ := fits.mpr ⟨List.forall_mem_singleton.mpr (by decide), by decide⟩
  refine ⟨booted, extended, run, gates 0x80 (by decide), gates 0x20 (by decide), registered, fun below caller => ?_⟩
  obtain ⟨added, others⟩ := handled extended registered below caller
  exact ⟨added _ (List.mem_singleton_self _), others 1 (List.forall_mem_singleton.mpr (by decide))⟩

end Dispatch

end PeachOS
