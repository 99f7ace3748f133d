import PeachOS.KeyboardRuns
import PeachOS.ShellCalls
import PeachOS.SystemCalls

/-! From scan codes to the keyboard buffers: `keyboard/classic.c`. `past` is the byte behind the table of
characters. -/

namespace PeachOS
open Program Transition

abbrev classicKeyboardCapslock : Byte := 0x3a
abbrev classicKeyboardKeyReleased : Byte := 0x80
abbrev keyboardCapsLockOn : Word := 1
abbrev keyboardCapsLockOff : Word := 0

/-- The key that switches to the next shell. -/
abbrev backtick : Byte := 96

def keyboardScanSetOne : List Byte :=
  [0x00, 0x1b, 0x31, 0x32, 0x33, 0x34, 0x35,
    0x36, 0x37, 0x38, 0x39, 0x30, 0x2d, 0x3d,
    0x08, 0x09, 0x51, 0x57, 0x45, 0x52, 0x54,
    0x59, 0x55, 0x49, 0x4f, 0x50, 0x5b, 0x5d,
    0x0d, 0x00, 0x41, 0x53, 0x44, 0x46, 0x47,
    0x48, 0x4a, 0x4b, 0x4c, 0x3b, 0x27, 0x60,
    0x00, 0x5c, 0x5a, 0x58, 0x43, 0x56, 0x42,
    0x4e, 0x4d, 0x2c, 0x2e, 0x2f, 0x00, 0x2a,
    0x00, 0x20, 0x00, 0x00, 0x00, 0x00,
    0x00, 0x00, 0x00, 0x00, 0x00, 0x00,
    0x00, 0x37, 0x38, 0x39, 0x2d, 0x34, 0x35,
    0x36, 0x2b, 0x31, 0x32, 0x33, 0x30, 0x2e]

/-- The kernel with the caps lock of the keyboard. -/
structure Typing where
  kernel : Kernel
  capslockState : Word

def Typing.onKernel {α : Type} (call : KernelProg α) : Prog Typing Stop α := fun typing =>
  ((call typing.kernel).1, { typing with kernel := (call typing.kernel).2 })

/-- The bound lets the code just behind the table through. -/
def classicKeyboardScancodeToChar (past : Byte) (capslockState : Word) (scancode : Byte) : Byte :=
  if keyboardScanSetOne.length < scancode.toNat then 0
  else
    let c := keyboardScanSetOne.getD scancode.toNat past
    if capslockState = keyboardCapsLockOff then
      if 0x41 ≤ c.toInt ∧ c.toInt ≤ 0x5a then c + 32 else c
    else c

def classicKeyboardInterruptHandler (kernelChunk : Addr) (past scancode : Byte) : Prog Typing Stop Unit := do
  Typing.onKernel (Kernel.pagingSwitch kernelChunk)
  if scancode &&& classicKeyboardKeyReleased ≠ 0 then pure ()
  else
    updateWhen (fun _ => scancode = classicKeyboardCapslock) (fun typing =>
      { typing with capslockState :=
          if typing.capslockState = keyboardCapsLockOn then keyboardCapsLockOff else keyboardCapsLockOn })
    let capslockState ← read Typing.capslockState
    let c := classicKeyboardScancodeToChar past capslockState scancode
    if c = backtick then Typing.onKernel shellSwitchToNext
    else
      let _ ← (if c ≠ 0 then Typing.onKernel (keyboardPush c) else pure ())
      let current ← read (fun typing => typing.kernel.currentTask)
      Typing.onKernel (taskSwitch current)

def capslockAfter (capslockState : Word) (scancode : Byte) : Word :=
  if scancode = classicKeyboardCapslock then
    if capslockState = keyboardCapsLockOn then keyboardCapsLockOff else keyboardCapsLockOn
  else capslockState

def pressedKey (past : Byte) (capslockState : Word) (scancode : Byte) : Option Byte :=
  if scancode &&& classicKeyboardKeyReleased ≠ 0 then none
  else some (classicKeyboardScancodeToChar past (capslockAfter capslockState scancode) scancode)

section Decoder
variable {scancode : Byte} {capslockState : Word}

theorem capslockAfter_released (released : scancode &&& classicKeyboardKeyReleased ≠ 0) (capslockState : Word) :
    capslockAfter capslockState scancode = capslockState := by
  unfold capslockAfter
  rw [if_neg]
  rintro rfl
  exact released (by decide)

/-- What lies behind the table is read for the one code that passes the bound and is not in it. -/
theorem classicKeyboardScancodeToChar_past (capslockState : Word) (scancode : Byte) :
    (∀ past other, classicKeyboardScancodeToChar past capslockState scancode =
      classicKeyboardScancodeToChar other capslockState scancode) ↔ scancode ≠ 82 := by
  constructor
  · rintro same rfl
    have differ := same 0 1
    unfold classicKeyboardScancodeToChar at differ
    by_cases off : capslockState = keyboardCapsLockOff
    · simp only [if_pos off] at differ
      revert differ
      decide
    · simp only [if_neg off] at differ
      revert differ
      decide
  · intro inside past other
    unfold classicKeyboardScancodeToChar
    split
    · rfl
    next within =>
      have length : keyboardScanSetOne.length = 82 := rfl
      have different : scancode.toNat ≠ 82 := fun same => inside (BitVec.eq_of_toNat_eq same)
      have bound : scancode.toNat < keyboardScanSetOne.length := by omega
      rw [List.getD_eq_getElem _ _ bound, List.getD_eq_getElem _ _ bound]

end Decoder

section Handler
variable {load : List Byte → Addr → KernelProg Int} {caller : Caller} {past scancode : Byte} {typing after : Typing}
  {kernelChunk : Addr}

theorem Typing.onKernel_run {α : Type} {call : KernelProg α} {ended : Except Stop α} {kernel : Kernel}
    (found : call typing.kernel = (ended, kernel)) :
    Typing.onKernel call typing = (ended, { typing with kernel := kernel }) := by
  unfold Typing.onKernel
  rw [found]

theorem Typing.onKernel_ok {α : Type} {call : KernelProg α} {result : α}
    (run : Typing.onKernel call typing = (.ok result, after)) :
    call typing.kernel = (.ok result, after.kernel) ∧ after.capslockState = typing.capslockState := by
  rcases found : call typing.kernel with ⟨ended, kernel⟩
  rw [Typing.onKernel_run found] at run
  cases run
  exact ⟨rfl, rfl⟩

theorem capslock_updated (scancode : Byte) (typing : Typing) :
    (if scancode = classicKeyboardCapslock then
      { typing with capslockState :=
          if typing.capslockState = keyboardCapsLockOn then keyboardCapsLockOff else keyboardCapsLockOn }
    else typing) = { typing with capslockState := capslockAfter typing.capslockState scancode } := by
  unfold capslockAfter
  split <;> rfl

variable (load) in
theorem Typing.taskPage_run (typing : Typing) :
    ((kernelBelow load).taskPage >>= fun _ => pure (.result 0)) typing.kernel =
      (((Typing.onKernel (taskSwitch typing.kernel.currentTask) typing).1.map (fun _ => CommandEnd.result 0)),
        (Typing.onKernel (taskSwitch typing.kernel.currentTask) typing).2.kernel) := by
  have page : (kernelBelow load).taskPage typing.kernel = taskSwitch typing.kernel.currentTask typing.kernel := rfl
  rw [bind_run, page]
  rcases switched : taskSwitch typing.kernel.currentTask typing.kernel with ⟨_ | _, last⟩
  · rw [Typing.onKernel_run switched]
    rfl
  · rw [Typing.onKernel_run switched]
    rfl

theorem classicKeyboardInterruptHandler_below :
    (kernelBelow load).classicKeyboardInterruptHandler caller (pressedKey past typing.capslockState scancode) typing.kernel =
      (((classicKeyboardInterruptHandler caller.kernelChunk past scancode typing).1.map (fun _ => .result 0)),
        (classicKeyboardInterruptHandler caller.kernelChunk past scancode typing).2.kernel) := by
  unfold Below.classicKeyboardInterruptHandler classicKeyboardInterruptHandler Below.kernelPage
  rcases paged : Kernel.pagingSwitch caller.kernelChunk typing.kernel with ⟨_ | _, kernel⟩
  · rw [bind_error (Typing.onKernel_run paged)]
    exact bind_error paged
  rw [bind_ok (Typing.onKernel_run paged)]
  refine (bind_ok paged).trans ?_
  unfold pressedKey
  by_cases released : scancode &&& classicKeyboardKeyReleased ≠ 0
  · rw [if_pos released, if_pos released]
    rfl
  rw [if_neg released, if_neg released, updateWhen_bind, capslock_updated, read_bind]
  dsimp only
  generalize classicKeyboardScancodeToChar past _ scancode = c
  by_cases switches : c = backtick
  · rw [if_pos switches, if_pos switches]
    rcases switched : shellSwitchToNext kernel with ⟨_ | _, last⟩
    · rw [Typing.onKernel_run switched]
      exact bind_error switched
    · rw [Typing.onKernel_run switched]
      exact bind_ok switched
  rw [if_neg switches, if_neg switches]
  by_cases proper : c ≠ 0
  · rw [if_pos proper, if_pos proper]
    rcases pushed : keyboardPush c kernel with ⟨_ | _, last⟩
    · rw [bind_error (Typing.onKernel_run pushed)]
      exact bind_error pushed
    · rw [bind_ok (Typing.onKernel_run pushed)]
      exact (bind_ok pushed).trans (Typing.taskPage_run load ⟨last, capslockAfter typing.capslockState scancode⟩)
  · rw [if_neg proper, if_neg proper]
    exact Typing.taskPage_run load ⟨kernel, capslockAfter typing.capslockState scancode⟩

theorem pagingSwitch_records {kernel paged : Kernel} (run : Kernel.pagingSwitch kernelChunk kernel = (.ok (), paged)) :
    paged.processRecords = kernel.processRecords ∧ paged.currentProcess = kernel.currentProcess := by
  unfold Kernel.pagingSwitch at run
  split at run
  · cases run
  · cases run
    exact ⟨rfl, rfl⟩

theorem shellSwitchToNext_records {kernel last : Kernel} (run : shellSwitchToNext kernel = (.ok (), last)) :
    last.processRecords = kernel.processRecords := by
  have kept : Preserves (fun other => other.processRecords = kernel.processRecords) shellSwitchToNext := by
    unfold shellSwitchToNext getCurrentShell
    refine Preserves.bind (Preserves.read _) ?_
    intro current
    refine Preserves.ite (Preserves.stop _) ?_
    refine Preserves.bind (Preserves.read _) ?_
    intro id
    refine Preserves.bind ?_ (fun _ => Preserves.pure _)
    unfold shellSwitch
    refine Preserves.bind (Preserves.read _) ?_
    intro shell
    refine Preserves.ite (Preserves.pure _) ?_
    refine Preserves.bind (Preserves.update (fun _ held => held)) ?_
    intro _
    refine Preserves.bind (Preserves.read _) ?_
    intro record
    refine Preserves.bind (Preserves.update (fun _ held => held)) ?_
    intro _
    exact Preserves.ite (Preserves.stop _)
      (Preserves.bind (Preserves.update (fun _ held => held)) (fun _ => Preserves.pure _))
  exact kept _ _ _ rfl run

/-- What an interrupt that comes back did: the caps lock, and a character at most for the current process. -/
theorem classicKeyboardInterruptHandler_ok
    (run : classicKeyboardInterruptHandler kernelChunk past scancode typing = (.ok (), after)) :
    after.capslockState = capslockAfter typing.capslockState scancode ∧
      match pressedKey past typing.capslockState scancode with
      | none => after.kernel.processRecords = typing.kernel.processRecords
      | some c =>
          if c = 0 ∨ c = backtick then after.kernel.processRecords = typing.kernel.processRecords
          else ∃ paged pushed, paged.processRecords = typing.kernel.processRecords ∧
            paged.currentProcess = typing.kernel.currentProcess ∧ keyboardPush c paged = (.ok (), pushed) ∧
            after.kernel.processRecords = pushed.processRecords := by
  unfold classicKeyboardInterruptHandler at run
  obtain ⟨_, paged, page, run⟩ := bind_eq_ok run
  obtain ⟨page, same⟩ := Typing.onKernel_ok page
  obtain ⟨records, current⟩ := pagingSwitch_records page
  unfold pressedKey
  by_cases released : scancode &&& classicKeyboardKeyReleased ≠ 0
  · rw [if_pos released] at run ⊢
    cases run
    exact ⟨same.trans (capslockAfter_released released _).symm, records⟩
  rw [if_neg released, updateWhen_bind, capslock_updated, read_bind] at run
  rw [if_neg released]
  dsimp only at run ⊢
  rw [same] at run
  generalize classicKeyboardScancodeToChar past _ scancode = c at run ⊢
  by_cases switches : c = backtick
  · rw [if_pos switches] at run
    rw [if_pos (Or.inr switches)]
    obtain ⟨switched, capslock⟩ := Typing.onKernel_ok run
    exact ⟨capslock, (shellSwitchToNext_records switched).trans records⟩
  rw [if_neg switches] at run
  by_cases blank : c = 0
  · rw [if_neg (not_not.mpr blank)] at run
    rw [if_pos (Or.inl blank)]
    obtain ⟨back, capslock⟩ := Typing.onKernel_ok run
    exact ⟨capslock, (taskSwitch_kept back).2.2.1.trans records⟩
  · rw [if_pos blank] at run
    rw [if_neg (not_or.mpr ⟨blank, switches⟩)]
    obtain ⟨_, pushed, push, run⟩ := bind_eq_ok run
    obtain ⟨push, kept⟩ := Typing.onKernel_ok push
    obtain ⟨back, capslock⟩ := Typing.onKernel_ok run
    exact ⟨capslock.trans kept, paged.kernel, pushed.kernel, records, current, push, (taskSwitch_kept back).2.2.1⟩

end Handler

end PeachOS
