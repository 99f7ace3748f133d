import PeachOS.Lib.WriteLog
import PeachOS.SystemCalls

/-! The array in which the system calls that start a program put `0:/` and the name, as the
stores of `strcpy` and `strncpy` fill it. Both may store behind its end: one copies a name
that fits its own buffer, the other counts its limit from the place behind `0:/`. -/

namespace PeachOS
open Program ByteMemory WriteLog

/-- The stores of `strcpy` in their order. -/
def strcpyStores (dest : Addr) : (src : List Byte) → List (Addr × Byte)
  | [] => [(dest, 0)]
  | c :: rest => if c = 0 then [(dest, 0)] else (dest, c) :: strcpyStores (dest + 1) rest

/-- The stores of the loop of `strncpy`, whose limit is one less than its `count`. -/
def strncpyStoresLoop (dest : Addr) : (src : List Byte) → (limit : Nat) → List (Addr × Byte)
  | _, 0 => [(dest, 0)]
  | [], _ + 1 => [(dest, 0)]
  | c :: rest, limit + 1 => if c = 0 then [(dest, 0)] else (dest, c) :: strncpyStoresLoop (dest + 1) rest limit

def strncpyStores (dest : Addr) (src : List Byte) (count : Nat) : List (Addr × Byte) :=
  strncpyStoresLoop dest src (count - 1)

theorem strcpyStores_eq (dest : Addr) (src : List Byte) :
    strcpyStores dest src = storesFrom dest (src.take (strlen src) ++ [0]) := by
  induction src generalizing dest with
  | nil => rfl
  | cons c rest ih =>
    rw [strcpyStores, strlen]
    split
    · rfl
    · rw [ih]
      rfl

theorem strncpyStores_eq (dest : Addr) (src : List Byte) (count : Nat) :
    strncpyStores dest src count = storesFrom dest (strncpy src count) := by
  unfold strncpyStores strncpy
  generalize count - 1 = limit
  induction src generalizing dest limit with
  | nil => cases limit <;> rfl
  | cons c rest ih =>
    cases limit with
    | zero => rfl
    | succ limit =>
      rw [strncpyStoresLoop, strnlen]
      split
      · rfl
      · rw [ih]
        rfl

/-- How `isr80h_command6_process_load_start` fills `path` from its own copy of the name. -/
def command6Stores (path : Addr) (filename : List Byte) : List (Addr × Byte) :=
  strcpyStores path drivePrefix ++ strcpyStores (path + 3) filename

/-- How `isr80h_command7_invoke_system_command` fills it, with the size of `path` as the limit. -/
def command7Stores (path : Addr) (programName : List Byte) : List (Addr × Byte) :=
  strcpyStores path drivePrefix ++ strncpyStores (path + 3) programName peachosMaxPath

/-- No store is outside the array at `path`. -/
def StaysInside (path : Addr) (stores : List (Addr × Byte)) : Prop :=
  ∀ store ∈ stores, (store.1 - path).toNat < peachosMaxPath

instance (path : Addr) (stores : List (Addr × Byte)) : Decidable (StaysInside path stores) :=
  inferInstanceAs (Decidable (∀ store ∈ stores, _))

theorem staysInside_storesFrom (path : Addr) (content : List Byte) :
    StaysInside path (storesFrom path content) ↔ content.length ≤ peachosMaxPath := by
  unfold StaysInside
  constructor
  · intro inside
    by_contra longer
    have member : path + BitVec.ofNat 32 peachosMaxPath ∈ (storesFrom path content).map Prod.fst :=
      address_mem_storesFrom.2 ⟨peachosMaxPath, by omega, rfl⟩
    obtain ⟨store, stored, same⟩ := List.mem_map.1 member
    have place := inside store stored
    rw [same] at place
    unfold peachosMaxPath at place
    bv_omega
  · intro fits store stored
    obtain ⟨i, bound, same⟩ := address_mem_storesFrom.1 (List.mem_map_of_mem (f := Prod.fst) stored)
    rw [same]
    unfold peachosMaxPath at *
    bv_omega

section Filled
variable (path : Addr) (text : List Byte)

theorem prefix_then_text : strcpyStores path drivePrefix ++ storesFrom (path + 3) (text ++ [0]) =
    storesFrom path drivePrefix ++ [(path + 3, 0)] ++ storesFrom (path + 3) (text ++ [0]) := by
  rw [strcpyStores_eq]
  have whole : drivePrefix.take (strlen drivePrefix) ++ [0] = drivePrefix ++ [0] := rfl
  rw [whole, storesFrom_append]
  rfl

theorem replay_prefix_then_text (bytes : Bytes) :
    replay bytes (strcpyStores path drivePrefix ++ storesFrom (path + 3) (text ++ [0])) =
      storeBytes bytes path (drivePrefix ++ text ++ [0]) := by
  rw [prefix_then_text, replay_append, replay_append, replay_storesFrom, replay_storesFrom, replay_cons, replay_nil,
    List.append_assoc, storeBytes_append bytes path drivePrefix]
  have ended : text ++ [0] ≠ [] := by simp
  obtain ⟨c, rest, same⟩ := List.exists_cons_of_ne_nil ended
  rw [same, storeBytes, Function.update_idem]
  rfl

theorem staysInside_prefix_then_text :
    StaysInside path (strcpyStores path drivePrefix ++ storesFrom (path + 3) (text ++ [0])) ↔
      text.length + 4 ≤ peachosMaxPath := by
  have whole : storesFrom path (drivePrefix ++ text ++ [0]) =
      storesFrom path drivePrefix ++ storesFrom (path + 3) (text ++ [0]) := by
    rw [List.append_assoc, storesFrom_append]
    rfl
  have length : (drivePrefix ++ text ++ [0]).length = text.length + 4 := by
    simp only [List.length_append, List.length_cons, List.length_nil, drivePrefix]
    omega
  have run := staysInside_storesFrom path (drivePrefix ++ text ++ [0])
  rw [length, whole] at run
  rw [← run, prefix_then_text]
  have offset : ((path + 3, 0) : Addr × Byte).1 - path = 3 := by bv_omega
  unfold StaysInside
  simp only [List.mem_append, List.mem_singleton]
  constructor
  · intro inside store stored
    exact inside store (stored.imp Or.inl id)
  · rintro inside store ((first | rfl) | last)
    · exact inside store (Or.inl first)
    · rw [offset]
      decide
    · exact inside store (Or.inr last)

end Filled

/-- As much of the name as fits between `0:/` and the end of a string in the array. -/
def fittingName (name : List Byte) : List Byte := (name.take (strlen name)).take (peachosMaxPath - 4)

/-- The array holds `0:/` and the name, cut to fit, and nothing outside of it is stored to. -/
def BuildsPath (path : Addr) (stores : List (Addr × Byte)) (name : List Byte) : Prop :=
  StaysInside path stores ∧ ∀ bytes,
    loadBytes (replay bytes stores) path ((fittingName name).length + 4) = drivePrefix ++ fittingName name ++ [0]

/-- What `strncpy` copies of a name with the size of the array as its count. -/
def copiedName (name : List Byte) : List Byte := (name.take (strlen name)).take (peachosMaxPath - 1)

theorem strncpy_peachosMaxPath (name : List Byte) : strncpy name peachosMaxPath = copiedName name ++ [0] := by
  unfold strncpy copiedName
  rw [strnlen_eq_min, List.take_take]

theorem copiedName_length (name : List Byte) : (copiedName name).length = min (peachosMaxPath - 1) (strlen name) := by
  unfold copiedName
  rw [List.length_take, List.length_take, Nat.min_eq_left (strlen_le name)]

theorem take_strlen_copiedName (name : List Byte) :
    (copiedName name ++ [0]).take (strlen (copiedName name ++ [0])) = copiedName name := by
  have nonzero : ∀ c ∈ copiedName name, c ≠ 0 := fun c member =>
    nonzero_of_mem_strlen (List.mem_of_mem_take member)
  rw [strlen_append_zero nonzero, List.take_left]

theorem command6Stores_eq (path : Addr) (name : List Byte) :
    command6Stores path (strncpy name peachosMaxPath) =
      strcpyStores path drivePrefix ++ storesFrom (path + 3) (copiedName name ++ [0]) := by
  unfold command6Stores
  rw [strcpyStores_eq (path + 3), strncpy_peachosMaxPath, take_strlen_copiedName]

theorem command7Stores_eq (path : Addr) (name : List Byte) :
    command7Stores path name =
      strcpyStores path drivePrefix ++ storesFrom (path + 3) (copiedName name ++ [0]) := by
  unfold command7Stores
  rw [strncpyStores_eq, strncpy_peachosMaxPath]

theorem buildsPath_iff (path : Addr) (name : List Byte) :
    BuildsPath path (strcpyStores path drivePrefix ++ storesFrom (path + 3) (copiedName name ++ [0])) name ↔
      strlen name ≤ peachosMaxPath - 4 := by
  have length := copiedName_length name
  unfold BuildsPath
  rw [staysInside_prefix_then_text, length]
  unfold peachosMaxPath at *
  constructor
  · rintro ⟨fits, _⟩
    omega
  · intro short
    have same : copiedName name = fittingName name := by
      unfold copiedName fittingName peachosMaxPath
      rw [List.take_take, List.take_take]
      congr 1
      omega
    refine ⟨by omega, fun bytes => ?_⟩
    have whole : (drivePrefix ++ fittingName name ++ [0]).length = (fittingName name).length + 4 := by
      simp only [List.length_append, List.length_cons, List.length_nil, drivePrefix]
      omega
    rw [same, replay_prefix_then_text, ← whole]
    exact loadBytes_storeBytes bytes path _ (by rw [whole, ← same]; omega)

/-- The name of command 6 is that of the caller as `copy_string_from_task` cut it. Both commands
build the path if and only if no more than 104 characters stand behind `0:/`. -/
theorem pathBuffer_exact (path : Addr) (name : List Byte) :
    (BuildsPath path (command6Stores path (strncpy name peachosMaxPath)) name ↔ strlen name ≤ peachosMaxPath - 4) ∧
      (BuildsPath path (command7Stores path name) name ↔ strlen name ≤ peachosMaxPath - 4) := by
  rw [command6Stores_eq, command7Stores_eq]
  exact ⟨buildsPath_iff path name, buildsPath_iff path name⟩

/-- A name of 105 characters is too long for both. -/
theorem pathBuffer_overflow :
    ¬ BuildsPath 0x200000 (command6Stores 0x200000 (strncpy (List.replicate 105 65) peachosMaxPath))
        (List.replicate 105 65) ∧
      ¬ BuildsPath 0x200000 (command7Stores 0x200000 (List.replicate 105 65)) (List.replicate 105 65) := by
  have long : ¬ strlen (List.replicate 105 65) ≤ peachosMaxPath - 4 := by decide +kernel
  rw [command6Stores_eq, command7Stores_eq, buildsPath_iff]
  exact ⟨long, long⟩

section Commands
variable {σ : Type} (below : Below σ) (caller : Caller)

def stringAt (bytes : Bytes) (address : Addr) : List Byte :=
  let content := loadBytes bytes address peachosMaxPath
  content.take (strlen content)

theorem stringAt_storeBytes (bytes : Bytes) (path : Addr) {text : List Byte} (nonzero : ∀ c ∈ text, c ≠ 0)
    (short : text.length < peachosMaxPath) : stringAt (storeBytes bytes path (text ++ [0])) path = text := by
  unfold stringAt peachosMaxPath at *
  have rest : 108 = (text ++ [0]).length + (107 - text.length) := by
    rw [List.length_append, List.length_singleton]
    omega
  have held : loadBytes (storeBytes bytes path (text ++ [0])) path (text ++ [0]).length = text ++ [0] :=
    loadBytes_storeBytes bytes path _ (by rw [List.length_append, List.length_singleton]; omega)
  dsimp only
  rw [rest, loadBytes_add, held, List.append_assoc, List.singleton_append, strlen_append_zero nonzero, List.take_left]

theorem stringAt_prefix_then_text (bytes : Bytes) (path : Addr) {text : List Byte} (nonzero : ∀ c ∈ text, c ≠ 0)
    (inside : StaysInside path (strcpyStores path drivePrefix ++ storesFrom (path + 3) (text ++ [0]))) :
    stringAt (replay bytes (strcpyStores path drivePrefix ++ storesFrom (path + 3) (text ++ [0]))) path =
      drivePrefix ++ text := by
  have fits := (staysInside_prefix_then_text path text).1 inside
  have drive : ∀ c ∈ drivePrefix, c ≠ 0 := by decide
  have all : ∀ c ∈ drivePrefix ++ text, c ≠ 0 := fun c member =>
    (List.mem_append.1 member).elim (drive c) (nonzero c)
  rw [replay_prefix_then_text]
  apply stringAt_storeBytes bytes path all
  rw [List.length_append]
  unfold drivePrefix
  rw [List.length_cons, List.length_cons, List.length_singleton]
  omega

theorem drivePrefix_append_length (text : List Byte) : (drivePrefix ++ text).length + 1 = text.length + 4 := by
  rw [List.length_append]
  unfold drivePrefix
  rw [List.length_cons, List.length_cons, List.length_singleton]
  omega

/-- Where the text does not fit a store is outside of the array; else it is what the array holds. -/
theorem guarded_path (bytes : Bytes) (path : Addr) {text : List Byte} (nonzero : ∀ c ∈ text, c ≠ 0)
    {stores : List (Addr × Byte)}
    (filled : stores = strcpyStores path drivePrefix ++ storesFrom (path + 3) (text ++ [0]))
    (next : List Byte → Prog σ Stop CommandEnd) :
    (if peachosMaxPath < (drivePrefix ++ text).length + 1 then below.kernel fault else next (drivePrefix ++ text)) =
      if ¬ StaysInside path stores then below.kernel fault else next (stringAt (replay bytes stores) path) := by
  have fits := staysInside_prefix_then_text path text
  rw [← filled] at fits
  rw [drivePrefix_append_length]
  by_cases inside : StaysInside path stores
  · have held := stringAt_prefix_then_text bytes path nonzero (filled ▸ inside)
    rw [if_neg (Nat.not_lt.2 (fits.1 inside)), if_neg (not_not.2 inside), filled, held]
  · rw [if_pos (Nat.not_le.1 (fun le => inside (fits.2 le))), if_pos inside]

/-- What command 6 does with its name: the process is loaded from the string that the stores leave
in the array, and a store outside of the array is where the command faults. -/
theorem isr80hCommand6ProcessLoadStart_stores (bytes : Bytes) (path : Addr) :
    below.isr80hCommand6ProcessLoadStart caller = (do
      let current ← below.kernel (read Kernel.currentTask)
      let filenameUserPtr ← below.taskGetStackItem caller current 0
      let (res, filename) ← below.copyStringFromTask caller current filenameUserPtr peachosMaxPath
      if res < 0 then pure (.result 0)
      else if ¬ StaysInside path (command6Stores path filename) then below.kernel fault
      else
        let (res, process) ← below.processLoadSwitch (stringAt (replay bytes (command6Stores path filename)) path)
        if res < 0 then pure (.result 0) else below.startTask process) := by
  unfold Below.isr80hCommand6ProcessLoadStart
  refine congrArg (Bind.bind _) (funext fun current => ?_)
  refine congrArg (Bind.bind _) (funext fun filenameUserPtr => ?_)
  refine congrArg (Bind.bind _) (funext fun ⟨res, filename⟩ => ?_)
  dsimp only
  split
  · rfl
  · have filled : command6Stores path filename =
        strcpyStores path drivePrefix ++ storesFrom (path + 3) (filename.take (strlen filename) ++ [0]) := by
      unfold command6Stores
      rw [strcpyStores_eq (path + 3)]
    exact guarded_path below bytes path (fun c => nonzero_of_mem_strlen) filled (fun held => do
      let (res, process) ← below.processLoadSwitch held
      if res < 0 then pure (.result 0) else below.startTask process)

theorem isr80hCommand7InvokeSystemCommand_stores (bytes : Bytes) (path : Addr) :
    below.isr80hCommand7InvokeSystemCommand caller = (do
      let current ← below.kernel (read Kernel.currentTask)
      let item ← below.taskGetStackItem caller current 0
      let arguments := caller.arguments (caller.physical item)
      match arguments with
      | [] => pure (.result (BitVec.ofInt 32 (-EINVARG)))
      | programName :: _ =>
          if strlen programName = 0 then pure (.result (BitVec.ofInt 32 (-EINVARG)))
          else if ¬ StaysInside path (command7Stores path programName) then below.kernel fault
          else
            let (res, process) ← below.processLoadSwitch
              (stringAt (replay bytes (command7Stores path programName)) path ++ [0])
            if res < 0 then pure (.result (BitVec.ofInt 32 res))
            else
              let res ← below.processInjectArguments process arguments
              if res < 0 then pure (.result (BitVec.ofInt 32 res)) else below.startTask process) := by
  unfold Below.isr80hCommand7InvokeSystemCommand
  refine congrArg (Bind.bind _) (funext fun current => ?_)
  refine congrArg (Bind.bind _) (funext fun item => ?_)
  dsimp only
  generalize caller.arguments (caller.physical item) = arguments
  cases arguments with
  | nil => rfl
  | cons programName others =>
    dsimp only
    split
    · rfl
    · have nonzero : ∀ c ∈ copiedName programName, c ≠ 0 := fun c member =>
        nonzero_of_mem_strlen (List.mem_of_mem_take member)
      rw [← guarded_path below bytes path nonzero (command7Stores_eq path programName) (fun held => do
        let (res, process) ← below.processLoadSwitch (held ++ [0])
        if res < 0 then pure (.result (BitVec.ofInt 32 res))
        else
          let res ← below.processInjectArguments process (programName :: others)
          if res < 0 then pure (.result (BitVec.ofInt 32 res)) else below.startTask process),
        strncpy_peachosMaxPath, ← List.append_assoc, List.length_append, List.length_singleton]

end Commands

end PeachOS
