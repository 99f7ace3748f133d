import PeachOS.FileRest
import PeachOS.FileSession
import PeachOS.ProgramFile

/-! `process_load_data` of `task/process.c`: a program file is read into memory as an ELF file, or else as it is. -/

namespace PeachOS
open Program ByteMemory

/-- `process_load_binary` with the file open, up to its `out` label: the result and the block, null before there is one. -/
def processLoadBinaryFile (process : Addr) (fd : Int) : KernelProg (Int × Addr) := do
  if fd = 0 then pure (- EIO, 0)
  else
    let (res, stat) ← fstat fd ⟨0, 0⟩
    if res ≠ 0 then pure (res, 0)
    else
      let programDataPtr ← Kernel.kzalloc stat.filesize
      if programDataPtr = 0 then pure (-ENOMEM, 0)
      else
        let count ← fread programDataPtr stat.filesize 1 fd
        if count ≠ 1 then pure (- EIO, programDataPtr)
        else
          update (fun kernel => kernel.setProcess process (fun record =>
            { record with size := stat.filesize, ptr := programDataPtr, filetype := processFiletypeBinary }))
          pure (res, programDataPtr)

def processLoadBinary (filename : List Byte) (process : Addr) : KernelProg Int := do
  let fd ← fopen filename [0x72]
  let (res, programDataPtr) ← processLoadBinaryFile process fd
  if res < 0 ∧ programDataPtr ≠ 0 then Kernel.kfree programDataPtr
  let _ ← fclose fd
  pure res

def processLoadElf (filename : List Byte) (process : Addr) : KernelProg Int := do
  let (res, elfFile) ← elfLoad filename
  if res < 0 then pure res
  else
    update (fun kernel => kernel.setProcess process (fun record =>
      { record with filetype := processFiletypeElf, ptr := elfFile }))
    pure res

def processLoadData (filename : List Byte) (process : Addr) : KernelProg Int := do
  let res ← processLoadElf filename process
  if res = -EINFORMAT then processLoadBinary filename process else pure res

/-- A process whose record says where the file's block is and what the file was taken for. -/
structure HasProgram (kernel : Kernel) (process ptr : Addr) (file : List Byte) : Prop where
  block : FileBlock kernel ptr file
  kind : ((kernel.processRecords process).filetype = processFiletypeBinary ∧ (kernel.processRecords process).ptr = ptr ∧
      (kernel.processRecords process).size = BitVec.ofNat 32 file.length) ∨
    ((kernel.processRecords process).filetype = processFiletypeElf ∧ (kernel.processRecords process).ptr ≠ 0 ∧
      (kernel.elfFiles (kernel.processRecords process).ptr).elfMemory = ptr)

/-- The tasks, the processes and the screen are the same. -/
def SameTasks (before after : Kernel) : Prop :=
  after = { before with
    memory := after.memory
    disk := after.disk
    files := after.files
    fileDescriptors := after.fileDescriptors
    elfFiles := after.elfFiles }

theorem SameTasks.trans {before middle after : Kernel} (first : SameTasks before middle) (second : SameTasks middle after) :
    SameTasks before after := by
  unfold SameTasks at *
  rw [second, first]

theorem SameRest.tasks {before after : Kernel} (same : SameRest before after) : SameTasks before after := by
  unfold SameRest at same
  unfold SameTasks
  rw [same]

section Load
variable {image : Image} {header : FatHeader} {room count i size cluster : Nat} {before : Kernel}
  {filename : List Byte} {names : List (List Byte)} {item : FatDirectoryItem} {process : Addr}

theorem elfProcessLoaded_memory (bytes : Bytes) (file : ElfFile) :
    (elfProcessLoaded bytes file).2.elfMemory = file.elfMemory := by
  unfold elfProcessLoaded
  split
  · rfl
  · exact elfProcessPheaders_memory bytes file

theorem elfProcessLoaded_result (bytes : Bytes) (file : ElfFile) :
    (elfProcessLoaded bytes file).1 = elfValidateLoaded bytes file.elfMemory := by
  unfold elfProcessLoaded elfValidateLoaded
  split
  · rfl
  · split at *
    · rfl
    next negative => exact absurd (by decide) negative

def elfBlocks (header : FatHeader) (filename : List Byte) (names : List (List Byte)) (item : FatDirectoryItem) : Nat :=
  blocksFor item.filesize + pathBlocks header filename names + blocksFor sizeofElfFile

theorem LeadsTo.elfLoad_run (leads : LeadsTo image header true (rootPosition header) size names (.file item))
    (path : NamesPath filename names) (short : ShortFile header item cluster)
    (opens : OpensFiles image header (room + elfBlocks header filename names item) count i before) :
    ∃ elfFile ptr after, elfLoad filename before = (.ok (elfValidateLoaded after.memory.bytes ptr,
        if elfValidateLoaded after.memory.bytes ptr < 0 then 0 else elfFile), after) ∧
      elfFile ≠ 0 ∧ (after.elfFiles elfFile).elfMemory = ptr ∧ OpensFiles image header room count i after ∧
      Unharmed before after ∧ SameTasks before after ∧ FileBlock after ptr (clusterFile image header cluster item) ∧
      ∀ k < item.filesize.toNat, ¬Owned before.memory.heap (ptr + BitVec.ofNat 32 k) := by
  unfold elfBlocks at opens
  obtain ⟨elfFile, first, allocated, firstOpens, made⟩ := (opens.less (by omega :
    room + blocksFor item.filesize + pathBlocks header filename names + blocksFor sizeofElfFile ≤ _)).kzalloc
      (by decide : Roundable sizeofElfFile)
  have nonnull : elfFile ≠ 0 := by
    rintro rfl
    exact absurd made.low (by decide)
  have created : newElfFile before = (.ok elfFile, first.setElfFile elfFile ⟨0, 0, 0, 0, 0⟩) :=
    (bind_ok allocated).trans (congrFun (if_neg nonnull) _)
  obtain ⟨second, secondSame⟩ : ∃ second, first.setElfFile elfFile ⟨0, 0, 0, 0, 0⟩ = second := ⟨_, rfl⟩
  have secondOpens : OpensFiles image header
      (room + blocksFor item.filesize + pathBlocks header filename names) count i second :=
    secondSame ▸ firstOpens.congr rfl rfl rfl rfl
  have secondUnharmed : Unharmed first second :=
    secondSame ▸ ((Apart.refl firstOpens.ready.sound).congr rfl rfl : Apart first (first.setElfFile elfFile _)).unharmed
  rw [secondSame] at created
  obtain ⟨opened, ptr, filled, openRun, statRun, bufferRun, madeBlock, filledReady, buffered⟩ :=
    leads.buffer path (by decide : fileGetModeByString [0x72] = .read) short.roundable secondOpens
  have fresh : ∀ k < item.filesize.toNat, ¬Owned before.memory.heap (ptr + BitVec.ofNat 32 k) := by
    intro k bound inUse
    obtain ⟨base, _, _, _, _, unharmed, _, _, _, _, free⟩ := buffered.opened
    exact free k bound (unharmed.owned _ (secondUnharmed.owned _ (made.apart.owned inUse)))
  -- the record of the file is written beside the file
  obtain ⟨third, thirdSame⟩ : ∃ third, filled.setElfFile elfFile { filled.elfFiles elfFile with elfMemory := ptr } = third :=
    ⟨_, rfl⟩
  have thirdReady : Ready {third.fileDescriptors} image header room third :=
    thirdSame ▸ filledReady.congr rfl rfl rfl rfl
  have thirdBuffered : Buffered second third i item ptr :=
    thirdSame ▸ buffered.apart ((Apart.refl filledReady.sound).congr rfl rfl) rfl rfl
  obtain ⟨read, readRun, readSame, content, readReady, readBuffered⟩ := thirdBuffered.read thirdReady opens.low short
  have record : (read.elfFiles elfFile).elfMemory = ptr := by
    rw [readSame, ← thirdSame]
    show (Function.update filled.elfFiles elfFile _ elfFile).elfMemory = ptr
    rw [Function.update_self]
  obtain ⟨fourth, fourthSame⟩ : ∃ fourth,
      read.setElfFile elfFile (elfProcessLoaded read.memory.bytes (read.elfFiles elfFile)).2 = fourth := ⟨_, rfl⟩
  have processed : Kernel.elfProcessLoaded elfFile read = (.ok (elfValidateLoaded read.memory.bytes ptr), fourth) := by
    rw [← fourthSame, ← record, ← elfProcessLoaded_result]
    rfl
  have fourthReady : Ready {fourth.fileDescriptors} image header room fourth :=
    fourthSame ▸ readReady.congr rfl rfl rfl rfl
  have fourthBuffered : Buffered second fourth i item ptr :=
    fourthSame ▸ readBuffered.apart ((Apart.refl readReady.sound).congr rfl rfl) rfl rfl
  obtain ⟨closed, closeRun, closedOpens, unharmed, closedSame, block⟩ := fourthBuffered.close secondOpens fourthReady
    madeBlock (by rw [← fourthSame]; exact content)
  have bytes : closed.memory.bytes = read.memory.bytes := by
    rw [closedSame, ← fourthSame]
    rfl
  have memory : (closed.elfFiles elfFile).elfMemory = ptr := by
    have files : closed.elfFiles = fourth.elfFiles := by
      rw [closedSame]
    rw [files, ← fourthSame]
    show (Function.update read.elfFiles elfFile _ elfFile).elfMemory = ptr
    rw [Function.update_self, elfProcessLoaded_memory, record]
  have loaded : elfLoadFile elfFile (i + 1) opened = (.ok (elfValidateLoaded read.memory.bytes ptr,
      if elfValidateLoaded read.memory.bytes ptr < 0 then 0 else elfFile), fourth) := by
    unfold elfLoadFile
    rw [bind_ok (statRun _)]
    dsimp only
    rw [if_neg (by decide), bind_ok bufferRun, if_neg nonnull, update_bind, thirdSame, bind_ok readRun,
      if_neg (by decide), bind_ok processed]
    split <;> rfl
  have same : SameTasks before closed := by
    have allocatedSame : SameTasks before second := by
      rw [← secondSame, made.same]
      rfl
    have bufferedSame : SameTasks opened third := by
      rw [← thirdSame, madeBlock.same]
      rfl
    have readTasks : SameTasks third fourth := by
      rw [← fourthSame, readSame]
      rfl
    have closedTasks : SameTasks fourth closed := by
      rw [closedSame]
      rfl
    exact ((allocatedSame.trans (fopen_rest openRun).tasks).trans bufferedSame).trans (readTasks.trans closedTasks)
  refine ⟨elfFile, ptr, closed, ?_, nonnull, memory, closedOpens,
    made.apart.unharmed.trans (secondUnharmed.trans unharmed), same, block, fresh⟩
  rw [bytes]
  unfold elfLoad
  rw [bind_ok created, bind_ok openRun, if_neg (by omega), bind_ok loaded, bind_ok closeRun]
  rfl

theorem LeadsTo.loadElf (leads : LeadsTo image header true (rootPosition header) size names (.file item))
    (path : NamesPath filename names) (short : ShortFile header item cluster)
    (program : ElfProgram (clusterFile image header cluster item)) (process : Addr)
    (opens : OpensFiles image header (room + elfBlocks header filename names item) count i before) :
    ∃ ptr after, processLoadData filename process before = (.ok 0, after) ∧ OpensFiles image header room count i after ∧
      Unharmed before after ∧ SameTasks (before.setProcess process (fun _ => after.processRecords process)) after ∧
      HasProgram after process ptr (clusterFile image header cluster item) ∧
      (after.processRecords process).filetype = processFiletypeElf ∧
      ∀ k < item.filesize.toNat, ¬Owned before.memory.heap (ptr + BitVec.ofNat 32 k) := by
  obtain ⟨elfFile, ptr, loaded, run, nonnull, memory, loadedOpens, unharmed, same, block, fresh⟩ :=
    leads.elfLoad_run path short opens
  have valid := (program.loaded block.content).1
  rw [valid, if_neg (by decide)] at run
  obtain ⟨after, afterSame⟩ : ∃ after, loaded.setProcess process (fun record =>
    { record with filetype := processFiletypeElf, ptr := elfFile }) = after := ⟨_, rfl⟩
  have record : after.processRecords process =
      { loaded.processRecords process with filetype := processFiletypeElf, ptr := elfFile } := by
    rw [← afterSame]
    exact Function.update_self ..
  have beside : Unharmed loaded after :=
    afterSame ▸ ((Apart.refl loadedOpens.ready.sound).congr rfl rfl : Apart loaded (loaded.setProcess process _)).unharmed
  have elf : processLoadElf filename process before = (.ok 0, after) := by
    unfold processLoadElf
    rw [bind_ok run]
    dsimp only
    rw [if_neg (by decide), update_bind, afterSame]
    rfl
  have tasks : SameTasks (before.setProcess process (fun _ => after.processRecords process)) after := by
    unfold SameTasks at same ⊢
    rw [record, ← afterSame, same]
    rfl
  refine ⟨ptr, after, ?_, afterSame ▸ loadedOpens.congr rfl rfl rfl rfl, unharmed.trans beside, tasks,
    ⟨block.unharmed beside, Or.inr ⟨by rw [record], by rw [record]; exact nonnull, ?_⟩⟩, by rw [record], fresh⟩
  · unfold processLoadData
    rw [bind_ok elf, if_neg (by decide)]
    rfl
  · rw [record, ← afterSame]
    exact memory

end Load

end PeachOS
