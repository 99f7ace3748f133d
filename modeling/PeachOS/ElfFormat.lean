import PeachOS.ElfLoad
import PeachOS.FileStream
import PeachOS.ProcessMap

/-! What a file that `elf_load` takes must be. The loader looks at the identification and
at `e_phoff`; the rest is up to the file. -/

namespace PeachOS
open Program ByteMemory Search

/-- The bytes of a file of `size` bytes at `base` are the same in both memories. -/
def SameFile (base : Addr) (size : Nat) (bytes other : Bytes) : Prop :=
  ∀ i < size, other (base + BitVec.ofNat 32 i) = bytes (base + BitVec.ofNat 32 i)

abbrev sizeofElfHeader : Nat := 52
abbrev sizeofElfPhdr : Nat := 32

/-- Every program header of the image at `base` lies in its first `size` bytes. -/
def TableInside (bytes : Bytes) (base : Addr) (size : Nat) : Prop :=
  ∀ i < (elfPhnum bytes base).toNat, 0 ≤ (elfPhoff bytes base).toInt + (sizeofElfPhdr * i : Nat) ∧
    (elfPhoff bytes base).toInt + (sizeofElfPhdr * i : Nat) + sizeofElfPhdr ≤ size

/-- `elf_process_pheaders` and `process_map_elf` take from memory the bytes of the file alone. -/
structure ReadsInside (bytes : Bytes) (base : Addr) (size : Nat) : Prop where
  processed : ∀ other file, SameFile base size bytes other → file.elfMemory = base →
    elfProcessPheaders other file = elfProcessPheaders bytes file
  counted : ∀ other, SameFile base size bytes other →
    elfPhnum other base = elfPhnum bytes base ∧ elfPheader other base = elfPheader bytes base
  mapped : ∀ other file, SameFile base size bytes other → ∀ i < (elfPhnum bytes base).toNat,
    elfPhdrCall other file (elfPheader bytes base + BitVec.ofNat 32 (sizeofElfPhdr * i)) =
      elfPhdrCall bytes file (elfPheader bytes base + BitVec.ofNat 32 (sizeofElfPhdr * i))

/-- A file of `size` bytes that was read to `base` is an image that can be run. -/
structure ElfAccepted (bytes : Bytes) (base : Addr) (size : Nat) : Prop where
  complete : sizeofElfHeader ≤ size
  signature : loadBytes bytes base 4 = [0x7f, 0x45, 0x4c, 0x46]
  elfClass : bytes (base + 4) = 0 ∨ bytes (base + 4) = 1
  encoding : bytes (base + 5) = 0 ∨ bytes (base + 5) = 1
  executable : elfType bytes base = etExec
  entry : peachosProgramVirtualAddress.toNat ≤ (elfEntry bytes base).toNat
  headers : elfPhoff bytes base ≠ 0
  table : TableInside bytes base size
  reads : ReadsInside bytes base size

section SameFile
variable {base : Addr} {size : Nat} {bytes other : Bytes}

theorem SameFile.sub (same : SameFile base size bytes other) {start count : Nat}
    (inside : start + count ≤ size) : SameFile (base + BitVec.ofNat 32 start) count bytes other := by
  intro i bound
  have position : base + BitVec.ofNat 32 start + BitVec.ofNat 32 i =
      base + BitVec.ofNat 32 (start + i) := by
    rw [BitVec.add_assoc, ← BitVec.ofNat_add]
  rw [position]
  exact same (start + i) (by omega)

theorem SameFile.half (same : SameFile base size bytes other) {start : Nat} (inside : start + 2 ≤ size) :
    load16 other (base + BitVec.ofNat 32 start) = load16 bytes (base + BitVec.ofNat 32 start) := by
  have part := same.sub inside
  have first := part 0 (by omega)
  rw [BitVec.add_zero] at first
  exact congrArg₂ (· ++ ·) (part 1 (by omega)) first

theorem SameFile.word (same : SameFile base size bytes other) {start : Nat} (inside : start + 4 ≤ size) :
    load32 other (base + BitVec.ofNat 32 start) = load32 bytes (base + BitVec.ofNat 32 start) := by
  have part := same.sub inside
  have first := part 0 (by omega)
  rw [BitVec.add_zero] at first
  exact congrArg₂ (· ++ ·) (congrArg₂ (· ++ ·) (congrArg₂ (· ++ ·) (part 3 (by omega))
    (part 2 (by omega))) (part 1 (by omega))) first

theorem SameFile.pheader {phdr : Addr} (same : SameFile phdr sizeofElfPhdr bytes other) (file : ElfFile) :
    elfProcessPheader other file phdr = elfProcessPheader bytes file phdr ∧
      elfPhdrCall other file phdr = elfPhdrCall bytes file phdr := by
  have type : phdrType other phdr = phdrType bytes phdr := by
    have first : load32 other (phdr + BitVec.ofNat 32 0) = load32 bytes (phdr + BitVec.ofNat 32 0) :=
      same.word (by decide)
    rw [BitVec.add_zero] at first
    exact first
  have offset : phdrOffset other phdr = phdrOffset bytes phdr := same.word (by decide)
  have vaddr : phdrVaddr other phdr = phdrVaddr bytes phdr := same.word (by decide)
  have paddr : phdrPaddr other phdr = phdrPaddr bytes phdr := same.word (by decide)
  have filesz : phdrFilesz other phdr = phdrFilesz bytes phdr := same.word (by decide)
  have memsz : phdrMemsz other phdr = phdrMemsz bytes phdr := same.word (by decide)
  have flags : phdrFlags other phdr = phdrFlags bytes phdr := same.word (by decide)
  constructor
  · unfold elfProcessPheader elfProcessPhdrPtLoad elfPhdrPhysAddress
    rw [type, offset, vaddr, paddr, filesz]
  · unfold elfPhdrCall elfPhdrPhysAddress
    rw [vaddr, offset, memsz, flags]

theorem elfProcessPheader_memory (bytes : Bytes) (file : ElfFile) (phdr : Addr) :
    (elfProcessPheader bytes file phdr).elfMemory = file.elfMemory := by
  unfold elfProcessPheader elfProcessPhdrPtLoad
  dsimp only
  split_ifs <;> rfl

theorem TableInside.phdr (inside : TableInside bytes base size) (headers : elfPhoff bytes base ≠ 0)
    {i : Nat} (bound : i < (elfPhnum bytes base).toNat) (same : SameFile base size bytes other) :
    SameFile (elfPheader bytes base + BitVec.ofNat 32 (sizeofElfPhdr * i)) sizeofElfPhdr bytes other := by
  obtain ⟨low, high⟩ := inside i bound
  generalize place : (elfPhoff bytes base).toInt + (sizeofElfPhdr * i : Nat) = start at low high
  have position : elfPheader bytes base + BitVec.ofNat 32 (sizeofElfPhdr * i) =
      base + BitVec.ofNat 32 start.toNat := by
    have sum : BitVec.ofNat 32 start.toNat =
        elfPhoff bytes base + BitVec.ofNat 32 (sizeofElfPhdr * i) := by
      rw [← BitVec.ofInt_natCast, Int.toNat_of_nonneg low, ← place, BitVec.ofInt_add,
        BitVec.ofInt_toInt, BitVec.ofInt_natCast]
    unfold elfPheader
    rw [if_neg headers, sum, BitVec.add_assoc]
  rw [position]
  exact same.sub (by omega)

theorem elfProcessPheadersLoop_congr {file : ElfFile} {first : Addr} (pheader : elfPheader bytes base = first)
    (otherPheader : elfPheader other base = first) (memory : file.elfMemory = base)
    (remaining i : Nat) (same : ∀ j, i ≤ j → j < i + remaining →
      SameFile (first + BitVec.ofNat 32 (sizeofElfPhdr * j)) sizeofElfPhdr bytes other) :
    elfProcessPheadersLoop other remaining i file = elfProcessPheadersLoop bytes remaining i file := by
  induction remaining generalizing i file with
  | zero => rfl
  | succ remaining ih =>
    have step := ((same i le_rfl (by omega)).pheader file).1
    unfold elfProcessPheadersLoop elfProgramHeader
    rw [memory, pheader, otherPheader, step]
    apply ih
    · rw [elfProcessPheader_memory, memory]
    · intro j low high
      exact same j (by omega) (by omega)

/-- Nothing but the table has to lie in the file for the two loops to stay in it. -/
theorem TableInside.reads (inside : TableInside bytes base size) (complete : sizeofElfHeader ≤ size)
    (headers : elfPhoff bytes base ≠ 0) : ReadsInside bytes base size := by
  have counted : ∀ other, SameFile base size bytes other →
      elfPhnum other base = elfPhnum bytes base ∧ elfPheader other base = elfPheader bytes base := by
    intro other same
    have phoff : elfPhoff other base = elfPhoff bytes base :=
      same.word (le_trans (by decide : 28 + 4 ≤ sizeofElfHeader) complete)
    have phnum : elfPhnum other base = elfPhnum bytes base :=
      same.half (le_trans (by decide : 44 + 2 ≤ sizeofElfHeader) complete)
    refine ⟨phnum, ?_⟩
    unfold elfPheader
    rw [phoff]
  refine ⟨?_, counted, ?_⟩
  · intro other file same memory
    obtain ⟨phnum, pheader⟩ := counted other same
    unfold elfProcessPheaders
    rw [memory, phnum]
    apply elfProcessPheadersLoop_congr rfl pheader memory
    intro j _ bound
    exact inside.phdr headers (by omega) same
  · intro other file same i bound
    exact ((inside.phdr headers bound same).pheader file).2

end SameFile

/-- What the loader leaves unchecked. -/
structure ElfUnchecked (bytes : Bytes) (base : Addr) (size : Nat) : Prop where
  complete : sizeofElfHeader ≤ size
  executable : elfIsExecutable bytes base = true
  table : TableInside bytes base size

/-- A header that the loader takes is that of an image that can be run if and only if the
rest holds too. -/
theorem elfValidateLoaded_accepts {bytes : Bytes} {base : Addr} {size : Nat}
    (valid : ¬elfValidateLoaded bytes base < 0) :
    ElfAccepted bytes base size ↔ ElfUnchecked bytes base size := by
  unfold elfValidateLoaded at valid
  split at valid
  next checked =>
    simp only [elfValidSignature, elfValidClass, elfValidEncoding, elfHasProgramHeader,
      Bool.and_eq_true, Bool.or_eq_true, beq_iff_eq, bne_iff_ne] at checked
    obtain ⟨⟨⟨signature, elfClass⟩, encoding⟩, headers⟩ := checked
    constructor
    · intro accepted
      refine ⟨accepted.complete, ?_, accepted.table⟩
      unfold elfIsExecutable
      rw [Bool.and_eq_true, beq_iff_eq, decide_eq_true_iff]
      exact ⟨accepted.executable, accepted.entry⟩
    · intro rest
      have executable := rest.executable
      unfold elfIsExecutable at executable
      rw [Bool.and_eq_true, beq_iff_eq, decide_eq_true_iff] at executable
      exact ⟨rest.complete, signature, elfClass, encoding, executable.1, executable.2, headers,
        rest.table, rest.table.reads rest.complete headers⟩
  next => exact absurd (show - EINFORMAT < 0 by decide) valid

/-- Closing a file leaves the bytes of memory and the records of images alone. -/
def FileKept (bytes : Bytes) (elfFiles : Addr → ElfFile) (kernel : Kernel) : Prop :=
  kernel.memory.bytes = bytes ∧ kernel.elfFiles = elfFiles

section Close
variable {α : Type} {bytes : Bytes} {elfFiles : Addr → ElfFile}

theorem FileKept.kfree (ptr : Addr) : Preserves (FileKept bytes elfFiles) (Kernel.kfree ptr) := by
  unfold Kernel.kfree
  apply Preserves.update
  intro kernel kept
  exact kept

theorem FileKept.record (select : FileRecord → Option α) (ptr : Addr) :
    Preserves (FileKept bytes elfFiles) (Kernel.record select ptr) := by
  intro before result after kept run
  rw [(Kernel.record_ok run).1]
  exact kept

theorem FileKept.freeRecord (select : FileRecord → Option α) (ptr : Addr) :
    Preserves (FileKept bytes elfFiles) (Kernel.freeRecord select ptr) := by
  unfold Kernel.freeRecord
  apply Preserves.ite
  · exact FileKept.kfree 0
  · refine Preserves.bind (Preserves.read _) ?_
    intro kernel
    split
    · split
      · exact Preserves.stop _
      · apply Preserves.bind
        · apply Preserves.update
          intro kernel kept
          exact kept
        · intro _
          exact FileKept.kfree _
    · apply Preserves.ite
      · exact FileKept.kfree _
      · exact Preserves.stop _

theorem FileKept.itemFree (item : Addr) : Preserves (FileKept bytes elfFiles) (fat16FatItemFree item) := by
  unfold fat16FatItemFree
  apply Preserves.bind (FileKept.record _ _)
  intro record
  obtain ⟨target, itemType⟩ := record
  cases itemType with
  | directory =>
    apply Preserves.bind
    · unfold fat16FreeDirectory
      apply Preserves.ite
      · exact Preserves.pure _
      · apply Preserves.bind (FileKept.record _ _)
        intro record
        apply Preserves.ite
        · apply Preserves.bind (FileKept.freeRecord _ _)
          intro _
          exact FileKept.freeRecord _ _
        · exact FileKept.freeRecord _ _
    · intro _
      exact FileKept.freeRecord _ _
  | file =>
    apply Preserves.bind (FileKept.freeRecord _ _)
    intro _
    exact FileKept.freeRecord _ _

theorem FileKept.fclose (fd : Int) : Preserves (FileKept bytes elfFiles) (fclose fd) := by
  unfold PeachOS.fclose fat16Close fat16FreeFileDescriptor fileFreeDescriptor
  refine Preserves.bind (Preserves.read _) ?_
  intro desc
  apply Preserves.ite
  · exact Preserves.pure _
  · apply Preserves.bind (FileKept.record _ _)
    intro record
    apply Preserves.ite
    · exact Preserves.stop _
    · apply Preserves.bind
      · apply Preserves.bind
        · apply Preserves.bind (FileKept.record _ _)
          intro descriptor
          apply Preserves.bind (FileKept.itemFree _)
          intro _
          exact FileKept.freeRecord _ _
        · intro _
          exact Preserves.pure _
      · intro res
        apply Preserves.ite
        · apply Preserves.bind
          · apply Preserves.bind (FileKept.record _ _)
            intro descriptor
            apply Preserves.ite
            · exact Preserves.stop _
            · apply Preserves.bind
              · apply Preserves.update
                intro kernel kept
                exact kept
              · intro _
                exact FileKept.freeRecord _ _
          · intro _
            exact Preserves.pure _
        · exact Preserves.pure _

theorem fread_elfFiles {before after : Kernel} {ptr : Addr} {size nmemb : Word} {fd res : Int}
    (run : fread ptr size nmemb fd before = (.ok res, after)) : after.elfFiles = before.elfFiles := by
  have record : ∀ {β : Type} (select : FileRecord → Option β) (ptr : Addr),
      Preserves (fun kernel => kernel.elfFiles = before.elfFiles) (Kernel.record select ptr) := by
    intro β select ptr first result last kept run
    rw [(Kernel.record_ok run).1]
    exact kept
  have kept : Preserves (fun kernel => kernel.elfFiles = before.elfFiles) (fread ptr size nmemb fd) := by
    unfold fread Kernel.fat16Read
    apply Preserves.ite
    · exact Preserves.pure _
    · refine Preserves.bind (Preserves.read _) ?_
      intro desc
      apply Preserves.ite
      · exact Preserves.pure _
      · apply Preserves.bind (record _ _)
        intro descriptor
        apply Preserves.ite
        · exact Preserves.stop _
        · apply Preserves.bind (record _ _)
          intro fatDesc
          apply Preserves.bind (record _ _)
          intro descItem
          apply Preserves.bind (record _ _)
          intro item
          refine Preserves.bind (Preserves.read _) ?_
          intro bytes
          apply Preserves.bind
          · intro first result last kept run
            unfold Kernel.onDisk at run
            split at run <;> cases run
            exact kept
          · intro result
            apply Preserves.bind
            · apply Preserves.update
              intro kernel kept
              exact kept
            · intro _
              exact Preserves.pure _
  exact kept before res after rfl run

end Close

theorem elfProcessPheaders_memory (bytes : Bytes) (file : ElfFile) :
    (elfProcessPheaders bytes file).elfMemory = file.elfMemory := by
  unfold elfProcessPheaders
  generalize (elfPhnum bytes file.elfMemory).toNat = remaining
  generalize 0 = i
  induction remaining generalizing i file with
  | zero => rfl
  | succ remaining ih =>
    unfold elfProcessPheadersLoop
    rw [ih, elfProcessPheader_memory]

theorem Kernel.elfProcessLoaded_ok {before after : Kernel} {elfFile : Addr} {res : Int}
    (run : Kernel.elfProcessLoaded elfFile before = (.ok res, after)) (success : 0 ≤ res) :
    ¬elfValidateLoaded before.memory.bytes (before.elfFiles elfFile).elfMemory < 0 ∧
      after.memory = before.memory ∧
      (after.elfFiles elfFile).elfMemory = (before.elfFiles elfFile).elfMemory := by
  unfold Kernel.elfProcessLoaded PeachOS.elfProcessLoaded at run
  by_cases invalid : elfValidateLoaded before.memory.bytes (before.elfFiles elfFile).elfMemory < 0
  · rw [if_pos invalid] at run
    cases run
    omega
  · rw [if_neg invalid] at run
    cases run
    refine ⟨invalid, rfl, ?_⟩
    show (Function.update before.elfFiles elfFile _ elfFile).elfMemory = _
    rw [Function.update_self, elfProcessPheaders_memory]

/-- A run of `elf_load` in which `stat.filesize` bytes of the open file were read to
`memory`, with no error. -/
structure ElfRead (filename : List Byte) (kernel after : Kernel) (memory : Addr) (stat : FileStat) :
    Prop where
  opened : ∃ file created fd opened stated res, newElfFile kernel = (.ok file, created) ∧
    fopen filename [0x72] created = (.ok fd, opened) ∧
    fstat fd ⟨0, 0⟩ opened = (.ok (res, stat), stated) ∧ 0 ≤ res ∧
    ∃ allocated read count, Kernel.kzalloc stat.filesize stated = (.ok memory, allocated) ∧
      fread memory stat.filesize 1 fd
        (allocated.setElfFile file { allocated.elfFiles file with elfMemory := memory }) =
          (.ok count, read) ∧ 0 ≤ count ∧ after.memory.bytes = read.memory.bytes

/-- Whenever `elf_load` succeeds, the file it read is an image that can be run if and only
if its header is complete, is that of an executable, and has its table in the file. -/
theorem elfLoad_accepts {filename : List Byte} {kernel after : Kernel} {res : Int} {file : Addr}
    (run : elfLoad filename kernel = (.ok (res, file), after)) (success : 0 ≤ res) :
    ∃ stat, ElfRead filename kernel after (after.elfFiles file).elfMemory stat ∧
      (ElfAccepted after.memory.bytes (after.elfFiles file).elfMemory stat.filesize.toNat ↔
        ElfUnchecked after.memory.bytes (after.elfFiles file).elfMemory stat.filesize.toNat) := by
  unfold elfLoad at run
  obtain ⟨elfFile, created, new, run⟩ := bind_eq_ok run
  obtain ⟨fd, opened, openRun, run⟩ := bind_eq_ok run
  split at run
  next failed =>
    obtain ⟨_, _, _, last⟩ := bind_eq_ok run
    cases last
    omega
  next =>
    obtain ⟨⟨fileRes, out⟩, loaded, loadRun, run⟩ := bind_eq_ok run
    obtain ⟨_, closed, closeRun, last⟩ := bind_eq_ok run
    cases last
    unfold elfLoadFile at loadRun
    obtain ⟨⟨statRes, stat⟩, stated, statRun, loadRun⟩ := bind_eq_ok loadRun
    dsimp only at loadRun
    split at loadRun
    next failed =>
      cases loadRun
      omega
    next statOk =>
      obtain ⟨memory, allocated, alloc, loadRun⟩ := bind_eq_ok loadRun
      split at loadRun
      next => cases loadRun
      next nonnull =>
        rw [update_bind] at loadRun
        obtain ⟨count, filled, readRun, loadRun⟩ := bind_eq_ok loadRun
        split at loadRun
        next failed =>
          cases loadRun
          omega
        next readOk =>
          obtain ⟨loadRes, processed, process, loadRun⟩ := bind_eq_ok loadRun
          split at loadRun
          next failed =>
            cases loadRun
            omega
          next loadOk =>
            cases loadRun
            obtain ⟨valid, memorySame, recordSame⟩ :=
              Kernel.elfProcessLoaded_ok process (by omega)
            obtain ⟨bytesKept, filesKept⟩ := FileKept.fclose fd loaded _ after ⟨rfl, rfl⟩ closeRun
            have record : (filled.elfFiles file).elfMemory = memory := by
              rw [fread_elfFiles readRun]
              show (Function.update allocated.elfFiles file _ file).elfMemory = memory
              rw [Function.update_self]
            have place : (after.elfFiles file).elfMemory = memory := by
              rw [filesKept, recordSame, record]
            have bytes : after.memory.bytes = filled.memory.bytes := by
              rw [bytesKept, memorySame]
            rw [record] at valid
            rw [place, bytes]
            exact ⟨stat, ⟨file, created, fd, opened, stated, statRes, new, openRun, statRun, by omega,
              allocated, filled, count, alloc, readRun, by omega, bytes⟩,
              elfValidateLoaded_accepts valid⟩

/-- A relocatable object: the header alone, with no entry, and with one program header that
would follow it. -/
def objectImage : List Byte :=
  [0x7f, 0x45, 0x4c, 0x46, 1, 1, 1, 0, 0, 0, 0, 0, 0, 0, 0, 0, 1, 0, 3, 0, 1, 0, 0, 0,
    0, 0, 0, 0, 52, 0, 0, 0, 0, 0, 0, 0, 0, 0, 0, 0, 52, 0, 32, 0, 1, 0, 40, 0, 0, 0, 0, 0]

def objectFile : FatDirectoryItem := { singleFile with filesize := 52 }

def objectDisk : Disk := { singleDisk with
  image := fun pos =>
    if pos < 1024 then 0
    else if pos < 1536 then (singleTable.set 28 52).getD (pos - 1024) 0
    else objectImage.getD (pos - 1536) 0 }

def objectKernel : Kernel := Kernel.blank
  ⟨singleKernel.memory.heap, storeBytes (fun _ => 0) heapAddress (singleTable.set 28 52)⟩ objectDisk

theorem objectKernel_rootFile : RootFile objectKernel heapAddress objectFile where
  heap := singleKernel_rootFile.heap
  filesystem := rfl
  root := ⟨_, rfl, rfl, rfl⟩
  live := singleKernel_rootFile.live
  entry := by decide +kernel
  file := by decide

theorem objectDisk_volume : Volume objectDisk objectDisk.image ⟨1, 1, 1, 16, 1, 0x29⟩ where
  content := rfl
  sector := rfl
  clusters := by decide
  rootEntries := by decide
  loaded := ⟨_, rfl, rfl, by decide, ⟨0, rfl⟩, ⟨0, rfl⟩⟩

theorem fat16Read_object (memory : Addr) (bytes : Bytes) :
    ∃ left, fat16Read objectFile 0 52 1 memory bytes objectDisk =
      (.ok (1, storeBytes bytes memory objectImage), left) := by
  have first : (fat16GetFirstCluster objectFile).toInt = (2 : Nat) := by decide
  have short : (52 : Word).toNat ≤ clusterSize ⟨1, 1, 1, 16, 1, 0x29⟩ := by decide
  obtain ⟨left, loop⟩ := fat16ReadLoop_first first (by decide) short 1 0 0 rfl (by decide)
    (by decide) objectDisk_volume memory bytes
  have content : diskBytes objectDisk.image (clusterPos ⟨1, 1, 1, 16, 1, 0x29⟩ 2 + 0)
      ((52 : Word).toNat * 1) = objectImage := by decide +kernel
  rw [content] at loop
  exact ⟨left, (bind_ok loop).trans rfl⟩

theorem objectImage_fields (bytes : Bytes) (memory : Addr) :
    elfType (storeBytes bytes memory objectImage) memory = 1 ∧
      elfEntry (storeBytes bytes memory objectImage) memory = 0 ∧
      elfPhoff (storeBytes bytes memory objectImage) memory = 52 ∧
      elfPhnum (storeBytes bytes memory objectImage) memory = 1 :=
  ⟨load16_storeBytes bytes memory objectImage (by decide) (by decide),
    load32_storeBytes bytes memory objectImage (by decide) (by decide),
    load32_storeBytes bytes memory objectImage (by decide) (by decide),
    load16_storeBytes bytes memory objectImage (by decide) (by decide)⟩

theorem objectImage_valid (bytes : Bytes) (memory : Addr) :
    elfValidateLoaded (storeBytes bytes memory objectImage) memory = 0 := by
  have signature : elfValidSignature (storeBytes bytes memory objectImage) memory = true := by
    have content := loadBytes_storeBytes bytes memory objectImage (by decide)
    rw [show objectImage.length = 4 + 48 from rfl, loadBytes_add] at content
    have start := congrArg (List.take 4) content
    rw [List.take_left' (loadBytes_length _ _ _)] at start
    unfold elfValidSignature
    rw [start]
    decide
  have elfClass : storeBytes bytes memory objectImage (memory + 4) = 1 :=
    storeBytes_inside bytes memory objectImage (by decide) (by decide)
  have encoding : storeBytes bytes memory objectImage (memory + 5) = 1 :=
    storeBytes_inside bytes memory objectImage (by decide) (by decide)
  unfold elfValidateLoaded elfValidClass elfValidEncoding elfHasProgramHeader
  rw [signature, elfClass, encoding, (objectImage_fields bytes memory).2.2.1]
  decide

theorem elfLoad_object : ∃ file after start memory,
    elfLoad [0x30, 0x3A, slash, 0x61] objectKernel = (.ok (0, file), after) ∧
      ElfRead [0x30, 0x3A, slash, 0x61] objectKernel after memory ⟨0, 52⟩ ∧
      (after.elfFiles file).elfMemory = memory ∧
      after.memory.bytes = storeBytes start memory objectImage := by
  have room : (freeBlocks objectKernel.memory.heap).card = 25599 := singleKernel_room
  obtain ⟨file, fileMemory, fileAlloc, fileNonnull, fileVolume, fileRoom⟩ :=
    objectKernel_rootFile.kzalloc sizeofElfFile (by decide) (by decide) (by omega)
  have created : newElfFile objectKernel =
      (.ok file, (objectKernel.setMemory fileMemory).setElfFile file ⟨0, 0, 0, 0, 0⟩) := by
    unfold newElfFile
    rw [bind_ok fileAlloc, if_neg fileNonnull]
    rfl
  have createdVolume : RootFile ((objectKernel.setMemory fileMemory).setElfFile file ⟨0, 0, 0, 0, 0⟩)
      heapAddress objectFile :=
    ⟨fileVolume.heap, fileVolume.filesystem, fileVolume.root, fileVolume.live, fileVolume.entry,
      fileVolume.file⟩
  have createdRoom : 7 ≤ (freeBlocks fileMemory.heap).card := by omega
  have free : firstIndex peachosMaxFileDescriptors
      (fun i => objectKernel.fileDescriptors i == 0) = some 0 :=
    firstIndex_eq (by decide) rfl (fun j earlier => absurd earlier (Nat.not_lt_zero j))
  obtain ⟨privateData, _, _, opened, _, openRun, openVolume, openRoom, _, _, disk, stream⟩ :=
    fopen_file createdVolume createdRoom (by decide) (by decide) (by decide)
      (show List.drop 3 [0x30, 0x3A, slash, 0x61] = [0x61] from rfl) (by unfold Proper Plain; decide)
      (by decide) (show fileGetModeByString [0x72] = .read by decide) (by decide) free
  have openFile : StreamFile opened 1 privateData objectFile 0 := stream (by decide)
  have stated : fstat 1 ⟨0, 0⟩ opened = (.ok (0, ⟨0, 52⟩), opened) := openFile.fstat_run ⟨0, 0⟩
  have left : 0 < (freeBlocks opened.memory.heap).card := by
    have same : (freeBlocks opened.memory.heap).card + 7 = (freeBlocks fileMemory.heap).card := openRoom
    omega
  obtain ⟨memory, allocated, alloc, _, _, _⟩ :=
    openVolume.kzalloc 52 (by decide) (by decide) left
  generalize heldEq : (opened.setMemory allocated).setElfFile file
    { (opened.setMemory allocated).elfFiles file with elfMemory := memory } = held
  have heldFile : StreamFile held 1 privateData objectFile 0 := by
    rw [← heldEq]
    exact openFile.congr rfl rfl
  have heldDisk : held.disk = objectDisk := by
    rw [← heldEq]
    exact disk
  obtain ⟨leftDisk, content⟩ := fat16Read_object memory held.memory.bytes
  obtain ⟨filled, readRun, filledBytes, filledFiles⟩ : ∃ filled,
      fread memory 52 1 1 held = (.ok 1, filled) ∧
        filled.memory.bytes = storeBytes held.memory.bytes memory objectImage ∧
        filled.elfFiles = held.elfFiles := by
    rw [heldFile.fread_eq memory (by decide), heldFile.fat16Read_eq, heldDisk, content]
    exact ⟨_, rfl, rfl, rfl⟩
  obtain ⟨readFile, _⟩ := heldFile.fread_ok readRun
  have filledRecord : (filled.elfFiles file).elfMemory = memory := by
    rw [filledFiles, ← heldEq]
    show (Function.update opened.elfFiles file _ file).elfMemory = memory
    rw [Function.update_self]
  have valid : ¬elfValidateLoaded filled.memory.bytes (filled.elfFiles file).elfMemory < 0 := by
    rw [filledBytes, filledRecord, objectImage_valid]
    decide
  have processed : Kernel.elfProcessLoaded file filled = (.ok 0, filled.setElfFile file
      (elfProcessPheaders filled.memory.bytes (filled.elfFiles file))) := by
    unfold Kernel.elfProcessLoaded elfProcessLoaded
    rw [if_neg valid]
  obtain ⟨_, memorySame, recordSame⟩ := Kernel.elfProcessLoaded_ok processed le_rfl
  generalize loadedEq : filled.setElfFile file
    (elfProcessPheaders filled.memory.bytes (filled.elfFiles file)) = loaded at processed memorySame recordSame
  have loadedFile : StreamFile loaded 1 privateData objectFile 0 := by
    rw [← loadedEq]
    exact readFile.congr rfl rfl
  obtain ⟨after, closed⟩ := loadedFile.fclose_run
  obtain ⟨bytesKept, filesKept⟩ := FileKept.fclose 1 loaded _ after ⟨rfl, rfl⟩ closed
  have bytes : after.memory.bytes = filled.memory.bytes := by
    rw [bytesKept, memorySame]
  have loadRun : elfLoadFile file 1 opened = (.ok (0, file), loaded) := by
    unfold elfLoadFile
    rw [bind_ok stated]
    show (if (0 : Int) < 0 then _ else _ : KernelProg _) opened = _
    rw [if_neg (by decide), bind_ok alloc, if_neg fileNonnull, update_bind, heldEq, bind_ok readRun,
      if_neg (by decide), bind_ok processed, if_neg (by decide)]
    rfl
  refine ⟨file, after, held.memory.bytes, memory, ?_, ⟨file, _, 1, opened, opened, 0, created, openRun,
    stated, le_rfl, _, filled, 1, alloc, ?_, by decide, bytes⟩, ?_, ?_⟩
  · unfold elfLoad
    rw [bind_ok created, bind_ok openRun, if_neg (by decide)]
    exact (bind_ok loadRun).trans (bind_ok closed)
  · rw [heldEq]
    exact readRun
  · rw [filesKept, recordSame, filledRecord]
  · rw [bytes, filledBytes]

/-- A relocatable object of 52 bytes is loaded, and its table lies after its end. -/
theorem elfLoad_accepts_object : ∃ file after stat,
    elfLoad [0x30, 0x3A, slash, 0x61] objectKernel = (.ok (0, file), after) ∧
      ElfRead [0x30, 0x3A, slash, 0x61] objectKernel after (after.elfFiles file).elfMemory stat ∧
      elfType after.memory.bytes (after.elfFiles file).elfMemory ≠ etExec ∧
      elfEntry after.memory.bytes (after.elfFiles file).elfMemory = 0 ∧
      ¬TableInside after.memory.bytes (after.elfFiles file).elfMemory stat.filesize.toNat ∧
      ¬ElfAccepted after.memory.bytes (after.elfFiles file).elfMemory stat.filesize.toNat := by
  obtain ⟨file, after, start, memory, run, loaded, place, content⟩ := elfLoad_object
  obtain ⟨type, entry, phoff, phnum⟩ := objectImage_fields start memory
  refine ⟨file, after, ⟨0, 52⟩, run, place.symm ▸ loaded, ?_⟩
  rw [place, content]
  have other : elfType (storeBytes start memory objectImage) memory ≠ etExec := by
    rw [type]
    decide
  refine ⟨other, entry, ?_, fun accepted => other accepted.executable⟩
  intro inside
  have first := inside 0 (by rw [phnum]; decide)
  rw [phoff] at first
  exact absurd first.2 (by decide)

theorem elfLoad_accepts_iff_object : ∃ file after stat,
    elfLoad [0x30, 0x3A, slash, 0x61] objectKernel = (.ok (0, file), after) ∧
      ElfRead [0x30, 0x3A, slash, 0x61] objectKernel after (after.elfFiles file).elfMemory stat ∧
      (ElfAccepted after.memory.bytes (after.elfFiles file).elfMemory stat.filesize.toNat ↔
        ElfUnchecked after.memory.bytes (after.elfFiles file).elfMemory stat.filesize.toNat) := by
  obtain ⟨file, after, _, _, run, _⟩ := elfLoad_object
  obtain ⟨stat, loaded, accepted⟩ := elfLoad_accepts run le_rfl
  exact ⟨file, after, stat, run, loaded, accepted⟩

end PeachOS
