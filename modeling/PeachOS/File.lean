import PeachOS.Fat16Open
import PeachOS.Lib.Interval

/-! `fs/file.c`: the table of file descriptors and the calls on it. Descriptor numbers
start at one, table indices at zero. -/

namespace PeachOS
open Program Search

abbrev peachosMaxFileDescriptors : Nat := 512

def Kernel.setFileDescriptor (kernel : Kernel) (index : Nat) (desc : Addr) : Kernel :=
  { kernel with fileDescriptors := Function.update kernel.fileDescriptors index desc }

/-- An index outside the table has no behaviour. -/
def fileFreeDescriptor (desc : Addr) : KernelProg Unit := do
  let record ← Kernel.record FileRecord.asFileDescriptor desc
  let index := record.index - 1
  if index < 0 ∨ peachosMaxFileDescriptors ≤ index then fault
  else
    update (fun kernel => kernel.setFileDescriptor index.toNat 0)
    Kernel.freeRecord FileRecord.asFileDescriptor desc

/-- The result, and the descriptor that goes out through `desc_out`. -/
def fileNewDescriptor : KernelProg (Int × Addr) := do
  let fileDescriptors ← read Kernel.fileDescriptors
  match firstIndex peachosMaxFileDescriptors (fun i => fileDescriptors i == 0) with
  | none => pure (- ENOMEM, 0)
  | some i =>
      let desc ← Kernel.newRecord 16 (.fileDescriptor ⟨0, false, 0, none⟩)
      Kernel.writeRecord FileRecord.asFileDescriptor desc (.fileDescriptor ⟨i + 1, false, 0, none⟩)
      update (fun kernel => kernel.setFileDescriptor i desc)
      pure (0, desc)

def fileGetDescriptor (kernel : Kernel) (fd : Int) : Addr :=
  if fd ≤ 0 ∨ (peachosMaxFileDescriptors : Int) ≤ fd then 0
  else kernel.fileDescriptors (fd - 1).toNat

def fileGetModeByString (str : List Byte) : FileMode :=
  if strncmp str [0x72] 1 = 0 then .read
  else if strncmp str [0x77] 1 = 0 then .write
  else if strncmp str [0x61] 1 = 0 then .append
  else .invalid

/-- `fopen` from the parsed path up to the file system's own descriptor, or the error code
that it ends with. -/
def fopenPath (rootPath : Addr) (modeStr : List Byte) : KernelProg (Except Int (Nat × Addr)) := do
  if rootPath = 0 then pure (.error (- EINVARG))
  else
    let root ← Kernel.record FileRecord.asPathRoot rootPath
    if root.first = 0 then pure (.error (- EINVARG))
    else
      match diskGet root.driveNo with
      | none => pure (.error (- EIO))
      | some disk =>
          let filesystem ← read (fun kernel => kernel.disk.filesystem)
          if !filesystem then pure (.error (- EIO))
          else
            let mode := fileGetModeByString modeStr
            if mode = .invalid then pure (.error (- EINVARG))
            else
              let privateData ← fat16Open root.first mode
              if isErr privateData then pure (.error privateData.toInt)
              else pure (.ok (disk, privateData))

def fopenPrivateData (filename modeStr : List Byte) : KernelProg (Except Int (Nat × Addr)) := do
  let rootPath ← pathparserParse filename
  fopenPath rootPath modeStr

/-- The file system's own descriptor is entered in a new file descriptor. -/
def fopenRegister (opened : Except Int (Nat × Addr)) : KernelProg Int := do
  match opened with
  | .error res => pure res
  | .ok (disk, privateData) =>
      let (res, desc) ← fileNewDescriptor
      if res < 0 then pure res
      else
        let record ← Kernel.record FileRecord.asFileDescriptor desc
        Kernel.writeRecord FileRecord.asFileDescriptor desc
          (.fileDescriptor { record with filesystem := true, privateData := privateData, disk := some disk })
        pure record.index

/-- `fopen` up to its `out` label. -/
def fopenDescriptor (filename modeStr : List Byte) : KernelProg Int := do
  let opened ← fopenPrivateData filename modeStr
  fopenRegister opened

def fopen (filename modeStr : List Byte) : KernelProg Int := do
  let res ← fopenDescriptor filename modeStr
  if res < 0 then pure 0 else pure res

def fstat (fd : Int) (stat : FileStat) : KernelProg (Int × FileStat) := do
  let desc ← read (fileGetDescriptor · fd)
  if desc = 0 then pure (- EIO, stat)
  else
    let record ← Kernel.record FileRecord.asFileDescriptor desc
    if !record.filesystem then fault else fat16Stat record.privateData stat

/-- The offset goes to the file system as a `uint32_t`. -/
def fseek (fd offset : Int) (whence : FileSeekMode) : KernelProg Int := do
  let desc ← read (fileGetDescriptor · fd)
  if desc = 0 then pure (- EIO)
  else
    let record ← Kernel.record FileRecord.asFileDescriptor desc
    if !record.filesystem then fault
    else fat16Seek record.privateData (BitVec.ofInt 32 offset) whence

def fread (ptr : Addr) (size nmemb : Word) (fd : Int) : KernelProg Int := do
  if size = 0 ∨ nmemb = 0 ∨ fd < 1 then pure (- EINVARG)
  else
    let desc ← read (fileGetDescriptor · fd)
    if desc = 0 then pure (- EINVARG)
    else
      let record ← Kernel.record FileRecord.asFileDescriptor desc
      if !record.filesystem then fault
      else Kernel.fat16Read record.privateData size nmemb ptr

def fclose (fd : Int) : KernelProg Int := do
  let desc ← read (fileGetDescriptor · fd)
  if desc = 0 then pure (- EIO)
  else
    let record ← Kernel.record FileRecord.asFileDescriptor desc
    if !record.filesystem then fault
    else
      let res ← fat16Close record.privateData
      if res = 0 then fileFreeDescriptor desc
      pure res

end PeachOS
