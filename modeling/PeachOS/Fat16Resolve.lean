import PeachOS.Fat16Open

/-! How a disk is mounted: `fat16_resolve`, and its callers in `fs/file.c` and
`disk/disk.c`. The one disk has the id zero. -/

namespace PeachOS
open Program ByteMemory

abbrev sizeofFatPrivate : Word := 92
abbrev sizeofDiskStream : Word := 8
abbrev sizeofFatH : Nat := 62
abbrev peachosFat16Signature : Byte := 0x29

def Kernel.setDisk (kernel : Kernel) (disk : Disk) : Kernel := { kernel with disk := disk }

def Kernel.changeVolume (change : FatPrivate → FatPrivate) : KernelProg Unit :=
  update (fun kernel => kernel.setDisk (kernel.disk.withPrivate change))

/-- The fields of `struct fat_h` in its bytes. -/
def fatHeaderOf (bytes : List Byte) : FatHeader where
  sectorsPerCluster := bytes.getD 13 0
  reservedSectors := bytes.getD 15 0 ++ bytes.getD 14 0
  fatCopies := bytes.getD 16 0
  rootDirEntries := bytes.getD 18 0 ++ bytes.getD 17 0
  sectorsPerFat := bytes.getD 23 0 ++ bytes.getD 22 0
  signature := bytes.getD 38 0

/-- The stream with its address. The block for it is not checked. -/
def diskstreamerNew (diskId : Int) : KernelProg (Option (Addr × DiskStream)) :=
  match diskGet diskId with
  | none => pure none
  | some disk => do
      let streamer ← Kernel.kzalloc sizeofDiskStream
      if streamer = 0 then fault else pure (some (streamer, ⟨0, disk⟩))

def fat16InitPrivate (diskId : Int) : KernelProg FatPrivate := do
  let clusterReadStream ← diskstreamerNew diskId
  let fatReadStream ← diskstreamerNew diskId
  let directoryStream ← diskstreamerNew diskId
  pure ⟨⟨0, 0, 0, 0, 0, 0⟩, ⟨0, 0, 0, 0⟩, clusterReadStream.map Prod.snd, fatReadStream.map Prod.snd,
    directoryStream.map Prod.snd⟩

def fat16SectorToAbsolute (sectorSize sector : Int) : Int := sector * sectorSize

/-- The bytes of the root directory go to its table. -/
def fat16ReadRoot (rootDirSectorPos rootDirSize : Int) (dir : Addr) : KernelProg Int := do
  let sectorSize ← read (fun kernel => kernel.disk.sectorSize)
  Kernel.onDisk (directorySeek (fat16SectorToAbsolute sectorSize rootDirSectorPos))
  let (res, out) ← Kernel.onDisk (directoryRead rootDirSize)
  update (fun kernel => kernel.setMemory
    { kernel.memory with bytes := storeBytes kernel.memory.bytes dir out })
  pure res

/-- The number of sectors of the root directory, rounded up, is computed and not used. The
count of items may be an error code. -/
def fat16GetRootDirectory : KernelProg Int := do
  let fatPrivate ← Kernel.onDisk fsPrivate
  let sectorSize ← read (fun kernel => kernel.disk.sectorSize)
  let header := fatPrivate.header
  let rootDirSectorPos : Int :=
    header.fatCopies.toNat * header.sectorsPerFat.toNat + header.reservedSectors.toNat
  let rootDirSize : Int := header.rootDirEntries.toNat * fatDirectoryItemSize
  if sectorSize = 0 then fault
  else
    let totalItems ← Kernel.onDisk (fat16GetTotalItemsForDirectory (BitVec.ofInt 32 rootDirSectorPos))
    let dir ← Kernel.newRecord (BitVec.ofInt 32 rootDirSize) .fatDirectoryTable
    if dir = 0 then pure (- ENOMEM)
    else
      let res ← fat16ReadRoot rootDirSectorPos rootDirSize dir
      if res ≠ 0 then
        Kernel.freeRecord FileRecord.asFatDirectoryTable dir
        pure (- EIO)
      else
        Kernel.changeVolume (fun volume => { volume with rootDirectory :=
          ⟨dir, totalItems, rootDirSectorPos, rootDirSectorPos + rootDirSize.tdiv sectorSize⟩ })
        pure 0

/-- The header is read from the boot sector, and the root directory after it. -/
def fat16ResolveHeader (stream : DiskStream) : KernelProg Int := do
  let image ← read (fun kernel => kernel.disk.image)
  match diskstreamerRead image stream sizeofFatH with
  | none => fault
  | some (res, header, _) =>
      if res ≠ 0 then pure (- EIO)
      else
        Kernel.changeVolume (fun volume => { volume with header := fatHeaderOf header })
        if (fatHeaderOf header).signature ≠ peachosFat16Signature then pure (- EFSNOTUS)
        else
          let res ← fat16GetRootDirectory
          if res ≠ 0 then pure (- EIO) else pure 0

/-- `fat16_resolve` from its own stream up to the `out` label. -/
def fat16ResolveStream : KernelProg Int := do
  match ← diskstreamerNew 0 with
  | none => pure (- ENOMEM)
  | some (streamer, stream) =>
      let res ← fat16ResolveHeader stream
      Kernel.kfree streamer
      pure res

def fat16Resolve : KernelProg Int := do
  let ptr ← Kernel.kzalloc sizeofFatPrivate
  if ptr = 0 then fault
  else
    let fatPrivate ← fat16InitPrivate 0
    update (fun kernel => kernel.setDisk
      { kernel.disk with fsPrivate := some fatPrivate, filesystem := true })
    let res ← fat16ResolveStream
    if res < 0 then
      Kernel.kfree ptr
      update (fun kernel => kernel.setDisk { kernel.disk with fsPrivate := none })
    pure res

/-- The one file system is `fat16_fs`. -/
def fsResolve : KernelProg Bool := do
  let res ← fat16Resolve
  pure (res == 0)

def diskSearchAndInit : KernelProg Unit := do
  update (fun kernel => kernel.setDisk ⟨kernel.disk.image, peachosSectorSize, false, none⟩)
  let filesystem ← fsResolve
  update (fun kernel => kernel.setDisk { kernel.disk with filesystem := filesystem })

end PeachOS
