import PeachOS.Disk
import PeachOS.Lib.Bytes

/-! The reading half of `fs/fat/fat16.c`: the FAT, the walk along a cluster chain, and
reads of file data. The streams of `fat_private` live in the disk's own record. -/

namespace PeachOS
open Program ByteMemory

abbrev peachosFat16FatEntrySize : Int := 2
abbrev peachosFat16BadSector : Int := 0xFF7

/-- The fields of `struct fat_h` that the code reads. -/
structure FatHeader where
  sectorsPerCluster : Byte
  reservedSectors : BitVec 16
  fatCopies : Byte
  rootDirEntries : BitVec 16
  sectorsPerFat : BitVec 16
  signature : Byte
  deriving DecidableEq

/-- `item` points at the directory's table of entries in memory. -/
structure FatDirectory where
  item : Addr
  total : Int
  sectorPos : Int
  endingSectorPos : Int
  deriving DecidableEq

/-- The fields of `struct fat_directory_item` that the code reads. -/
structure FatDirectoryItem where
  filename : List Byte
  ext : List Byte
  itemAttribute : Byte
  high16BitsFirstCluster : BitVec 16
  low16BitsFirstCluster : BitVec 16
  filesize : Word
  deriving DecidableEq

structure FatPrivate where
  header : FatHeader
  rootDirectory : FatDirectory
  clusterReadStream : Option DiskStream
  fatReadStream : Option DiskStream
  directoryStream : Option DiskStream
  deriving DecidableEq

/-- `filesystem` says whether one was resolved for the disk. -/
structure Disk where
  image : Image
  sectorSize : Int
  filesystem : Bool
  fsPrivate : Option FatPrivate

def Disk.withPrivate (disk : Disk) (change : FatPrivate → FatPrivate) : Disk :=
  { disk with fsPrivate := disk.fsPrivate.map change }

/-- `disk->fs_private`, which every reader follows. -/
def fsPrivate : Prog Disk Stop FatPrivate := do
  match ← read Disk.fsPrivate with
  | none => fault
  | some fatPrivate => pure fatPrivate

/-- Seeks one of the streams and reads from it. -/
def streamReadAt (stream : Option DiskStream) (keep : DiskStream → FatPrivate → FatPrivate)
    (pos total : Int) : Prog Disk Stop (Int × List Byte) := do
  match stream with
  | none => fault
  | some stream =>
      let image ← read Disk.image
      match diskstreamerRead image (diskstreamerSeek stream pos) total with
      | none => fault
      | some (res, out, stream) =>
          update (Disk.withPrivate · (keep stream))
          pure (res, out)

def fatReadAt (fatPrivate : FatPrivate) (pos total : Int) : Prog Disk Stop (Int × List Byte) :=
  streamReadAt fatPrivate.fatReadStream
    (fun stream volume => { volume with fatReadStream := some stream }) pos total

def clusterReadAt (fatPrivate : FatPrivate) (pos total : Int) : Prog Disk Stop (Int × List Byte) :=
  streamReadAt fatPrivate.clusterReadStream
    (fun stream volume => { volume with clusterReadStream := some stream }) pos total

/-- A little-endian `uint16_t` from the front of a buffer. -/
def halfWord (buffer : List Byte) : Int :=
  (buffer.getD 0 0).toNat + 256 * (buffer.getD 1 0).toNat

def fat16GetFirstCluster (item : FatDirectoryItem) : Word :=
  (item.high16BitsFirstCluster ||| item.low16BitsFirstCluster).setWidth 32

def fat16ClusterToSector (fatPrivate : FatPrivate) (cluster : Int) : Int :=
  fatPrivate.rootDirectory.endingSectorPos +
    (cluster - 2) * fatPrivate.header.sectorsPerCluster.toNat

def fat16GetFirstFatSector (fatPrivate : FatPrivate) : Word :=
  fatPrivate.header.reservedSectors.setWidth 32

/-- The position is a product of two unsigned words, read back as an `int`. -/
def fat16GetFatEntry (cluster : Int) : Prog Disk Stop Int := do
  let fatPrivate ← fsPrivate
  if fatPrivate.fatReadStream = none then pure (-1)
  else
    let sectorSize ← read Disk.sectorSize
    let fatTablePosition := fat16GetFirstFatSector fatPrivate * BitVec.ofInt 32 sectorSize
    let position := fatTablePosition * BitVec.ofInt 32 (cluster * peachosFat16FatEntrySize)
    let (res, result) ← fatReadAt fatPrivate position.toInt 2
    if res < 0 then pure res else pure (halfWord result)

def fat16GetClusterForOffsetLoop : (remaining : Nat) → (clusterToUse : Int) → Prog Disk Stop Int
  | 0, clusterToUse => pure clusterToUse
  | remaining + 1, clusterToUse => do
      let entry ← fat16GetFatEntry clusterToUse
      if entry = 0xFF8 ∨ entry = 0xFFF then pure (- EIO)
      else if entry = peachosFat16BadSector then pure (- EIO)
      else if entry = 0xFF0 ∨ entry = 0xFF6 then pure (- EIO)
      else if entry = 0 then pure (- EIO)
      else fat16GetClusterForOffsetLoop remaining entry

def sizeOfClusterBytes (disk : Disk) (fatPrivate : FatPrivate) : Int :=
  fatPrivate.header.sectorsPerCluster.toNat * disk.sectorSize

def fat16GetClusterForOffset (startingCluster offset : Int) : Prog Disk Stop Int := do
  let fatPrivate ← fsPrivate
  let size ← read (sizeOfClusterBytes · fatPrivate)
  if size = 0 then fault
  else fat16GetClusterForOffsetLoop (offset.tdiv size).toNat startingCluster

/-- `fat16_read_internal_from_stream`, storing at `out`. Each call but the last reads a
whole cluster's worth of bytes. -/
def fat16ReadInternalFromStream : (fuel : Nat) → (cluster offset total : Int) → (out : Addr) →
    Bytes → Prog Disk Stop (Int × Bytes)
  | 0, _, _, _, _, _ => fault
  | fuel + 1, cluster, offset, total, out, bytes => do
      let fatPrivate ← fsPrivate
      let disk ← read id
      let size := sizeOfClusterBytes disk fatPrivate
      let clusterToUse ← fat16GetClusterForOffset cluster offset
      if clusterToUse < 0 then pure (clusterToUse, bytes)
      else
        let offsetFromCluster := offset.tmod size
        let startingSector := fat16ClusterToSector fatPrivate clusterToUse
        let startingPos := startingSector * disk.sectorSize + offsetFromCluster
        let totalToRead := if total > size then size else total
        let (res, data) ← clusterReadAt fatPrivate startingPos totalToRead
        let bytes := storeBytes bytes out data
        if res ≠ 0 then pure (res, bytes)
        else if total - totalToRead > 0 then
          fat16ReadInternalFromStream fuel cluster (offset + totalToRead) (total - totalToRead)
            (out + BitVec.ofInt 32 totalToRead) bytes
        else pure (res, bytes)

def fat16ReadInternal (startingCluster offset total : Int) (out : Addr) (bytes : Bytes) :
    Prog Disk Stop (Int × Bytes) :=
  fat16ReadInternalFromStream (total.toNat + 1) startingCluster offset total out bytes

/-- The loop of `fat16_read` with `remaining` items to go; the offset is kept modulo 2³². -/
def fat16ReadLoop (item : FatDirectoryItem) (size : Word) : (remaining : Nat) →
    (offset : Word) → (out : Addr) → Bytes → Prog Disk Stop (Int × Bytes)
  | 0, _, _, bytes => pure (0, bytes)
  | remaining + 1, offset, out, bytes => do
      let (res, bytes) ← fat16ReadInternal (fat16GetFirstCluster item).toInt offset.toInt size.toInt
        out bytes
      if res < 0 then pure (res, bytes)
      else fat16ReadLoop item size remaining (offset + size) (out + size) bytes

def fat16Read (item : FatDirectoryItem) (pos size nmemb : Word) (out : Addr) (bytes : Bytes) :
    Prog Disk Stop (Int × Bytes) := do
  let (res, bytes) ← fat16ReadLoop item size nmemb.toNat pos out bytes
  if res < 0 then pure (res, bytes) else pure (nmemb.toInt, bytes)

end PeachOS
