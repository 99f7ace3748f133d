import Mathlib.Data.Nat.ModEq
import PeachOS.ClusterWalk
import PeachOS.Fat16File

/-! The reads of the cluster stream that `fat16_read_internal_from_stream` makes, and the
bytes of the file that they copy. -/

namespace PeachOS
open Program ByteMemory

/-- A read of the cluster stream: where the bytes go, where they start and how many they are. -/
structure StreamRead where
  out : Addr
  pos : Int
  count : Int
  deriving DecidableEq

/-- `fat16_read_internal_from_stream` with the reads of the stream that it makes. -/
def loggedReadInternalFromStream : (fuel : Nat) → (cluster offset total : Int) → (out : Addr) →
    Bytes → Prog Disk Stop (Int × Bytes × List StreamRead)
  | 0, _, _, _, _, _ => fault
  | fuel + 1, cluster, offset, total, out, bytes => do
      let fatPrivate ← fsPrivate
      let disk ← read id
      let size := sizeOfClusterBytes disk fatPrivate
      let clusterToUse ← fat16GetClusterForOffset cluster offset
      if clusterToUse < 0 then pure (clusterToUse, bytes, [])
      else
        let offsetFromCluster := offset.tmod size
        let startingSector := fat16ClusterToSector fatPrivate clusterToUse
        let startingPos := startingSector * disk.sectorSize + offsetFromCluster
        let totalToRead := if total > size then size else total
        let (res, data) ← clusterReadAt fatPrivate startingPos totalToRead
        let bytes := storeBytes bytes out data
        let made : StreamRead := ⟨out, startingPos, totalToRead⟩
        if res ≠ 0 then pure (res, bytes, [made])
        else if total - totalToRead > 0 then do
          let (res, bytes, reads) ← loggedReadInternalFromStream fuel cluster (offset + totalToRead)
            (total - totalToRead) (out + BitVec.ofInt 32 totalToRead) bytes
          pure (res, bytes, made :: reads)
        else pure (res, bytes, [made])

def loggedReadInternal (startingCluster offset total : Int) (out : Addr) (bytes : Bytes) :
    Prog Disk Stop (Int × Bytes × List StreamRead) :=
  loggedReadInternalFromStream (total.toNat + 1) startingCluster offset total out bytes

def unlogged : Except Stop (Int × Bytes × List StreamRead) × Disk → Except Stop (Int × Bytes) × Disk
  | (.ok (res, bytes, _), disk) => (.ok (res, bytes), disk)
  | (.error reason, disk) => (.error reason, disk)

theorem unlogged_readInternalFromStream (fuel : Nat) (cluster offset total : Int) (out : Addr)
    (bytes : Bytes) (disk : Disk) :
    unlogged (loggedReadInternalFromStream fuel cluster offset total out bytes disk) =
      fat16ReadInternalFromStream fuel cluster offset total out bytes disk := by
  induction fuel generalizing offset total out bytes disk with
  | zero => rfl
  | succ fuel ih =>
    unfold loggedReadInternalFromStream fat16ReadInternalFromStream
    rw [bind_run, bind_run]
    generalize fsPrivate disk = looked
    obtain ⟨_ | fatPrivate, first⟩ := looked
    · rfl
    dsimp only
    rw [read_bind, read_bind, bind_run, bind_run]
    generalize fat16GetClusterForOffset cluster offset first = found
    obtain ⟨_ | clusterToUse, second⟩ := found
    · rfl
    dsimp only
    by_cases failed : clusterToUse < 0
    · rw [if_pos failed, if_pos failed]
      rfl
    generalize (if total > sizeOfClusterBytes (id first) fatPrivate then
      sizeOfClusterBytes (id first) fatPrivate else total) = totalToRead
    rw [if_neg failed, if_neg failed, bind_run, bind_run]
    generalize clusterReadAt fatPrivate _ totalToRead second = read
    obtain ⟨_ | ⟨res, data⟩, third⟩ := read
    · rfl
    dsimp only
    by_cases bad : res ≠ 0
    · rw [if_pos bad, if_pos bad]
      rfl
    rw [if_neg bad, if_neg bad]
    by_cases more : total - totalToRead > 0
    · rw [if_pos more, if_pos more, ← ih, bind_run]
      generalize loggedReadInternalFromStream fuel cluster _ _ _ _ third = rest
      obtain ⟨_ | ⟨_, _, _⟩, fourth⟩ := rest
      · rfl
      · rfl
    · rw [if_neg more, if_neg more]
      rfl

/-- A mounted disk, with the stream that its clusters are read from. -/
structure Readable (disk : Disk) (fatPrivate : FatPrivate) : Prop where
  mounted : disk.fsPrivate = some fatPrivate
  sector : disk.sectorSize = peachosSectorSize
  clusters : 0 < fatPrivate.header.sectorsPerCluster.toNat
  stream : ∃ pos, fatPrivate.clusterReadStream = some ⟨pos, 0⟩

def clusterStart (fatPrivate : FatPrivate) (cluster : Int) : Int :=
  fat16ClusterToSector fatPrivate cluster * peachosSectorSize

def Disk.onCluster (disk : Disk) (pos : Int) : Disk :=
  disk.withPrivate (fun volume => { volume with clusterReadStream := some ⟨pos, 0⟩ })

section Read
variable {disk other : Disk} {fatPrivate : FatPrivate}

theorem Readable.size (readable : Readable disk fatPrivate) :
    sizeOfClusterBytes disk fatPrivate = (clusterSize fatPrivate.header : Nat) := by
  unfold sizeOfClusterBytes clusterSize
  rw [readable.sector, Int.natCast_mul]

theorem Readable.size_pos (readable : Readable disk fatPrivate) : 0 < clusterSize fatPrivate.header :=
  Nat.mul_pos readable.clusters (by decide)

theorem Readable.onCluster (readable : Readable disk fatPrivate) (pos : Int) :
    (disk.onCluster pos).rewind = disk.rewind := by
  obtain ⟨old, stream⟩ := readable.stream
  unfold Disk.onCluster Disk.rewind Disk.withPrivate
  dsimp only
  rw [readable.mounted]
  unfold FatPrivate.rewind
  dsimp only [Option.map_some]
  rw [stream]
  rfl

theorem header_rewind {volume : FatPrivate} (same : volume.rewind = fatPrivate.rewind) :
    volume.header = fatPrivate.header := by
  have rewound : volume.rewind.header = fatPrivate.rewind.header := congrArg FatPrivate.header same
  exact rewound

theorem Readable.moved (readable : Readable disk fatPrivate) (same : other.rewind = disk.rewind) :
    ∃ volume, Readable other volume ∧ volume.rewind = fatPrivate.rewind := by
  have sector : other.rewind.sectorSize = disk.rewind.sectorSize := congrArg Disk.sectorSize same
  have volumes : other.fsPrivate.map FatPrivate.rewind = disk.fsPrivate.map FatPrivate.rewind :=
    congrArg Disk.fsPrivate same
  rw [readable.mounted, Option.map_some, Option.map_eq_some_iff] at volumes
  obtain ⟨volume, here, rewound⟩ := volumes
  obtain ⟨pos, stream⟩ := readable.stream
  have streams : volume.clusterReadStream.map DiskStream.rewind =
      fatPrivate.clusterReadStream.map DiskStream.rewind := congrArg FatPrivate.clusterReadStream rewound
  rw [stream, Option.map_some, Option.map_eq_some_iff] at streams
  obtain ⟨⟨pos', number⟩, opened, equal⟩ := streams
  obtain rfl : number = 0 := congrArg DiskStream.disk equal
  exact ⟨volume, ⟨here, sector.trans readable.sector, (header_rewind rewound).symm ▸ readable.clusters,
    pos', opened⟩, rewound⟩

theorem clusterStart_rewind {volume : FatPrivate} (same : volume.rewind = fatPrivate.rewind)
    (cluster : Int) : clusterStart volume cluster = clusterStart fatPrivate cluster := by
  have root : volume.rewind.rootDirectory = fatPrivate.rewind.rootDirectory :=
    congrArg FatPrivate.rootDirectory same
  unfold clusterStart fat16ClusterToSector
  rw [header_rewind same]
  exact congrArg (fun directory : FatDirectory => (directory.endingSectorPos + _) * _) root

theorem Readable.clusterReadAt (readable : Readable disk fatPrivate) (start : Int) (count : Nat)
    (other : Disk) : clusterReadAt fatPrivate start count other =
      if 0 ≤ start ∧ start + count < 2 ^ 31 then
        (.ok (0, diskBytes other.image start.toNat count), other.onCluster (start + count))
      else (.error .fault, other) := by
  obtain ⟨pos, stream⟩ := readable.stream
  unfold PeachOS.clusterReadAt
  rw [stream, streamReadAt_run]
  have read : diskstreamerRead other.image (diskstreamerSeek ⟨pos, 0⟩ start) count = _ :=
    diskstreamerRead_place other.image start count
  rw [read]
  by_cases low : 0 ≤ start ∧ start + count < 2 ^ 31
  · rw [if_pos low, if_pos low]
    rfl
  · rw [if_neg low, if_neg low]

end Read

/-- A piece of a read, `count` bytes from `offset` on: a cluster is found for the first one, and
`start` is where the stream is read. -/
def PieceAt (disk : Disk) (fatPrivate : FatPrivate) (cluster offset : Int) (count : Nat) (start : Int) : Prop :=
  0 ≤ start ∧ start + count < 2 ^ 31 ∧ ∃ clusterToUse,
    (fat16GetClusterForOffset cluster offset disk).1 = .ok clusterToUse ∧ 0 ≤ clusterToUse ∧
    start = clusterStart fatPrivate clusterToUse + offset.tmod (clusterSize fatPrivate.header : Nat)

section Step
variable {disk : Disk} {fatPrivate : FatPrivate} {cluster clusterToUse offset : Int} {total : Nat}

theorem Readable.loggedRead_failed (readable : Readable disk fatPrivate)
    (found : (fat16GetClusterForOffset cluster offset disk).1 = .ok clusterToUse)
    (failed : clusterToUse < 0) (fuel : Nat) (total : Int) (out : Addr) (bytes : Bytes) :
    loggedReadInternalFromStream (fuel + 1) cluster offset total out bytes disk =
      (.ok (clusterToUse, bytes, []), (fat16GetClusterForOffset cluster offset disk).2) := by
  rw [loggedReadInternalFromStream, bind_ok (fsPrivate_run readable.mounted), read_bind,
    bind_ok (run_of_result found), if_pos failed]
  rfl

theorem Readable.loggedRead_step (readable : Readable disk fatPrivate)
    (found : (fat16GetClusterForOffset cluster offset disk).1 = .ok clusterToUse)
    (passed : 0 ≤ clusterToUse) (fuel : Nat) (out : Addr) (bytes : Bytes) :
    loggedReadInternalFromStream (fuel + 1) cluster offset total out bytes disk =
      let size := clusterSize fatPrivate.header
      let start := clusterStart fatPrivate clusterToUse + offset.tmod size
      let count := min total size
      let left := (fat16GetClusterForOffset cluster offset disk).2
      let stored := storeBytes bytes out (diskBytes disk.image start.toNat count)
      if 0 ≤ start ∧ start + count < 2 ^ 31 then
        (if size < total then do
            let (res, bytes, reads) ← loggedReadInternalFromStream fuel cluster
              (offset + size) ((total - size : Nat) : Int) (out + BitVec.ofNat 32 size) stored
            pure (res, bytes, ⟨out, start, count⟩ :: reads)
          else pure (0, stored, [⟨out, start, count⟩]) :
            Prog Disk Stop (Int × Bytes × List StreamRead)) (left.onCluster (start + count))
      else (.error .fault, left) := by
  have kept := ((Unmoved.fat16GetClusterForOffset cluster offset) disk).2
  have image : (fat16GetClusterForOffset cluster offset disk).2.image = disk.image := by
    have same : (fat16GetClusterForOffset cluster offset disk).2.rewind.image = disk.rewind.image :=
      congrArg Disk.image kept
    exact same
  rw [loggedReadInternalFromStream, bind_ok (fsPrivate_run readable.mounted), read_bind,
    bind_ok (run_of_result found), if_neg (not_lt.mpr passed)]
  simp only [id_eq, readable.size, readable.sector]
  generalize clusterSize fatPrivate.header = size
  have count : (if (total : Int) > size then (size : Int) else total) = (min total size : Nat) := by
    split <;> omega
  have place : fat16ClusterToSector fatPrivate clusterToUse * (peachosSectorSize : Nat) + offset.tmod size =
      clusterStart fatPrivate clusterToUse + offset.tmod size := rfl
  rw [count, place]
  generalize clusterStart fatPrivate clusterToUse + offset.tmod size = start
  have read := readable.clusterReadAt start (min total size) (fat16GetClusterForOffset cluster offset disk).2
  by_cases low : 0 ≤ start ∧ start + (min total size : Nat) < 2 ^ 31
  · rw [if_pos low, image] at read
    rw [if_pos low, bind_ok read]
    dsimp only
    rw [if_neg (not_not.mpr rfl)]
    by_cases more : size < total
    · have whole : min total size = size := Nat.min_eq_right (Nat.le_of_lt more)
      rw [if_pos more, whole, if_pos (by omega), ← Int.natCast_sub (Nat.le_of_lt more)]
      rfl
    · rw [if_neg more, if_neg (by omega)]
  · rw [if_neg low] at read
    rw [if_neg low, bind_error read]

theorem Readable.loggedRead_error (readable : Readable disk fatPrivate) {reason : Stop}
    (found : (fat16GetClusterForOffset cluster offset disk).1 = .error reason) (fuel : Nat) (total : Int)
    (out : Addr) (bytes : Bytes) :
    (loggedReadInternalFromStream (fuel + 1) cluster offset total out bytes disk).1 = .error reason := by
  rw [loggedReadInternalFromStream, bind_ok (fsPrivate_run readable.mounted), read_bind,
    bind_error (run_of_result found)]

theorem Readable.loggedRead_found (readable : Readable disk fatPrivate) {fuel : Nat} {res total : Int} {out : Addr}
    {bytes after : Bytes} {reads : List StreamRead} {left : Disk}
    (run : loggedReadInternalFromStream (fuel + 1) cluster offset total out bytes disk =
      (.ok (res, after, reads), left)) (passed : 0 ≤ res) :
    ∃ clusterToUse, (fat16GetClusterForOffset cluster offset disk).1 = .ok clusterToUse ∧ 0 ≤ clusterToUse := by
  cases found : (fat16GetClusterForOffset cluster offset disk).1 with
  | error reason =>
    have failed := readable.loggedRead_error found fuel total out bytes
    rw [run] at failed
    cases failed
  | ok clusterToUse =>
    refine ⟨clusterToUse, rfl, ?_⟩
    by_contra negative
    rw [readable.loggedRead_failed found (not_le.mp negative)] at run
    cases run
    exact negative passed

theorem Readable.loggedRead_ok (readable : Readable disk fatPrivate) {fuel : Nat} {out : Addr}
    {bytes after : Bytes} {reads : List StreamRead} {left : Disk}
    (run : loggedReadInternalFromStream (fuel + 1) cluster offset total out bytes disk =
      (.ok (0, after, reads), left)) :
    ∃ start, PieceAt disk fatPrivate cluster offset (min total (clusterSize fatPrivate.header)) start ∧
      ((total ≤ clusterSize fatPrivate.header ∧ reads = [⟨out, start, total⟩] ∧
        after = storeBytes bytes out (diskBytes disk.image start.toNat total) ∧ left.rewind = disk.rewind) ∨
      (clusterSize fatPrivate.header < total ∧ ∃ middle rest, middle.rewind = disk.rewind ∧
        reads = ⟨out, start, (clusterSize fatPrivate.header : Nat)⟩ :: rest ∧
        loggedReadInternalFromStream fuel cluster (offset + (clusterSize fatPrivate.header : Nat))
          ((total - clusterSize fatPrivate.header : Nat) : Int)
          (out + BitVec.ofNat 32 (clusterSize fatPrivate.header))
          (storeBytes bytes out (diskBytes disk.image start.toNat (clusterSize fatPrivate.header))) middle =
            (.ok (0, after, rest), left))) := by
  obtain ⟨clusterToUse, found, passed⟩ := readable.loggedRead_found run le_rfl
  rw [readable.loggedRead_step found passed] at run
  have kept := ((Unmoved.fat16GetClusterForOffset cluster offset) disk).2
  obtain ⟨volume, still, _⟩ := readable.moved kept
  dsimp only at run
  refine ⟨clusterStart fatPrivate clusterToUse + offset.tmod (clusterSize fatPrivate.header : Nat), ?_⟩
  unfold PieceAt
  rw [found]
  generalize place : clusterStart fatPrivate clusterToUse +
    offset.tmod (clusterSize fatPrivate.header : Nat) = start at run ⊢
  split at run
  next low =>
    refine ⟨⟨low.1, low.2, clusterToUse, rfl, passed, place.symm⟩, ?_⟩
    generalize clusterSize fatPrivate.header = size at run ⊢
    have moved := (still.onCluster (start + (min total size : Nat))).trans kept
    by_cases more : size < total
    · have whole : min total size = size := Nat.min_eq_right (Nat.le_of_lt more)
      rw [if_pos more, whole] at run
      obtain ⟨⟨res, stored, rest⟩, last, further, ended⟩ := bind_eq_ok run
      cases ended
      rw [whole] at moved
      exact Or.inr ⟨more, _, rest, moved, rfl, further⟩
    · have short : min total size = total := Nat.min_eq_left (Nat.not_lt.mp more)
      rw [if_neg more, short] at run
      cases run
      rw [short] at moved
      exact Or.inl ⟨Nat.not_lt.mp more, rfl, rfl, moved⟩
  next => cases run

end Step

/-- The bytes that a read copies: where to, and from which position. -/
def StreamRead.copies (read : StreamRead) : List (Addr × Int) :=
  (List.range read.count.toNat).map (fun i => (read.out + BitVec.ofNat 32 i, read.pos + i))

/-- A read is cut into pieces of a cluster's size, and each byte is where `allowed` has it. -/
def PiecesWithin (disk : Disk) (fatPrivate : FatPrivate) (cluster offset : Int) (total : Nat)
    (allowed : Nat → Int → Prop) : Prop :=
  ∀ m, m * clusterSize fatPrivate.header < total → ∃ start,
    PieceAt disk fatPrivate cluster (offset + (m * clusterSize fatPrivate.header : Nat))
      (min (total - m * clusterSize fatPrivate.header) (clusterSize fatPrivate.header)) start ∧
    ∀ i < min (total - m * clusterSize fatPrivate.header) (clusterSize fatPrivate.header),
      allowed (m * clusterSize fatPrivate.header + i) (start + i)

/-- The reads copy `total` bytes to `out` in their order, each from where `allowed` has it. -/
def CopiesWithin (out : Addr) (total : Nat) (allowed : Nat → Int → Prop) (reads : List StreamRead) : Prop :=
  (reads.flatMap StreamRead.copies).length = total ∧
    ∀ k < total, ∃ place, (reads.flatMap StreamRead.copies)[k]? = some (out + BitVec.ofNat 32 k, place) ∧
      allowed k place

section Pieces
variable {disk other : Disk} {fatPrivate volume : FatPrivate} {cluster offset : Int} {total : Nat}
  {allowed : Nat → Int → Prop}

theorem pieceAt_rewind (disks : other.rewind = disk.rewind) (volumes : volume.rewind = fatPrivate.rewind)
    {count : Nat} {start : Int} : PieceAt other volume cluster offset count start ↔
      PieceAt disk fatPrivate cluster offset count start := by
  unfold PieceAt
  simp only [(Unmoved.fat16GetClusterForOffset cluster offset).same disks, clusterStart_rewind volumes,
    header_rewind volumes]

theorem piecesWithin_rewind (disks : other.rewind = disk.rewind) (volumes : volume.rewind = fatPrivate.rewind) :
    PiecesWithin other volume cluster offset total allowed ↔
      PiecesWithin disk fatPrivate cluster offset total allowed := by
  unfold PiecesWithin
  simp only [pieceAt_rewind disks volumes, header_rewind volumes]

theorem piecesWithin_short (short : total ≤ clusterSize fatPrivate.header) (some' : 0 < total) :
    PiecesWithin disk fatPrivate cluster offset total allowed ↔
      ∃ start, PieceAt disk fatPrivate cluster offset total start ∧ ∀ i < total, allowed i (start + i) := by
  have whole : ∀ m, m * clusterSize fatPrivate.header < total ↔ m = 0 := by
    intro m
    constructor
    · intro bound
      by_contra later
      have := Nat.le_mul_of_pos_left (clusterSize fatPrivate.header) (Nat.pos_of_ne_zero later)
      omega
    · rintro rfl
      rw [Nat.zero_mul]
      exact some'
  unfold PiecesWithin
  simp only [whole, forall_eq, Nat.zero_mul, Nat.sub_zero, Nat.min_eq_left short, Int.natCast_zero,
    Int.add_zero, Nat.zero_add]

theorem piecesWithin_long (long : clusterSize fatPrivate.header < total) :
    PiecesWithin disk fatPrivate cluster offset total allowed ↔
      (∃ start, PieceAt disk fatPrivate cluster offset (clusterSize fatPrivate.header) start ∧
        ∀ i < clusterSize fatPrivate.header, allowed i (start + i)) ∧
      PiecesWithin disk fatPrivate cluster (offset + (clusterSize fatPrivate.header : Nat))
        (total - clusterSize fatPrivate.header)
        (fun k => allowed (clusterSize fatPrivate.header + k)) := by
  unfold PiecesWithin
  generalize clusterSize fatPrivate.header = size at long ⊢
  have later : ∀ m, offset + ((m + 1) * size : Nat) = offset + (size : Nat) + (m * size : Nat) ∧
      total - (m + 1) * size = total - size - m * size ∧
      ∀ i, (m + 1) * size + i = size + (m * size + i) := by
    intro m
    rw [Nat.succ_mul]
    exact ⟨by omega, by omega, fun i => by omega⟩
  constructor
  · intro pieces
    constructor
    · have first := pieces 0 (by omega)
      simpa only [Nat.zero_mul, Nat.sub_zero, Nat.min_eq_right (Nat.le_of_lt long), Int.natCast_zero,
        Int.add_zero, Nat.zero_add] using first
    · intro m bound
      have next := pieces (m + 1) (by rw [Nat.succ_mul]; omega)
      simpa only [later m] using next
  · rintro ⟨first, rest⟩ m bound
    cases m with
    | zero =>
      simpa only [Nat.zero_mul, Nat.sub_zero, Nat.min_eq_right (Nat.le_of_lt long), Int.natCast_zero,
        Int.add_zero, Nat.zero_add] using first
    | succ m =>
      have next := rest m (by rw [Nat.succ_mul] at bound; omega)
      simpa only [later m] using next

end Pieces

section Copies
variable {disk : Disk} {fatPrivate : FatPrivate} {cluster offset : Int} {total : Nat} {out : Addr}
  {allowed : Nat → Int → Prop}

theorem StreamRead.copies_getElem? (out : Addr) (start : Int) {count i : Nat} (bound : i < count) :
    (StreamRead.copies ⟨out, start, count⟩)[i]? = some (out + BitVec.ofNat 32 i, start + i) := by
  unfold StreamRead.copies
  rw [List.getElem?_map, Int.toNat_natCast, List.getElem?_range bound]
  rfl

theorem copiesWithin_append {first rest : List StreamRead} {count : Nat}
    (length : (first.flatMap StreamRead.copies).length = count) (long : count ≤ total) :
    CopiesWithin out total allowed (first ++ rest) ↔ CopiesWithin out count allowed first ∧
      CopiesWithin (out + BitVec.ofNat 32 count) (total - count) (fun k => allowed (count + k)) rest := by
  have shifted : ∀ k, out + BitVec.ofNat 32 (count + k) = out + BitVec.ofNat 32 count + BitVec.ofNat 32 k := by
    intro k
    rw [BitVec.ofNat_add, BitVec.add_assoc]
  unfold CopiesWithin
  rw [List.flatMap_append, List.length_append, length]
  generalize first.flatMap StreamRead.copies = made at length ⊢
  generalize rest.flatMap StreamRead.copies = others
  have before : ∀ k < count, (made ++ others)[k]? = made[k]? := by
    intro k bound
    rw [List.getElem?_append_left (by omega)]
  have behind : ∀ k, (made ++ others)[count + k]? = others[k]? := by
    intro k
    rw [List.getElem?_append_right (by omega), length, Nat.add_sub_cancel_left]
  constructor
  · rintro ⟨whole, places⟩
    refine ⟨⟨rfl, ?_⟩, by omega, ?_⟩
    · intro k bound
      have here := places k (by omega)
      rwa [before k bound] at here
    · intro k bound
      have here := places (count + k) (by omega)
      rwa [behind, shifted] at here
  · rintro ⟨⟨_, early⟩, whole, later⟩
    refine ⟨by omega, ?_⟩
    intro k bound
    by_cases small : k < count
    · rw [before k small]
      exact early k small
    · obtain ⟨place, here, within⟩ := later (k - count) (by omega)
      have back : count + (k - count) = k := Nat.add_sub_cancel' (by omega)
      rw [← behind, ← shifted, back] at here
      rw [back] at within
      exact ⟨place, here, within⟩

theorem copiesWithin_single {start : Int} :
    CopiesWithin out total allowed [⟨out, start, total⟩] ↔ ∀ i < total, allowed i (start + i) := by
  unfold CopiesWithin
  rw [List.flatMap_cons, List.flatMap_nil, List.append_nil]
  constructor
  · rintro ⟨_, places⟩ i bound
    obtain ⟨place, here, within⟩ := places i bound
    rw [StreamRead.copies_getElem? out start bound] at here
    cases here
    exact within
  · intro within
    exact ⟨by simp [StreamRead.copies],
      fun i bound => ⟨_, StreamRead.copies_getElem? out start bound, within i bound⟩⟩

theorem copiesWithin_cons {size : Nat} (long : size ≤ total) {start : Int} {reads : List StreamRead} :
    CopiesWithin out total allowed (⟨out, start, size⟩ :: reads) ↔
      (∀ i < size, allowed i (start + i)) ∧
      CopiesWithin (out + BitVec.ofNat 32 size) (total - size) (fun k => allowed (size + k)) reads := by
  have length : (List.flatMap StreamRead.copies [⟨out, start, size⟩]).length = size := by
    simp [StreamRead.copies]
  have single : CopiesWithin out size allowed [⟨out, start, size⟩] ↔ ∀ i < size, allowed i (start + i) :=
    copiesWithin_single
  rw [← single, ← copiesWithin_append length long]
  rfl

/-- A read succeeds and copies bytes that are all allowed if and only if its pieces have them. -/
theorem Readable.loggedRead_within (readable : Readable disk fatPrivate) {fuel : Nat}
    (enough : total < fuel) (some' : 0 < total) (out : Addr) (bytes : Bytes) :
    (∃ after reads left, loggedReadInternalFromStream fuel cluster offset total out bytes disk =
        (.ok (0, after, reads), left) ∧ CopiesWithin out total allowed reads) ↔
      PiecesWithin disk fatPrivate cluster offset total allowed := by
  induction fuel generalizing offset total out bytes disk fatPrivate allowed with
  | zero => omega
  | succ fuel ih =>
    have positive := readable.size_pos
    constructor
    · rintro ⟨after, reads, left, run, copies⟩
      obtain ⟨start, piece, ends⟩ := readable.loggedRead_ok run
      rcases ends with ⟨short, rfl, _, _⟩ | ⟨long, middle, rest, moved, rfl, further⟩
      · rw [piecesWithin_short short some']
        rw [Nat.min_eq_left short] at piece
        exact ⟨start, piece, copiesWithin_single.mp copies⟩
      · rw [piecesWithin_long long]
        rw [Nat.min_eq_right (Nat.le_of_lt long)] at piece
        obtain ⟨first, others⟩ := (copiesWithin_cons (Nat.le_of_lt long)).mp copies
        refine ⟨⟨start, piece, first⟩, ?_⟩
        obtain ⟨volume, still, same⟩ := readable.moved moved
        rw [← piecesWithin_rewind moved same]
        exact (ih still (by omega) (by omega) _ _).mp ⟨after, rest, left, further, others⟩
    · intro pieces
      have kept := ((Unmoved.fat16GetClusterForOffset cluster offset) disk).2
      obtain ⟨_, still, _⟩ := readable.moved kept
      by_cases long : clusterSize fatPrivate.header < total
      · rw [piecesWithin_long long] at pieces
        obtain ⟨⟨start, ⟨low, high, clusterToUse, found, passed, place⟩, first⟩, rest⟩ := pieces
        have whole := Nat.min_eq_right (Nat.le_of_lt long)
        have moved := (still.onCluster (start + (clusterSize fatPrivate.header : Nat))).trans kept
        obtain ⟨volume, further, same⟩ := readable.moved moved
        rw [← piecesWithin_rewind moved same] at rest
        obtain ⟨after, reads, left, run, copies⟩ := (ih further (by omega) (by omega)
          (out + BitVec.ofNat 32 (clusterSize fatPrivate.header))
          (storeBytes bytes out (diskBytes disk.image start.toNat (clusterSize fatPrivate.header)))).mpr rest
        refine ⟨after, ⟨out, start, (clusterSize fatPrivate.header : Nat)⟩ :: reads, left, ?_,
          (copiesWithin_cons (Nat.le_of_lt long)).mpr ⟨first, copies⟩⟩
        rw [readable.loggedRead_step found passed]
        dsimp only
        rw [← place, whole, if_pos ⟨low, high⟩, if_pos long, bind_ok run]
        rfl
      · have short := Nat.not_lt.mp long
        rw [piecesWithin_short short some'] at pieces
        obtain ⟨start, ⟨low, high, clusterToUse, found, passed, place⟩, first⟩ := pieces
        have run : loggedReadInternalFromStream (fuel + 1) cluster offset total out bytes disk =
            (.ok (0, storeBytes bytes out (diskBytes disk.image start.toNat total), [⟨out, start, total⟩]),
              (fat16GetClusterForOffset cluster offset disk).2.onCluster (start + total)) := by
          rw [readable.loggedRead_step found passed]
          dsimp only
          rw [← place, Nat.min_eq_left short, if_pos ⟨low, high⟩, if_neg long]
          rfl
        exact ⟨_, _, _, run, copiesWithin_single.mpr first⟩

end Copies

def StreamRead.InCluster (fatPrivate : FatPrivate) (read : StreamRead) : Prop :=
  (read.pos - fatPrivate.rootDirectory.endingSectorPos * peachosSectorSize) %
    (clusterSize fatPrivate.header : Nat) + read.count ≤ (clusterSize fatPrivate.header : Nat)

section Reads
variable {disk left : Disk} {fatPrivate : FatPrivate} {cluster offset : Int} {total fuel : Nat} {out : Addr}
  {bytes after : Bytes} {reads : List StreamRead}

theorem diskBytes_copies (image : Image) (out : Addr) {start : Int} (low : 0 ≤ start) (count : Nat) :
    (StreamRead.copies ⟨out, start, count⟩).map (fun copy => image copy.2.toNat) =
      diskBytes image start.toNat count := by
  unfold StreamRead.copies diskBytes
  apply List.ext_getElem
  · simp
  · intro i _ _
    simp only [List.getElem_map, List.getElem_range, List.getElem_ofFn]
    congr 1
    omega

theorem Readable.loggedRead_stored (readable : Readable disk fatPrivate)
    (run : loggedReadInternalFromStream fuel cluster offset total out bytes disk =
      (.ok (0, after, reads), left)) :
    after = storeBytes bytes out ((reads.flatMap StreamRead.copies).map
        (fun copy => disk.image copy.2.toNat)) ∧ left.rewind = disk.rewind := by
  induction fuel generalizing offset total out bytes reads disk fatPrivate with
  | zero => cases run
  | succ fuel ih =>
    obtain ⟨start, ⟨low, _⟩, ends⟩ := readable.loggedRead_ok run
    rcases ends with ⟨short, rfl, rfl, moved⟩ | ⟨long, middle, rest, moved, rfl, further⟩
    · rw [List.flatMap_cons, List.flatMap_nil, List.append_nil, diskBytes_copies _ _ low]
      exact ⟨rfl, moved⟩
    · obtain ⟨volume, still, same⟩ := readable.moved moved
      obtain ⟨stored, ended⟩ := ih still further
      have image : middle.rewind.image = disk.rewind.image := congrArg Disk.image moved
      rw [stored, List.flatMap_cons, List.map_append, diskBytes_copies _ _ low, storeBytes_append,
        diskBytes_length]
      exact ⟨congrArg (storeBytes _ _) (congrArg (fun image : Image => List.map (fun copy : Addr × Int =>
        image copy.2.toNat) _) image), ended.trans moved⟩

/-- Every read of the stream starts at the same place in its cluster, and the first one asks
for a cluster's size unless there is less to read. -/
theorem Readable.loggedRead_spans (readable : Readable disk fatPrivate)
    (run : loggedReadInternalFromStream fuel cluster offset total out bytes disk =
      (.ok (0, after, reads), left)) :
    (∀ read ∈ reads,
      (read.pos - fatPrivate.rootDirectory.endingSectorPos * peachosSectorSize) %
        (clusterSize fatPrivate.header : Nat) = offset % (clusterSize fatPrivate.header : Nat) ∧
      read.count ≤ (min total (clusterSize fatPrivate.header) : Nat)) ∧
    ∃ read ∈ reads, read.count = (min total (clusterSize fatPrivate.header) : Nat) := by
  induction fuel generalizing offset total out bytes reads disk fatPrivate with
  | zero => cases run
  | succ fuel ih =>
    obtain ⟨start, ⟨_, _, clusterToUse, _, _, place⟩, ends⟩ := readable.loggedRead_ok run
    have span : (start - fatPrivate.rootDirectory.endingSectorPos * peachosSectorSize) %
        (clusterSize fatPrivate.header : Nat) = offset % (clusterSize fatPrivate.header : Nat) := by
      have ahead : start - fatPrivate.rootDirectory.endingSectorPos * peachosSectorSize =
          offset.tmod (clusterSize fatPrivate.header : Nat) +
            (clusterToUse - 2) * (clusterSize fatPrivate.header : Nat) := by
        rw [place]
        unfold clusterStart fat16ClusterToSector clusterSize
        push_cast
        ring
      rw [ahead, Int.add_mul_emod_self_right, Int.tmod_def, Int.sub_mul_emod_self_left]
    rcases ends with ⟨short, rfl, _, _⟩ | ⟨long, middle, rest, moved, rfl, further⟩
    · rw [Nat.min_eq_left short]
      exact ⟨fun read member => by rw [List.mem_singleton.mp member]; exact ⟨span, le_rfl⟩,
        _, List.mem_singleton_self _, rfl⟩
    · obtain ⟨volume, still, same⟩ := readable.moved moved
      obtain ⟨spans, _⟩ := ih still further
      have root : volume.rewind.rootDirectory = fatPrivate.rewind.rootDirectory :=
        congrArg FatPrivate.rootDirectory same
      have ending : volume.rootDirectory.endingSectorPos = fatPrivate.rootDirectory.endingSectorPos :=
        congrArg FatDirectory.endingSectorPos root
      rw [header_rewind same, ending, Int.add_emod_right] at spans
      rw [Nat.min_eq_right (Nat.le_of_lt long)]
      refine ⟨?_, _, List.mem_cons_self, rfl⟩
      intro read member
      cases List.mem_cons.mp member with
      | inl first =>
        rw [first]
        exact ⟨span, le_rfl⟩
      | inr later =>
        obtain ⟨inside, count⟩ := spans read later
        exact ⟨inside, by omega⟩

theorem CopiesWithin.addresses {allowed : Nat → Int → Prop} (copies : CopiesWithin out total allowed reads) :
    (reads.flatMap StreamRead.copies).map Prod.fst =
      (List.range total).map (fun k => out + BitVec.ofNat 32 k) := by
  obtain ⟨length, places⟩ := copies
  apply List.ext_getElem?
  intro k
  by_cases bound : k < total
  · obtain ⟨place, here, _⟩ := places k bound
    rw [List.getElem?_map, List.getElem?_map, here, List.getElem?_range bound]
    rfl
  · rw [List.getElem?_eq_none (by rw [List.length_map]; omega), List.getElem?_eq_none (by simp; omega)]

theorem CopiesWithin.content {allowed : Nat → Int → Prop} (copies : CopiesWithin out total allowed reads)
    (short : total < 2 ^ 32) (image : Image)
    (stored : after = storeBytes bytes out ((reads.flatMap StreamRead.copies).map
      (fun copy => image copy.2.toNat))) :
    (∀ k < total, ∃ place, allowed k place ∧ after (out + BitVec.ofNat 32 k) = image place.toNat) ∧
    ∀ address, total ≤ (address - out).toNat → after address = bytes address := by
  obtain ⟨length, places⟩ := copies
  generalize reads.flatMap StreamRead.copies = made at length places stored
  constructor
  · intro k bound
    obtain ⟨place, here, within⟩ := places k bound
    refine ⟨place, within, ?_⟩
    rw [stored, storeBytes_inside _ _ _ (by simp; omega) (by simp; omega), List.getD_eq_getElem?_getD,
      List.getElem?_map, here]
    rfl
  · intro address outside
    rw [stored]
    apply storeBytes_outside
    · rw [List.length_map, length]
      exact short
    · rw [List.length_map, length]
      exact outside

end Reads

section Deliver
variable {disk : Disk} {fatPrivate : FatPrivate} {cluster : Int} {offset total : Nat}

/-- The read puts out the bytes of the clusters that `clusters` has for the parts of the file,
and none of its reads of the stream goes over the end of a cluster. -/
def DeliversClusters (disk : Disk) (fatPrivate : FatPrivate) (clusters : Nat → Int) (cluster : Int)
    (offset total : Nat) (out : Addr) (bytes : Bytes) : Prop :=
  ∃ after reads left,
    fat16ReadInternal cluster offset total out bytes disk = (.ok (0, after), left) ∧
    loggedReadInternal cluster offset total out bytes disk = (.ok (0, after, reads), left) ∧
    (∀ j < total, after (out + BitVec.ofNat 32 j) = disk.image
      (clusterStart fatPrivate (clusters ((offset + j) / clusterSize fatPrivate.header)) +
        ((offset + j) % clusterSize fatPrivate.header : Nat)).toNat) ∧
    (∀ address, total ≤ (address - out).toNat → after address = bytes address) ∧
    ∀ read ∈ reads, read.InCluster fatPrivate

theorem unlogged_readInternal {startingCluster offset total res : Int} {out : Addr} {bytes after : Bytes}
    {reads : List StreamRead} {left : Disk}
    (run : loggedReadInternal startingCluster offset total out bytes disk = (.ok (res, after, reads), left)) :
    fat16ReadInternal startingCluster offset total out bytes disk = (.ok (res, after), left) := by
  unfold fat16ReadInternal
  rw [← unlogged_readInternalFromStream]
  exact congrArg unlogged run

/-- A request that starts with a cluster, or ends in the cluster where it starts, is read in
pieces that do not go over the end of a cluster. -/
theorem piecesWithin_of_places {clusters : Nat → Int} (positive : 0 < clusterSize fatPrivate.header)
    (answers : ∀ j < total, (fat16GetClusterForOffset cluster ((offset + j : Nat) : Int) disk).1 =
      .ok (clusters ((offset + j) / clusterSize fatPrivate.header)) ∧
        0 ≤ clusters ((offset + j) / clusterSize fatPrivate.header))
    (places : ∀ j < total,
      0 ≤ clusterStart fatPrivate (clusters ((offset + j) / clusterSize fatPrivate.header)) +
        ((offset + j) % clusterSize fatPrivate.header : Nat) ∧
      clusterStart fatPrivate (clusters ((offset + j) / clusterSize fatPrivate.header)) +
        ((offset + j) % clusterSize fatPrivate.header : Nat) + 1 < 2 ^ 31)
    (inside : offset % clusterSize fatPrivate.header = 0 ∨
      offset % clusterSize fatPrivate.header + total ≤ clusterSize fatPrivate.header) :
    PiecesWithin disk fatPrivate cluster offset total (fun k place =>
      place = clusterStart fatPrivate (clusters ((offset + k) / clusterSize fatPrivate.header)) +
        ((offset + k) % clusterSize fatPrivate.header : Nat)) := by
  intro m bound
  unfold PieceAt
  generalize clusterSize fatPrivate.header = size at *
  have same : (offset + m * size) % size = offset % size := Nat.add_mul_mod_self_right offset m size
  have ends : (offset + m * size) % size + min (total - m * size) size ≤ size := by
    rw [same]
    rcases inside with aligned | short
    · omega
    · cases m with
      | zero => omega
      | succ m =>
        rw [Nat.succ_mul] at bound
        omega
  have within : ∀ i < min (total - m * size) size, (offset + (m * size + i)) / size = (offset + m * size) / size ∧
      (offset + (m * size + i)) % size = (offset + m * size) % size + i := by
    intro i small
    have rest : i % size = i := Nat.mod_eq_of_lt (by omega)
    have none' : i / size = 0 := Nat.div_eq_of_lt (by omega)
    have noCarry : (offset + m * size) % size + i % size < size := by
      rw [rest]
      omega
    rw [← Nat.add_assoc, Nat.add_div_eq_of_add_mod_lt noCarry, Nat.add_mod_of_add_mod_lt noCarry, rest, none']
    exact ⟨rfl, rfl⟩
  have first := places (m * size) bound
  obtain ⟨found, passed⟩ := answers (m * size) bound
  have last := places (m * size + (min (total - m * size) size - 1)) (by omega)
  obtain ⟨lastCluster, lastPlace⟩ := within (min (total - m * size) size - 1) (by omega)
  rw [lastCluster, lastPlace] at last
  rw [← Int.natCast_add, ← Int.ofNat_tmod]
  refine ⟨_, ⟨first.1, by omega, _, found, passed, rfl⟩, ?_⟩
  intro i small
  obtain ⟨sameCluster, place⟩ := within i small
  rw [sameCluster, place, Int.natCast_add, Int.add_assoc]

/-- The read delivers what the clusters have if and only if the request starts with a cluster
or ends in the one where it starts: a piece has a cluster's size wherever it starts. -/
theorem fat16ReadInternal_delivers (readable : Readable disk fatPrivate) {clusters : Nat → Int}
    (some' : 1 ≤ total) (low : offset + total < 2 ^ 31)
    (answers : ∀ j < total, (fat16GetClusterForOffset cluster ((offset + j : Nat) : Int) disk).1 =
      .ok (clusters ((offset + j) / clusterSize fatPrivate.header)) ∧
        0 ≤ clusters ((offset + j) / clusterSize fatPrivate.header))
    (places : ∀ j < total,
      0 ≤ clusterStart fatPrivate (clusters ((offset + j) / clusterSize fatPrivate.header)) +
        ((offset + j) % clusterSize fatPrivate.header : Nat) ∧
      clusterStart fatPrivate (clusters ((offset + j) / clusterSize fatPrivate.header)) +
        ((offset + j) % clusterSize fatPrivate.header : Nat) + 1 < 2 ^ 31)
    (out : Addr) (bytes : Bytes) :
    DeliversClusters disk fatPrivate clusters cluster offset total out bytes ↔
      offset % clusterSize fatPrivate.header = 0 ∨
        offset % clusterSize fatPrivate.header + total ≤ clusterSize fatPrivate.header := by
  have positive := readable.size_pos
  constructor
  · rintro ⟨after, reads, left, _, run, _, _, inside⟩
    obtain ⟨spans, read, member, whole⟩ := readable.loggedRead_spans run
    have ends := inside read member
    unfold StreamRead.InCluster at ends
    rw [(spans read member).1, whole] at ends
    omega
  · intro inside
    have pieces := piecesWithin_of_places positive answers places inside
    obtain ⟨after, reads, left, run, copies⟩ :=
      (readable.loggedRead_within (Nat.lt_succ_self total) some' out bytes).mpr pieces
    have logged : loggedReadInternal cluster offset total out bytes disk = (.ok (0, after, reads), left) := run
    obtain ⟨stored, _⟩ := readable.loggedRead_stored run
    obtain ⟨content, outside⟩ := copies.content (by omega) disk.image stored
    refine ⟨after, reads, left, unlogged_readInternal logged, logged, ?_, outside, ?_⟩
    · intro j bound
      obtain ⟨place, rfl, byte⟩ := content j bound
      exact byte
    · intro read member
      obtain ⟨span, count⟩ := (readable.loggedRead_spans run).1 read member
      unfold StreamRead.InCluster
      rw [span]
      omega

end Deliver

/-- A file in clusters 2 and 4. -/
def chainClusters (index : Nat) : Int := if index = 0 then 2 else 4

theorem chainDisk_readable (entry : Nat) : Readable (chainDisk entry) chainPrivate :=
  ⟨rfl, rfl, by decide, 0, rfl⟩

theorem chainDisk_lookups : ∀ j < 2, (fat16GetClusterForOffset 2 ((511 + j : Nat) : Int) (chainDisk 4)).1 =
    .ok (chainClusters ((511 + j) / 512)) ∧ 0 ≤ chainClusters ((511 + j) / 512) := by
  decide +kernel

theorem chainDisk_places : ∀ j < 2,
    0 ≤ clusterStart chainPrivate (chainClusters ((511 + j) / 512)) + ((511 + j) % 512 : Nat) ∧
      clusterStart chainPrivate (chainClusters ((511 + j) / 512)) + ((511 + j) % 512 : Nat) + 1 < 2 ^ 31 := by
  decide

/-- The whole first cluster is read, and the first byte of the second one. -/
theorem fat16ReadInternal_delivers_chain :
    DeliversClusters (chainDisk 4) chainPrivate chainClusters 2 0 513 0x900000 (fun _ => 0) :=
  (fat16ReadInternal_delivers (chainDisk_readable 4) (by decide) (by decide) (by decide +kernel) (by decide +kernel)
    0x900000 (fun _ => 0)).mpr (Or.inl (by decide))

/-- The second byte is read behind the first cluster, not in the second one. -/
theorem fat16ReadInternal_crosses : ∃ disk fatPrivate, Readable disk fatPrivate ∧
    clusterSize fatPrivate.header = 512 ∧
    (∀ j < 2, (fat16GetClusterForOffset 2 ((511 + j : Nat) : Int) disk).1 =
      .ok (chainClusters ((511 + j) / 512)) ∧ 0 ≤ chainClusters ((511 + j) / 512)) ∧
    (∀ j < 2, 0 ≤ clusterStart fatPrivate (chainClusters ((511 + j) / 512)) + ((511 + j) % 512 : Nat) ∧
      clusterStart fatPrivate (chainClusters ((511 + j) / 512)) + ((511 + j) % 512 : Nat) + 1 < 2 ^ 31) ∧
    (∃ after left, fat16ReadInternal 2 511 2 0x900000 (fun _ => 0) disk = (.ok (0, after), left) ∧
      after 0x900001 ≠ disk.image (clusterStart fatPrivate 4).toNat) ∧
    ¬DeliversClusters disk fatPrivate chainClusters 2 511 2 0x900000 (fun _ => 0) := by
  have result : (match fat16ReadInternal 2 511 2 0x900000 (fun _ => 0) (chainDisk 4) with
      | (.ok (res, after), _) => (res, after 0x900001)
      | (.error _, _) => (1, 0)) = ((0, 4) : Int × Byte) := by decide +kernel
  have other : (chainDisk 4).image (clusterStart chainPrivate 4).toNat = 0 := by decide +kernel
  generalize run : fat16ReadInternal 2 511 2 0x900000 (fun _ => 0) (chainDisk 4) = outcome at result
  obtain ⟨_ | ⟨res, after⟩, left⟩ := outcome
  · cases result
  have stored : after 0x900001 = 4 := congrArg Prod.snd result
  obtain rfl : res = 0 := congrArg Prod.fst result
  refine ⟨chainDisk 4, chainPrivate, chainDisk_readable 4, rfl, chainDisk_lookups, chainDisk_places,
    ⟨after, left, run, by rw [stored, other]; decide⟩, ?_⟩
  rintro ⟨after', reads, left', again, _, content, _⟩
  cases run.symm.trans again
  have second := content 1 (by decide)
  have place : (0x900000 : Addr) + BitVec.ofNat 32 1 = 0x900001 := by decide
  rw [place, stored] at second
  exact absurd (second.trans other) (by decide)

end PeachOS
