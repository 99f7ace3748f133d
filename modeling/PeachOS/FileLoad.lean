import PeachOS.ClusterReads
import PeachOS.FileStream

/-! The `fread` that loads the whole of a file that was just opened. The clusters of the file
are those that the driver looks up. -/

namespace PeachOS
open Program ByteMemory

def clusterData (image : Image) (fatPrivate : FatPrivate) (clusters : Nat → Int) (count : Nat) : List Byte :=
  (List.range count).flatMap (fun i =>
    diskBytes image (clusterStart fatPrivate (clusters i)).toNat (clusterSize fatPrivate.header))

theorem flatMap_range_getElem? {α : Type} {block : Nat → List α} {size : Nat}
    (uniform : ∀ i, (block i).length = size) {count j : Nat} (bound : j < count * size) :
    ((List.range count).flatMap block)[j]? = (block (j / size))[j % size]? := by
  have length : ∀ n, ((List.range n).flatMap block).length = n * size := by
    intro n
    rw [List.length_flatMap]
    simp [uniform]
  induction count with
  | zero => omega
  | succ count ih =>
    rw [List.range_succ, List.flatMap_append, List.flatMap_cons, List.flatMap_nil, List.append_nil]
    by_cases earlier : j < count * size
    · rw [List.getElem?_append_left (by rw [length]; exact earlier), ih earlier]
    · rw [Nat.succ_mul] at bound
      have split : j = j - count * size + count * size := by omega
      have last : j / size = count := by
        rw [split, Nat.add_mul_div_right _ _ (by omega), Nat.div_eq_of_lt (by omega), Nat.zero_add]
      have inside : j % size = j - count * size := by
        rw [split, Nat.add_mul_mod_self_right, Nat.mod_eq_of_lt (by omega)]
        omega
      rw [List.getElem?_append_right (by rw [length]; omega), length, last, inside]

section Load
variable {disk : Disk} {fatPrivate : FatPrivate} {cluster : Int} {clusters : Nat → Int}
  {offset total : Nat} {image : Image}

theorem clusterData_getElem? {count j : Nat} (bound : j < count * clusterSize fatPrivate.header) :
    (clusterData image fatPrivate clusters count)[j]? =
      some (image ((clusterStart fatPrivate (clusters (j / clusterSize fatPrivate.header))).toNat +
        j % clusterSize fatPrivate.header)) := by
  have positive : 0 < clusterSize fatPrivate.header := by
    by_contra none'
    rw [Nat.eq_zero_of_not_pos none', Nat.mul_zero] at bound
    omega
  unfold clusterData
  rw [flatMap_range_getElem? (fun i => diskBytes_length _ _ _) bound, diskBytes, List.getElem?_ofFn,
    dif_pos (Nat.mod_lt j positive)]

theorem Readable.lookup_index (readable : Readable disk fatPrivate) (offset : Nat) :
    fat16GetClusterForOffset cluster offset disk = fat16GetClusterForOffset cluster
      ((offset / clusterSize fatPrivate.header * clusterSize fatPrivate.header : Nat) : Int) disk := by
  have positive := readable.size_pos
  have size : 0 < sizeOfClusterBytes disk fatPrivate := by
    rw [readable.size]
    exact_mod_cast positive
  rw [fat16GetClusterForOffset_loop cluster readable.mounted size (Int.natCast_nonneg _),
    fat16GetClusterForOffset_loop cluster readable.mounted size (Int.natCast_nonneg _), readable.size,
    ← Int.natCast_div, ← Int.natCast_div, Nat.mul_div_cancel _ positive]

theorem Readable.loggedRead_fails (readable : Readable disk fatPrivate) {failing fuel : Nat}
    (enough : total < fuel) (aligned : offset % clusterSize fatPrivate.header = 0)
    (short : failing * clusterSize fatPrivate.header < total)
    (answers : ∀ m ≤ failing, (fat16GetClusterForOffset cluster
      ((offset + m * clusterSize fatPrivate.header : Nat) : Int) disk).1 = .ok (clusters m))
    (passed : ∀ m < failing, 0 ≤ clusters m ∧ 0 ≤ clusterStart fatPrivate (clusters m) ∧
      clusterStart fatPrivate (clusters m) + (clusterSize fatPrivate.header : Nat) < 2 ^ 31)
    (failed : clusters failing < 0) (out : Addr) (bytes : Bytes) :
    ∃ after reads left, loggedReadInternalFromStream fuel cluster offset total out bytes disk =
      (.ok (clusters failing, after, reads), left) := by
  induction failing generalizing fuel offset total out bytes disk fatPrivate clusters with
  | zero =>
    obtain ⟨fuel, rfl⟩ : ∃ less, fuel = less + 1 := ⟨fuel - 1, by omega⟩
    have found := answers 0 le_rfl
    rw [Nat.zero_mul, Nat.add_zero] at found
    exact ⟨_, _, _, readable.loggedRead_failed found failed fuel total out bytes⟩
  | succ failing ih =>
    obtain ⟨fuel, rfl⟩ : ∃ less, fuel = less + 1 := ⟨fuel - 1, by omega⟩
    have positive := readable.size_pos
    have found := answers 0 (Nat.zero_le _)
    rw [Nat.zero_mul, Nat.add_zero] at found
    obtain ⟨nonneg, low, high⟩ := passed 0 (Nat.succ_pos failing)
    have kept := ((Unmoved.fat16GetClusterForOffset cluster offset) disk).2
    obtain ⟨_, still, _⟩ := readable.moved kept
    have moved := (still.onCluster (clusterStart fatPrivate (clusters 0) +
      (clusterSize fatPrivate.header : Nat))).trans kept
    obtain ⟨volume, further, same⟩ := readable.moved moved
    rw [Nat.succ_mul] at short
    have long : clusterSize fatPrivate.header < total := by omega
    obtain ⟨after, reads, left, run⟩ := @ih _ volume (fun m => clusters (m + 1))
      (offset + clusterSize fatPrivate.header) (total - clusterSize fatPrivate.header) further fuel (by omega)
      (by rw [header_rewind same, Nat.add_mod_right]; exact aligned)
      (by rw [header_rewind same]; omega)
      (by
        intro m bound
        rw [header_rewind same, (Unmoved.fat16GetClusterForOffset _ _).same moved]
        have next := answers (m + 1) (Nat.succ_le_succ bound)
        rwa [Nat.succ_mul, Nat.add_comm (m * _), ← Nat.add_assoc] at next)
      (by
        intro m bound
        rw [header_rewind same, clusterStart_rewind same]
        exact passed (m + 1) (Nat.succ_lt_succ bound))
      failed (out + BitVec.ofNat 32 (clusterSize fatPrivate.header))
      (storeBytes bytes out (diskBytes disk.image (clusterStart fatPrivate (clusters 0)).toNat
        (clusterSize fatPrivate.header)))
    have whole : loggedReadInternalFromStream (fuel + 1) cluster offset total out bytes disk =
        (.ok (clusters (failing + 1), after,
          ⟨out, clusterStart fatPrivate (clusters 0), (clusterSize fatPrivate.header : Nat)⟩ :: reads), left) := by
      rw [readable.loggedRead_step found nonneg]
      dsimp only
      rw [← Int.ofNat_tmod, aligned, Int.natCast_zero, Int.add_zero, Nat.min_eq_right (Nat.le_of_lt long),
        if_pos ⟨low, high⟩, if_pos long, ← Int.natCast_add, bind_ok run]
      rfl
    exact ⟨after, _, left, whole⟩

/-- The buffer holds the first `total` bytes of the file. Nothing else was stored, and each
byte of the buffer once. -/
structure LoadsFile (disk : Disk) (fatPrivate : FatPrivate) (clusters : Nat → Int) (cluster : Int)
    (total : Nat) (out : Addr) (before after : Bytes) : Prop where
  found : ∀ i, i * clusterSize fatPrivate.header < total → 0 ≤ clusters i
  content : ∀ count, total ≤ count * clusterSize fatPrivate.header →
    loadBytes after out total = (clusterData disk.image fatPrivate clusters count).take total
  outside : ∀ address, total ≤ (address - out).toNat → after address = before address
  once : ∃ reads left, loggedReadInternal cluster 0 total out before disk = (.ok (0, after, reads), left) ∧
    (reads.flatMap StreamRead.copies).map Prod.fst =
      (List.range total).map (fun j => out + BitVec.ofNat 32 j)

/-- The positions of the clusters' bytes, as far as the file goes, are those of a stream. -/
def PlacesLow (fatPrivate : FatPrivate) (clusters : Nat → Int) (total : Nat) : Prop :=
  ∀ j < total, 0 ≤ clusters (j / clusterSize fatPrivate.header) →
    0 ≤ clusterStart fatPrivate (clusters (j / clusterSize fatPrivate.header)) +
        (j % clusterSize fatPrivate.header : Nat) ∧
      clusterStart fatPrivate (clusters (j / clusterSize fatPrivate.header)) +
        (j % clusterSize fatPrivate.header : Nat) + 1 < 2 ^ 31

/-- The read of a whole file loads it, or returns what the first failing lookup returned. -/
theorem Readable.loadsFile (readable : Readable disk fatPrivate) (some' : 1 ≤ total)
    (low : total < 2 ^ 31)
    (answers : ∀ i, i * clusterSize fatPrivate.header < total →
      (fat16GetClusterForOffset cluster ((i * clusterSize fatPrivate.header : Nat) : Int) disk).1 =
        .ok (clusters i))
    (places : PlacesLow fatPrivate clusters total) (out : Addr) (bytes : Bytes) :
    ∃ res after left, fat16ReadInternal cluster 0 total out bytes disk = (.ok (res, after), left) ∧
      (res = 0 ∧ LoadsFile disk fatPrivate clusters cluster total out bytes after ∨
        ∃ i, i * clusterSize fatPrivate.header < total ∧ (∀ j < i, 0 ≤ clusters j) ∧
          clusters i < 0 ∧ res = clusters i) := by
  have positive := readable.size_pos
  have bounded : ∀ j < total, j / clusterSize fatPrivate.header * clusterSize fatPrivate.header < total :=
    fun j bound => (Nat.div_mul_le_self j _).trans_lt bound
  by_cases failing : ∃ i, i * clusterSize fatPrivate.header < total ∧ clusters i < 0
  · obtain ⟨short, failed⟩ := Nat.find_spec failing
    have earlier : ∀ j < Nat.find failing, 0 ≤ clusters j := by
      intro j before
      by_contra negative
      have bound : j * clusterSize fatPrivate.header < total :=
        (Nat.mul_le_mul_right _ (Nat.le_of_lt before)).trans_lt short
      exact Nat.find_min failing before ⟨bound, not_le.mp negative⟩
    generalize Nat.find failing = first at short failed earlier
    obtain ⟨after, reads, left, run⟩ := readable.loggedRead_fails (Nat.lt_succ_self total)
      (Nat.zero_mod _ : 0 % clusterSize fatPrivate.header = 0) short
      (by
        intro m bound
        rw [Nat.zero_add]
        exact answers m ((Nat.mul_le_mul_right _ bound).trans_lt short))
      (by
        intro m bound
        have next := Nat.mul_le_mul_right (clusterSize fatPrivate.header) (Nat.succ_le_of_lt bound)
        rw [Nat.succ_mul] at next
        have start := places (m * clusterSize fatPrivate.header) (by omega)
        have last := places (m * clusterSize fatPrivate.header + (clusterSize fatPrivate.header - 1)) (by omega)
        rw [Nat.mul_div_cancel _ positive, Nat.mul_mod_left] at start
        rw [Nat.add_comm, Nat.add_mul_div_right _ _ positive, Nat.add_mul_mod_self_right,
          Nat.div_eq_of_lt (by omega), Nat.mod_eq_of_lt (by omega), Nat.zero_add] at last
        have nonneg := earlier m bound
        exact ⟨nonneg, by omega, by omega⟩)
      failed out bytes
    have logged : loggedReadInternal cluster 0 total out bytes disk = (.ok (clusters first, after, reads), left) := run
    exact ⟨_, after, left, unlogged_readInternal logged, Or.inr ⟨first, short, earlier, failed, rfl⟩⟩
  · have found : ∀ i, i * clusterSize fatPrivate.header < total → 0 ≤ clusters i := by
      intro i bound
      by_contra negative
      exact failing ⟨i, bound, not_le.mp negative⟩
    have lookups : ∀ j < total, (fat16GetClusterForOffset cluster ((0 + j : Nat) : Int) disk).1 =
        .ok (clusters ((0 + j) / clusterSize fatPrivate.header)) ∧
          0 ≤ clusters ((0 + j) / clusterSize fatPrivate.header) := by
      intro j bound
      rw [Nat.zero_add, readable.lookup_index]
      exact ⟨answers _ (bounded j bound), found _ (bounded j bound)⟩
    have pieces := piecesWithin_of_places positive lookups
      (by
        intro j bound
        rw [Nat.zero_add]
        exact places j bound (found _ (bounded j bound)))
      (Or.inl (Nat.zero_mod _))
    obtain ⟨after, reads, left, run, copies⟩ :=
      (readable.loggedRead_within (Nat.lt_succ_self total) some' out bytes).mpr pieces
    obtain ⟨stored, _⟩ := readable.loggedRead_stored run
    obtain ⟨content, outside⟩ := copies.content (by omega) disk.image stored
    have logged : loggedReadInternal cluster 0 total out bytes disk = (.ok (0, after, reads), left) := run
    refine ⟨0, after, left, unlogged_readInternal logged, Or.inl ⟨rfl, found, ?_, outside, reads, left, logged, ?_⟩⟩
    · intro count enough
      apply List.ext_getElem?
      intro j
      by_cases bound : j < total
      · obtain ⟨place, rfl, byte⟩ := content j bound
        have start := places (j / clusterSize fatPrivate.header * clusterSize fatPrivate.header)
          (bounded j bound)
        rw [Nat.mul_div_cancel _ positive, Nat.mul_mod_left] at start
        have nonneg := (start (found _ (bounded j bound))).1
        rw [Nat.zero_add] at byte
        rw [loadBytes_map, List.getElem?_map, List.getElem?_range bound, Option.map_some, byte,
          List.getElem?_take_of_lt bound, clusterData_getElem? (bound.trans_le enough)]
        congr 2
        omega
      · rw [loadBytes_map, List.getElem?_eq_none (by simp; omega), List.getElem?_eq_none (by simp; omega)]
    · exact copies.addresses

end Load

/-- The `fread` of a whole file that was just opened. It returns 1 with the data of the
clusters that the driver looks up, or what the first lookup that fails returns. -/
theorem fread_loads {kernel : Kernel} {fd : Int} {privateData : Addr} {item : FatDirectoryItem}
    {fatPrivate : FatPrivate} {clusters : Nat → Int} (file : StreamFile kernel fd privateData item 0)
    (readable : Readable kernel.disk fatPrivate) (some' : 1 ≤ item.filesize.toNat)
    (low : item.filesize.toNat < 2 ^ 31)
    (answers : ∀ i, i * clusterSize fatPrivate.header < item.filesize.toNat →
      (fat16GetClusterForOffset (fat16GetFirstCluster item).toInt
        ((i * clusterSize fatPrivate.header : Nat) : Int) kernel.disk).1 = .ok (clusters i))
    (places : PlacesLow fatPrivate clusters item.filesize.toNat) (buf : Addr) :
    ∃ res after, fread buf item.filesize 1 fd kernel = (.ok res, after) ∧
      (res = 1 ∧ LoadsFile kernel.disk fatPrivate clusters (fat16GetFirstCluster item).toInt
          item.filesize.toNat buf kernel.memory.bytes after.memory.bytes ∨
        ∃ i, i * clusterSize fatPrivate.header < item.filesize.toNat ∧ (∀ j < i, 0 ≤ clusters j) ∧
          clusters i < 0 ∧ res = clusters i) := by
  have something : ¬(item.filesize = 0 ∨ (1 : Word) = 0) := by
    rintro (zero | zero)
    · rw [zero] at some'
      exact absurd some' (by decide)
    · exact absurd zero (by decide)
  obtain ⟨res, after, left, run, ends⟩ :=
    readable.loadsFile some' low answers places buf kernel.memory.bytes
  have size : item.filesize.toInt = (item.filesize.toNat : Int) := BitVec.toInt_eq_toNat_of_lt (by omega)
  have first : fat16ReadInternal (fat16GetFirstCluster item).toInt (0 : Word).toInt item.filesize.toInt
      buf kernel.memory.bytes kernel.disk = (.ok (res, after), left) := by
    rw [size]
    exact run
  have loop : fat16ReadLoop item item.filesize 1 0 buf kernel.memory.bytes kernel.disk =
      (.ok (if res < 0 then res else 0, after), left) := by
    rw [fat16ReadLoop, bind_ok first]
    dsimp only
    split
    · rfl
    · rfl
  have read : fat16Read item 0 item.filesize 1 buf kernel.memory.bytes kernel.disk =
      (.ok (if res < 0 then res else 1, after), left) := by
    unfold fat16Read
    have once : (1 : Word).toNat = 1 := rfl
    rw [once, bind_ok loop]
    dsimp only
    by_cases failed : res < 0
    · simp only [if_pos failed]
      rfl
    · simp only [if_neg failed]
      rfl
  have call : fread buf item.filesize 1 fd kernel = _ :=
    (file.fread_eq buf something).trans (file.fat16Read_eq buf item.filesize 1)
  rw [read] at call
  refine ⟨_, _, call, ?_⟩
  rcases ends with ⟨rfl, loads⟩ | ⟨i, short, earlier, failed, rfl⟩
  · exact Or.inl ⟨if_neg (by decide), loads⟩
  · exact Or.inr ⟨i, short, earlier, failed, if_pos failed⟩

def singlePrivate : FatPrivate :=
  ⟨⟨1, 1, 1, 16, 1, 0x29⟩, ⟨heapAddress, 1, 2, 3⟩, some ⟨0, 0⟩, some ⟨0, 0⟩, some ⟨0, 0⟩⟩

theorem singleDisk_readable : Readable singleDisk singlePrivate := ⟨rfl, rfl, by decide, 0, rfl⟩

theorem fread_loads_single : ∃ privateData opened after,
    fopen [0x30, 0x3A, slash, 0x61] [0x72] singleKernel = (.ok 1, opened) ∧
      StreamFile opened 1 privateData singleFile 0 ∧ fread 0x900000 5 1 1 opened = (.ok 1, after) ∧
      LoadsFile singleDisk singlePrivate (fun _ => 2) 2 5 0x900000 opened.memory.bytes after.memory.bytes := by
  obtain ⟨privateData, opened, run, file, disk⟩ := singleFile_opened
  have readable : Readable opened.disk singlePrivate := disk ▸ singleDisk_readable
  have size : clusterSize singlePrivate.header = 512 := rfl
  have places : PlacesLow singlePrivate (fun _ => 2) singleFile.filesize.toNat := by
    unfold PlacesLow
    decide
  have answers : ∀ i, i * clusterSize singlePrivate.header < singleFile.filesize.toNat →
      (fat16GetClusterForOffset (fat16GetFirstCluster singleFile).toInt
        ((i * clusterSize singlePrivate.header : Nat) : Int) opened.disk).1 = .ok 2 := by
    intro i bound
    have five : singleFile.filesize.toNat = 5 := rfl
    rw [size, five] at bound
    obtain rfl : i = 0 := by omega
    rw [disk]
    rfl
  obtain ⟨res, after, load, ends⟩ :=
    fread_loads file readable (by decide) (by decide) answers places 0x900000
  rcases ends with ⟨rfl, loads⟩ | ⟨_, _, _, failed, _⟩
  · exact ⟨privateData, opened, after, run, file, load, disk ▸ loads⟩
  · exact absurd failed (by decide)

end PeachOS
