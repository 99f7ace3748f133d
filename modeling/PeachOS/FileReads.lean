import PeachOS.ChainBytes
import PeachOS.FileLoad

/-! What `fread` stores on an open file, at any position and for any number of items. The end of
the file is not looked at, and a piece of an item may go over the end of its cluster. -/

namespace PeachOS
open Program ByteMemory Search

/-- The loop of `fat16_read` with the reads of the stream that it makes. -/
def loggedReadLoop (item : FatDirectoryItem) (size : Word) : (remaining : Nat) → (offset : Word) →
    (out : Addr) → Bytes → Prog Disk Stop (Int × Bytes × List StreamRead)
  | 0, _, _, bytes => pure (0, bytes, [])
  | remaining + 1, offset, out, bytes => do
      let (res, bytes, reads) ← loggedReadInternal (fat16GetFirstCluster item).toInt offset.toInt size.toInt
        out bytes
      if res < 0 then pure (res, bytes, reads)
      else do
        let (res, bytes, more) ← loggedReadLoop item size remaining (offset + size) (out + size) bytes
        pure (res, bytes, reads ++ more)

theorem unlogged_readLoop (item : FatDirectoryItem) (size : Word) (remaining : Nat) (offset : Word)
    (out : Addr) (bytes : Bytes) (disk : Disk) :
    unlogged (loggedReadLoop item size remaining offset out bytes disk) =
      fat16ReadLoop item size remaining offset out bytes disk := by
  induction remaining generalizing offset out bytes disk with
  | zero => rfl
  | succ remaining ih =>
    unfold loggedReadLoop fat16ReadLoop fat16ReadInternal loggedReadInternal
    rw [bind_run, bind_run, ← unlogged_readInternalFromStream]
    generalize loggedReadInternalFromStream _ _ offset.toInt size.toInt out bytes disk = first
    obtain ⟨_ | ⟨res, after, reads⟩, left⟩ := first
    · rfl
    dsimp only [unlogged]
    by_cases failed : res < 0
    · rw [if_pos failed, if_pos failed]
      rfl
    · rw [if_neg failed, if_neg failed, ← ih, bind_run]
      generalize loggedReadLoop item size remaining _ _ _ left = rest
      obtain ⟨_ | ⟨_, _, _⟩, last⟩ := rest
      · rfl
      · rfl

section Items
variable {disk left : Disk} {fatPrivate : FatPrivate} {cluster offset : Int} {total : Nat} {out : Addr}
  {bytes after : Bytes} {reads : List StreamRead} {res : Int}

theorem Readable.loggedRead_zero (readable : Readable disk fatPrivate) {fuel : Nat}
    (run : loggedReadInternalFromStream fuel cluster offset total out bytes disk =
      (.ok (res, after, reads), left)) (passed : 0 ≤ res) : res = 0 := by
  induction fuel generalizing offset total out bytes reads disk fatPrivate with
  | zero => cases run
  | succ fuel ih =>
    obtain ⟨clusterToUse, found, entered⟩ := readable.loggedRead_found run passed
    rw [readable.loggedRead_step found entered] at run
    have kept := ((Unmoved.fat16GetClusterForOffset cluster offset) disk).2
    obtain ⟨_, still, _⟩ := readable.moved kept
    dsimp only at run
    split at run
    next low =>
      split at run
      next more =>
        obtain ⟨⟨first, stored, rest⟩, last, further, ended⟩ := bind_eq_ok run
        cases ended
        obtain ⟨volume, later, _⟩ := readable.moved ((still.onCluster _).trans kept)
        exact ih later further
      next last =>
        cases run
        rfl
    next => cases run

/-- A read that succeeds copies all the bytes that it was asked for, one after the other. -/
theorem Readable.loggedRead_copies (readable : Readable disk fatPrivate) {fuel : Nat}
    (run : loggedReadInternalFromStream fuel cluster offset total out bytes disk =
      (.ok (0, after, reads), left)) : CopiesWithin out total (fun _ _ => True) reads := by
  induction fuel generalizing offset total out bytes reads disk fatPrivate with
  | zero => cases run
  | succ fuel ih =>
    obtain ⟨start, _, ends⟩ := readable.loggedRead_ok run
    rcases ends with ⟨short, rfl, _, _⟩ | ⟨long, middle, rest, moved, rfl, further⟩
    · exact copiesWithin_single.mpr (fun _ _ => trivial)
    · obtain ⟨volume, still, _⟩ := readable.moved moved
      exact (copiesWithin_cons (Nat.le_of_lt long)).mpr ⟨fun _ _ => trivial, ih still further⟩

end Items

section Loop
variable {disk left : Disk} {fatPrivate : FatPrivate} {item : FatDirectoryItem} {size : Word}
  {remaining : Nat} {offset : Word} {out : Addr} {bytes after : Bytes} {reads : List StreamRead} {res : Int}

theorem Readable.loggedReadLoop_within (readable : Readable disk fatPrivate) (some' : 0 < size.toNat)
    (short : size.toNat < 2 ^ 31) (allowed : Int → Prop) (out : Addr) (bytes : Bytes) :
    (∃ res after reads left, loggedReadLoop item size remaining offset out bytes disk =
        (.ok (res, after, reads), left) ∧ 0 ≤ res ∧
        CopiesWithin out (remaining * size.toNat) (fun _ => allowed) reads) ↔
      ∀ i < remaining, PiecesWithin disk fatPrivate (fat16GetFirstCluster item).toInt
        (offset + BitVec.ofNat 32 i * size).toInt size.toNat (fun _ => allowed) := by
  have asked : size.toInt = (size.toNat : Int) := BitVec.toInt_eq_toNat_of_lt (by omega)
  induction remaining generalizing offset out bytes disk fatPrivate with
  | zero =>
    constructor
    · intro _ i impossible
      exact absurd impossible (Nat.not_lt_zero i)
    · intro _
      refine ⟨0, bytes, [], disk, rfl, le_rfl, (Nat.zero_mul _).symm, ?_⟩
      intro k impossible
      rw [Nat.zero_mul] at impossible
      exact absurd impossible (Nat.not_lt_zero k)
  | succ remaining ih =>
    have next : ∀ i, offset + BitVec.ofNat 32 (i + 1) * size = offset + size + BitVec.ofNat 32 i * size := by
      intro i
      rw [BitVec.ofNat_add]
      grind
    have first : offset + BitVec.ofNat 32 0 * size = offset := by
      simp
    have ahead : out + BitVec.ofNat 32 size.toNat = out + size := by
      simp
    have rest : (remaining + 1) * size.toNat - size.toNat = remaining * size.toNat := by
      rw [Nat.succ_mul, Nat.add_sub_cancel]
    have long : size.toNat ≤ (remaining + 1) * size.toNat := Nat.le_mul_of_pos_left _ (Nat.succ_pos _)
    constructor
    · rintro ⟨res, after, reads, left, run, passed, copies⟩
      obtain ⟨⟨res', stored, made⟩, middle, itemRun, run⟩ := bind_eq_ok run
      dsimp only at run
      rw [asked] at itemRun
      by_cases failed : res' < 0
      · rw [if_pos failed] at run
        cases run
        exact absurd failed (not_lt.mpr passed)
      · rw [if_neg failed] at run
        obtain ⟨⟨res'', last, more⟩, end', loop, run⟩ := bind_eq_ok run
        cases run
        obtain rfl : res' = 0 := readable.loggedRead_zero itemRun (not_lt.mp failed)
        obtain ⟨_, moved⟩ := readable.loggedRead_stored itemRun
        obtain ⟨volume, still, same⟩ := readable.moved moved
        rw [copiesWithin_append (readable.loggedRead_copies itemRun).1 long, ahead, rest] at copies
        have pieces := (readable.loggedRead_within (Nat.lt_succ_self size.toNat) some' out bytes).mp
          ⟨stored, made, middle, itemRun, copies.1⟩
        have others := (ih still _ _).mp ⟨_, _, _, _, loop, passed, copies.2⟩
        intro i bound
        cases i with
        | zero =>
          rw [first]
          exact pieces
        | succ i =>
          rw [next, ← piecesWithin_rewind moved same]
          exact others i (Nat.lt_of_succ_lt_succ bound)
    · intro pieces
      have here := pieces 0 (Nat.succ_pos _)
      rw [first] at here
      obtain ⟨stored, made, middle, itemRun, copies⟩ :=
        (readable.loggedRead_within (Nat.lt_succ_self size.toNat) some' out bytes).mpr here
      obtain ⟨_, moved⟩ := readable.loggedRead_stored itemRun
      obtain ⟨volume, still, same⟩ := readable.moved moved
      have later : ∀ i < remaining, PiecesWithin middle volume (fat16GetFirstCluster item).toInt
          (offset + size + BitVec.ofNat 32 i * size).toInt size.toNat (fun _ => allowed) := by
        intro i bound
        rw [piecesWithin_rewind moved same, ← next]
        exact pieces (i + 1) (Nat.succ_lt_succ bound)
      obtain ⟨res, after, reads, left, loop, passed, others⟩ := (ih still (out + size) stored).mpr later
      refine ⟨res, after, made ++ reads, left, ?_, passed, ?_⟩
      · have run : loggedReadInternal (fat16GetFirstCluster item).toInt offset.toInt size.toInt out bytes disk =
            (.ok (0, stored, made), middle) := by
          rw [asked]
          exact itemRun
        rw [loggedReadLoop, bind_ok run]
        dsimp only
        rw [if_neg (by decide), bind_ok loop]
        rfl
      · rw [copiesWithin_append (readable.loggedRead_copies itemRun).1 long, ahead, rest]
        exact ⟨copies, others⟩

theorem Readable.loggedReadLoop_copies (readable : Readable disk fatPrivate) (short : size.toNat < 2 ^ 31)
    (run : loggedReadLoop item size remaining offset out bytes disk = (.ok (res, after, reads), left))
    (passed : 0 ≤ res) : CopiesWithin out (remaining * size.toNat) (fun _ _ => True) reads := by
  have asked : size.toInt = (size.toNat : Int) := BitVec.toInt_eq_toNat_of_lt (by omega)
  induction remaining generalizing offset out bytes reads disk fatPrivate with
  | zero =>
    cases run
    refine ⟨(Nat.zero_mul _).symm, ?_⟩
    intro k impossible
    rw [Nat.zero_mul] at impossible
    exact absurd impossible (Nat.not_lt_zero k)
  | succ remaining ih =>
    obtain ⟨⟨res', stored, made⟩, middle, itemRun, run⟩ := bind_eq_ok run
    dsimp only at run
    rw [asked] at itemRun
    by_cases failed : res' < 0
    · rw [if_pos failed] at run
      cases run
      exact absurd failed (not_lt.mpr passed)
    · rw [if_neg failed] at run
      obtain ⟨⟨res'', last, more⟩, end', loop, run⟩ := bind_eq_ok run
      cases run
      obtain rfl : res' = 0 := readable.loggedRead_zero itemRun (not_lt.mp failed)
      obtain ⟨_, moved⟩ := readable.loggedRead_stored itemRun
      obtain ⟨volume, still, _⟩ := readable.moved moved
      have long : size.toNat ≤ (remaining + 1) * size.toNat := Nat.le_mul_of_pos_left _ (Nat.succ_pos _)
      have rest : (remaining + 1) * size.toNat - size.toNat = remaining * size.toNat := by
        rw [Nat.succ_mul, Nat.add_sub_cancel]
      have ahead : out + BitVec.ofNat 32 size.toNat = out + size := by
        simp
      rw [copiesWithin_append (readable.loggedRead_copies itemRun).1 long, ahead, rest]
      exact ⟨readable.loggedRead_copies itemRun, ih still loop⟩

end Loop

section Fread
variable {kernel : Kernel} {fd : Int} {privateData : Addr} {item : FatDirectoryItem} {pos size nmemb : Word}
  {image : Image} {header : FatHeader} {chain : List Nat}

theorem fat16GetFirstCluster_toInt (item : FatDirectoryItem) :
    (fat16GetFirstCluster item).toInt = (fat16GetFirstCluster item).toNat := by
  apply BitVec.toInt_eq_toNat_of_lt
  unfold fat16GetFirstCluster
  rw [BitVec.toNat_setWidth]
  omega

/-- An item cannot be read if and only if for one of the pieces it is cut into the words at the driver's products lead to
no cluster, or to a place outside the first 2^31 bytes. -/
theorem Volume.unreadable_iff {disk left : Disk} (volume : Volume disk image header) (some' : 0 < size.toNat)
    (short : size.toNat < 2 ^ 31) {remaining : Nat} {offset : Word} {out : Addr} {bytes after : Bytes} {res : Int}
    (run : fat16ReadLoop item size remaining offset out bytes disk = (.ok (res, after), left)) :
    Unreadable item size remaining offset out bytes disk ↔
      ∃ i < remaining, ∃ m, m * clusterSize header < size.toNat ∧ ∀ place,
        productPlace image header (fat16GetFirstCluster item).toNat
          ((offset + BitVec.ofNat 32 i * size).toInt + (m * clusterSize header : Nat)) = some place →
        place < 0 ∨ 2 ^ 31 ≤ place + (min (size.toNat - m * clusterSize header) (clusterSize header) : Nat) := by
  obtain ⟨fatPrivate, loaded, same, _, stream, _⟩ := volume.loaded
  have readable : Readable disk fatPrivate := ⟨loaded, volume.sector, same ▸ volume.clusters, stream⟩
  have passes : 0 ≤ res ↔ ∀ i < remaining, PiecesWithin disk fatPrivate (fat16GetFirstCluster item).toInt
      (offset + BitVec.ofNat 32 i * size).toInt size.toNat (fun _ _ => True) := by
    rw [← readable.loggedReadLoop_within some' short (fun _ => True) out bytes]
    constructor
    · intro passed
      rw [← unlogged_readLoop] at run
      generalize logged : loggedReadLoop item size remaining offset out bytes disk = result at run
      obtain ⟨_ | ⟨res', after', reads⟩, last⟩ := result
      · cases run
      · cases run
        exact ⟨_, _, reads, _, rfl, passed, readable.loggedReadLoop_copies short logged passed⟩
    · rintro ⟨res', after', reads, last, logged, passed, _⟩
      rw [← unlogged_readLoop, logged] at run
      cases run
      exact passed
  rw [← (fat16ReadLoop_unreadable run).1, ← not_le, passes]
  unfold PiecesWithin
  rw [same, fat16GetFirstCluster_toInt]
  simp only [not_forall, not_exists, exists_prop]
  refine exists_congr fun i => and_congr_right fun _ => exists_congr fun m => and_congr_right fun _ =>
    forall_congr' fun place => ?_
  rw [volume.pieceAt_iff loaded]
  constructor
  · intro missed here
    by_contra inside
    exact missed ⟨⟨by omega, by omega, here⟩, fun _ _ => trivial⟩
  · rintro outside ⟨⟨low, high, here⟩, _⟩
    have := outside here
    omega

end Fread

end PeachOS
