import PeachOS.Fat16Open

/-! The entries of a directory on the disk, as its stream counts them: those before the end
mark, less the deleted ones. -/

namespace PeachOS
open Program ByteMemory

def Disk.onDirectory (disk : Disk) (pos : Nat) : Disk :=
  disk.withPrivate (fun volume => { volume with directoryStream := some ⟨pos, 0⟩ })

def HasDirectory (disk : Disk) : Prop :=
  ∃ fatPrivate pos, disk.fsPrivate = some fatPrivate ∧ fatPrivate.directoryStream = some ⟨pos, 0⟩

/-- The first byte of entry `i` of the directory at `pos`. -/
def entryMark (image : Image) (pos i : Nat) : Byte := image (pos + fatDirectoryItemSize * i)

abbrev endMark : Byte := 0x00
abbrev deletedMark : Byte := 0xE5

/-- The directory at `pos` has `count` entries before its end mark. -/
structure Entries (image : Image) (pos count : Nat) : Prop where
  ended : entryMark image pos count = endMark
  before : ∀ i < count, entryMark image pos i ≠ endMark
  low : pos + fatDirectoryItemSize * (count + 1) < 2 ^ 31

/-- Those of the first `count` entries that are not deleted. -/
def liveCount (image : Image) (pos count : Nat) : Nat :=
  (List.range count).countP (fun i => entryMark image pos i != deletedMark)

section Stream
variable {disk : Disk}

theorem Disk.onDirectory_twice (disk : Disk) (pos other : Nat) :
    (disk.onDirectory pos).onDirectory other = disk.onDirectory other := by
  unfold Disk.onDirectory Disk.withPrivate
  rw [Option.map_map]
  rfl

theorem HasDirectory.onDirectory (directory : HasDirectory disk) (pos : Nat) :
    HasDirectory (disk.onDirectory pos) := by
  obtain ⟨fatPrivate, _, here, _⟩ := directory
  refine ⟨{ fatPrivate with directoryStream := some ⟨pos, 0⟩ }, pos, ?_, rfl⟩
  unfold Disk.onDirectory Disk.withPrivate
  rw [here]
  rfl

theorem directorySeek_run (directory : HasDirectory disk) (pos : Nat) :
    directorySeek pos disk = (.ok (), disk.onDirectory pos) := by
  obtain ⟨fatPrivate, old, here, stream⟩ := directory
  unfold directorySeek fsPrivate
  simp only [bind_run, read_run, here, pure_run, stream, update_run]
  rfl

theorem directoryRead_eq (directory : HasDirectory disk) (pos : Nat) (total : Int) :
    directoryRead total (disk.onDirectory pos) =
      match diskstreamerRead disk.image ⟨pos, 0⟩ total with
      | none => (.error .fault, disk.onDirectory pos)
      | some (res, out, stream) => (.ok (res, out), (disk.onDirectory pos).withPrivate
          (fun volume => { volume with directoryStream := some stream })) := by
  obtain ⟨fatPrivate, old, here, _⟩ := directory
  have found : (disk.onDirectory pos).fsPrivate =
      some { fatPrivate with directoryStream := some ⟨pos, 0⟩ } := by
    unfold Disk.onDirectory Disk.withPrivate
    rw [here]
    rfl
  have looked : fsPrivate (disk.onDirectory pos) =
      (.ok { fatPrivate with directoryStream := some ⟨pos, 0⟩ }, disk.onDirectory pos) := by
    unfold fsPrivate
    rw [read_bind, found]
    rfl
  unfold directoryRead
  rw [bind_ok looked]
  dsimp only [streamReadAt]
  rw [read_bind]
  show (match diskstreamerRead disk.image ⟨pos, 0⟩ total with
    | none => _
    | some (res, out, stream) => _ : Prog Disk Stop (Int × List Byte)) (disk.onDirectory pos) = _
  generalize diskstreamerRead disk.image ⟨pos, 0⟩ total = result
  cases result with
  | none => rfl
  | some result => rfl

theorem directoryRead_run (directory : HasDirectory disk) {pos total : Nat} (low : pos + total < 2 ^ 31) :
    directoryRead total (disk.onDirectory pos) =
      (.ok (0, diskBytes disk.image pos total), disk.onDirectory (pos + total)) := by
  rw [directoryRead_eq directory, diskstreamerRead_bytes disk.image pos total low]
  show (Except.ok (0, diskBytes disk.image pos total), (disk.onDirectory pos).onDirectory (pos + total)) = _
  rw [Disk.onDirectory_twice]

theorem directoryRead_ok (directory : HasDirectory disk) {pos total : Nat} {result : Int × List Byte}
    {after : Disk} (run : directoryRead total (disk.onDirectory pos) = (.ok result, after)) :
    pos + total < 2 ^ 31 := by
  by_contra high
  rw [directoryRead_eq directory] at run
  unfold diskstreamerRead at run
  rw [diskstreamerReadLoop_high disk.image _ pos total (not_lt.mp high)] at run
  cases run

end Stream

section Count
variable {disk after : Disk} {image : Image} {pos count : Nat}

theorem entryMark_succ (image : Image) (pos i : Nat) :
    entryMark image pos (i + 1) = entryMark image (pos + fatDirectoryItemSize) i := by
  unfold entryMark
  rw [Nat.mul_succ, Nat.add_comm (fatDirectoryItemSize * i), Nat.add_assoc]

theorem Entries.cons (entries : Entries image (pos + fatDirectoryItemSize) count)
    (mark : entryMark image pos 0 ≠ endMark) : Entries image pos (count + 1) where
  ended := by rw [entryMark_succ, entries.ended]
  before := by
    intro i bound
    cases i with
    | zero => exact mark
    | succ i =>
      rw [entryMark_succ]
      exact entries.before i (by omega)
  low := by
    have low := entries.low
    rw [Nat.mul_succ]
    omega

theorem Entries.tail (entries : Entries image pos (count + 1)) :
    Entries image (pos + fatDirectoryItemSize) count where
  ended := by rw [← entryMark_succ, entries.ended]
  before := by
    intro i bound
    rw [← entryMark_succ]
    exact entries.before (i + 1) (by omega)
  low := by
    have low := entries.low
    rw [Nat.mul_succ] at low
    omega

theorem liveCount_cons (image : Image) (pos count : Nat) : liveCount image pos (count + 1) =
    (if entryMark image pos 0 = deletedMark then 0 else 1) +
      liveCount image (pos + fatDirectoryItemSize) count := by
  unfold liveCount
  rw [List.range_succ_eq_map, List.countP_cons, List.countP_map, Nat.add_comm]
  congr 1
  · by_cases deleted : entryMark image pos 0 = deletedMark <;> simp [deleted]
  · apply List.countP_congr
    intro i _
    rw [Function.comp_apply, Nat.succ_eq_add_one, entryMark_succ]

theorem fat16CountItemsLoop_step (directory : HasDirectory disk)
    (low : pos + fatDirectoryItemSize < 2 ^ 31) (fuel : Nat) (i : Int) :
    fat16CountItemsLoop (fuel + 1) i (disk.onDirectory pos) =
      (if entryMark disk.image pos 0 = endMark then pure i
        else if entryMark disk.image pos 0 = deletedMark then fat16CountItemsLoop fuel i
        else fat16CountItemsLoop fuel (i + 1) : Prog Disk Stop Int)
          (disk.onDirectory (pos + fatDirectoryItemSize)) := by
  rw [fat16CountItemsLoop]
  exact (bind_ok (directoryRead_run directory low)).trans (congrFun (if_neg (by decide)) _)

theorem fat16CountItemsLoop_run (directory : HasDirectory disk) (entries : Entries disk.image pos count)
    (fuel : Nat) (enough : count < fuel) (i : Int) :
    fat16CountItemsLoop fuel i (disk.onDirectory pos) =
      (.ok (i + liveCount disk.image pos count),
        disk.onDirectory (pos + fatDirectoryItemSize * (count + 1))) := by
  induction count generalizing pos fuel i with
  | zero =>
    obtain ⟨fuel, rfl⟩ : ∃ more, fuel = more + 1 := ⟨fuel - 1, by omega⟩
    rw [fat16CountItemsLoop_step directory entries.low, if_pos entries.ended]
    exact congrArg (fun total => (Except.ok total, _)) (Int.add_zero i).symm
  | succ count ih =>
    obtain ⟨fuel, rfl⟩ : ∃ more, fuel = more + 1 := ⟨fuel - 1, by omega⟩
    have rest := ih entries.tail fuel (by omega)
    have low := entries.low
    rw [Nat.mul_succ] at low ⊢
    rw [fat16CountItemsLoop_step directory (by omega), if_neg (entries.before 0 (by omega)), liveCount_cons,
      Nat.add_comm (fatDirectoryItemSize * (count + 1)), ← Nat.add_assoc]
    by_cases deleted : entryMark disk.image pos 0 = deletedMark
    · rw [if_pos deleted, if_pos deleted, Nat.zero_add]
      exact rest i
    · rw [if_neg deleted, if_neg deleted, rest (i + 1)]
      push_cast
      rw [Int.add_assoc]

theorem fat16CountItemsLoop_ok (directory : HasDirectory disk) (fuel : Nat) (i : Int) {total : Int}
    (run : fat16CountItemsLoop fuel i (disk.onDirectory pos) = (.ok total, after)) :
    ∃ count, Entries disk.image pos count ∧ total = i + liveCount disk.image pos count ∧
      after = disk.onDirectory (pos + fatDirectoryItemSize * (count + 1)) := by
  induction fuel generalizing pos i with
  | zero => cases run
  | succ fuel ih =>
    have low : pos + fatDirectoryItemSize < 2 ^ 31 := by
      obtain ⟨_, _, read, _⟩ := bind_eq_ok run
      exact directoryRead_ok directory read
    rw [fat16CountItemsLoop_step directory low] at run
    by_cases ended : entryMark disk.image pos 0 = endMark
    · rw [if_pos ended] at run
      cases run
      exact ⟨0, ⟨ended, fun i bound => absurd bound (Nat.not_lt_zero i), low⟩, (Int.add_zero _).symm, rfl⟩
    · rw [if_neg ended] at run
      have more : ∀ next, fat16CountItemsLoop fuel next (disk.onDirectory (pos + fatDirectoryItemSize)) =
          (.ok total, after) → ∃ count, Entries disk.image pos (count + 1) ∧
            total = next + liveCount disk.image (pos + fatDirectoryItemSize) count ∧
            after = disk.onDirectory (pos + fatDirectoryItemSize * (count + 1 + 1)) := by
        intro next rest
        obtain ⟨count, entries, sum, left⟩ := ih next rest
        refine ⟨count, entries.cons ended, sum, ?_⟩
        rw [left, Nat.mul_succ _ (count + 1), Nat.add_comm (fatDirectoryItemSize * (count + 1)),
          ← Nat.add_assoc]
      by_cases deleted : entryMark disk.image pos 0 = deletedMark
      · rw [if_pos deleted] at run
        obtain ⟨count, entries, sum, left⟩ := more i run
        refine ⟨count + 1, entries, ?_, left⟩
        rw [sum, liveCount_cons, if_pos deleted, Nat.zero_add]
      · rw [if_neg deleted] at run
        obtain ⟨count, entries, sum, left⟩ := more (i + 1) run
        refine ⟨count + 1, entries, ?_, left⟩
        rw [sum, liveCount_cons, if_neg deleted]
        push_cast
        rw [Int.add_assoc]

end Count

end PeachOS
