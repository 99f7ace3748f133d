import PeachOS.Machine

/-! `disk/disk.c` and `disk/streamer.c`. The one disk is read a sector at a time; a
stream turns that into reads of any length from any byte position. -/

namespace PeachOS

/-- The bytes of the disk, by position. -/
abbrev Image := Nat → Byte

abbrev peachosSectorSize : Nat := 512

/-- The index of a disk that `disk_get` finds. -/
def diskGet (index : Int) : Option Nat :=
  if index ≠ 0 then none else some 0

def diskReadSector (image : Image) (lba : Nat) : List Byte :=
  List.ofFn (fun i : Fin peachosSectorSize => image (lba * peachosSectorSize + i))

def diskReadBlock (image : Image) (idisk lba : Nat) : Int × List Byte :=
  if idisk ≠ 0 then (- EIO, [])
  else (0, diskReadSector image lba)

structure DiskStream where
  pos : Int
  disk : Nat
  deriving DecidableEq, Repr

def diskstreamerSeek (stream : DiskStream) (pos : Int) : DiskStream :=
  { stream with pos := pos }

/-- `diskstreamer_read`, with the bytes it puts out. A position outside the range of
a non-negative `int` has no behaviour: the code would index its sector buffer below
its start, and a negative sector number selects the other drive of the bus. -/
def diskstreamerReadLoop (image : Image) (disk : Nat) :
    (fuel : Nat) → (pos total : Int) → Option (Int × List Byte × Int)
  | 0, _, _ => none
  | fuel + 1, pos, total =>
      if pos < 0 ∨ 2 ^ 31 ≤ pos then none
      else
        let sector := pos / peachosSectorSize
        let offset := pos % peachosSectorSize
        let overflow : Bool := offset + total ≥ peachosSectorSize
        let totalToRead := if overflow then total - (offset + total - peachosSectorSize) else total
        let (res, buf) := diskReadBlock image disk sector.toNat
        if res < 0 then some (res, [], pos)
        else
          let out := (buf.drop offset.toNat).take totalToRead.toNat
          let pos := pos + totalToRead
          if overflow then
            (diskstreamerReadLoop image disk fuel pos (total - totalToRead)).map
              (fun (res, rest, pos) => (res, out ++ rest, pos))
          else some (res, out, pos)

/-- Each round but the last reads at least one byte. -/
def diskstreamerRead (image : Image) (stream : DiskStream) (total : Int) :
    Option (Int × List Byte × DiskStream) :=
  (diskstreamerReadLoop image stream.disk (total.toNat + 1) stream.pos total).map
    (fun (res, out, pos) => (res, out, { stream with pos := pos }))

/-- The `count` bytes of the disk from `pos` on. -/
def diskBytes (image : Image) (pos count : Nat) : List Byte :=
  List.ofFn (fun i : Fin count => image (pos + i))

@[simp] theorem diskBytes_length (image : Image) (pos count : Nat) :
    (diskBytes image pos count).length = count := List.length_ofFn

theorem diskBytes_getD (image : Image) (pos : Nat) {count i : Nat} (bound : i < count) :
    (diskBytes image pos count).getD i 0 = image (pos + i) := by
  unfold diskBytes
  simp [bound]

theorem diskBytes_append (image : Image) (pos first second : Nat) :
    diskBytes image pos first ++ diskBytes image (pos + first) second =
      diskBytes image pos (first + second) := by
  unfold diskBytes
  rw [List.ofFn_add]
  simp [Nat.add_assoc]

theorem diskReadSector_slice (image : Image) (lba offset count : Nat)
    (inside : offset + count ≤ peachosSectorSize) :
    ((diskReadSector image lba).drop offset).take count =
      diskBytes image (lba * peachosSectorSize + offset) count := by
  unfold diskReadSector diskBytes
  apply List.ext_getElem
  · rw [List.length_take, List.length_drop, List.length_ofFn, List.length_ofFn]
    omega
  · intro i _ _
    rw [List.getElem_take, List.getElem_drop, List.getElem_ofFn, List.getElem_ofFn]
    simp only [Nat.add_assoc]

theorem sector_rest {pos total : Nat}
    (overflow : (pos : Int) % (peachosSectorSize : Nat) + total ≥ (peachosSectorSize : Nat)) :
    (total : Int) - ((pos : Int) % (peachosSectorSize : Nat) + total - (peachosSectorSize : Nat)) =
        ((512 - pos % 512 : Nat) : Int) ∧
      (total : Int) - ((512 - pos % 512 : Nat) : Int) = ((total - (512 - pos % 512) : Nat) : Int) ∧
      512 - pos % 512 ≤ total := by
  unfold peachosSectorSize at *
  omega

theorem diskstreamerReadLoop_bytes (image : Image) (fuel pos total : Nat) (enough : total < fuel)
    (low : pos + total < 2 ^ 31) :
    diskstreamerReadLoop image 0 fuel pos total =
      some (0, diskBytes image pos total, (pos : Int) + total) := by
  induction fuel generalizing pos total with
  | zero => omega
  | succ fuel ih =>
    have sector : ((pos : Int) / (peachosSectorSize : Nat)).toNat = pos / 512 := by
      unfold peachosSectorSize
      omega
    have offset : ((pos : Int) % (peachosSectorSize : Nat)).toNat = pos % 512 := by
      unfold peachosSectorSize
      omega
    have place : pos / 512 * peachosSectorSize + pos % 512 = pos := by
      unfold peachosSectorSize
      omega
    rw [diskstreamerReadLoop, if_neg (by omega)]
    simp only [diskReadBlock, ne_eq, not_true_eq_false, if_false, sector, offset]
    rw [if_neg (by omega)]
    by_cases overflow : (pos : Int) % (peachosSectorSize : Nat) + total ≥ (peachosSectorSize : Nat)
    · -- the rest of this sector, then the following ones
      obtain ⟨count, rest, shorter⟩ := sector_rest overflow
      simp only [overflow, decide_true, if_true, count, rest, Int.toNat_natCast]
      have landed : ((pos + (512 - pos % 512) : Nat) : Int) + ((total - (512 - pos % 512) : Nat) : Int) =
          (pos : Int) + total := by omega
      rw [← Int.natCast_add, ih _ _ (by omega) (by omega), landed, Option.map_some,
        diskReadSector_slice image _ _ _ (by unfold peachosSectorSize; omega), place,
        diskBytes_append, Nat.add_sub_cancel' shorter]
    · simp only [overflow, decide_false, Bool.false_eq_true, if_false, Int.toNat_natCast]
      rw [diskReadSector_slice image _ _ _ (by unfold peachosSectorSize at *; omega), place]

theorem diskstreamerReadLoop_high (image : Image) (fuel pos total : Nat) (high : 2 ^ 31 ≤ pos + total) :
    diskstreamerReadLoop image 0 fuel pos total = none := by
  induction fuel generalizing pos total with
  | zero => rfl
  | succ fuel ih =>
    rw [diskstreamerReadLoop]
    by_cases outside : (pos : Int) < 0 ∨ 2 ^ 31 ≤ (pos : Int)
    · rw [if_pos outside]
    · rw [if_neg outside]
      have overflow : (pos : Int) % (peachosSectorSize : Nat) + total ≥ (peachosSectorSize : Nat) := by
        unfold peachosSectorSize
        omega
      obtain ⟨count, rest, _⟩ := sector_rest overflow
      simp only [diskReadBlock, ne_eq, not_true_eq_false, if_false, overflow, decide_true, if_true, count,
        rest]
      rw [if_neg (by omega), ← Int.natCast_add, ih _ _ (by omega)]
      rfl

/-- A read returns the bytes from the stream's position on, across sector boundaries. -/
theorem diskstreamerRead_bytes (image : Image) (pos total : Nat) (low : pos + total < 2 ^ 31) :
    diskstreamerRead image ⟨pos, 0⟩ total =
      some (0, diskBytes image pos total, ⟨pos + total, 0⟩) := by
  unfold diskstreamerRead
  simp only [Int.toNat_natCast]
  rw [diskstreamerReadLoop_bytes image _ pos total (Nat.lt_succ_self _) low, Option.map_some]

theorem diskstreamerRead_place (image : Image) (start : Int) (count : Nat) :
    diskstreamerRead image ⟨start, 0⟩ count =
      if 0 ≤ start ∧ start + count < 2 ^ 31 then
        some (0, diskBytes image start.toNat count, ⟨start + count, 0⟩)
      else none := by
  by_cases negative : start < 0
  · rw [if_neg (by omega)]
    unfold diskstreamerRead
    rw [diskstreamerReadLoop, if_pos (Or.inl negative)]
    rfl
  · obtain ⟨start, rfl⟩ := Int.eq_ofNat_of_zero_le (Int.not_lt.mp negative)
    by_cases low : start + count < 2 ^ 31
    · rw [if_pos (by omega), diskstreamerRead_bytes image start count low]
      rfl
    · rw [if_neg (by omega)]
      unfold diskstreamerRead
      rw [diskstreamerReadLoop_high image _ start count (Nat.not_lt.mp low)]
      rfl

/-- A read puts out exactly the bytes of the disk from its position on and moves the stream
behind them, whether it is made at once or in two parts. -/
theorem diskstreamerRead_exact (image : Image) {pos total : Int} (start : 0 ≤ pos) (count : 0 ≤ total)
    (low : pos + total < 2 ^ 31) :
    ∃ out : List Byte, diskstreamerRead image ⟨pos, 0⟩ total = some (0, out, ⟨pos + total, 0⟩) ∧
      (out.length : Int) = total ∧ (∀ i < out.length, out.getD i 0 = image (pos.toNat + i)) ∧
      ∀ first second, 0 ≤ first → 0 ≤ second → first + second = total → ∃ front back,
        diskstreamerRead image ⟨pos, 0⟩ first = some (0, front, ⟨pos + first, 0⟩) ∧
        diskstreamerRead image ⟨pos + first, 0⟩ second = some (0, back, ⟨pos + total, 0⟩) ∧
        front ++ back = out := by
  obtain ⟨pos, rfl⟩ := Int.eq_ofNat_of_zero_le start
  obtain ⟨total, rfl⟩ := Int.eq_ofNat_of_zero_le count
  refine ⟨diskBytes image pos total, diskstreamerRead_bytes image pos total (by omega), ?_, ?_, ?_⟩
  · rw [diskBytes_length]
  · intro i bound
    rw [diskBytes_length] at bound
    exact diskBytes_getD image pos bound
  · intro first second firstCount secondCount sum
    obtain ⟨first, rfl⟩ := Int.eq_ofNat_of_zero_le firstCount
    obtain ⟨second, rfl⟩ := Int.eq_ofNat_of_zero_le secondCount
    obtain rfl : first + second = total := by omega
    have back := diskstreamerRead_bytes image (pos + first) second (by omega)
    refine ⟨_, diskBytes image (pos + first) second,
      diskstreamerRead_bytes image pos first (by omega), ?_, diskBytes_append image pos first second⟩
    push_cast at back ⊢
    rw [← Int.add_assoc]
    exact back

/-- An exact fit, whose last round reads nothing. -/
theorem diskstreamerRead_exact_sector :
    ∃ out : List Byte, diskstreamerRead (fun pos => BitVec.ofNat 8 pos) ⟨508, 0⟩ 4 =
        some (0, out, ⟨508 + 4, 0⟩) ∧
      (out.length : Int) = 4 ∧
      (∀ i < out.length, out.getD i 0 = BitVec.ofNat 8 ((508 : Int).toNat + i)) ∧
      ∀ first second, 0 ≤ first → 0 ≤ second → first + second = 4 → ∃ front back,
        diskstreamerRead (fun pos => BitVec.ofNat 8 pos) ⟨508, 0⟩ first =
          some (0, front, ⟨508 + first, 0⟩) ∧
        diskstreamerRead (fun pos => BitVec.ofNat 8 pos) ⟨508 + first, 0⟩ second =
          some (0, back, ⟨508 + 4, 0⟩) ∧
        front ++ back = out :=
  diskstreamerRead_exact (fun pos => BitVec.ofNat 8 pos) (by decide) (by decide) (by decide)

end PeachOS
