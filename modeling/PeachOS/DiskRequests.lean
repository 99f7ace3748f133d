import PeachOS.Disk

/-! Which sectors `diskstreamer_read` asks `disk_read_block` for. The test that a read goes on in
the next sector also holds where it ends at the end of its sector, and then one sector is read
of which no byte is wanted. -/

namespace PeachOS

/-- `diskstreamer_read` with the sectors it requests, in the order of its rounds. -/
def notedReadLoop (image : Image) (disk : Nat) :
    (fuel : Nat) → (pos total : Int) → Option ((Int × List Byte × Int) × List Nat)
  | 0, _, _ => none
  | fuel + 1, pos, total =>
      if pos < 0 ∨ 2 ^ 31 ≤ pos then none
      else
        let sector := pos / peachosSectorSize
        let offset := pos % peachosSectorSize
        let overflow : Bool := offset + total ≥ peachosSectorSize
        let totalToRead := if overflow then total - (offset + total - peachosSectorSize) else total
        let (res, buf) := diskReadBlock image disk sector.toNat
        if res < 0 then some ((res, [], pos), [sector.toNat])
        else
          let out := (buf.drop offset.toNat).take totalToRead.toNat
          let pos := pos + totalToRead
          if overflow then
            (notedReadLoop image disk fuel pos (total - totalToRead)).map
              (fun ((res, rest, pos), sectors) => ((res, out ++ rest, pos), sector.toNat :: sectors))
          else some ((res, out, pos), [sector.toNat])

def notedRead (image : Image) (stream : DiskStream) (total : Int) :
    Option ((Int × List Byte × DiskStream) × List Nat) :=
  (notedReadLoop image stream.disk (total.toNat + 1) stream.pos total).map
    (fun ((res, out, pos), sectors) => ((res, out, { stream with pos := pos }), sectors))

theorem forget_notedReadLoop (image : Image) (disk fuel : Nat) (pos total : Int) :
    (notedReadLoop image disk fuel pos total).map Prod.fst =
      diskstreamerReadLoop image disk fuel pos total := by
  induction fuel generalizing pos total with
  | zero => rfl
  | succ fuel ih =>
    rw [notedReadLoop, diskstreamerReadLoop]
    split
    · rfl
    · dsimp only
      split
      · rfl
      · split
        · rw [Option.map_map, ← ih, Option.map_map]
          rfl
        · rfl

theorem forget_notedRead (image : Image) (stream : DiskStream) (total : Int) :
    (notedRead image stream total).map Prod.fst = diskstreamerRead image stream total := by
  unfold notedRead diskstreamerRead
  rw [← forget_notedReadLoop, Option.map_map, Option.map_map]
  rfl

def requestedSectors (image : Image) (fuel pos total : Nat) : Option (List Nat) :=
  (notedReadLoop image 0 fuel pos total).map Prod.snd

theorem requestedSectors_succ (image : Image) (fuel : Nat) {pos : Nat} (total : Nat)
    (low : pos < 2 ^ 31) :
    requestedSectors image (fuel + 1) pos total =
      if 512 ≤ pos % 512 + total then
        (requestedSectors image fuel (pos + (512 - pos % 512)) (total - (512 - pos % 512))).map
          (fun sectors => pos / 512 :: sectors)
      else some [pos / 512] := by
  have sector : ((pos : Int) / (peachosSectorSize : Nat)).toNat = pos / 512 := by
    unfold peachosSectorSize
    omega
  unfold requestedSectors
  rw [notedReadLoop, if_neg (by omega)]
  simp only [diskReadBlock, ne_eq, not_true_eq_false, if_false, sector]
  rw [if_neg (by omega)]
  by_cases overflow : 512 ≤ pos % 512 + total
  · have reached : (pos : Int) % (peachosSectorSize : Nat) + total ≥ (peachosSectorSize : Nat) := by
      unfold peachosSectorSize
      omega
    obtain ⟨count, rest, _⟩ := sector_rest reached
    simp only [reached, decide_true, if_true, count, rest, if_pos overflow]
    rw [Option.map_map, Option.map_map, ← Int.natCast_add]
    rfl
  · have ended : ¬ (pos : Int) % (peachosSectorSize : Nat) + total ≥ (peachosSectorSize : Nat) := by
      unfold peachosSectorSize
      omega
    simp only [ended, decide_false, Bool.false_eq_true, if_false, if_neg overflow]
    rfl

/-- Every sector from that of the first byte to that of the place where the read ends. -/
theorem requestedSectors_range (image : Image) (fuel pos total : Nat) (enough : total < fuel)
    (low : pos + total < 2 ^ 31) :
    requestedSectors image fuel pos total =
      some (List.range' (pos / 512) ((pos + total) / 512 + 1 - pos / 512)) := by
  induction fuel generalizing pos total with
  | zero => omega
  | succ fuel ih =>
    rw [requestedSectors_succ image fuel total (by omega)]
    by_cases overflow : 512 ≤ pos % 512 + total
    · have next : (pos + (512 - pos % 512)) / 512 = pos / 512 + 1 := by omega
      have ending : pos + (512 - pos % 512) + (total - (512 - pos % 512)) = pos + total := by omega
      have length : (pos + total) / 512 + 1 - pos / 512 = (pos + total) / 512 + 1 - (pos / 512 + 1) + 1 := by
        omega
      rw [if_pos overflow, ih _ _ (by omega) (by omega), next, ending, length, List.range'_succ, Option.map_some]
    · have length : (pos + total) / 512 + 1 - pos / 512 = 1 := by omega
      rw [if_neg overflow, length]
      rfl

theorem requestedSectors_high (image : Image) (fuel pos total : Nat) (high : 2 ^ 31 ≤ pos + total) :
    requestedSectors image fuel pos total = none := by
  have refused := forget_notedReadLoop image 0 fuel pos total
  rw [diskstreamerReadLoop_high image fuel pos total high, Option.map_eq_none_iff] at refused
  unfold requestedSectors
  rw [refused]
  rfl

/-- The read has a result, and requests each sector that holds a byte of it once, and no other. -/
def RequestsItsSectors (image : Image) (pos total : Int) : Prop :=
  ∃ result sectors, notedRead image ⟨pos, 0⟩ total = some (result, sectors) ∧ sectors.Nodup ∧
    ∀ sector : Nat, sector ∈ sectors ↔ ∃ place, pos ≤ place ∧ place < pos + total ∧ place / peachosSectorSize = sector

theorem notedRead_sectors (image : Image) (pos total : Nat) :
    (notedRead image ⟨pos, 0⟩ total).map Prod.snd = requestedSectors image (total + 1) pos total := by
  unfold notedRead requestedSectors
  rw [Option.map_map, Int.toNat_natCast]
  rfl

theorem requestsItsSectors_iff (image : Image) (pos total : Nat) :
    RequestsItsSectors image pos total ↔ ∃ sectors, requestedSectors image (total + 1) pos total = some sectors ∧
      sectors.Nodup ∧ ∀ sector : Nat, sector ∈ sectors ↔
        ∃ place, pos ≤ place ∧ place < pos + total ∧ place / 512 = sector := by
  have same (sector : Nat) : (∃ place : Int, pos ≤ place ∧ place < (pos : Int) + total ∧
      place / peachosSectorSize = sector) ↔ ∃ place, pos ≤ place ∧ place < pos + total ∧ place / 512 = sector := by
    unfold peachosSectorSize
    constructor
    · rintro ⟨place, first, last, holds⟩
      exact ⟨place.toNat, by omega, by omega, by omega⟩
    · rintro ⟨place, first, last, holds⟩
      exact ⟨place, by omega, by omega, by omega⟩
  unfold RequestsItsSectors
  simp only [same, ← notedRead_sectors]
  constructor
  · rintro ⟨result, sectors, run, each⟩
    exact ⟨sectors, by rw [run]; rfl, each⟩
  · rintro ⟨sectors, run, each⟩
    obtain ⟨⟨result, _⟩, noted, rfl⟩ := Option.map_eq_some_iff.1 run
    exact ⟨result, _, noted, each⟩

/-- A read requests exactly the sectors it takes bytes from if it takes any and does not end at the
end of a sector. -/
theorem diskstreamerRead_requests (image : Image) {pos total : Int} (start : 0 ≤ pos) (count : 0 ≤ total) :
    RequestsItsSectors image pos total ↔
      0 < total ∧ (pos + total) % peachosSectorSize ≠ 0 ∧ pos + total < 2 ^ 31 := by
  obtain ⟨pos, rfl⟩ := Int.eq_ofNat_of_zero_le start
  obtain ⟨total, rfl⟩ := Int.eq_ofNat_of_zero_le count
  unfold peachosSectorSize
  rw [requestsItsSectors_iff]
  by_cases low : pos + total < 2 ^ 31
  · rw [requestedSectors_range image _ pos total (Nat.lt_succ_self _) low]
    constructor
    · rintro ⟨sectors, requested, _, holds⟩
      rw [← Option.some_inj.1 requested] at holds
      -- the sector in which the read ends is always among the requested ones
      have last := (holds ((pos + total) / 512)).1 (List.mem_range'_1.2 (by omega))
      obtain ⟨place, _, _, _⟩ := last
      omega
    · rintro ⟨some, inside, _⟩
      refine ⟨_, rfl, List.nodup_range', fun sector => ?_⟩
      rw [List.mem_range'_1]
      constructor
      · intro between
        by_cases first : sector = pos / 512
        · exact ⟨pos, by omega, by omega, by omega⟩
        · exact ⟨sector * 512, by omega, by omega, by omega⟩
      · rintro ⟨place, _, _, _⟩
        omega
  · rw [requestedSectors_high image _ pos total (Nat.not_lt.mp low)]
    constructor
    · rintro ⟨_, _, _⟩
      contradiction
    · intro within
      omega

/-- A read of six bytes across the end of a sector. -/
theorem diskstreamerRead_requests_two : RequestsItsSectors (fun _ => 0) 508 6 ↔
    (0 : Int) < 6 ∧ ((508 : Int) + 6) % peachosSectorSize ≠ 0 ∧ (508 : Int) + 6 < 2 ^ 31 :=
  diskstreamerRead_requests (fun _ => 0) (by decide) (by decide)

/-- On a disk of one sector the read of its last four bytes also requests the sector behind it. -/
theorem diskstreamerRead_requests_beyond :
    ((notedRead (fun _ => 0) ⟨508, 0⟩ 4).map Prod.snd = some [0, 1]) ∧ ¬ RequestsItsSectors (fun _ => 0) 508 4 := by
  have noted : (notedRead (fun _ => 0) ⟨508, 0⟩ 4).map Prod.snd = some [0, 1] := by
    have range := requestedSectors_range (fun _ => 0) 5 508 4 (by decide) (by decide)
    rwa [← notedRead_sectors] at range
  refine ⟨noted, ?_⟩
  rintro ⟨result, sectors, run, _, holds⟩
  rw [run, Option.map_some, Option.some_inj] at noted
  dsimp only at noted
  obtain ⟨place, _, last, held⟩ := (holds 1).1 (by rw [noted]; decide)
  unfold peachosSectorSize at held
  omega

end PeachOS
